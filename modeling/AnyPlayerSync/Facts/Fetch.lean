import AnyPlayerSync.Facts.FactSources
import AnyPlayerSync.Sources.Client

/-!
# The requests of the verification

`fetch` of `dj_fact_sources.rs`: up to two retries while the source is unavailable, a cap on the
body, and errors that say whether the contribution or the source is to blame. `fetch_spec` says when
there is a page and when the source is blamed; `verify` blames it only when a request of its own was
interrupted (`verify_interrupted`).
-/

set_option autoImplicit false

namespace AnyPlayerSync.Facts.FactSources

open AnyPlayerSync.Foundation
open AnyPlayerSync.Sources (Delivered HttpLibrary HttpResponse RequestError Retryable SourceHttp
  isServerError isSuccess readBody readBody_arrived readBody_failed receive receive_of_not_success
  receive_of_success receive_ok_iff receive_transient_iff tooManyRequests)
open AnyPlayerSync.Sync (ApiError)

/-! ## `fetch` -/

/-- A response, with the length it announces. -/
structure FactResponse extends HttpResponse where
  contentLength : Option Nat

/-- What comes back for the n-th request of one `fetch`. -/
abbrev Sends := Nat → Except RequestError FactResponse

/-- A larger page is not read. -/
def maxBody : Nat := 512000

/-- The status on which a request is repeated. -/
def serviceUnavailable : Nat := 503

/-- The loop, with so many retries left, from the n-th request on. -/
def send (sends : Sends) : Nat → Nat → Except ApiError FactResponse
  | left, n =>
      match sends n with
      | .error _ => .error (ApiError.internal "source unavailable")
      | .ok response =>
          match left with
          | 0 => .ok response
          | left + 1 =>
              if response.status ≠ serviceUnavailable then .ok response
              else send sends left (n + 1)

section Fetch

variable (L : HttpLibrary)

/-- `fetch` once the loop has a response. -/
def respond (response : FactResponse) : Except ApiError Json :=
  if !isSuccess response.status then
    if isServerError response.status || response.status = tooManyRequests then
      .error (ApiError.internal "source unavailable")
    else .error (invalid "source record unavailable")
  else if response.contentLength.any fun len => maxBody < len then
    .error (invalid "source response too large")
  else
    match readBody maxBody [] response.chunks with
    | .error (.transient _) => .error (ApiError.internal "source read failed")
    | .error (.permanent _) => .error (invalid "source response too large")
    | .ok body => (L.parseJson body).mapError fun _ => invalid "invalid source response"

/-- At most three requests, and what the last of them delivers. -/
def fetch (sends : Sends) : Except ApiError Json :=
  match send sends 2 0 with
  | .error e => .error e
  | .ok response => respond L response

end Fetch

/-! ## The loop -/

/-- A request that the loop sends again. -/
def Busy (sent : Except RequestError FactResponse) : Prop :=
  ∃ response, sent = .ok response ∧ response.status = serviceUnavailable

/-- The request whose outcome the loop takes: the first that is not busy, or the last. -/
structure Taken (sends : Sends) (left n k : Nat) : Prop where
  within : k ≤ left
  busy : ∀ i < k, Busy (sends (n + i))
  final : k = left ∨ ¬ Busy (sends (n + k))

section Send

variable {sends : Sends}

/-- The loop takes one request. -/
theorem Taken.unique {left n k k' : Nat} (h : Taken sends left n k) (h' : Taken sends left n k') :
    k = k' := by
  have hle : ∀ {k k' : Nat}, Taken sends left n k → Taken sends left n k' → k ≤ k' := by
    intro k k' h h'
    by_contra hlt
    have hlt := Nat.not_le.1 hlt
    rcases h'.final with heq | hnot
    · exact absurd h.within (Nat.not_le.2 (heq ▸ hlt))
    · exact hnot (h.busy k' hlt)
  exact Nat.le_antisymm (hle h h') (hle h' h)

/-- The loop ends with the outcome of the request that it takes. -/
theorem send_taken (left : Nat) : ∀ n, ∃ k, Taken sends left n k ∧
    send sends left n =
      (sends (n + k)).mapError fun _ => ApiError.internal "source unavailable" := by
  induction left with
  | zero =>
      intro n
      refine ⟨0, ⟨Nat.le_refl _, fun _ h => absurd h (Nat.not_lt_zero _), Or.inl rfl⟩, ?_⟩
      rw [send, Nat.add_zero]
      cases sends n <;> rfl
  | succ left ih =>
      intro n
      by_cases hbusy : Busy (sends n)
      · obtain ⟨k, htaken, hsend⟩ := ih (n + 1)
        obtain ⟨response, hresponse, hstatus⟩ := hbusy
        refine ⟨k + 1, ⟨Nat.succ_le_succ htaken.within, fun i hi => ?_, ?_⟩, ?_⟩
        · cases i with
          | zero => exact ⟨response, hresponse, hstatus⟩
          | succ i =>
              have hlater := htaken.busy i (Nat.lt_of_succ_lt_succ hi)
              rwa [Nat.add_right_comm] at hlater
        · rw [← Nat.add_assoc, Nat.add_right_comm]
          exact htaken.final.imp_left (congrArg Nat.succ)
        · rw [send, hresponse]
          simp only [hstatus, ne_eq, not_true, if_false]
          rw [hsend, ← Nat.add_assoc, Nat.add_right_comm]
      · refine ⟨0, ⟨Nat.zero_le _, fun _ h => absurd h (Nat.not_lt_zero _), Or.inr hbusy⟩, ?_⟩
        rw [send, Nat.add_zero]
        cases hsent : sends n with
        | error e => rfl
        | ok response =>
            simp only
            rw [if_pos fun hstatus => hbusy ⟨response, hsent, hstatus⟩]
            rfl

end Send

/-! ## What a response comes to -/

/-- The cap of `fetch`, as the client of the sources has it. -/
def capped : SourceHttp := ⟨[], 0, maxBody⟩

/-- The response announces a body that is too large. -/
def Oversized (response : FactResponse) : Prop :=
  ∃ len, response.contentLength = some len ∧ maxBody < len

/-- The source is to blame: the request or the reading of its body failed, or the server is
overloaded or broken. -/
def Interrupted : Except RequestError FactResponse → Prop
  | .error _ => True
  | .ok response =>
      Retryable capped (.ok response.toHttpResponse) ∧
        ¬ (isSuccess response.status = true ∧ Oversized response)

/-- A page that arrived. -/
def Answers (L : HttpLibrary) (sent : Except RequestError FactResponse) (page : Json) : Prop :=
  ∃ response body, sent = .ok response ∧ ¬ Oversized response ∧
    Delivered capped (.ok response.toHttpResponse) body ∧ L.parseJson body = .ok page

section Respond

variable {L : HttpLibrary} {response : FactResponse}

theorem any_iff_oversized :
    (response.contentLength.any fun len => maxBody < len) = true ↔ Oversized response := by
  rw [Oversized]
  cases response.contentLength <;> simp

/-- A success that is not announced as too large is read. -/
theorem respond_of_success (hsuccess : isSuccess response.status = true)
    (hsize : ¬ Oversized response) :
    respond L response =
      match receive L capped (.ok response.toHttpResponse) with
      | .error (.transient _) => .error (ApiError.internal "source read failed")
      | .error (.permanent _) => .error (invalid "source response too large")
      | .ok body => (L.parseJson body).mapError fun _ => invalid "invalid source response" := by
  rw [respond, hsuccess, receive_of_success hsuccess]
  simp only [Bool.not_true, Bool.false_eq_true, if_false, any_iff_oversized, hsize]
  rfl

theorem respond_oversized (hsuccess : isSuccess response.status = true)
    (hsize : Oversized response) :
    respond L response = .error (invalid "source response too large") := by
  rw [respond, hsuccess]
  simp only [Bool.not_true, Bool.false_eq_true, if_false, any_iff_oversized, hsize, if_true]

/-- A response outside 2xx blames the source or the contribution by its status alone. -/
theorem respond_of_not_success (hsuccess : isSuccess response.status = false) :
    respond L response = .error (ApiError.internal "source unavailable") ∧
        Retryable capped (.ok response.toHttpResponse) ∨
      respond L response = .error (invalid "source record unavailable") ∧
        ¬ Retryable capped (.ok response.toHttpResponse) := by
  have hretryable := @receive_transient_iff L capped (.ok response.toHttpResponse)
  rcases @receive_of_not_success L capped _ hsuccess with
    ⟨hm, hretry⟩ | ⟨⟨reason, hm⟩, hretry⟩
  · refine Or.inl ⟨?_, hretryable.1 hm⟩
    rw [respond, hsuccess]
    simp only [Bool.not_false, if_true]
    exact if_pos (by simpa using hretry)
  · refine Or.inr ⟨?_, fun h => ?_⟩
    · rw [respond, hsuccess]
      simp only [Bool.not_false, if_true]
      exact if_neg (by simpa using hretry)
    · obtain ⟨message, h⟩ := hretryable.2 h
      rw [hm] at h
      cases h

theorem respond_ok_iff {page : Json} :
    respond L response = .ok page ↔ Answers L (.ok response) page := by
  have hdelivered {body : List UInt8} :=
    @receive_ok_iff L capped (.ok response.toHttpResponse) body
  constructor
  · intro h
    cases hsuccess : isSuccess response.status with
    | false =>
        rcases @respond_of_not_success L _ hsuccess with ⟨hm, -⟩ | ⟨hm, -⟩
        · rw [hm] at h; cases h
        · rw [hm] at h; cases h
    | true =>
        by_cases hsize : Oversized response
        · rw [respond_oversized hsuccess hsize] at h
          cases h
        · rw [respond_of_success hsuccess hsize] at h
          split at h
          · cases h
          · cases h
          · rename_i body hbody
            refine ⟨response, body, rfl, hsize, hdelivered.1 hbody, ?_⟩
            cases hparse : L.parseJson body <;> rw [hparse] at h <;> cases h
            rfl
  · rintro ⟨_, body, ⟨rfl⟩, hsize, hbody, hparse⟩
    obtain ⟨_, parts, ⟨rfl⟩, hsuccess, -⟩ := id hbody
    rw [respond_of_success hsuccess hsize, hdelivered.2 hbody]
    simp only
    rw [hparse]
    rfl

/-- Only `400` and `500`; the source is blamed for what `Interrupted` says. -/
theorem respond_error {e : ApiError} (h : respond L response = .error e) :
    e.status = 500 ∧ Interrupted (.ok response) ∨
      e.status = 400 ∧ ¬ Interrupted (.ok response) := by
  cases hsuccess : isSuccess response.status with
  | false =>
      have hnot : ¬ (isSuccess response.status = true ∧ Oversized response) := by
        rw [hsuccess]
        exact fun h => Bool.noConfusion h.1
      rcases @respond_of_not_success L _ hsuccess with ⟨hm, hretry⟩ | ⟨hm, hretry⟩
      · rw [hm] at h
        cases h
        exact Or.inl ⟨rfl, hretry, hnot⟩
      · rw [hm] at h
        cases h
        exact Or.inr ⟨rfl, fun hinterrupted => hretry hinterrupted.1⟩
  | true =>
      by_cases hsize : Oversized response
      · rw [respond_oversized hsuccess hsize] at h
        cases h
        exact Or.inr ⟨rfl, fun hinterrupted => hinterrupted.2 ⟨hsuccess, hsize⟩⟩
      · have hretryable := @receive_transient_iff L capped (.ok response.toHttpResponse)
        rw [respond_of_success hsuccess hsize] at h
        split at h
        · rename_i message hm
          cases h
          exact Or.inl ⟨rfl, hretryable.1 ⟨message, hm⟩, fun hboth => hsize hboth.2⟩
        · rename_i reason hm
          cases h
          refine Or.inr ⟨rfl, fun hinterrupted => ?_⟩
          obtain ⟨message, h⟩ := hretryable.2 hinterrupted.1
          rw [hm] at h
          cases h
        · rename_i body hm
          have hinterrupted : ¬ Interrupted (.ok response) := by
            intro hinterrupted
            obtain ⟨message, h⟩ := hretryable.2 hinterrupted.1
            rw [hm] at h
            cases h
          cases hparse : L.parseJson body <;> rw [hparse] at h <;> cases h
          exact Or.inr ⟨rfl, hinterrupted⟩

end Respond

/-! ## What a `fetch` comes to -/

section Spec

variable {L : HttpLibrary} {sends : Sends}

/-- The error of the request that the loop takes. -/
theorem fetch_error {e : ApiError} (h : fetch L sends = .error e) : ∃ k, Taken sends 2 0 k ∧
    (e.status = 500 ∧ Interrupted (sends k) ∨ e.status = 400 ∧ ¬ Interrupted (sends k)) := by
  obtain ⟨k, htaken, hsend⟩ := @send_taken sends 2 0
  rw [Nat.zero_add] at hsend
  refine ⟨k, htaken, ?_⟩
  rw [fetch, hsend] at h
  cases hsent : sends k with
  | error _ =>
      rw [hsent] at h
      cases h
      exact Or.inl ⟨rfl, trivial⟩
  | ok response =>
      rw [hsent] at h
      exact respond_error h

theorem fetch_ok {page : Json} (h : fetch L sends = .ok page) :
    ∃ k, Taken sends 2 0 k ∧ Answers L (sends k) page := by
  obtain ⟨k, htaken, hsend⟩ := @send_taken sends 2 0
  rw [Nat.zero_add] at hsend
  refine ⟨k, htaken, ?_⟩
  rw [fetch, hsend] at h
  cases hsent : sends k with
  | error _ =>
      rw [hsent] at h
      cases h
  | ok response =>
      rw [hsent] at h
      exact respond_ok_iff.1 h

/-- What is delivered was not interrupted. -/
theorem not_interrupted_of_answers {sent : Except RequestError FactResponse} {page : Json}
    (h : Answers L sent page) : ¬ Interrupted sent := by
  obtain ⟨response, body, rfl, -, hbody, -⟩ := h
  intro hinterrupted
  obtain ⟨message, hm⟩ := (@receive_transient_iff L capped _).2 hinterrupted.1
  rw [(@receive_ok_iff L capped _ body).2 hbody] at hm
  cases hm

theorem Answers.unique {sent : Except RequestError FactResponse} {page page' : Json}
    (h : Answers L sent page) (h' : Answers L sent page') : page = page' := by
  obtain ⟨response, body, rfl, hrest⟩ := h
  obtain ⟨_, body', ⟨rfl⟩, hrest'⟩ := h'
  exact Except.ok.inj ((respond_ok_iff.2 ⟨response, body, rfl, hrest⟩).symm.trans
    (respond_ok_iff.2 ⟨response, body', rfl, hrest'⟩))

/-- **What a `fetch` comes to.** The loop takes one request, the first that is not answered `503` or
the third. There is a page exactly when that request delivers one that fits; the error is a `500`
exactly when it was interrupted, and a `400` otherwise. -/
theorem fetch_spec : ∃ k, Taken sends 2 0 k ∧
    (∀ page, fetch L sends = .ok page ↔ Answers L (sends k) page) ∧
    ((∃ e, fetch L sends = .error e ∧ e.status = 500) ↔ Interrupted (sends k)) ∧
    ∀ e, fetch L sends = .error e → e.status = 400 ∨ e.status = 500 := by
  cases hfetch : fetch L sends with
  | ok page =>
      obtain ⟨k, htaken, hanswers⟩ := fetch_ok hfetch
      refine ⟨k, htaken, fun page' => ⟨?_, fun h => congrArg _ (hanswers.unique h)⟩,
        ⟨fun ⟨_, h, _⟩ => (by cases h), fun h => ?_⟩, fun _ h => (by cases h)⟩
      · rintro ⟨rfl⟩
        exact hanswers
      · exact absurd h (not_interrupted_of_answers hanswers)
  | error e =>
      obtain ⟨k, htaken, herror⟩ := fetch_error hfetch
      refine ⟨k, htaken, fun page => ⟨fun h => (by cases h), fun h => ?_⟩, ⟨?_, fun h => ?_⟩, ?_⟩
      · -- a page that the taken request delivers is the answer
        obtain ⟨k', htaken', hsend⟩ := @send_taken sends 2 0
        rw [Nat.zero_add, htaken'.unique htaken] at hsend
        obtain ⟨response, body, hresponse, hrest⟩ := h
        rw [fetch, hsend, hresponse] at hfetch
        have hpage := respond_ok_iff.2 ⟨response, body, rfl, hrest⟩
        exact absurd (hpage.symm.trans hfetch) (fun h => by cases h)
      · rintro ⟨_, ⟨rfl⟩, hstatus⟩
        rcases herror with ⟨-, hinterrupted⟩ | ⟨hother, -⟩
        · exact hinterrupted
        · rw [hother] at hstatus
          cases hstatus
      · rcases herror with ⟨hstatus, -⟩ | ⟨-, hnot⟩
        · exact ⟨e, rfl, hstatus⟩
        · exact absurd h hnot
      · rintro _ ⟨rfl⟩
        rcases herror with ⟨hstatus, -⟩ | ⟨hstatus, -⟩
        · exact Or.inr hstatus
        · exact Or.inl hstatus

end Spec

/-! ## `verify` -/

section Verify

variable {U : UnicodeTables} {fetch : Str → Except ApiError Json}
  {source sourceId song artist evidence claim : Str}

/-- The error of a check, or the error of a request. -/
def Blames (fetch : Str → Except ApiError Json) (e : ApiError) : Prop :=
  e.status = 400 ∨ ∃ url, fetch url = .error e

theorem blames_exactStructured {supported : List Str} {e : ApiError}
    (h : exactStructured evidence claim supported = .error e) : Blames fetch e := by
  rw [exactStructured] at h
  split_ifs at h
  cases h
  exact Or.inl rfl

theorem blames_checkWikipedia {page : Json} {e : ApiError}
    (h : checkWikipedia U page sourceId song artist evidence claim = .error e) :
    Blames fetch e := by
  rw [checkWikipedia] at h
  split_ifs at h
  · cases h
    exact Or.inl rfl
  · split at h
    · cases h
      exact Or.inl rfl
    · split at h
      · cases h
        exact Or.inl rfl
      · split at h
        · cases h
          exact Or.inl rfl
        · split_ifs at h
          cases h
          exact Or.inl rfl
    · cases h
      exact Or.inl rfl

theorem blames_checkMusicbrainz {page : Json} {e : ApiError}
    (h : checkMusicbrainz U page sourceId song artist evidence claim = .error e) :
    Blames fetch e := by
  rw [checkMusicbrainz] at h
  split at h
  · cases h
    exact Or.inl rfl
  · split at h
    · cases h
      exact Or.inl rfl
    · split at h
      · cases h
        exact Or.inl rfl
      · exact blames_exactStructured h

theorem blames_checkWikidata {page linked : Json} {e : ApiError}
    (h : checkWikidata U page linked sourceId song artist evidence claim = .error e) :
    Blames fetch e := by
  rw [checkWikidata] at h
  split at h
  · cases h
    exact Or.inl rfl
  · split at h
    · cases h
      exact Or.inl rfl
    · split at h
      · cases h
        exact Or.inl rfl
      · split at h
        · cases h
          exact Or.inl rfl
        · exact blames_exactStructured h

/-- An error of a sequence is the first one's or the second one's. -/
theorem error_of_bind {α β : Type} {x : Except ApiError α} {f : α → Except ApiError β}
    {e : ApiError} (h : x >>= f = .error e) : x = .error e ∨ ∃ a, x = .ok a ∧ f a = .error e := by
  cases x with
  | error e' =>
      cases h
      exact Or.inl rfl
  | ok a => exact Or.inr ⟨a, rfl, h⟩

theorem blames_checkSource {e : ApiError}
    (h : checkSource U fetch source sourceId song artist evidence claim = .error e) :
    Blames fetch e := by
  rw [checkSource] at h
  split at h
  · rcases error_of_bind h with hfetch | ⟨page, -, h⟩
    · exact Or.inr ⟨_, hfetch⟩
    · exact blames_checkWikipedia h
  · split_ifs at h
    · rcases error_of_bind h with hfetch | ⟨page, -, h⟩
      · exact Or.inr ⟨_, hfetch⟩
      · exact blames_checkMusicbrainz h
    · rcases error_of_bind h with hfetch | ⟨page, -, h⟩
      · exact Or.inr ⟨_, hfetch⟩
      · split at h
        · cases h
          exact Or.inl rfl
        · simp only at h
          split_ifs at h
          · cases h
            exact Or.inl rfl
          · rcases error_of_bind h with hfetch | ⟨linked, -, h⟩
            · exact Or.inr ⟨_, hfetch⟩
            · exact blames_checkWikidata h

theorem blames_verify {e : ApiError}
    (h : verify U fetch source sourceId song artist evidence claim = .error e) :
    Blames fetch e := by
  rw [verify] at h
  split at h
  · cases h
    exact Or.inl rfl
  · rcases error_of_bind h with hcheck | ⟨-, -, h⟩
    · exact blames_checkSource hcheck
    · cases h

end Verify

/-- The pages that `verify` gets, where `web url` is what comes back for the requests of a URL. -/
def pages (L : HttpLibrary) (web : Str → Sends) (url : Str) : Except ApiError Json :=
  FactSources.fetch L (web url)

/-- **`verify` blames the source** for an interrupted request only; every other error is a `400`. -/
theorem verify_interrupted {U : UnicodeTables} {L : HttpLibrary} {web : Str → Sends}
    {source sourceId song artist evidence claim : Str} {e : ApiError}
    (h : verify U (pages L web) source sourceId song artist evidence claim = .error e) :
    e.status = 400 ∨ e.status = 500 ∧
      ∃ url k, Taken (web url) 2 0 k ∧ Interrupted (web url k) := by
  rcases blames_verify h with hstatus | ⟨url, hfetch⟩
  · exact Or.inl hstatus
  · obtain ⟨k, htaken, ⟨hinternal, hinterrupted⟩ | ⟨hbad, -⟩⟩ := fetch_error hfetch
    · exact Or.inr ⟨hinternal, url, k, htaken, hinterrupted⟩
    · exact Or.inl hbad

end AnyPlayerSync.Facts.FactSources
