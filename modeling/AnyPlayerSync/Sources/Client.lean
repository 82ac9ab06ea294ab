import AnyPlayerSync.Foundation.Percent
import AnyPlayerSync.Sources.Http

/-!
# The client of the sources

`SourceHttp` of `sources/http.rs`, without its limiter: the check of a URL, the classes of errors,
and the loop that reads a body under a cap. What `reqwest` and `serde_json` do is a parameter
(`HttpLibrary`); a transport answers the n-th request that is sent.

The loop agrees with a check of the whole body, however the body is cut into chunks
(`readBody_parts`), and `getBytes_spec` says exactly when a request is answered and when it is
worth another try.
-/

set_option autoImplicit false

namespace AnyPlayerSync.Sources

open AnyPlayerSync.Foundation
open AnyPlayerSync.Passages (SourceError)

/-! ## What the client uses -/

/-- The parts of a `reqwest::Url` that `check` reads. -/
structure ParsedUrl where
  scheme : Str
  host : Option Str
  path : Str

/-- A `reqwest::Error`; it may name the URL of its request. -/
structure RequestError where
  text : Str
  url : Option Str

namespace RequestError

/-- The error without the URL, which may have a key in it. -/
def withoutUrl (e : RequestError) : RequestError := { e with url := none }

/-- The message of an error, with the URL if it still has one. -/
def toStr (e : RequestError) : Str :=
  match e.url with
  | some url => e.text ++ " for url (".toList ++ url ++ ")".toList
  | none => e.text

end RequestError

/-- The chunks of a response end with the body or with the error of a read. -/
structure HttpResponse where
  status : Nat
  chunks : List (Except RequestError (List UInt8))

/-- What is taken from the HTTP and JSON libraries. -/
structure HttpLibrary where
  parse : Str → Except Str ParsedUrl
  statusText : Nat → Str
  parseJson : List UInt8 → Except Str Json
  decodeLossy : List UInt8 → Str

/-- A library that reads the parts of a URL by their separators. -/
def plainLibrary : HttpLibrary where
  parse url :=
    let parts := Percent.readUrl url
    .ok ⟨parts.scheme.getD [], parts.authority, parts.path⟩
  statusText status := (toString status).toList
  parseJson _ := .ok .null
  decodeLossy body := body.map fun b => Char.ofNat b.toNat

/-- What comes back for the n-th request. -/
abbrev Transport := Nat → Str → Except RequestError HttpResponse

/-! ## The client -/

/-- The bound on the bodies of JSON sources. -/
def jsonCap : Nat := 512 * 1024

/-- The bound on the bodies of sources that send pages. -/
def textCap : Nat := 5 * 1024 * 1024

/-- The client of a source: its hosts, the time between requests and the bound on bodies. -/
structure SourceHttp where
  hosts : List Str
  interval : Nat
  maxBytes : Nat

/-- `StatusCode::is_server_error`. -/
def isServerError (status : Nat) : Bool := 500 ≤ status && status < 600

/-- `StatusCode::is_success`. -/
def isSuccess (status : Nat) : Bool := 200 ≤ status && status < 300

/-- The status of a client that asks too often. -/
def tooManyRequests : Nat := 429

/-- The error of a body over the bound. -/
def tooLarge : SourceError := .permanent "response too large".toList

/-- The loop over `response.chunk()`. -/
def readBody (maxBytes : Nat) (body : List UInt8) :
    List (Except RequestError (List UInt8)) → Except SourceError (List UInt8)
  | [] => .ok body
  | .error e :: _ => .error (.transient e.withoutUrl.toStr)
  | .ok chunk :: chunks =>
      if body.length + chunk.length > maxBytes then .error tooLarge
      else readBody maxBytes (body ++ chunk) chunks

section Client

variable (L : HttpLibrary) (http : SourceHttp)

/-- The URL is https at one of the hosts. -/
def check (url : Str) : Except SourceError Unit :=
  match L.parse url with
  | .error e => .error (.permanent e)
  | .ok parsed =>
      if parsed.scheme ≠ "https".toList || !parsed.host.any fun h => h ∈ http.hosts then
        -- the query stays out of the message: it may carry an API key
        .error (.permanent ("host not allowed: ".toList ++ parsed.scheme ++ "://".toList ++
          parsed.host.getD [] ++ parsed.path))
      else .ok ()

/-- `get_bytes` once the request was sent. -/
def receive (sent : Except RequestError HttpResponse) : Except SourceError (List UInt8) :=
  match sent with
  | .error e => .error (.transient e.withoutUrl.toStr)
  | .ok response =>
      if isServerError response.status || response.status = tooManyRequests then
        .error (.transient ("HTTP ".toList ++ L.statusText response.status))
      else if !isSuccess response.status then
        .error (.permanent ("HTTP ".toList ++ L.statusText response.status))
      else readBody http.maxBytes [] response.chunks

/-- One request: the URL is checked, and what comes back is received. -/
def getBytes (transport : Transport) (n : Nat) (url : Str) : Except SourceError (List UInt8) :=
  match check L http url with
  | .error e => .error e
  | .ok () => receive L http (transport n url)

/-- The answers that a source gets through its client. -/
def webOf (transport : Transport) : Web where
  json n url := (getBytes L http transport n url).bind fun body =>
    (L.parseJson body).mapError fun e => .permanent ("bad JSON: ".toList ++ e)
  text n url := (getBytes L http transport n url).map L.decodeLossy

end Client

/-! ## Reading a body -/

/-- Chunks that were read without an error. -/
def arrived (parts : List (List UInt8)) : List (Except RequestError (List UInt8)) := parts.map .ok

section Body

variable {maxBytes : Nat} {body : List UInt8}

/-- Chunks that fit are put together before the loop goes on; a body that does not fit is refused,
whatever its chunks and whatever would come after them. -/
theorem readBody_append (hbody : body.length ≤ maxBytes) (parts : List (List UInt8))
    (rest : List (Except RequestError (List UInt8))) :
    readBody maxBytes body (arrived parts ++ rest) =
      if (body ++ parts.flatten).length ≤ maxBytes then readBody maxBytes (body ++ parts.flatten) rest
      else .error tooLarge := by
  induction parts generalizing body with
  | nil => simp [arrived, hbody]
  | cons chunk parts ih =>
      rw [arrived, List.map_cons, List.cons_append, readBody, List.flatten_cons, ← List.append_assoc,
        ← List.length_append]
      by_cases hchunk : (body ++ chunk).length ≤ maxBytes
      · rw [if_neg (Nat.not_lt.2 hchunk)]
        exact ih hchunk
      · -- what is too large already stays so
        rw [if_pos (Nat.not_le.1 hchunk), if_neg]
        simp only [List.length_append] at hchunk ⊢
        omega

/-- The chunks before the first failed read, and the failure if there is one. -/
theorem chunks_cases (chunks : List (Except RequestError (List UInt8))) :
    (∃ parts, chunks = arrived parts) ∨ ∃ parts e rest, chunks = arrived parts ++ .error e :: rest := by
  induction chunks with
  | nil => exact Or.inl ⟨[], rfl⟩
  | cons c chunks ih =>
      cases c with
      | error e => exact Or.inr ⟨[], e, chunks, rfl⟩
      | ok chunk =>
          rcases ih with ⟨parts, rfl⟩ | ⟨parts, e, rest, rfl⟩
          · exact Or.inl ⟨chunk :: parts, rfl⟩
          · exact Or.inr ⟨chunk :: parts, e, rest, rfl⟩

/-- A body that arrived is read when it fits. -/
theorem readBody_arrived (maxBytes : Nat) (parts : List (List UInt8)) :
    readBody maxBytes [] (arrived parts) =
      if parts.flatten.length ≤ maxBytes then .ok parts.flatten else .error tooLarge := by
  have h := @readBody_append maxBytes [] (Nat.zero_le maxBytes) parts []
  rwa [List.append_nil] at h

/-- A failed read is reported, unless the body was too large before it. -/
theorem readBody_failed (maxBytes : Nat) (parts : List (List UInt8)) (e : RequestError)
    (rest : List (Except RequestError (List UInt8))) :
    readBody maxBytes [] (arrived parts ++ .error e :: rest) =
      if parts.flatten.length ≤ maxBytes then .error (.transient e.withoutUrl.toStr)
      else .error tooLarge := @readBody_append maxBytes [] (Nat.zero_le maxBytes) parts _

end Body

/-! ## What a request comes to -/

section Outcome

variable (L : HttpLibrary) (http : SourceHttp)

/-- A URL that may be asked for. -/
def Allowed (url : Str) : Prop :=
  ∃ parsed host, L.parse url = .ok parsed ∧ parsed.scheme = "https".toList ∧
    parsed.host = some host ∧ host ∈ http.hosts

/-- The whole body of a successful response, in whatever chunks it came. -/
def Delivered (sent : Except RequestError HttpResponse) (body : List UInt8) : Prop :=
  ∃ response parts, sent = .ok response ∧ isSuccess response.status = true ∧
    response.chunks = arrived parts ∧ body = parts.flatten ∧ body.length ≤ http.maxBytes

/-- What may go better at another time: the network failed, before the body was too large, or the
server is overloaded or broken. -/
def Retryable : Except RequestError HttpResponse → Prop
  | .error _ => True
  | .ok response =>
      isServerError response.status = true ∨ response.status = tooManyRequests ∨
        isSuccess response.status = true ∧ ∃ parts e rest,
          response.chunks = arrived parts ++ .error e :: rest ∧
            parts.flatten.length ≤ http.maxBytes

variable {L http} {transport : Transport} {n : Nat} {url : Str}

theorem check_ok_iff : check L http url = .ok () ↔ Allowed L http url := by
  rw [check, Allowed]
  cases hparse : L.parse url with
  | error e => simp
  | ok parsed =>
      obtain ⟨scheme, host, path⟩ := parsed
      cases host with
      | none => simp
      | some host =>
          by_cases hhost : host ∈ http.hosts <;> simp [hhost]

theorem check_not_transient (message : Str) : check L http url ≠ .error (.transient message) := by
  rw [check]
  cases L.parse url with
  | error e => simp
  | ok parsed =>
      dsimp only
      split_ifs <;> simp

/-- A request is sent for an allowed URL only. -/
theorem getBytes_cases : getBytes L http transport n url = receive L http (transport n url) ∧
      Allowed L http url ∨
    ¬ Allowed L http url ∧ ∃ reason, getBytes L http transport n url = .error (.permanent reason) := by
  rw [getBytes]
  cases hcheck : check L http url with
  | ok u => exact Or.inl ⟨rfl, check_ok_iff.1 hcheck⟩
  | error e =>
      refine Or.inr ⟨fun hallowed => ?_, ?_⟩
      · rw [check_ok_iff.2 hallowed] at hcheck
        cases hcheck
      · cases e with
        | permanent reason => exact ⟨reason, rfl⟩
        | transient message => exact absurd hcheck (check_not_transient message)

theorem success_not_retried {status : Nat} (h : isSuccess status = true) :
    isServerError status = false ∧ status ≠ tooManyRequests := by
  simp only [isSuccess, isServerError, tooManyRequests, Bool.and_eq_true, Bool.and_eq_false_iff,
    decide_eq_true_eq, decide_eq_false_iff_not] at h ⊢
  omega

/-- A response outside 2xx is an error, and says whether to try again by its status alone. -/
theorem receive_of_not_success {response : HttpResponse} (h : isSuccess response.status = false) :
    (∃ message, receive L http (.ok response) = .error (.transient message)) ∧
        (isServerError response.status = true ∨ response.status = tooManyRequests) ∨
      (∃ reason, receive L http (.ok response) = .error (.permanent reason)) ∧
        ¬ (isServerError response.status = true ∨ response.status = tooManyRequests) := by
  rw [receive]
  by_cases hretry : isServerError response.status = true ∨ response.status = tooManyRequests
  · exact Or.inl ⟨⟨_, if_pos (by simpa using hretry)⟩, hretry⟩
  · refine Or.inr ⟨⟨"HTTP ".toList ++ L.statusText response.status, ?_⟩, hretry⟩
    rw [if_neg (by simpa using hretry), h]
    rfl

theorem receive_of_success {response : HttpResponse} (h : isSuccess response.status = true) :
    receive L http (.ok response) = readBody http.maxBytes [] response.chunks := by
  obtain ⟨hserver, hmany⟩ := success_not_retried h
  simp [receive, h, hserver, hmany]

theorem receive_ok_iff {sent : Except RequestError HttpResponse} {body : List UInt8} :
    receive L http sent = .ok body ↔ Delivered http sent body := by
  constructor
  · intro h
    cases sent with
    | error e => cases h
    | ok response =>
        cases hsuccess : isSuccess response.status with
        | false =>
            rcases @receive_of_not_success L http _ hsuccess with
              ⟨⟨message, hm⟩, -⟩ | ⟨⟨reason, hm⟩, -⟩
            · rw [h] at hm; cases hm
            · rw [h] at hm; cases hm
        | true =>
            rw [receive_of_success hsuccess] at h
            rcases chunks_cases response.chunks with ⟨parts, hparts⟩ | ⟨parts, e, rest, hparts⟩
            · rw [hparts, readBody_arrived] at h
              split_ifs at h with hfits
              cases h
              exact ⟨response, parts, rfl, hsuccess, hparts, rfl, hfits⟩
            · rw [hparts, readBody_failed] at h
              split_ifs at h
  · rintro ⟨response, parts, rfl, hsuccess, hparts, rfl, hfits⟩
    rw [receive_of_success hsuccess, hparts, readBody_arrived, if_pos hfits]

theorem receive_transient_iff {sent : Except RequestError HttpResponse} :
    (∃ message, receive L http sent = .error (.transient message)) ↔ Retryable http sent := by
  cases sent with
  | error e => exact ⟨fun _ => trivial, fun _ => ⟨_, rfl⟩⟩
  | ok response =>
      cases hsuccess : isSuccess response.status with
      | false =>
          rcases @receive_of_not_success L http _ hsuccess with
            ⟨hm, hretry⟩ | ⟨⟨reason, hm⟩, hretry⟩
          · exact ⟨fun _ => hretry.elim Or.inl fun h => Or.inr (Or.inl h), fun _ => hm⟩
          · constructor
            · rintro ⟨message, h⟩
              rw [hm] at h
              cases h
            · rintro (h | h | ⟨h, -⟩)
              · exact absurd (Or.inl h) hretry
              · exact absurd (Or.inr h) hretry
              · rw [hsuccess] at h
                cases h
      | true =>
          obtain ⟨hserver, hmany⟩ := success_not_retried hsuccess
          rw [receive_of_success hsuccess]
          constructor
          · rintro ⟨message, h⟩
            rcases chunks_cases response.chunks with ⟨parts, hparts⟩ | ⟨parts, e, rest, hparts⟩
            · rw [hparts, readBody_arrived] at h
              split_ifs at h
              cases h
            · rw [hparts, readBody_failed] at h
              split_ifs at h with hfits
              · exact Or.inr (Or.inr ⟨hsuccess, parts, e, rest, hparts, hfits⟩)
              · cases h
          · rintro (h | h | ⟨-, parts, e, rest, hparts, hfits⟩)
            · rw [hserver] at h
              cases h
            · exact absurd h hmany
            · rw [hparts, readBody_failed, if_pos hfits]
              exact ⟨_, rfl⟩

/-- **What a request comes to.** It has a body exactly when its URL is https at a host of the
client and the response is a success whose body arrived and fits, in whatever chunks; it is worth
another try exactly when its URL may be asked for and the failure is not the response's own. -/
theorem getBytes_spec :
    (∀ body, getBytes L http transport n url = .ok body ↔
      Allowed L http url ∧ Delivered http (transport n url) body) ∧
    ((∃ message, getBytes L http transport n url = .error (.transient message)) ↔
      Allowed L http url ∧ Retryable http (transport n url)) := by
  rcases @getBytes_cases L http transport n url with
    ⟨h, hallowed⟩ | ⟨hallowed, reason, h⟩
  · rw [h]
    refine ⟨fun body => ?_, ?_⟩
    · rw [receive_ok_iff]
      exact ⟨fun h => ⟨hallowed, h⟩, fun h => h.2⟩
    · rw [receive_transient_iff]
      exact ⟨fun h => ⟨hallowed, h⟩, fun h => h.2⟩
  · rw [h]
    refine ⟨fun body => ⟨fun h => ?_, fun h => absurd h.1 hallowed⟩,
      ⟨fun h => ?_, fun h => absurd h.1 hallowed⟩⟩
    · cases h
    · obtain ⟨message, h⟩ := h
      cases h

end Outcome

end AnyPlayerSync.Sources
