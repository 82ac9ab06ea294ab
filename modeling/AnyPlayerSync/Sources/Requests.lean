import AnyPlayerSync.Foundation.Machine
import AnyPlayerSync.Foundation.Spacing
import AnyPlayerSync.Sources.Client
import Mathlib.Algebra.Order.Group.Nat
import Mathlib.Data.List.Perm.Subperm
import Mathlib.Logic.Function.Basic

/-!
# Requests under concurrency

Any number of `get_bytes` calls on one client, interleaved at their awaits, with time passing
between the steps. `RateLimiter::wait` holds its lock over the sleep; whichever call is waiting may
take a free lock. A call is dropped when the runtime that drives it stops, and gives the lock back.

`Requests.Moves` says once what a step does. `Limited` is the invariant: the times at which calls
were let through are spaced, and the next one is due no earlier than an interval after all of them.
-/

set_option autoImplicit false

namespace AnyPlayerSync.Sources

open AnyPlayerSync.Foundation
open AnyPlayerSync.Passages (SourceError)

/-! ## State -/

/-- Where a call of `get_bytes` stands. From `locked` to `passing` it holds the lock. -/
inductive CallState where
  | waiting (url : Str)
  | locked (url : Str)
  | sleeping (url : Str) (until_ : Nat)
  | passing (url : Str)
  | admitted (url : Str)
  | sent (url : Str)
  | ended

/-- The clock, the `next` of the limiter with the call that holds its lock, and the calls. -/
structure Requests where
  now : Nat
  next : Nat
  holder : Option Nat
  calls : Nat → Option CallState

/-- A limiter starts with its own time of construction. -/
def Requests.empty : Requests := ⟨0, 0, none, fun _ => none⟩

/-! ## Actions and events -/

/-- A scheduling choice, or what the network answers. -/
inductive RequestAction where
  | tick (elapsed : Nat)
  | call (id : Nat) (url : Str)
  | lock (id : Nat)
  | compare (id : Nat)
  | wake (id : Nat)
  | store (id : Nat)
  | send (id : Nat)
  | receive (id : Nat) (response : Except RequestError HttpResponse)
  | drop (id : Nat)

/-- What a step tells. -/
inductive RequestEvent where
  | ticked
  | called (id : Nat)
  | moved (id : Nat)
  | admitted (id at_ : Nat)
  | sent (id : Nat) (url : Str) (at_ : Nat)
  | answered (id : Nat) (result : Except SourceError (List UInt8))
  | dropped (id : Nat)

/-! ## The machine -/

/-- The call is elsewhere. -/
def Requests.setCall (s : Requests) (id : Nat) (c : CallState) : Requests :=
  { s with calls := Function.update s.calls id (some c) }

section Machine

variable (L : HttpLibrary) (http : SourceHttp)

/-- One step of a call, or the clock. -/
def requestStep (s : Requests) : RequestAction → Option (Requests × RequestEvent)
  | .tick elapsed => some ({ s with now := s.now + elapsed }, .ticked)
  | .call id url =>
      match s.calls id with
      | some _ => none
      | none =>
          match check L http url with
          | .error e => some (s.setCall id .ended, .answered id (.error e))
          | .ok () => some (s.setCall id (.waiting url), .called id)
  | .lock id =>
      match s.calls id, s.holder with
      | some (.waiting url), none =>
          some ({ s with holder := some id }.setCall id (.locked url), .moved id)
      | _, _ => none
  | .compare id =>
      match s.calls id with
      | some (.locked url) =>
          -- `if *next > Instant::now()`
          if s.now < s.next then some (s.setCall id (.sleeping url s.next), .moved id)
          else some (s.setCall id (.passing url), .moved id)
      | _ => none
  | .wake id =>
      match s.calls id with
      | some (.sleeping url until_) =>
          if until_ ≤ s.now then some (s.setCall id (.passing url), .moved id) else none
      | _ => none
  | .store id =>
      match s.calls id with
      | some (.passing url) =>
          some ({ s with next := s.now + http.interval, holder := none }.setCall id (.admitted url),
            .admitted id s.now)
      | _ => none
  | .send id =>
      match s.calls id with
      | some (.admitted url) => some (s.setCall id (.sent url), .sent id url s.now)
      | _ => none
  | .receive id response =>
      match s.calls id with
      | some (.sent _) => some (s.setCall id .ended, .answered id (receive L http response))
      | _ => none
  | .drop id =>
      match s.calls id with
      | none => none
      | some .ended => none
      | some _ =>
          some ({ s with holder := if s.holder = some id then none else s.holder }.setCall id .ended,
            .dropped id)

/-- The calls on one client. -/
def requests : Machine Requests RequestAction RequestEvent where
  init := Requests.empty
  step := requestStep L http

end Machine

/-! ## What a step does -/

/-- Everything a step can do. -/
inductive Requests.Moves (L : HttpLibrary) (http : SourceHttp) (s : Requests) :
    Requests → RequestEvent → Prop
  | ticked (elapsed : Nat) : Moves L http s { s with now := s.now + elapsed } .ticked
  | refused {id : Nat} {e : SourceError} (fresh : s.calls id = none) :
      Moves L http s (s.setCall id .ended) (.answered id (.error e))
  | called {id : Nat} {url : Str} (fresh : s.calls id = none) (allowed : Allowed L http url) :
      Moves L http s (s.setCall id (.waiting url)) (.called id)
  | locked {id : Nat} {url : Str} (was : s.calls id = some (.waiting url))
      (free : s.holder = none) :
      Moves L http s ({ s with holder := some id }.setCall id (.locked url)) (.moved id)
  | slept {id : Nat} {url : Str} (was : s.calls id = some (.locked url)) (early : s.now < s.next) :
      Moves L http s (s.setCall id (.sleeping url s.next)) (.moved id)
  | passed {id : Nat} {url : Str}
      (was : s.calls id = some (.locked url) ∧ s.next ≤ s.now ∨
        ∃ until_ ≤ s.now, s.calls id = some (.sleeping url until_)) :
      Moves L http s (s.setCall id (.passing url)) (.moved id)
  | stored {id : Nat} {url : Str} (was : s.calls id = some (.passing url)) :
      Moves L http s
        ({ s with next := s.now + http.interval, holder := none }.setCall id (.admitted url))
        (.admitted id s.now)
  | sent {id : Nat} {url : Str} (was : s.calls id = some (.admitted url)) :
      Moves L http s (s.setCall id (.sent url)) (.sent id url s.now)
  | answered {id : Nat} {url : Str} (response : Except RequestError HttpResponse)
      (was : s.calls id = some (.sent url)) :
      Moves L http s (s.setCall id .ended) (.answered id (receive L http response))
  | dropped {id : Nat} {c : CallState} (was : s.calls id = some c) :
      Moves L http s
        ({ s with holder := if s.holder = some id then none else s.holder }.setCall id .ended)
        (.dropped id)

section Steps

variable {L : HttpLibrary} {http : SourceHttp} {s s' : Requests} {a : RequestAction}
  {e : RequestEvent}

theorem requestStep_moves (h : requestStep L http s a = some (s', e)) : s.Moves L http s' e := by
  cases a with
  | tick elapsed => cases h; exact .ticked elapsed
  | call id url =>
      rw [requestStep] at h
      cases hc : s.calls id with
      | some c => rw [hc] at h; cases h
      | none =>
          rw [hc] at h
          cases hcheck : check L http url with
          | error e => rw [hcheck] at h; cases h; exact .refused hc
          | ok u => rw [hcheck] at h; cases h; exact .called hc (check_ok_iff.1 hcheck)
  | lock id =>
      rw [requestStep] at h
      split at h
      · cases h; exact .locked ‹_› ‹_›
      · cases h
  | compare id =>
      rw [requestStep] at h
      split at h
      · split_ifs at h with hnext
        · cases h; exact .slept ‹_› hnext
        · cases h; exact .passed (Or.inl ⟨‹_›, Nat.not_lt.1 hnext⟩)
      · cases h
  | wake id =>
      rw [requestStep] at h
      split at h
      · split_ifs at h with hdue
        cases h
        exact .passed (Or.inr ⟨_, hdue, ‹_›⟩)
      · cases h
  | store id =>
      rw [requestStep] at h
      split at h
      · cases h; exact .stored ‹_›
      · cases h
  | send id =>
      rw [requestStep] at h
      split at h
      · cases h; exact .sent ‹_›
      · cases h
  | receive id response =>
      rw [requestStep] at h
      split at h
      · cases h; exact .answered response ‹_›
      · cases h
  | drop id =>
      rw [requestStep] at h
      split at h
      · cases h
      · cases h
      · cases h; exact .dropped ‹_›

end Steps

/-! ## What a run shows -/

/-- A request that was sent. -/
structure Sending where
  id : Nat
  url : Str
  at_ : Nat

/-- The limiter let a call through. -/
def RequestEvent.admission? : RequestEvent → Option (Nat × Nat)
  | .admitted id at_ => some (id, at_)
  | _ => none

/-- A request was sent. -/
def RequestEvent.sending? : RequestEvent → Option Sending
  | .sent id url at_ => some ⟨id, url, at_⟩
  | _ => none

/-- The calls that were let through, with their times, latest first. -/
def admissions (h : List RequestEvent) : List (Nat × Nat) := h.filterMap RequestEvent.admission?

/-- The requests that were sent, latest first. -/
def sendings (h : List RequestEvent) : List Sending := h.filterMap RequestEvent.sending?

/-- What holds of a call in its state. -/
def CallState.Fits (L : HttpLibrary) (http : SourceHttp) (h : List RequestEvent) (s : Requests)
    (id : Nat) : CallState → Prop
  | .waiting url => Allowed L http url
  | .locked url => Allowed L http url ∧ s.holder = some id
  | .sleeping url until_ => Allowed L http url ∧ s.holder = some id ∧ until_ = s.next
  | .passing url => Allowed L http url ∧ s.holder = some id ∧ s.next ≤ s.now
  | .admitted url => Allowed L http url ∧ ∃ t ≤ s.now, (id, t) ∈ admissions h
  | .sent _ => True
  | .ended => True

/-- The request of the call is on its way or over. -/
def Requests.Past (s : Requests) (id : Nat) : Prop :=
  (∃ url, s.calls id = some (.sent url)) ∨ s.calls id = some .ended

/-- The limiter keeps the admissions apart, and each request that was sent had one of its own. -/
structure Limited (L : HttpLibrary) (http : SourceHttp) (h : List RequestEvent) (s : Requests) :
    Prop where
  fits : ∀ id c, s.calls id = some c → c.Fits L http h s id
  spaced : Spaced http.interval ((admissions h).map Prod.snd)
  ahead : Ahead http.interval s.next ((admissions h).map Prod.snd)
  own : ∀ r ∈ sendings h, Allowed L http r.url ∧ ∃ t ≤ r.at_, (r.id, t) ∈ admissions h
  once : ((sendings h).map Sending.id).Nodup
  past : ∀ r ∈ sendings h, s.Past r.id

section Invariant

variable {L : HttpLibrary} {http : SourceHttp} {h h' : List RequestEvent} {s s' : Requests}
  {e : RequestEvent}

theorem admissions_subset (e : RequestEvent) (h : List RequestEvent) :
    admissions h ⊆ admissions (e :: h) :=
  ((List.sublist_cons_self e h).filterMap RequestEvent.admission?).subset

theorem Requests.setCall_cases {id j : Nat} {c c' : CallState}
    (hj : (s.setCall id c).calls j = some c') :
    j = id ∧ c' = c ∨ j ≠ id ∧ s.calls j = some c' := by
  by_cases hid : j = id
  · subst hid
    change Function.update s.calls j (some c) j = some c' at hj
    rw [Function.update_self] at hj
    exact Or.inl ⟨rfl, (Option.some.inj hj).symm⟩
  · change Function.update s.calls id (some c) j = some c' at hj
    rw [Function.update_of_ne hid] at hj
    exact Or.inr ⟨hid, hj⟩

/-- A step of another call that leaves the lock alone, or finds it with that call. -/
theorem CallState.Fits.frame {id : Nat} {c : CallState} (hc : c.Fits L http h s id)
    (hlock : s.holder = some id → s'.holder = some id ∧ s'.next = s.next) (hnow : s.now ≤ s'.now)
    (hh : admissions h ⊆ admissions h') : c.Fits L http h' s' id := by
  cases c with
  | waiting url => exact hc
  | locked url => exact ⟨hc.1, (hlock hc.2).1⟩
  | sleeping url until_ =>
      obtain ⟨hurl, hholder, huntil⟩ := hc
      exact ⟨hurl, (hlock hholder).1, huntil.trans (hlock hholder).2.symm⟩
  | passing url =>
      obtain ⟨hurl, hholder, hnext⟩ := hc
      exact ⟨hurl, (hlock hholder).1, (hlock hholder).2 ▸ hnext.trans hnow⟩
  | admitted url =>
      obtain ⟨hurl, t, ht, hmem⟩ := hc
      exact ⟨hurl, t, ht.trans hnow, hh hmem⟩
  | sent url => trivial
  | ended => trivial

/-- After a step of one call, each call fits its state: the one that moved does, and the others keep
their place. -/
theorem fits_setCall {t : Requests} {id : Nat} {c : CallState} (hl : Limited L http h s)
    (hcalls : t.calls = s.calls) (hc : c.Fits L http h' (t.setCall id c) id)
    (hlock : ∀ j, j ≠ id → s.holder = some j → t.holder = some j ∧ t.next = s.next)
    (hnow : s.now ≤ t.now) (hh : admissions h ⊆ admissions h') :
    ∀ j c', (t.setCall id c).calls j = some c' → c'.Fits L http h' (t.setCall id c) j := by
  intro j c' hj
  rcases Requests.setCall_cases hj with ⟨rfl, rfl⟩ | ⟨hne, hj⟩
  · exact hc
  · rw [hcalls] at hj
    exact (hl.fits j c' hj).frame (hlock j hne) hnow hh

theorem Limited.fits_step (hl : Limited L http h s) (hm : s.Moves L http s' e) :
    ∀ id c, s'.calls id = some c → c.Fits L http (e :: h) s' id := by
  have hkeep : ∀ {e : RequestEvent} {id : Nat} {c : CallState}, c.Fits L http h s id →
      ∀ j c', (s.setCall id c).calls j = some c' → c'.Fits L http (e :: h) (s.setCall id c) j := by
    intro e id c hc
    refine fits_setCall hl rfl ?_ (fun _ _ h => ⟨h, rfl⟩) le_rfl (admissions_subset e h)
    exact hc.frame (fun h => ⟨h, rfl⟩) le_rfl (admissions_subset e h)
  cases hm with
  | ticked elapsed =>
      intro id c hc
      exact (hl.fits id c hc).frame (fun h => ⟨h, rfl⟩) (Nat.le_add_right _ _)
        (admissions_subset _ h)
  | refused fresh => exact hkeep trivial
  | called fresh allowed => exact hkeep allowed
  | @locked id url was free =>
      refine fits_setCall (t := { s with holder := some id }) hl rfl
        ⟨hl.fits id _ was, rfl⟩ ?_ le_rfl (admissions_subset _ h)
      intro j hj hholder
      rw [free] at hholder
      cases hholder
  | @slept id url was early =>
      obtain ⟨hurl, hholder⟩ := hl.fits id _ was
      exact hkeep ⟨hurl, hholder, rfl⟩
  | @passed id url was =>
      rcases was with ⟨was, hnext⟩ | ⟨until_, hdue, was⟩
      · obtain ⟨hurl, hholder⟩ := hl.fits id _ was
        exact hkeep ⟨hurl, hholder, hnext⟩
      · obtain ⟨hurl, hholder, rfl⟩ := hl.fits id _ was
        exact hkeep ⟨hurl, hholder, hdue⟩
  | @stored id url was =>
      obtain ⟨hurl, hholder, -⟩ := hl.fits id _ was
      refine fits_setCall (t := { s with next := s.now + http.interval, holder := none }) hl rfl
        ⟨hurl, s.now, le_rfl, List.mem_cons_self⟩ ?_ le_rfl
        (admissions_subset _ h)
      intro j hj h
      exact absurd (Option.some.inj (h.symm.trans hholder)) hj
  | sent was => exact hkeep trivial
  | answered response was => exact hkeep trivial
  | @dropped id c was =>
      refine fits_setCall (c := .ended)
        (t := { s with holder := if s.holder = some id then none else s.holder })
        hl rfl trivial ?_ le_rfl (admissions_subset _ h)
      intro j hj h
      refine ⟨?_, rfl⟩
      dsimp only
      rw [if_neg, h]
      rw [h]
      exact fun h => hj (Option.some.inj h)

/-- A call is let through by the step that stores the next time. -/
theorem Requests.Moves.admissions (hm : s.Moves L http s' e) :
    admissions (e :: h) = admissions h ∧ s'.next = s.next ∨
      ∃ id url, s.calls id = some (.passing url) ∧
        admissions (e :: h) = (id, s.now) :: admissions h ∧ s'.next = s.now + http.interval := by
  cases hm with
  | stored was => exact Or.inr ⟨_, _, was, rfl, rfl⟩
  | _ => exact Or.inl ⟨rfl, rfl⟩

/-- A request is sent by a call that was let through. -/
theorem Requests.Moves.sendings (hm : s.Moves L http s' e) :
    sendings (e :: h) = sendings h ∨
      ∃ id url, s.calls id = some (.admitted url) ∧ (∃ url, s'.calls id = some (.sent url)) ∧
        sendings (e :: h) = ⟨id, url, s.now⟩ :: sendings h := by
  cases hm with
  | sent was => exact Or.inr ⟨_, _, was, ⟨_, Function.update_self ..⟩, rfl⟩
  | _ => exact Or.inl rfl

/-- A call whose request was sent never comes before it again. -/
theorem Requests.Past.step {j : Nat} (hp : s.Past j) (hm : s.Moves L http s' e) : s'.Past j := by
  -- the call that moves was at an earlier point, or it ends
  have hkeep : ∀ {id : Nat} {c : CallState} {t : Requests}, t.calls = s.calls →
      (id = j → c = .ended) → (t.setCall id c).Past j := by
    intro id c t hcalls hc
    by_cases hj : id = j
    · subst hj
      exact Or.inr ((Function.update_self ..).trans (congrArg some (hc rfl)))
    · have hsame : (t.setCall id c).calls j = s.calls j :=
        (Function.update_of_ne (Ne.symm hj) ..).trans (congrFun hcalls j)
      rw [Requests.Past, hsame]
      exact hp
  have hnot : ∀ {id : Nat} {c : Option CallState}, s.calls id = c → c ≠ some .ended →
      (∀ url, c ≠ some (.sent url)) → ∀ {c' : CallState}, id = j → c' = .ended := by
    rintro id c hc hended hsent c' rfl
    rcases hp with ⟨url, hp⟩ | hp
    · exact absurd (hc.symm.trans hp) (hsent url)
    · exact absurd (hc.symm.trans hp) hended
  cases hm with
  | ticked elapsed => exact hp
  | refused fresh => exact hkeep rfl fun _ => rfl
  | called fresh allowed => exact hkeep rfl (hnot fresh (by simp) (by simp))
  | locked was free =>
      exact hkeep (t := { s with holder := some _ }) rfl (hnot was (by simp) (by simp))
  | slept was early => exact hkeep rfl (hnot was (by simp) (by simp))
  | passed was =>
      rcases was with ⟨was, -⟩ | ⟨until_, -, was⟩
      · exact hkeep rfl (hnot was (by simp) (by simp))
      · exact hkeep rfl (hnot was (by simp) (by simp))
  | stored was =>
      exact hkeep (t := { s with next := s.now + http.interval, holder := none }) rfl
        (hnot was (by simp) (by simp))
  | sent was => exact hkeep rfl (hnot was (by simp) (by simp))
  | answered response was => exact hkeep rfl fun _ => rfl
  | dropped was => exact hkeep (t := { s with holder := _ }) rfl fun _ => rfl

theorem Limited.step (hl : Limited L http h s) (hm : s.Moves L http s' e) :
    Limited L http (e :: h) s' := by
  have hfits := hl.fits_step hm
  have hadmissions := hm.admissions (h := h)
  have hsendings := hm.sendings (h := h)
  refine ⟨hfits, ?_, ?_, ?_, ?_, ?_⟩
  · rcases hadmissions with ⟨heq, -⟩ | ⟨id, url, was, heq, -⟩
    · rw [heq]
      exact hl.spaced
    · rw [heq]
      exact hl.spaced.cons hl.ahead (hl.fits id _ was).2.2
  · rcases hadmissions with ⟨heq, hnext⟩ | ⟨id, url, was, heq, hnext⟩
    · rw [heq, hnext]
      exact hl.ahead
    · rw [heq, hnext]
      exact hl.ahead.cons (hl.fits id _ was).2.2 (Nat.zero_le _)
  · have hold : ∀ r ∈ sendings h, Allowed L http r.url ∧
        ∃ t ≤ r.at_, (r.id, t) ∈ admissions (e :: h) := by
      intro r hr
      obtain ⟨hurl, t, ht, hmem⟩ := hl.own r hr
      exact ⟨hurl, t, ht, admissions_subset e h hmem⟩
    rcases hsendings with heq | ⟨id, url, was, -, heq⟩
    · rw [heq]
      exact hold
    · rw [heq]
      obtain ⟨hurl, t, ht, hmem⟩ := hl.fits id _ was
      exact List.forall_mem_cons.2 ⟨⟨hurl, t, ht, admissions_subset e h hmem⟩, hold⟩
  · rcases hsendings with heq | ⟨id, url, was, -, heq⟩
    · rw [heq]
      exact hl.once
    · rw [heq, List.map_cons, List.nodup_cons]
      refine ⟨fun hmem => ?_, hl.once⟩
      obtain ⟨r, hr, hid⟩ := List.mem_map.1 hmem
      have hpast := hl.past r hr
      rw [hid, Requests.Past, was] at hpast
      simp at hpast
  · rcases hsendings with heq | ⟨id, url, -, hsent, heq⟩
    · rw [heq]
      exact fun r hr => (hl.past r hr).step hm
    · rw [heq]
      exact List.forall_mem_cons.2 ⟨Or.inl hsent, fun r hr => (hl.past r hr).step hm⟩

theorem limited (hr : (requests L http).Run h s) : Limited L http h s := by
  apply hr.invariant (I := Limited L http)
  · exact ⟨fun id c hc => by (cases hc), spaced_nil, ahead_nil, fun r hr => by (cases hr),
      List.nodup_nil, fun r hr => by (cases hr)⟩
  · intro h s a s' e _ hl hs _
    exact hl.step (requestStep_moves hs)

end Invariant

/-! ## Pacing -/

/-- The limits that every run of the calls on a client respects. -/
structure Paced (L : HttpLibrary) (http : SourceHttp) (h : List RequestEvent) : Prop where
  /-- A span of time holds no more admissions than intervals, and one. -/
  span : ∀ first last, first ≤ last →
    ((admissions h).filter fun p => first ≤ p.2 ∧ p.2 ≤ last).length * http.interval ≤
      (last - first) + http.interval
  /-- The requests sent by a time are no more than the intervals since the start, and one. -/
  sent : ∀ last, ((sendings h).filter fun r => r.at_ ≤ last).length * http.interval ≤
    last + http.interval
  allowed : ∀ r ∈ sendings h, Allowed L http r.url
  once : ((sendings h).map Sending.id).Nodup
  capped : ∀ id body, RequestEvent.answered id (.ok body) ∈ h → body.length ≤ http.maxBytes

section Pacing

variable {L : HttpLibrary} {http : SourceHttp} {h : List RequestEvent} {s : Requests}

theorem Limited.span (hl : Limited L http h s) {first last : Nat} (hle : first ≤ last) :
    ((admissions h).filter fun p => first ≤ p.2 ∧ p.2 ≤ last).length * http.interval ≤
      (last - first) + http.interval := by
  have hspaced : Spaced http.interval
      (((admissions h).filter fun p => first ≤ p.2 ∧ p.2 ≤ last).map Prod.snd) := by
    have hfilter := hl.spaced.filter fun t => first ≤ t ∧ t ≤ last
    rwa [List.filter_map] at hfilter
  have hcount := hspaced.length_nsmul_le (a := first) (b := last) ?_ hle (Nat.zero_le _)
  · rw [List.length_map, Nat.nsmul_eq_mul] at hcount
    omega
  · intro t ht
    obtain ⟨p, hp, rfl⟩ := List.mem_map.1 ht
    simpa using (List.mem_filter.1 hp).2

/-- Each request that was sent by a time belongs to another call that was let through by then. -/
theorem Limited.sent_le (hl : Limited L http h s) (last : Nat) :
    ((sendings h).filter fun r => r.at_ ≤ last).length ≤
      ((admissions h).filter fun p => 0 ≤ p.2 ∧ p.2 ≤ last).length := by
  have hnodup : (((sendings h).filter fun r => r.at_ ≤ last).map Sending.id).Nodup :=
    hl.once.sublist (List.filter_sublist.map _)
  have hsub : ((sendings h).filter fun r => r.at_ ≤ last).map Sending.id ⊆
      ((admissions h).filter fun p => 0 ≤ p.2 ∧ p.2 ≤ last).map Prod.fst := by
    intro id hid
    obtain ⟨r, hr, rfl⟩ := List.mem_map.1 hid
    obtain ⟨hmem, hlast⟩ := List.mem_filter.1 hr
    obtain ⟨-, t, ht, hadmitted⟩ := hl.own r hmem
    refine List.mem_map.2 ⟨(r.id, t), List.mem_filter.2 ⟨hadmitted, ?_⟩, rfl⟩
    have hlast := of_decide_eq_true hlast
    simp only [Nat.zero_le, true_and, decide_eq_true_eq]
    exact ht.trans hlast
  have hle := (List.subperm_of_subset hnodup hsub).length_le
  rwa [List.length_map, List.length_map] at hle

theorem answered_capped {id : Nat} {body : List UInt8} (hr : (requests L http).Run h s)
    (hmem : RequestEvent.answered id (.ok body) ∈ h) : body.length ≤ http.maxBytes := by
  refine hr.forall_events (P := fun e => ∀ id body, e = .answered id (.ok body) →
    body.length ≤ http.maxBytes) ?_ _ hmem id body rfl
  rintro h s a s' _ _ hs _ id body rfl
  have hm := requestStep_moves hs
  generalize hbody : (Except.ok body : Except SourceError (List UInt8)) = result at hm
  cases hm with
  | refused => cases hbody
  | answered response was =>
      obtain ⟨-, -, -, -, -, -, hfits⟩ := receive_ok_iff.1 hbody.symm
      exact hfits

/-- **Requests are paced.** However the calls on a client interleave, the limiter lets through no
more of them in any span of time than its interval allows, no request gets ahead of it, and what is
sent goes to the client's own hosts. -/
theorem requests_paced (hr : (requests L http).Run h s) : Paced L http h := by
  have hl := limited hr
  refine ⟨fun first last hle => hl.span hle, fun last => ?_, fun r hmem => (hl.own r hmem).1,
    hl.once, fun id body => answered_capped hr⟩
  have hspan := hl.span (Nat.zero_le last)
  have hle := Nat.mul_le_mul_right http.interval (hl.sent_le last)
  omega

end Pacing

/-! ## Two requests to Wikipedia -/

/-- A client of one host. -/
def wikipediaClient : SourceHttp := ⟨["en.wikipedia.org".toList], 1000, textCap⟩

/-- The second call waits for the lock while the first sleeps, and sleeps in its turn. -/
def twoRequests : List RequestAction :=
  [.call 0 "https://en.wikipedia.org/w/api.php".toList, .lock 0,
    .call 1 "https://en.wikipedia.org/w/api.php?titles=Creep".toList, .compare 0, .store 0,
    .lock 1, .compare 1, .send 0, .tick 400, .wake 1, .receive 0 (.ok ⟨200, [.ok [123, 125]]⟩),
    .tick 600, .wake 1, .store 1, .send 1]

theorem requests_paced_two :
    Paced plainLibrary wikipediaClient
        ((requests plainLibrary wikipediaClient).exec ([], Requests.empty) twoRequests).1 ∧
      (sendings ((requests plainLibrary wikipediaClient).exec ([], Requests.empty) twoRequests).1).map
        Sending.at_ = [1000, 0] :=
  ⟨requests_paced (Machine.run_exec twoRequests), by decide +kernel⟩

end AnyPlayerSync.Sources
