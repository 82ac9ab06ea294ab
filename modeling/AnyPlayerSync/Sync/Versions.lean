import AnyPlayerSync.Foundation.Observations
import AnyPlayerSync.Sync.Isolation

/-!
# Versions under concurrency

A `PUT` reads the version, checks the expected version against it and computes the new version from
it, and its `UPDATE` then takes whatever row is there. When no other write of the user commits in
between, the check is a compare-and-set and the version identifies the content. When one does
(`Overtaken`), the write replaces a row that its check never saw.

`reads_hold` is the invariant that carries both results: what a request has read is still the
stored version unless it was overtaken. `no_lost_update` needs this of the writes that expect a
version, `versions_identify` of all writes.
-/

set_option autoImplicit false

namespace AnyPlayerSync.Sync

open AnyPlayerSync.Foundation

/-! ## What events say -/

/-- A committed write: the version it expected, the row it replaced and the row it wrote. -/
structure Commit where
  expected : Option Int
  overwritten : Snapshot
  written : Snapshot

/-- The write that an event committed for a user. -/
def Event.commit? (user : UserId) (e : Event) : Option Commit :=
  match e.kind with
  | .request _ _ (.committed expected overwritten written) =>
      if e.user = user then some ⟨expected, overwritten, written⟩ else none
  | _ => none

/-- The row of a user that was stored right after the event, where the event shows it. -/
def Event.shown? (user : UserId) (e : Event) : Option Snapshot :=
  match e.kind with
  | .request _ _ (.loaded row _) => if e.user = user then some row else none
  | .request _ _ (.committed _ _ written) => if e.user = user then some written else none
  | .request _ _ (.ensured inserted) => if e.user = user then inserted else none
  | _ => none

/-- The answer that an event gave to the user. -/
def Event.response? (user : UserId) (e : Event) : Option Response :=
  match e.kind with
  | .request _ _ (.loaded _ response) => if e.user = user then some response else none
  | .request _ _ (.answered response) => if e.user = user then some response else none
  | _ => none

/-- The event is the version read of a `PUT`. -/
def Event.isRead (user : UserId) (id : Nat) (e : Event) : Bool :=
  match e.kind with
  | .request i _ (.checked _) => e.user == user && i == id
  | _ => false

/-- A write of the user has committed since the version read of the request. -/
def Overtaken (h : List Event) (user : UserId) (id : Nat) : Bool :=
  -- the history is newest first, so this is the part since the read
  (h.takeWhile fun e => !e.isRead user id).any fun e => (e.commit? user).isSome

/-- Every write commits before another write of its user overtakes it. -/
def NotOvertaken (h : List Event) (_ : State) (e : Event) : Prop :=
  match e.kind with
  | .request id _ (.committed _ _ _) => Overtaken h e.user id = false
  | _ => True

/-- The same of the writes that expect a version. -/
def ExpectingNotOvertaken (h : List Event) (_ : State) (e : Event) : Prop :=
  match e.kind with
  | .request id _ (.committed (some _) _ _) => Overtaken h e.user id = false
  | _ => True

instance (h : List Event) (s : State) (e : Event) : Decidable (NotOvertaken h s e) := by
  unfold NotOvertaken; split <;> infer_instance

instance (h : List Event) (s : State) (e : Event) : Decidable (ExpectingNotOvertaken h s e) := by
  unfold ExpectingNotOvertaken; split <;> infer_instance

/-! ## What a request has read -/

/-- A request about to write passed its check on the version it read, and that version is still
stored unless the request was overtaken. -/
def ReadsHold (h : List Event) (s : State) : Prop :=
  ∀ user id r p answer current, s.requests (user, id) = some r →
    r.phase = .writing p answer current →
      (p.expectedVersion = none ∨ p.expectedVersion = some current) ∧
        (Overtaken h user id = false →
          ∃ row, s.docs (user, 1) = some row ∧ row.version = current)

section Reads

variable {s s' : State} {user other : UserId} {kind : EventKind}

theorem Overtaken_cons (e : Event) (h : List Event) (user : UserId) (id : Nat) :
    Overtaken (e :: h) user id =
      (!e.isRead user id && ((e.commit? user).isSome || Overtaken h user id)) := by
  rw [Overtaken, Overtaken]
  cases hread : e.isRead user id <;> simp [hread]

/-- A request about to write after a step has just read the version, or was about to write before
the step. -/
theorem Effect.writer (he : Effect s user s' kind) {id : Nat} {r : InFlight} {p : Put}
    {answer : Answer} {current : Int} (hr : s'.requests (other, id) = some r)
    (hphase : r.phase = .writing p answer current) :
    (Event.isRead other id ⟨user, kind⟩ = true ∧
        checkVersion p.expectedVersion current = .ok () ∧
          ∃ row, s'.docs (other, 1) = some row ∧ row.version = current) ∨
      Event.isRead other id ⟨user, kind⟩ = false ∧ s.requests (other, id) = some r := by
  cases he with
  | @received i request kind phase fresh planned =>
      refine Or.inr ⟨?_, ?_⟩
      · rcases planned with ⟨e, -, rfl⟩ | ⟨plan, -, -, rfl⟩ <;> rfl
      · by_cases hkey : (other, id) = (user, i)
        · simp only [State.setRequest, hkey, Function.update_self, Option.some.injEq] at hr
          subst hr
          rcases planned with ⟨e, rfl, -⟩ | ⟨plan, -, rfl, -⟩ <;> cases hphase
        · simpa [State.setRequest, Function.update_of_ne hkey] using hr
  | @moved i request phase phase' docs hub progress inFlight statement =>
      by_cases hkey : (other, id) = (user, i)
      · simp only [State.setRequest, hkey, Function.update_self, Option.some.injEq] at hr
        obtain ⟨rfl, rfl⟩ := Prod.mk.inj hkey
        subst hr
        cases statement with
        -- the version read is the only statement after which a request is about to write
        | checked p answer stored accepted =>
            cases hphase
            exact Or.inl ⟨by simp [Event.isRead], accepted, _, stored, rfl⟩
        | sent event response => simp only at hphase; split at hphase <;> cases hphase
        | ensured | loaded | committed | failed | cleaned | answered => cases hphase
      · refine Or.inr ⟨?_, by simpa [State.setRequest, Function.update_of_ne hkey] using hr⟩
        cases progress with
        | checked c =>
            simp only [Event.isRead, Bool.and_eq_false_iff, beq_eq_false_iff_ne, ne_eq]
            by_contra hne
            push Not at hne
            exact hkey (Prod.ext hne.1.symm hne.2.symm)
        | _ => rfl
  | subscribed => exact Or.inr ⟨rfl, hr⟩
  | dropped receiver => exact Or.inr ⟨rfl, hr⟩

/-- A row stays as it is unless its user's event commits a write. -/
theorem Effect.keeps_row (he : Effect s user s' kind)
    (hcommit : Event.commit? other ⟨user, kind⟩ = none) {row : Snapshot}
    (hrow : s.docs (other, 1) = some row) : s'.docs (other, 1) = some row := by
  by_cases hother : other = user
  · subst hother
    cases he with
    | moved inFlight statement =>
        cases statement with
        -- `ON CONFLICT DO NOTHING`: the row exists, so the insert leaves it
        | ensured plan now => simp [State.setRequest, ensureUserDocument, hrow]
        | committed => simp [Event.commit?] at hcommit
        | loaded | checked | failed | sent | cleaned | answered => exact hrow
    | received | subscribed | dropped => exact hrow
  · have := (userView_eq_iff.1 (he.keeps_other hother)).1 1
    rwa [this]

end Reads

theorem reads_hold {h : List Event} {s : State} (hr : server.Run h s) : ReadsHold h s := by
  -- by induction on the run: a request about to write has just read the version, or it had already
  -- read it before the step and the step has to keep the row
  refine hr.invariant (I := ReadsHold) (fun _ _ _ _ _ _ h0 => by cases h0) ?_
  intro h s a s' e _ ih hs _ user id r p answer current hreq hphase
  obtain ⟨huser, he⟩ := step_effect hs
  obtain ⟨actor, kind⟩ := e
  subst huser
  rw [Overtaken_cons]
  rcases he.writer hreq hphase with ⟨hread, hcheck, hrow⟩ | ⟨hread, hbefore⟩
  · exact ⟨checkVersion_ok_iff.1 hcheck, fun _ => hrow⟩
  · obtain ⟨haccepted, hstored⟩ := ih user id r p answer current hbefore hphase
    refine ⟨haccepted, fun hover => ?_⟩
    -- not overtaken after the step: not before it either, and the step commits nothing
    simp only [hread, Bool.not_false, Bool.true_and, Bool.or_eq_false_iff,
      Option.isSome_eq_false_iff, Option.isNone_iff_eq_none] at hover
    obtain ⟨row, hrow, hversion⟩ := hstored hover.2
    exact ⟨row, he.keeps_row hover.1 hrow, hversion⟩

/-- What a committed write did: it replaced the stored row by its own, whose version is one above
the version that the request had read, and the version it expected, if any, is the one it read. -/
theorem commit_step {h : List Event} {s s' : State} {a : Action} {e : Event} {user : UserId}
    {c : Commit} (hr : server.Run h s) (hs : step s a = some (s', e))
    (hc : e.commit? user = some c) :
    ∃ id request current,
      e = ⟨user, .request id request (.committed c.expected c.overwritten c.written)⟩ ∧
      s.docs (user, 1) = some c.overwritten ∧ s'.docs (user, 1) = some c.written ∧
      (c.expected = none ∨ c.expected = some current) ∧ c.written.version = current + 1 ∧
      (Overtaken h user id = false → c.overwritten.version = current) := by
  obtain ⟨huser, he⟩ := step_effect hs
  obtain ⟨actor, kind⟩ := e
  subst huser
  cases he with
  | received kind phase fresh planned =>
      rcases planned with ⟨e, -, rfl⟩ | ⟨plan, -, -, rfl⟩ <;> cases hc
  | subscribed => cases hc
  | dropped receiver => cases hc
  | @moved id request phase phase' docs hub progress inFlight statement =>
      cases statement with
      | committed p answer current now stored =>
          simp only [Event.commit?] at hc
          split_ifs at hc with hactor
          cases hc
          subst hactor
          -- what the request has read, by `reads_hold`; the new version is computed from it
          obtain ⟨haccepted, hstored⟩ := reads_hold hr _ _ _ _ _ _ inFlight rfl
          refine ⟨id, request, current, rfl, stored, ?_, haccepted, p.set_version .., ?_⟩
          · simp [State.setRequest]
          · intro hover
            obtain ⟨row, hrow, hversion⟩ := hstored hover
            rwa [Option.some.inj (stored.symm.trans hrow)]
      | ensured | loaded | checked | failed | sent | cleaned | answered => cases hc

/-! ## No lost update -/

/-- A write that expected a version replaced a row of that version, and of two writes with one
expected version the later does not replace what the earlier wrote. -/
structure NoLostUpdate (h : List Event) : Prop where
  overwrites_expected : ∀ user, ∀ e ∈ h, ∀ c v, e.commit? user = some c →
    c.expected = some v → c.overwritten.version = v
  never_overwrites : ∀ user, h.Pairwise fun later earlier => ∀ c c' v,
    later.commit? user = some c → earlier.commit? user = some c' →
      c.expected = some v → c'.expected = some v → c.overwritten ≠ c'.written

/-- A write that expects a version and was not overtaken is a compare-and-set. -/
theorem expecting_commit_compares {h : List Event} {s : State}
    (hr : server.RunIf ExpectingNotOvertaken h s) (user : UserId) :
    ∀ e ∈ h, ∀ c v, e.commit? user = some c → c.expected = some v →
      c.overwritten.version = v ∧ c.written.version = v + 1 := by
  refine hr.forall_events fun h s a s' e hr hs hcond c v hc hv => ?_
  obtain ⟨id, request, current, rfl, -, -, haccepted, hwritten, hnot⟩ := commit_step hr.run hs hc
  rw [hv] at haccepted hcond
  rcases haccepted with hnone | hcurrent
  · cases hnone
  · cases hcurrent
    exact ⟨hnot hcond, hwritten⟩

/-- **No lost update**, in every run in which no request that expects a version is overtaken
between its version read and its `UPDATE`. -/
theorem no_lost_update {h : List Event} {s : State}
    (hr : server.RunIf ExpectingNotOvertaken h s) : NoLostUpdate h where
  overwrites_expected user e he c v hc hv := (expecting_commit_compares hr user e he c v hc hv).1
  never_overwrites user := by
    -- the earlier write left version `v + 1`, the later one replaced a row of version `v`
    refine List.pairwise_of_forall_mem_list fun later hl earlier he c c' v hc hc' hv hv' => ?_
    intro heq
    have hlater := (expecting_commit_compares hr user later hl c v hc hv).1
    have hearlier := (expecting_commit_compares hr user earlier he c' v hc' hv').2
    rw [heq, hearlier] at hlater
    omega

/-- A `PUT` of the settings. -/
def putSettings (expected : Option Int) (data : Json) : Request :=
  .putNamespace "settings" ⟨expected, none, data⟩

/-- Two `PUT`s of a user, one after the other. -/
def serialSchedule (expected : Option Int) : List Action :=
  [⟨7, .receive 0 (putSettings expected .null)⟩, ⟨7, .advance 0 10⟩, ⟨7, .advance 0 11⟩,
    ⟨7, .advance 0 12⟩, ⟨7, .receive 1 (putSettings expected (.bool true))⟩, ⟨7, .advance 1 13⟩,
    ⟨7, .advance 1 14⟩, ⟨7, .advance 1 15⟩]

theorem no_lost_update_serial :
    server.meets ExpectingNotOvertaken ([], server.init) (serialSchedule (some 0)) = true ∧
      NoLostUpdate (server.exec ([], server.init) (serialSchedule (some 0))).1 :=
  ⟨by decide, no_lost_update (Machine.runIf_exec (by decide))⟩

/-- Two `PUT`s of a user that both read the version before either writes. -/
def overlappingSchedule (expected : Option Int) : List Action :=
  [⟨7, .receive 0 (putSettings expected .null)⟩,
    ⟨7, .receive 1 (putSettings expected (.bool true))⟩, ⟨7, .advance 0 10⟩, ⟨7, .advance 0 11⟩,
    ⟨7, .advance 1 12⟩, ⟨7, .advance 1 13⟩, ⟨7, .advance 0 14⟩, ⟨7, .advance 1 15⟩]

/-- Both of two overlapping `PUT`s that expect version `0` succeed, and the second overwrites the
first, which has made it version `1`. -/
theorem overlapping_puts_lose_update :
    server.Run (server.exec ([], server.init) (overlappingSchedule (some 0))).1
        (server.exec ([], server.init) (overlappingSchedule (some 0))).2 ∧
      ¬ NoLostUpdate (server.exec ([], server.init) (overlappingSchedule (some 0))).1 := by
  refine ⟨Machine.run_exec _, fun hn => ?_⟩
  have h := hn.overwrites_expected 7 _ List.mem_cons_self _ 0 rfl rfl
  exact absurd h (by decide)

/-! ## The stored row moves forward -/

/-- The event wrote the user's row: it committed a write or inserted the empty row. -/
def Event.Writes (user : UserId) (e : Event) : Prop :=
  match e.kind with
  | .request _ _ (.committed _ _ _) => e.user = user
  | .request _ _ (.ensured (some _)) => e.user = user
  | _ => False

section Rows

variable {s s' : State} {user other : UserId} {kind : EventKind}

theorem Event.shown?_other (hne : user ≠ other) : Event.shown? other ⟨user, kind⟩ = none := by
  rw [Event.shown?]
  split <;> simp [hne]

/-- A step of the user that writes no row leaves the row, and shows nothing else. -/
theorem Effect.shows_row (he : Effect s user s' kind) (hw : ¬ Event.Writes user ⟨user, kind⟩) :
    s'.docs (user, 1) = s.docs (user, 1) ∧
      ∀ x, Event.shown? user ⟨user, kind⟩ = some x → s.docs (user, 1) = some x := by
  cases he with
  | received kind phase fresh planned =>
      rcases planned with ⟨e, -, rfl⟩ | ⟨plan, -, -, rfl⟩ <;> exact ⟨rfl, fun _ hx => by cases hx⟩
  | subscribed => exact ⟨rfl, fun _ hx => by cases hx⟩
  | dropped receiver => exact ⟨rfl, fun _ hx => by cases hx⟩
  | moved inFlight statement =>
      cases statement with
      | ensured plan now =>
          -- on a missing row the insert is a write, which `hw` excludes
          cases hrow : s.docs (user, 1) with
          | none => simp [Event.Writes, hrow] at hw
          | some row => simp [State.setRequest, ensureUserDocument, Event.shown?, hrow]
      | loaded answer stored => exact ⟨rfl, fun x hx => by simpa [Event.shown?, stored] using hx⟩
      | committed => exact absurd rfl hw
      | checked | failed | sent | cleaned | answered => exact ⟨rfl, fun _ hx => by cases hx⟩

/-- A step that writes the user's row inserts it or commits a write. -/
theorem Effect.writes_row (he : Effect s user s' kind) (hw : Event.Writes other ⟨user, kind⟩) :
    (∃ row, s.docs (other, 1) = none ∧ s'.docs (other, 1) = some row ∧
      Event.shown? other ⟨user, kind⟩ = some row) ∨
      ∃ c, Event.commit? other ⟨user, kind⟩ = some c := by
  cases he with
  | received kind phase fresh planned =>
      rcases planned with ⟨e, -, rfl⟩ | ⟨plan, -, -, rfl⟩ <;> exact hw.elim
  | subscribed => exact hw.elim
  | dropped receiver => exact hw.elim
  | moved inFlight statement =>
      cases statement with
      | ensured plan now =>
          cases hrow : s.docs (user, 1) with
          | some row => simp [Event.Writes, hrow] at hw
          | none =>
              obtain rfl : user = other := by simpa [Event.Writes, hrow] using hw
              refine Or.inl ⟨emptyDocument now, hrow, ?_, by simp [Event.shown?]⟩
              simp [State.setRequest, ensureUserDocument, hrow]
      | committed p answer current now stored => exact Or.inr ⟨_, if_pos hw⟩
      | loaded | checked | failed | sent | cleaned | answered => exact hw.elim

end Rows

theorem shown_of_commit {e : Event} {user : UserId} {c : Commit} (h : e.commit? user = some c) :
    e.shown? user = some c.written ∧ e.Writes user := by
  obtain ⟨actor, kind⟩ := e
  rw [Event.commit?] at h
  split at h
  · rename_i id request expected old new hkind
    cases hkind
    split_ifs at h with hactor
    cases h
    exact ⟨if_pos hactor, hactor⟩
  · cases h

/-- When no write is overtaken, each write gives the user's row a higher version. -/
theorem rows_advance (user : UserId) :
    server.Advances NotOvertaken (fun s => s.docs (user, 1)) (Event.shown? user)
      (Event.Writes user) (fun x y => x.version < y.version) where
  trans := Int.lt_trans
  keeps {h s a s' e} hr hs hc hw := by
    obtain ⟨huser, he⟩ := step_effect hs
    obtain ⟨actor, kind⟩ := e
    subst huser
    by_cases hother : a.user = user
    · subst hother
      exact he.shows_row hw
    · refine ⟨(userView_eq_iff.1 (he.keeps_other (Ne.symm hother))).1 1, fun x hx => ?_⟩
      cases (Event.shown?_other hother).symm.trans hx
  moves {h s a s' e} hr hs hc hw := by
    obtain ⟨huser, he⟩ := step_effect hs
    obtain ⟨actor, kind⟩ := e
    subst huser
    rcases he.writes_row hw with ⟨row, hnone, hrow, hshown⟩ | ⟨c, hcommit⟩
    · refine ⟨row, hrow, hshown, fun x hx => ?_⟩
      cases hnone.symm.trans hx
    · -- the write is not overtaken, so the version it read is the version it replaces
      obtain ⟨id, request, current, heq, hold, hnew, -, hversion, hnot⟩ :=
        commit_step hr.run hs hcommit
      cases heq
      refine ⟨c.written, hnew, (shown_of_commit hcommit).1, fun x hx => ?_⟩
      cases hold.symm.trans hx
      rw [hversion, hnot hc]
      exact Int.lt_succ _

/-! ## Versions identify the content -/

/-- The answer that a request in this phase is about to give. -/
def Phase.response? : Phase → Option Response
  | .sending _ response => some response
  | .cleaning response => some response
  | .answering response => some response
  | _ => none

/-- The plan that a request in this phase is about to follow. -/
def Phase.plan? : Phase → Option Plan
  | .ensuring plan => some plan
  | .reading plan => some plan
  | _ => none

/-- The run has shown a row of this version. -/
def HasShown (h : List Event) (user : UserId) (version : Int) : Prop :=
  ∃ e ∈ h, ∃ row, e.shown? user = some row ∧ row.version = version

/-- Requests follow the plan of their path and are about to answer versions that were stored. -/
structure Faithful (h : List Event) (s : State) : Prop where
  planned : ∀ key r plan, s.requests key = some r → r.phase.plan? = some plan →
    r.request.plan = .ok plan
  answers : ∀ user id r response v, s.requests (user, id) = some r →
    r.phase.response? = some response → response.version? = some v → HasShown h user v

/-- What an event answered came from the plan of its request and told a version that was stored. -/
structure Event.Faithful (e : Event) (earlier : List Event) : Prop where
  loaded : ∀ id request row response,
    e.kind = .request id request (.loaded row response) →
      ∃ answer, request.plan = .ok (.load answer) ∧ response = answer.respond row
  tells : ∀ user response v, e.response? user = some response → response.version? = some v →
    HasShown (e :: earlier) user v

theorem HasShown.cons {h : List Event} {user : UserId} {v : Int} (hs : HasShown h user v)
    (e : Event) : HasShown (e :: h) user v := by
  obtain ⟨e', he', row, hrow, hv⟩ := hs
  exact ⟨e', List.mem_cons_of_mem _ he', row, hrow, hv⟩

/-- What a request in flight is about to do after its next statement. -/
theorem Statement.faithful {docs docs' : Documents} {hub hub' : Hub} {user : UserId}
    {phase phase' : Phase} {progress : Progress} (hst : Statement docs hub user phase docs' hub'
      phase' progress) (id : Nat) (request : Request) :
    (∀ plan, phase'.plan? = some plan → phase.plan? = some plan) ∧
      ∀ response v, phase'.response? = some response → response.version? = some v →
        phase.response? = some response ∨
          ∃ row, Event.shown? user ⟨user, .request id request progress⟩ = some row ∧
            row.version = v := by
  cases hst with
  | ensured plan now => exact ⟨fun _ h => h, fun _ _ h => (nomatch h)⟩
  | committed p answer current now stored =>
      refine ⟨fun _ h => (nomatch h), fun response v h hv => Or.inr ⟨_, if_pos rfl, ?_⟩⟩
      cases h
      exact (answer.tells hv).symm
  | sent event response =>
      refine ⟨fun plan h => ?_, fun response v h _ => Or.inl ?_⟩ <;> split at h
      · cases h
      · cases h
      · exact h
      · exact h
  | cleaned response => exact ⟨fun _ h => (nomatch h), fun _ _ h _ => Or.inl h⟩
  | loaded | checked | failed | answered => exact ⟨fun _ h => (nomatch h), fun _ _ h => (nomatch h)⟩

section Step

variable {h : List Event} {s s' : State} {user : UserId} {kind : EventKind}

/-- An event keeps what was faithful, when it leaves the requests. -/
theorem Faithful.cons (hf : Faithful h s) (e : Event) {t : State}
    (hrequests : t.requests = s.requests) : Faithful (e :: h) t where
  planned key r plan hr hp := hf.planned key r plan (hrequests ▸ hr) hp
  answers user id r response v hr hresp hv :=
    (hf.answers user id r response v (hrequests ▸ hr) hresp hv).cons e

/-- A request that follows its plan, and is about to answer a version that was stored, may be put
in place of another. -/
theorem Faithful.setRequest (hf : Faithful h s) {e : Event} (t : State)
    (hrequests : t.requests = s.requests) {id : Nat} {request : Request} {phase : Phase}
    (hplan : ∀ plan, phase.plan? = some plan → request.plan = .ok plan)
    (hresponse : ∀ response v, phase.response? = some response → response.version? = some v →
      HasShown (e :: h) user v) :
    Faithful (e :: h) (t.setRequest user id ⟨request, phase⟩) where
  planned key r plan hr hp := by
    by_cases hkey : key = (user, id)
    · subst hkey
      simp only [State.setRequest, Function.update_self, Option.some.injEq] at hr
      subst hr
      exact hplan plan hp
    · simp only [State.setRequest, Function.update_of_ne hkey, hrequests] at hr
      exact hf.planned key r plan hr hp
  answers other i r response v hr hresp hv := by
    by_cases hkey : (other, i) = (user, id)
    · simp only [State.setRequest, hkey, Function.update_self, Option.some.injEq] at hr
      obtain ⟨rfl, rfl⟩ := Prod.mk.inj hkey
      subst hr
      exact hresponse response v hresp hv
    · simp only [State.setRequest, Function.update_of_ne hkey, hrequests] at hr
      exact (hf.answers other i r response v hr hresp hv).cons e

/-- One step keeps requests faithful. -/
theorem Effect.faithful (he : Effect s user s' kind) (hf : Faithful h s) :
    Faithful (⟨user, kind⟩ :: h) s' := by
  cases he with
  | received kind phase fresh planned =>
      rcases planned with ⟨e, rfl, -⟩ | ⟨plan, hplan, rfl, -⟩
      · exact hf.setRequest s rfl (fun _ hp => nomatch hp) fun _ _ hr => nomatch hr
      · refine hf.setRequest s rfl (fun plan' hp => ?_) fun _ _ hr => nomatch hr
        cases hp
        exact hplan
  | @moved id request phase phase' docs hub progress inFlight statement =>
      obtain ⟨hplan, hresponse⟩ := statement.faithful id request
      refine hf.setRequest { s with docs := docs, hub := hub } rfl
        (fun plan hp => hf.planned _ _ plan inFlight (hplan plan hp)) fun response v hr hv => ?_
      rcases hresponse response v hr hv with hbefore | ⟨row, hrow, hversion⟩
      · exact (hf.answers _ _ _ response v inFlight hbefore hv).cons _
      · exact ⟨_, List.mem_cons_self, row, hrow, hversion⟩
  | subscribed => exact hf.cons _ rfl
  | dropped receiver => exact hf.cons _ rfl

/-- What a step answers is faithful. -/
theorem Effect.event_faithful (he : Effect s user s' kind) (hf : Faithful h s) :
    Event.Faithful ⟨user, kind⟩ h := by
  cases he with
  | received kind phase fresh planned =>
      rcases planned with ⟨e, -, rfl⟩ | ⟨plan, -, -, rfl⟩ <;>
        exact ⟨fun _ _ _ _ h => by (cases h), fun _ _ _ h => by (cases h)⟩
  | moved inFlight statement =>
      cases statement with
      | loaded answer stored =>
          constructor
          · intro _ _ _ _ h
            cases h
            exact ⟨answer, hf.planned _ _ _ inFlight rfl, rfl⟩
          · intro user response v h hv
            simp only [Event.response?] at h
            split_ifs at h with huser
            cases h
            subst huser
            exact ⟨_, List.mem_cons_self, _, if_pos rfl, (answer.tells hv).symm⟩
      | answered response =>
          refine ⟨fun _ _ _ _ h => by (cases h), fun user response' v h hv => ?_⟩
          simp only [Event.response?] at h
          split_ifs at h with huser
          cases h
          subst huser
          exact (hf.answers _ _ _ response v inFlight rfl hv).cons _
      | ensured | checked | committed | failed | sent | cleaned =>
          exact ⟨fun _ _ _ _ h => by (cases h), fun _ _ _ h => by (cases h)⟩
  | subscribed => exact ⟨fun _ _ _ _ h => by (cases h), fun _ _ _ h => by (cases h)⟩
  | dropped receiver => exact ⟨fun _ _ _ _ h => by (cases h), fun _ _ _ h => by (cases h)⟩

end Step

/-- One step keeps requests faithful, and so is what it answers. -/
theorem step_faithful {h : List Event} {s s' : State} {a : Action} {e : Event}
    (hf : Faithful h s) (hs : step s a = some (s', e)) : Faithful (e :: h) s' ∧ e.Faithful h := by
  obtain ⟨huser, he⟩ := step_effect hs
  obtain ⟨actor, kind⟩ := e
  subst huser
  exact ⟨he.faithful hf, he.event_faithful hf⟩

theorem run_faithful {h : List Event} {s : State} (hr : server.Run h s) : Faithful h s :=
  hr.invariant (I := Faithful) ⟨fun _ _ _ h0 => by (cases h0), fun _ _ _ _ _ h0 => by (cases h0)⟩
    fun _ _ _ _ _ _ ih hs _ => (step_faithful ih hs).1

/-- A version that a run has answered was stored before. -/
theorem answered_shown {h : List Event} {s : State} (hr : server.Run h s) {user : UserId}
    {e : Event} {response : Response} {v : Int} (he : e ∈ h)
    (hresp : e.response? user = some response) (hv : response.version? = some v) :
    HasShown h user v := by
  obtain ⟨later, earlier, heq⟩ := List.append_of_mem he
  have hfaithful := hr.forall_steps (P := Event.Faithful)
    (fun h s a s' e hr hs _ => (step_faithful (run_faithful hr) hs).2) later e earlier heq
  obtain ⟨e', he', hshown⟩ := hfaithful.tells user response v hresp hv
  exact ⟨e', heq ▸ List.mem_append_right later he', hshown⟩

/-- Each committed write raises the version of the row it replaced by one, versions only grow, one
version has one content, and a `GET` that sends the version of an earlier answer gets a 304 only
when no later version has been written. -/
structure VersionsIdentify (h : List Event) : Prop where
  raises_by_one : ∀ user, ∀ e ∈ h, ∀ c, e.commit? user = some c →
    c.written.version = c.overwritten.version + 1
  never_repeats : ∀ user, h.Pairwise fun later earlier => ∀ c c', later.commit? user = some c →
    earlier.commit? user = some c' → c'.written.version < c.written.version
  never_down : ∀ user, h.Pairwise fun later earlier => ∀ row row',
    later.shown? user = some row → earlier.shown? user = some row' → row'.version ≤ row.version
  same_version_same_data : ∀ user, ∀ e ∈ h, ∀ e' ∈ h, ∀ row row', e.shown? user = some row →
    e'.shown? user = some row' → row.version = row'.version → SameData row row'
  not_modified : ∀ user later earlier id v row,
    h = later ++ ⟨user, .request id (.getSnapshot (some v)) (.loaded row .notModified)⟩ :: earlier →
      (∃ e ∈ earlier, ∃ response, e.response? user = some response ∧ response.version? = some v) →
        row.version = v ∧ ∀ e ∈ earlier, ∀ c, e.commit? user = some c → c.written.version ≤ v

/-- A 304 means that the row read is at most the version sent. -/
theorem not_modified_le {since : Option Int} {v : Int} {row : Snapshot}
    (hsince : since = some v) (h : snapshotAnswer since row = .notModified) : row.version ≤ v := by
  subst hsince
  by_contra hlt
  simp [snapshotAnswer, hlt] at h

section Identify

variable {h : List Event} {s : State} {user : UserId}

/-- Two rows that a run shows with one version are one row. -/
theorem row_of_version (hr : server.RunIf NotOvertaken h s) {e e' : Event} (he : e ∈ h)
    (he' : e' ∈ h) {row row' : Snapshot} (hrow : e.shown? user = some row)
    (hrow' : e'.shown? user = some row') (hv : row.version = row'.version) : row = row' := by
  have hordered := (rows_advance user).ordered hr
  rcases Machine.rel_of_mem hordered he he' with hord | hord | rfl
  · rcases hord _ _ hrow hrow' with hlt | ⟨heq, -⟩
    · omega
    · exact heq.symm
  · rcases hord _ _ hrow' hrow with hlt | ⟨heq, -⟩
    · omega
    · exact heq
  · exact Option.some.inj (hrow.symm.trans hrow')

/-- What was shown before a row is read has at most its version. -/
theorem shown_le_stored (hr : server.RunIf NotOvertaken h s) {row : Snapshot}
    (hstored : s.docs (user, 1) = some row) :
    ∀ e ∈ h, ∀ x, e.shown? user = some x → x.version ≤ row.version := by
  intro e he x hx
  obtain ⟨y, hy, hxy⟩ := (rows_advance user).shown_le hr e he x hx
  cases hstored.symm.trans hy
  rcases hxy with hlt | rfl
  · exact Int.le_of_lt hlt
  · exact Int.le_refl _

/-- **One 304** to a version that was answered before: it is the version stored, and no write is
above it. -/
theorem not_modified_current (hr : server.RunIf NotOvertaken h s) {s' : State} {a : Action}
    {id : Nat} {v : Int} {row : Snapshot}
    (hs : step s a =
      some (s', ⟨user, .request id (.getSnapshot (some v)) (.loaded row .notModified)⟩))
    (hanswered : ∃ e ∈ h, ∃ response, e.response? user = some response ∧
      response.version? = some v) :
    row.version = v ∧ ∀ e ∈ h, ∀ c, e.commit? user = some c → c.written.version ≤ v := by
  obtain ⟨e, he, response, hresponse, hv⟩ := hanswered
  obtain ⟨answer, hplan, hanswer⟩ := (step_faithful (run_faithful hr.run) hs).2.loaded _ _ _ _ rfl
  cases hplan
  have hle : row.version ≤ v := not_modified_le rfl hanswer.symm
  have hstored := ((rows_advance user).keeps hr hs trivial not_false).2 row (if_pos rfl)
  have hbefore := shown_le_stored hr hstored
  obtain ⟨e', he', shown, hshown, rfl⟩ := answered_shown hr.run he hresponse hv
  refine ⟨Int.le_antisymm hle (hbefore _ he' _ hshown), fun e he c hc => ?_⟩
  exact Int.le_trans (hbefore e he _ (shown_of_commit hc).1) hle

end Identify

/-- **The version identifies the content**, in every run in which no write is overtaken between its
version read and its `UPDATE`. -/
theorem versions_identify {h : List Event} {s : State} (hr : server.RunIf NotOvertaken h s) :
    VersionsIdentify h where
  raises_by_one user := by
    refine hr.forall_events fun h s a s' e hr hs hcond c hc => ?_
    obtain ⟨id, request, current, rfl, -, -, -, hwritten, hnot⟩ := commit_step hr.run hs hc
    rw [hwritten, hnot hcond]
  never_repeats user := by
    refine ((rows_advance user).ordered hr).imp fun hord c c' hc hc' => ?_
    obtain ⟨hshown, hwrites⟩ := shown_of_commit hc
    rcases hord _ _ hshown (shown_of_commit hc').1 with hlt | ⟨-, hnot⟩
    · exact hlt
    · exact absurd hwrites hnot
  never_down user := by
    refine ((rows_advance user).ordered hr).imp fun hord row row' hrow hrow' => ?_
    rcases hord _ _ hrow hrow' with hlt | ⟨rfl, -⟩
    · exact Int.le_of_lt hlt
    · exact Int.le_refl _
  same_version_same_data user := by
    intro e he e' he' row row' hrow hrow' hv
    cases row_of_version hr he he' hrow hrow' hv
    exact ⟨rfl, rfl, rfl, rfl⟩
  not_modified user := by
    intro later earlier id v row heq
    refine hr.forall_steps (P := fun e earlier =>
      e = ⟨user, .request id (.getSnapshot (some v)) (.loaded row .notModified)⟩ →
      (∃ e ∈ earlier, ∃ response, e.response? user = some response ∧
        response.version? = some v) →
        row.version = v ∧ ∀ e ∈ earlier, ∀ c, e.commit? user = some c → c.written.version ≤ v)
      ?_ later _ earlier heq rfl
    rintro h s a s' e hr hs - rfl hanswered
    exact not_modified_current hr hs hanswered

/-- A `GET`, the same `GET` with the version it told, a `PUT`, and that `GET` again. -/
def conditionalSchedule : List Action :=
  [⟨7, .receive 0 (.getSnapshot none)⟩, ⟨7, .advance 0 10⟩, ⟨7, .advance 0 11⟩,
    ⟨7, .receive 1 (.getSnapshot (some 0))⟩, ⟨7, .advance 1 12⟩, ⟨7, .advance 1 13⟩,
    ⟨7, .receive 2 (putSettings none .null)⟩, ⟨7, .advance 2 14⟩, ⟨7, .advance 2 15⟩,
    ⟨7, .advance 2 16⟩, ⟨7, .receive 3 (.getSnapshot (some 0))⟩, ⟨7, .advance 3 17⟩,
    ⟨7, .advance 3 18⟩]

theorem versions_identify_conditional :
    server.meets NotOvertaken ([], server.init) conditionalSchedule = true ∧
      VersionsIdentify (server.exec ([], server.init) conditionalSchedule).1 :=
  ⟨by decide, versions_identify (Machine.runIf_exec (by decide))⟩

/-- Two overlapping `PUT`s that expect nothing both write version `1`. -/
theorem overlapping_puts_share_version :
    server.Run (server.exec ([], server.init) (overlappingSchedule none)).1
        (server.exec ([], server.init) (overlappingSchedule none)).2 ∧
      ¬ VersionsIdentify (server.exec ([], server.init) (overlappingSchedule none)).1 := by
  refine ⟨Machine.run_exec _, fun hv => ?_⟩
  have h := hv.raises_by_one 7 _ List.mem_cons_self _ rfl
  exact absurd h (by decide)

end AnyPlayerSync.Sync
