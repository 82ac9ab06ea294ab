import AnyPlayerSync.Sync.Server

/-!
# Users are isolated

Every statement names the user's row, every channel operation the user's entry of the map, and a
request its own record, so a step reads and changes its user's part of the state only
(`server_separated`). By unwinding, what a user observes along any schedule does not change when
the steps of all other users are deleted from it (`users_isolated`).
-/

set_option autoImplicit false

namespace AnyPlayerSync.Sync

open AnyPlayerSync.Foundation

/-- A user's part of the state: its documents, its channel and receivers with the events sent to
them, and its requests. -/
structure UserView where
  docs : Int → Option Snapshot
  hub : Option Nat × Nat × List Receiver
  requests : Nat → Option InFlight

/-- The user's part of a state. -/
def userView (user : UserId) (s : State) : UserView where
  docs id := s.docs (user, id)
  hub := s.hub.userView user
  requests id := s.requests (user, id)

theorem userView_eq_iff {user : UserId} {s t : State} :
    userView user s = userView user t ↔
      (∀ id, s.docs (user, id) = t.docs (user, id)) ∧ s.hub.userView user = t.hub.userView user ∧
        ∀ id, s.requests (user, id) = t.requests (user, id) := by
  simp [userView, funext_iff]

/-! ## The document table -/

section Documents

variable {docs docs' : Documents} {user other : UserId}

theorem update_row_own (h : ∀ id, docs (user, id) = docs' (user, id)) (row : Option Snapshot)
    (id : Int) :
    Function.update docs (user, 1) row (user, id) =
      Function.update docs' (user, 1) row (user, id) := by
  by_cases hid : id = 1
  · simp [hid]
  · simp [Function.update, hid, h id]

theorem update_row_other (h : other ≠ user) (row : Option Snapshot) (id : Int) :
    Function.update docs (user, 1) row (other, id) = docs (other, id) := by
  simp [Function.update, h]

theorem ensureUserDocument_own (h : ∀ id, docs (user, id) = docs' (user, id)) (now : Time)
    (id : Int) :
    ensureUserDocument docs user now (user, id) = ensureUserDocument docs' user now (user, id) := by
  rw [ensureUserDocument, ensureUserDocument, h 1]
  cases docs' (user, 1) with
  | none => exact update_row_own h _ id
  | some row => exact h id

theorem ensureUserDocument_other (h : other ≠ user) (now : Time) (id : Int) :
    ensureUserDocument docs user now (other, id) = docs (other, id) := by
  rw [ensureUserDocument]
  cases docs (user, 1) with
  | none => exact update_row_other h _ id
  | some row => rfl

end Documents

/-! ## Steps -/

section Steps

variable {s t : State} {user other : UserId}

theorem setRequest_own (h : userView user s = userView user t) (id : Nat) (r : InFlight) :
    userView user (s.setRequest user id r) = userView user (t.setRequest user id r) := by
  rw [userView_eq_iff] at h ⊢
  refine ⟨h.1, h.2.1, fun i => ?_⟩
  by_cases hi : i = id
  · simp [State.setRequest, hi]
  · simp [State.setRequest, Function.update, hi, h.2.2 i]

theorem setRequest_other (h : other ≠ user) (id : Nat) (r : InFlight) :
    userView other (s.setRequest user id r) = userView other s := by
  rw [userView_eq_iff]
  exact ⟨fun _ => rfl, rfl, fun i => by simp [State.setRequest, Function.update, h]⟩

/-- The view of a state whose documents and channels were replaced. -/
theorem withTables_own (h : userView user s = userView user t) {docs docs' : Documents}
    {hub hub' : Hub} (hd : ∀ id, docs (user, id) = docs' (user, id))
    (hh : hub.userView user = hub'.userView user) :
    userView user { s with docs := docs, hub := hub } =
      userView user { t with docs := docs', hub := hub' } := by
  rw [userView_eq_iff] at h ⊢
  exact ⟨hd, hh, h.2.2⟩

theorem withTables_other {docs : Documents} {hub : Hub}
    (hd : ∀ id, docs (other, id) = s.docs (other, id))
    (hh : hub.userView other = s.hub.userView other) :
    userView other { s with docs := docs, hub := hub } = userView other s := by
  rw [userView_eq_iff]
  exact ⟨hd, hh, fun _ => rfl⟩

variable {docs docs' : Documents} {hub hub' : Hub}

/-- The user's part of what a statement leaves. -/
def statementView (user : UserId) (p : Documents × Hub × Phase × Progress) :
    (Int → Option Snapshot) × (Option Nat × Nat × List Receiver) × Phase × Progress :=
  (fun id => p.1 (user, id), p.2.1.userView user, p.2.2)

theorem statementView_congr (hd : ∀ id, docs (user, id) = docs' (user, id))
    (hh : hub.userView user = hub'.userView user) (q : Phase × Progress) :
    statementView user (docs, hub, q) = statementView user (docs', hub', q) := by
  simp only [statementView, hd, hh]

/-- The next statement of a request reads and changes its user's part only. -/
theorem advance_own (hd : ∀ id, docs (user, id) = docs' (user, id))
    (hh : hub.userView user = hub'.userView user) (now : Time) (phase : Phase) :
    (advance docs hub user now phase).map (statementView user) =
      (advance docs' hub' user now phase).map (statementView user) := by
  cases phase with
  | ensuring plan =>
      simp only [advance, Option.map_some, hd 1]
      rw [statementView_congr (ensureUserDocument_own hd now) hh]
  | reading plan =>
      cases plan with
      | load answer =>
          simp only [advance, selectSnapshot, hd 1]
          cases docs' (user, 1) <;> simp only [Option.map_some] <;>
            rw [statementView_congr hd hh]
      | write p answer =>
          simp only [advance, selectVersion, hd 1]
          cases docs' (user, 1) with
          | none => simp only [Option.map_some]; rw [statementView_congr hd hh]
          | some row =>
              simp only
              cases checkVersion p.expectedVersion row.version <;> simp only [Option.map_some] <;>
                rw [statementView_congr hd hh]
  | writing p answer current =>
      simp only [advance, updateRow, hd 1]
      by_cases hs : p.storable = true
      · cases docs' (user, 1) with
        | none => simp only [Option.map_some]; rw [statementView_congr hd hh]
        | some row =>
            simp only [if_pos hs, Option.map_some]
            rw [statementView_congr (update_row_own hd _) hh]
      · cases docs' (user, 1) <;> simp only [if_neg hs, Option.map_some] <;>
          rw [statementView_congr hd hh]
  -- the flag that asks for the cleanup depends on the user's channel only
  | sending event response =>
      obtain ⟨hv, hs⟩ := Hub.sendUserEvent_own hh event
      simp only [advance, Option.map_some, hs]
      rw [statementView_congr hd hv]
  | cleaning response =>
      simp only [advance, Option.map_some]
      rw [statementView_congr hd (Hub.cleanupUser_own hh)]
  | answering response =>
      simp only [advance, Option.map_some]
      rw [statementView_congr hd hh]
  | finished => rfl

/-- A statement of a request leaves the other users' parts as they were. -/
theorem Statement.keeps_other (h : other ≠ user) {phase phase' : Phase} {progress : Progress}
    (hst : Statement docs hub user phase docs' hub' phase' progress) :
    (∀ id, docs' (other, id) = docs (other, id)) ∧ hub'.userView other = hub.userView other := by
  -- every statement names `user`, by the key of a row or of a channel
  cases hst with
  | ensured plan now => exact ⟨ensureUserDocument_other h now, rfl⟩
  | committed p answer current now _ => exact ⟨update_row_other h _, rfl⟩
  | sent event response => exact ⟨fun _ => rfl, Hub.sendUserEvent_other h event⟩
  | cleaned response => exact ⟨fun _ => rfl, Hub.cleanupUser_other h⟩
  | loaded | checked | failed | answered => exact ⟨fun _ => rfl, rfl⟩

/-- A step leaves the views of the other users as they were. -/
theorem Effect.keeps_other (h : other ≠ user) {kind : EventKind} (he : Effect s user t kind) :
    userView other t = userView other s := by
  cases he with
  | received kind phase _ _ => exact setRequest_other h ..
  | moved _ statement =>
      obtain ⟨hd, hh⟩ := statement.keeps_other h
      exact (setRequest_other h ..).trans (withTables_other hd hh)
  | subscribed => exact withTables_other (fun _ => rfl) (Hub.subscribeUser_other h)
  | dropped receiver => exact withTables_other (fun _ => rfl) (Hub.dropReceiver_other h receiver)

/-- A request's next statement, on two states with one view of its user. -/
theorem step_advance_own (h : userView user s = userView user t) (id : Nat) (now : Time) :
    (step s ⟨user, .advance id now⟩).map (fun p => (userView user p.1, p.2)) =
      (step t ⟨user, .advance id now⟩).map (fun p => (userView user p.1, p.2)) := by
  obtain ⟨hdocs, hhub, hreq⟩ := userView_eq_iff.1 h
  simp only [step, hreq id]
  cases t.requests (user, id) with
  | none => rfl
  | some r =>
      have hadv := advance_own hdocs hhub now r.phase
      cases hs : advance s.docs s.hub user now r.phase with
      | none =>
          rw [hs, Option.map_none, eq_comm, Option.map_eq_none_iff] at hadv
          simp only [hs, hadv]
      | some p =>
          cases ht : advance t.docs t.hub user now r.phase with
          | none => rw [hs, ht] at hadv; cases hadv
          | some q =>
              -- equal views of the outcomes: one phase, one progress, tables that agree on `user`
              obtain ⟨docs, hub, phase, progress⟩ := p
              obtain ⟨docs', hub', phase', progress'⟩ := q
              rw [hs, ht] at hadv
              simp only [Option.map_some, statementView, Option.some.injEq, Prod.mk.injEq] at hadv
              obtain ⟨hd, hh, rfl, rfl⟩ := hadv
              simp only [hs, ht, Option.map_some]
              rw [setRequest_own (withTables_own h (congrFun hd) hh)]

end Steps

/-- **Each step reads and changes the part of its own user.** -/
theorem server_separated : server.Separated Action.user userView where
  reads_own {s t a} h := by
    obtain ⟨user, op⟩ := a
    obtain ⟨hdocs, hhub, hreq⟩ := userView_eq_iff.1 h
    cases op with
    | receive id request =>
        simp only [server, step, hreq id]
        cases t.requests (user, id) with
        | some r => rfl
        | none =>
            cases request.plan <;> simp only [Option.map_some] <;> rw [setRequest_own h]
    | advance id now => exact step_advance_own h id now
    | fail id k =>
        simp only [server, step, hreq id]
        cases t.requests (user, id) with
        | none => rfl
        | some r =>
            simp only
            cases r.phase.failures[k]? with
            | none => rfl
            | some e => simp only [Option.map_some]; rw [setRequest_own h]
    | subscribe =>
        simp only [server, step, Option.map_some]
        rw [withTables_own h hdocs (Hub.subscribeUser_own hhub)]
    | drop receiver =>
        simp only [server, step, Option.map_some]
        rw [withTables_own h hdocs (Hub.dropReceiver_own hhub receiver)]
  keeps_others hne hstep := (step_effect hstep).2.keeps_other fun h => hne h.symm

/-- **Users are isolated.** Along every schedule, from every state, a user observes the same events
of its own steps (answers included) and the same part of the state after each of them (its document
and the events sent to its receivers) as when the steps of all other users are deleted. -/
theorem users_isolated (user : UserId) (s : State) (schedule : List Action) :
    server.observe Action.user userView user s schedule =
      server.observe Action.user userView user s
        (schedule.filter fun a => a.user = user) :=
  server_separated.observe_purge user schedule rfl

end AnyPlayerSync.Sync
