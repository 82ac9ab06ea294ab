import AnyPlayerSync.Foundation.Machine
import AnyPlayerSync.Foundation.Table
import AnyPlayerSync.Passages.Worker
import Mathlib.Data.List.Nodup
import Mathlib.Logic.Function.Basic

/-!
# The ingest queue under concurrency

Any number of `enqueue` calls, interleaved at their three statements, and any number of workers,
whose `claim` and `finish` are one statement each, with time passing between the steps. A worker
that has claimed a job may take arbitrarily long; one that dies, or whose `finish` the database
refuses, is never heard of again. A claim is known by a number (its token), so that the claims that
one worker makes in turn stay apart.

`CallStep` says once what a statement of a call does, `QueueEffect` what a step does to the rows and
to the workers.
-/

set_option autoImplicit false

namespace AnyPlayerSync.Passages

open AnyPlayerSync.Foundation
open AnyPlayerSync.Sync (Time UserId)

/-! ## State -/

/-- Where a worker stands between its claim and its finish. -/
inductive WorkPhase where
  | claimed
  | fetching (enabled pending : List Str)
  | ended
  deriving DecidableEq

/-- A worker with the job it claimed. -/
structure Holder where
  job : Job
  claimedAt : Time
  phase : WorkPhase

/-- The next statement of an `enqueue` call. -/
inductive CallPhase where
  | inserting
  | requeueing
  | selecting
  | returned
  deriving DecidableEq

/-- The arguments of an `enqueue` call, and where it is. -/
structure EnqueueCall where
  track : TrackRequest
  requestedBy : Option UserId
  auto : Bool
  force : Bool
  phase : CallPhase

/-- `nextId` is the sequence behind `BIGSERIAL`, `nextToken` counts the claims. -/
structure Queue where
  now : Time
  rows : List JobRow
  nextId : Nat
  nextToken : Nat
  calls : Nat → Option EnqueueCall
  holders : Nat → Option Holder

/-- An empty table at time zero, without calls or workers. -/
def Queue.empty : Queue where
  now := 0
  rows := []
  nextId := 1
  nextToken := 0
  calls _ := none
  holders _ := none

/-! ## Actions and events -/

/-- A scheduling choice; `locked` are the rows that other transactions hold at a claim. -/
inductive QueueAction where
  | tick (elapsed : Nat)
  | call (id : Nat) (track : TrackRequest) (requestedBy : Option UserId) (auto force : Bool)
  | proceed (id : Nat)
  | failCall (id : Nat)
  | claim (locked : List Nat)
  | fetch (token : Nat) (enabled : List Str)
  | finish (token : Nat) (fetched : Str → Fetched) (clock : Str)
  | die (token : Nat)

/-- What a step tells. -/
inductive QueueEvent where
  | ticked
  | called (id : Nat)
  | inserted (id job : Nat)
  | requeued (id job : Nat)
  | passed (id : Nat)
  | answered (id : Nat) (answer : Enqueue)
  | callFailed (id : Nat)
  | claimed (token job : Nat) (at_ : Time)
  | fetching (token job : Nat) (pending : List Str)
  | finished (token job : Nat) (enabled : List Str) (written : Option JobRow)
  | died (token : Nat)

/-! ## The machine -/

/-- The call is elsewhere. -/
def Queue.setCall (s : Queue) (id : Nat) (c : EnqueueCall) : Queue :=
  { s with calls := Function.update s.calls id (some c) }

theorem Queue.setCall_self (s : Queue) (id : Nat) (c : EnqueueCall) :
    (s.setCall id c).calls id = some c :=
  Function.update_self ..

theorem Queue.setCall_cases {s : Queue} {id i : Nat} {c c' : EnqueueCall}
    (h : (s.setCall id c).calls i = some c') : c' = c ∨ s.calls i = some c' := by
  by_cases hi : i = id
  · subst hi
    rw [Queue.setCall_self] at h
    exact Or.inl (Option.some.inj h).symm
  · exact Or.inr ((Function.update_of_ne hi ..).symm.trans h)

/-- The worker is elsewhere. -/
def Queue.setHolder (s : Queue) (token : Nat) (holder : Holder) : Queue :=
  { s with holders := Function.update s.holders token (some holder) }

/-- The next statement of an `enqueue` call. An insert takes an id from the sequence even when the
row conflicts. -/
def proceedCall (U : UnicodeTables) (s : Queue) (id : Nat) (c : EnqueueCall) :
    Option (Queue × QueueEvent) :=
  let keys := jobKeys U c.track
  match c.phase with
  | .inserting =>
      -- the sequence moves on even when the row conflicts
      let s' := { s with nextId := s.nextId + 1 }
      match insertJob s.rows (newJob s.nextId keys c.track c.requestedBy c.auto s.now) with
      | some rows =>
          some ({ s' with rows := rows }.setCall id { c with phase := .returned },
            .inserted id s.nextId)
      | none => some (s'.setCall id { c with phase := .requeueing }, .passed id)
  | .requeueing =>
      match requeueJob s.rows keys c.force s.now with
      | some (rows, job) =>
          some ({ s with rows := rows }.setCall id { c with phase := .returned },
            .requeued id job)
      | none => some (s.setCall id { c with phase := .selecting }, .passed id)
  | .selecting =>
      match selectStatus s.rows keys with
      | some status =>
          some (s.setCall id { c with phase := .returned }, .answered id (enqueueAnswer status))
      -- the `SELECT` expects a row
      | none => some (s.setCall id { c with phase := .returned }, .callFailed id)
  | .returned => none

/-- One step of the queue. -/
def queueStep (U : UnicodeTables) (s : Queue) : QueueAction → Option (Queue × QueueEvent)
  | .tick elapsed => some ({ s with now := s.now + elapsed }, .ticked)
  | .call id track requestedBy auto force =>
      match s.calls id with
      | some _ => none
      | none => some (s.setCall id ⟨track, requestedBy, auto, force, .inserting⟩, .called id)
  | .proceed id =>
      match s.calls id with
      | none => none
      | some c => proceedCall U s id c
  | .failCall id =>
      match s.calls id with
      | none => none
      | some c =>
          if c.phase = .returned then none
          else some (s.setCall id { c with phase := .returned }, .callFailed id)
  | .claim locked =>
      match claim s.rows locked s.now with
      | none => none
      | some (rows, job) =>
          some ({ s with rows := rows, nextToken := s.nextToken + 1 }.setHolder s.nextToken
              ⟨job, s.now, .claimed⟩,
            .claimed s.nextToken job.id s.now)
  | .fetch token enabled =>
      match s.holders token with
      | none => none
      | some holder =>
          if holder.phase = .claimed then
            let pending := pendingSources enabled holder.job.results
            some (s.setHolder token { holder with phase := .fetching enabled pending },
              .fetching token holder.job.id pending)
          else none
  | .finish token fetched clock =>
      match s.holders token with
      | none => none
      | some holder =>
          match holder.phase with
          | .fetching enabled pending =>
              let results := attemptResults holder.job.results pending fetched
              let rows := finish s.rows holder.job results clock s.now
              some ({ s with rows := rows }.setHolder token { holder with phase := .ended },
                .finished token holder.job.id enabled (rows.find? fun r => r.id = holder.job.id))
          | _ => none
  | .die token =>
      match s.holders token with
      | none => none
      | some holder =>
          if holder.phase = .ended then none
          else some (s.setHolder token { holder with phase := .ended }, .died token)

/-- The ingest queue, started on an empty table. -/
def queue (U : UnicodeTables) : Machine Queue QueueAction QueueEvent where
  init := Queue.empty
  step := queueStep U

/-! ## What a statement of a call can do -/

/-- The row with a key tuple. -/
def rowOf (k : JobKeys) (rows : List JobRow) : Option JobRow := Table.row? JobRow.keys k rows

/-- The row that the first statement of a call inserts. -/
def EnqueueCall.newRow (U : UnicodeTables) (s : Queue) (c : EnqueueCall) : JobRow :=
  newJob s.nextId (jobKeys U c.track) c.track c.requestedBy c.auto s.now

/-- What the next statement of a call can do. -/
inductive CallStep (U : UnicodeTables) (s : Queue) (id : Nat) (c : EnqueueCall) :
    Queue → QueueEvent → Prop
  | inserted (phase : c.phase = .inserting) (fresh : rowOf (jobKeys U c.track) s.rows = none) :
      CallStep U s id c
        (Queue.setCall { s with rows := s.rows ++ [c.newRow U s], nextId := s.nextId + 1 } id
          { c with phase := .returned })
        (.inserted id s.nextId)
  | conflicted {r : JobRow} (phase : c.phase = .inserting)
      (found : rowOf (jobKeys U c.track) s.rows = some r) :
      CallStep U s id c
        (Queue.setCall { s with nextId := s.nextId + 1 } id { c with phase := .requeueing })
        (.passed id)
  | requeued {found : JobRow} (phase : c.phase = .requeueing)
      (hfound : s.rows.find? (fun r => Requeues (jobKeys U c.track) c.force s.now r) = some found) :
      CallStep U s id c
        (Queue.setCall
          { s with
            rows := s.rows.map fun r =>
              if Requeues (jobKeys U c.track) c.force s.now r then r.requeued s.now else r }
          id { c with phase := .returned })
        (.requeued id found.id)
  | kept (phase : c.phase = .requeueing)
      (hnone : ∀ r ∈ s.rows, ¬ Requeues (jobKeys U c.track) c.force s.now r) :
      CallStep U s id c (s.setCall id { c with phase := .selecting }) (.passed id)
  | selected {r : JobRow} (phase : c.phase = .selecting)
      (found : rowOf (jobKeys U c.track) s.rows = some r) :
      CallStep U s id c (s.setCall id { c with phase := .returned })
        (.answered id (enqueueAnswer r.status))
  | missing (phase : c.phase = .selecting) (hnone : rowOf (jobKeys U c.track) s.rows = none) :
      CallStep U s id c (s.setCall id { c with phase := .returned }) (.callFailed id)

theorem rowOf_none_iff {k : JobKeys} {rows : List JobRow} :
    rowOf k rows = none ↔ ∀ r ∈ rows, r.keys ≠ k := Table.row?_eq_none_iff

theorem exists_row_of_any {k : JobKeys} {rows : List JobRow}
    (h : (rows.any fun r => r.keys = k) = true) : ∃ r, rowOf k rows = some r := by
  obtain ⟨r, hr, hk⟩ := List.any_eq_true.1 h
  cases hrow : rowOf k rows with
  | none => exact absurd (of_decide_eq_true hk) (rowOf_none_iff.1 hrow r hr)
  | some r => exact ⟨r, rfl⟩

theorem proceedCall_callStep {U : UnicodeTables} {s s' : Queue} {id : Nat} {c : EnqueueCall}
    {e : QueueEvent} (h : proceedCall U s id c = some (s', e)) : CallStep U s id c s' e := by
  rw [proceedCall.eq_def] at h
  cases hphase : c.phase with
  | inserting =>
      simp only [hphase, insertJob] at h
      split_ifs at h with hkeys
      · cases h
        obtain ⟨r, hr⟩ := exists_row_of_any hkeys
        exact .conflicted hphase hr
      · cases h
        refine .inserted hphase (rowOf_none_iff.2 fun r hr hrow => hkeys ?_)
        exact List.any_eq_true.2 ⟨r, hr, decide_eq_true hrow⟩
  | requeueing =>
      cases hreq : requeueJob s.rows (jobKeys U c.track) c.force s.now with
      | none =>
          simp only [hphase, hreq] at h
          cases h
          refine .kept hphase fun r hr hrow => ?_
          have hnone := Option.map_eq_none_iff.1 hreq
          exact List.find?_eq_none.1 hnone r hr (decide_eq_true hrow)
      | some p =>
          simp only [hphase, hreq] at h
          cases h
          obtain ⟨found, hfound, heq⟩ := Option.map_eq_some_iff.1 hreq
          cases heq
          exact .requeued hphase hfound
  | selecting =>
      cases hsel : selectStatus s.rows (jobKeys U c.track) with
      | none =>
          simp only [hphase, hsel] at h
          cases h
          exact .missing hphase (Option.map_eq_none_iff.1 hsel)
      | some status =>
          simp only [hphase, hsel] at h
          cases h
          obtain ⟨r, hr, rfl⟩ := Option.map_eq_some_iff.1 hsel
          exact .selected hphase hr
  | returned => simp [hphase] at h

/-! ## What a step can do -/

/-- What each action asks of the state and does to it. -/
inductive QueueTurn (U : UnicodeTables) (s : Queue) : QueueAction → Queue → QueueEvent → Prop
  | tick (elapsed : Nat) : QueueTurn U s (.tick elapsed) { s with now := s.now + elapsed } .ticked
  | call {id : Nat} {track : TrackRequest} {requestedBy : Option UserId} {auto force : Bool}
      (fresh : s.calls id = none) :
      QueueTurn U s (.call id track requestedBy auto force)
        (s.setCall id ⟨track, requestedBy, auto, force, .inserting⟩) (.called id)
  | proceed {id : Nat} {c : EnqueueCall} {s' : Queue} {e : QueueEvent}
      (there : s.calls id = some c) (step : CallStep U s id c s' e) :
      QueueTurn U s (.proceed id) s' e
  | failCall {id : Nat} {c : EnqueueCall} (there : s.calls id = some c)
      (phase : c.phase ≠ .returned) :
      QueueTurn U s (.failCall id) (s.setCall id { c with phase := .returned }) (.callFailed id)
  | claim {locked : List Nat} {found : JobRow} (mem : found ∈ s.rows)
      (claimable : Claimable s.now found) :
      QueueTurn U s (.claim locked)
        (Queue.setHolder
          { s with
            rows := s.rows.map fun r => if r.id = found.id then r.claimed s.now else r
            nextToken := s.nextToken + 1 }
          s.nextToken ⟨(found.claimed s.now).job, s.now, .claimed⟩)
        (.claimed s.nextToken found.id s.now)
  | fetch {token : Nat} {holder : Holder} {enabled : List Str}
      (held : s.holders token = some holder) (phase : holder.phase = .claimed) :
      QueueTurn U s (.fetch token enabled)
        (s.setHolder token
          { holder with phase := .fetching enabled (pendingSources enabled holder.job.results) })
        (.fetching token holder.job.id (pendingSources enabled holder.job.results))
  | finish {token : Nat} {holder : Holder} {enabled pending : List Str} {fetched : Str → Fetched}
      {clock : Str} (held : s.holders token = some holder)
      (phase : holder.phase = .fetching enabled pending) :
      QueueTurn U s (.finish token fetched clock)
        (Queue.setHolder
          { s with
            rows := finish s.rows holder.job (attemptResults holder.job.results pending fetched)
              clock s.now }
          token { holder with phase := .ended })
        (.finished token holder.job.id enabled
          ((finish s.rows holder.job (attemptResults holder.job.results pending fetched) clock
            s.now).find? fun r => r.id = holder.job.id))
  | die {token : Nat} {holder : Holder} (held : s.holders token = some holder)
      (phase : holder.phase ≠ .ended) :
      QueueTurn U s (.die token) (s.setHolder token { holder with phase := .ended })
        (.died token)

/-- What a step can do to the clock, the rows and the workers. -/
inductive QueueEffect (s : Queue) : Queue → QueueEvent → Prop
  | ticked (elapsed : Nat) : QueueEffect s { s with now := s.now + elapsed } .ticked
  /-- A step of an `enqueue` call that writes no row. -/
  | idle {nextId : Nat} {calls : Nat → Option EnqueueCall} {e : QueueEvent}
      (grows : s.nextId ≤ nextId)
      (event : (∃ id, e = .called id ∨ e = .passed id ∨ e = .callFailed id) ∨
        ∃ id answer, e = .answered id answer) :
      QueueEffect s { s with nextId := nextId, calls := calls } e
  | inserted {calls : Nat → Option EnqueueCall} (id : Nat) {row : JobRow}
      (fresh : row.id = s.nextId) (freshKeys : ∀ r ∈ s.rows, r.keys ≠ row.keys)
      (status : row.status = .queued) (results : row.results = .obj []) :
      QueueEffect s
        { s with rows := s.rows ++ [row], nextId := s.nextId + 1, calls := calls }
        (.inserted id s.nextId)
  | requeued {calls : Nat → Option EnqueueCall} (id : Nat) {keys : JobKeys} {force : Bool}
      {found : JobRow} (hfound : s.rows.find? (fun r => Requeues keys force s.now r) = some found) :
      QueueEffect s
        { s with
          rows := s.rows.map fun r => if Requeues keys force s.now r then r.requeued s.now else r
          calls := calls }
        (.requeued id found.id)
  | claimed {found : JobRow} (mem : found ∈ s.rows) (claimable : Claimable s.now found) :
      QueueEffect s
        (Queue.setHolder
          { s with
            rows := s.rows.map fun r => if r.id = found.id then r.claimed s.now else r
            nextToken := s.nextToken + 1 }
          s.nextToken ⟨(found.claimed s.now).job, s.now, .claimed⟩)
        (.claimed s.nextToken found.id s.now)
  | fetching {token : Nat} {holder : Holder} (enabled : List Str)
      (held : s.holders token = some holder) (phase : holder.phase = .claimed) :
      QueueEffect s
        (s.setHolder token
          { holder with phase := .fetching enabled (pendingSources enabled holder.job.results) })
        (.fetching token holder.job.id (pendingSources enabled holder.job.results))
  | finished {token : Nat} {holder : Holder} {enabled pending : List Str} (fetched : Str → Fetched)
      (clock : Str) (held : s.holders token = some holder)
      (phase : holder.phase = .fetching enabled pending) :
      QueueEffect s
        (Queue.setHolder
          { s with
            rows := finish s.rows holder.job (attemptResults holder.job.results pending fetched)
              clock s.now }
          token { holder with phase := .ended })
        (.finished token holder.job.id enabled
          ((finish s.rows holder.job (attemptResults holder.job.results pending fetched) clock
            s.now).find? fun r => r.id = holder.job.id))
  | died {token : Nat} {holder : Holder} (held : s.holders token = some holder)
      (phase : holder.phase ≠ .ended) :
      QueueEffect s (s.setHolder token { holder with phase := .ended }) (.died token)

theorem earliest_mem {rows : List JobRow} {r : JobRow} (h : earliest rows = some r) : r ∈ rows := by
  induction rows with
  | nil => cases h
  | cons first rows ih =>
      rw [earliest] at h
      cases hbest : earliest rows with
      | none =>
          rw [hbest] at h
          cases h
          exact List.mem_cons_self
      | some best =>
          rw [hbest] at h
          simp only at h
          split_ifs at h
          · cases h
            exact List.mem_cons_of_mem _ (ih hbest)
          · cases h
            exact List.mem_cons_self

theorem claim_spec {rows rows' : List JobRow} {locked : List Nat} {now : Time} {job : Job}
    (h : claim rows locked now = some (rows', job)) :
    ∃ found ∈ rows, Claimable now found ∧ job = (found.claimed now).job ∧
      rows' = rows.map fun r => if r.id = found.id then r.claimed now else r := by
  obtain ⟨found, hfound, heq⟩ := Option.map_eq_some_iff.1 h
  cases heq
  have hmem := List.mem_filter.1 (earliest_mem hfound)
  exact ⟨found, hmem.1, (of_decide_eq_true hmem.2).1, rfl, rfl⟩

theorem CallStep.effect {U : UnicodeTables} {s s' : Queue} {id : Nat} {c : EnqueueCall}
    {e : QueueEvent} (hs : CallStep U s id c s' e) : QueueEffect s s' e := by
  cases hs with
  | inserted phase fresh => exact .inserted id rfl (rowOf_none_iff.1 fresh) rfl rfl
  | conflicted phase found => exact .idle (Nat.le_succ _) (Or.inl ⟨id, Or.inr (Or.inl rfl)⟩)
  | requeued phase hfound => exact .requeued id hfound
  | kept phase hnone => exact .idle (Nat.le_refl _) (Or.inl ⟨id, Or.inr (Or.inl rfl)⟩)
  | selected phase found => exact .idle (Nat.le_refl _) (Or.inr ⟨id, _, rfl⟩)
  | missing phase hnone => exact .idle (Nat.le_refl _) (Or.inl ⟨id, Or.inr (Or.inr rfl)⟩)

theorem queueStep_turn {U : UnicodeTables} {s s' : Queue} {a : QueueAction} {e : QueueEvent}
    (h : queueStep U s a = some (s', e)) : QueueTurn U s a s' e := by
  cases a with
  | tick elapsed => cases h; exact .tick elapsed
  | call id track requestedBy auto force =>
      cases hc : s.calls id <;> simp only [queueStep, hc] at h <;> cases h
      exact .call hc
  | proceed id =>
      cases hc : s.calls id <;> simp only [queueStep, hc] at h
      · cases h
      · exact .proceed hc (proceedCall_callStep h)
  | failCall id =>
      cases hc : s.calls id <;> simp only [queueStep, hc] at h
      · cases h
      · split_ifs at h with hphase
        cases h
        exact .failCall hc hphase
  | claim locked =>
      cases hc : claim s.rows locked s.now with
      | none => simp only [queueStep, hc] at h; cases h
      | some p =>
          obtain ⟨rows, job⟩ := p
          simp only [queueStep, hc] at h
          cases h
          obtain ⟨found, hmem, hclaimable, rfl, rfl⟩ := claim_spec hc
          exact .claim hmem hclaimable
  | fetch token enabled =>
      cases hheld : s.holders token with
      | none => simp only [queueStep, hheld] at h; cases h
      | some holder =>
          simp only [queueStep, hheld] at h
          split_ifs at h with hphase
          cases h
          exact .fetch hheld hphase
  | finish token fetched clock =>
      cases hheld : s.holders token with
      | none => simp only [queueStep, hheld] at h; cases h
      | some holder =>
          cases hphase : holder.phase <;> simp only [queueStep, hheld, hphase] at h <;> cases h
          exact .finish hheld hphase
  | die token =>
      cases hheld : s.holders token with
      | none => simp only [queueStep, hheld] at h; cases h
      | some holder =>
          simp only [queueStep, hheld] at h
          split_ifs at h with hphase
          cases h
          exact .die hheld hphase

theorem queueStep_effect {U : UnicodeTables} {s s' : Queue} {a : QueueAction} {e : QueueEvent}
    (h : queueStep U s a = some (s', e)) : QueueEffect s s' e := by
  cases queueStep_turn h with
  | tick elapsed => exact .ticked elapsed
  | @call id _ _ _ _ fresh => exact .idle (Nat.le_refl _) (Or.inl ⟨id, Or.inl rfl⟩)
  | proceed there step => exact step.effect
  | @failCall id _ there phase =>
      exact .idle (Nat.le_refl _) (Or.inl ⟨id, Or.inr (Or.inr rfl)⟩)
  | claim mem claimable => exact .claimed mem claimable
  | @fetch _ _ enabled held phase => exact .fetching enabled held phase
  | @finish _ _ _ _ fetched clock held phase => exact .finished fetched clock held phase
  | die held phase => exact .died held phase

theorem QueueEffect.now_le {q q' : Queue} {e : QueueEvent} (he : QueueEffect q q' e) :
    q.now ≤ q'.now := by
  cases he with
  | ticked elapsed => exact Int.le_add_of_nonneg_right (Int.natCast_nonneg _)
  | idle | inserted | requeued | claimed | fetching | finished | died => exact Int.le_refl _

/-! ## Rows are unique -/

/-- No step takes a row away, and the only new row takes its id from the sequence. -/
theorem QueueEffect.ids {s s' : Queue} {e : QueueEvent} (he : QueueEffect s s' e) :
    (s'.rows.map JobRow.id = s.rows.map JobRow.id ∧ s.nextId ≤ s'.nextId) ∨
      (s'.rows.map JobRow.id = s.rows.map JobRow.id ++ [s.nextId] ∧ s'.nextId = s.nextId + 1) := by
  cases he with
  | ticked elapsed => exact Or.inl ⟨rfl, Nat.le_refl _⟩
  | idle grows event => exact Or.inl ⟨rfl, grows⟩
  | @inserted calls id row fresh freshKeys status results =>
      refine Or.inr ⟨?_, rfl⟩
      rw [List.map_append, List.map_singleton, fresh]
  | requeued id hfound =>
      exact Or.inl ⟨Table.column_map (fun r => by split_ifs <;> rfl) _, Nat.le_refl _⟩
  | claimed mem claimable =>
      exact Or.inl ⟨Table.column_map (fun r => by split_ifs <;> rfl) _, Nat.le_refl _⟩
  | fetching enabled held phase => exact Or.inl ⟨rfl, Nat.le_refl _⟩
  | finished fetched clock held phase =>
      exact Or.inl ⟨Table.column_map (fun r => by split_ifs <;> rfl) _, Nat.le_refl _⟩
  | died held phase => exact Or.inl ⟨rfl, Nat.le_refl _⟩

/-- Ids come from the sequence and keys are checked on insertion, so no two rows share one. -/
structure UniqueRows (s : Queue) : Prop where
  nodup : (s.rows.map JobRow.id).Nodup
  below : ∀ row ∈ s.rows, row.id < s.nextId
  keys : (s.rows.map JobRow.keys).Nodup

section Steps

variable {s s' : Queue} {e : QueueEvent}

theorem UniqueRows.eq_of_id (hu : UniqueRows s) {r r' : JobRow} (hr : r ∈ s.rows)
    (hr' : r' ∈ s.rows) (hid : r.id = r'.id) : r = r' :=
  List.inj_on_of_nodup_map hu.nodup hr hr' hid

/-- An update that keeps the ids keeps them unique. -/
theorem UniqueRows.update (hu : UniqueRows s) {f : JobRow → JobRow} (hf : ∀ r, (f r).id = r.id)
    (hk : ∀ r, (f r).keys = r.keys) {t : Queue} (hrows : t.rows = s.rows.map f)
    (hnext : s.nextId ≤ t.nextId) : UniqueRows t where
  nodup := by
    rw [hrows]
    exact Table.nodup_map hf hu.nodup
  below row hrow := by
    rw [hrows] at hrow
    obtain ⟨r, hr, rfl⟩ := List.mem_map.1 hrow
    rw [hf r]
    exact Nat.lt_of_lt_of_le (hu.below r hr) hnext
  keys := by
    rw [hrows]
    exact Table.nodup_map hk hu.keys

theorem QueueEffect.uniqueRows (he : QueueEffect s s' e) (hu : UniqueRows s) : UniqueRows s' := by
  cases he with
  | ticked elapsed => exact ⟨hu.nodup, hu.below, hu.keys⟩
  | idle grows event =>
      exact ⟨hu.nodup, fun row hrow => Nat.lt_of_lt_of_le (hu.below row hrow) grows, hu.keys⟩
  | @inserted calls id row fresh freshKeys status results =>
      refine ⟨?_, fun r hr => ?_, ?_⟩
      · apply Table.nodup_append hu.nodup
        intro r hr
        rw [fresh]
        exact Nat.ne_of_lt (hu.below r hr)
      · rcases List.mem_append.1 hr with hr | hr
        · exact Nat.lt_succ_of_lt (hu.below r hr)
        · rw [List.mem_singleton.1 hr, fresh]
          exact Nat.lt_succ_self _
      · exact Table.nodup_append hu.keys freshKeys
  | requeued id hfound =>
      exact hu.update (fun r => by split_ifs <;> rfl) (fun r => by split_ifs <;> rfl) rfl
        (Nat.le_refl _)
  | claimed mem claimable =>
      exact hu.update (fun r => by split_ifs <;> rfl) (fun r => by split_ifs <;> rfl) rfl
        (Nat.le_refl _)
  | finished fetched clock held phase =>
      exact hu.update (fun r => by split_ifs <;> rfl) (fun r => by split_ifs <;> rfl) rfl
        (Nat.le_refl _)
  | fetching enabled held phase => exact ⟨hu.nodup, hu.below, hu.keys⟩
  | died held phase => exact ⟨hu.nodup, hu.below, hu.keys⟩

theorem run_uniqueRows {U : UnicodeTables} {C : List QueueEvent → Queue → QueueEvent → Prop}
    {h : List QueueEvent} (hr : (queue U).RunIf C h s) : UniqueRows s := by
  refine hr.invariant (I := fun _ s => UniqueRows s) ?_ ?_
  · exact ⟨List.nodup_nil, fun _ hrow => (nomatch hrow), List.nodup_nil⟩
  · intro _ _ _ _ _ _ ih hs _
    exact (queueStep_effect hs).uniqueRows ih

end Steps

end AnyPlayerSync.Passages
