import AnyPlayerSync.Passages.Enqueue

/-!
# Is `enqueue` atomic?

The three statements of `enqueue`, run at one point in time with nobody in between (`enqueue`),
against the calls of the concurrent queue. A call is linearizable when some state between its first
and its last statement makes the atomic function answer and write what the call did.

Most calls are. A forced call is not when a worker finishes the job after the call tried to requeue
it and before it reads the status: it then answers `RecentlyDone`, which a forced call run at one
point in time never does.
-/

set_option autoImplicit false

namespace AnyPlayerSync.Passages

open AnyPlayerSync.Foundation

/-! ## The atomic function -/

/-- `enqueue` with no other writer: the rows afterwards and the answer. -/
def enqueue (U : UnicodeTables) (s : Queue) (c : EnqueueCall) : Option (List JobRow × Enqueue) :=
  let keys := jobKeys U c.track
  match insertJob s.rows (newJob s.nextId keys c.track c.requestedBy c.auto s.now) with
  | some rows => some (rows, .queued)
  | none =>
      match requeueJob s.rows keys c.force s.now with
      | some (rows, _) => some (rows, .queued)
      | none => (selectStatus s.rows keys).map fun status => (s.rows, enqueueAnswer status)

/-- The step is the first statement of a call. -/
def firstStatement (id : Nat) (st : QueueRunStep) : Bool :=
  match st.action, st.before.calls id with
  | .proceed i, some c => i = id && decide (c.phase = .inserting)
  | _, _ => false

/-- The states from the start of a trace's latest step back to the first statement of a call. -/
def callSpan (id : Nat) : List QueueRunStep → List Queue
  | [] => []
  | st :: l => st.before :: if firstStatement id st then [] else callSpan id l

/-- A call that returned `answer` with the latest step is linearizable: at some state of its span
the atomic function answers the same and writes the same, be it nothing or what the latest step
wrote; the call's earlier statements wrote nothing. -/
def Linearizes (U : UnicodeTables) (id : Nat) (c : EnqueueCall) (answer : Enqueue)
    (st : QueueRunStep) (l : List QueueRunStep) : Prop :=
  (∀ st' ∈ l, st'.event = .passed id → st'.after.rows = st'.before.rows) ∧
    ∃ s ∈ callSpan id (st :: l), ∃ rows, enqueue U s c = some (rows, answer) ∧
      ((rows = s.rows ∧ st.after.rows = st.before.rows) ∨
        (s = st.before ∧ rows = st.after.rows))

/-! ## What the atomic function answers -/

/-- A status that a call takes for finished. -/
def JobStatus.Settled (status : JobStatus) : Prop := status = .done ∨ status = .failed

instance (status : JobStatus) : Decidable status.Settled := inferInstanceAs (Decidable (_ ∨ _))

section Atomic

variable {U : UnicodeTables} {s : Queue} {c : EnqueueCall}

theorem enqueueAnswer_settled {status : JobStatus} :
    enqueueAnswer status = .recentlyDone ↔ status.Settled := by
  cases status <;> simp [enqueueAnswer, JobStatus.Settled]

theorem insertJob_none {r : JobRow} (hrow : rowOf (jobKeys U c.track) s.rows = some r) :
    insertJob s.rows (newJob s.nextId (jobKeys U c.track) c.track c.requestedBy c.auto s.now) =
      none := by
  obtain ⟨hr, hk⟩ := rowOf_spec hrow
  exact if_pos (List.any_eq_true.2 ⟨r, hr, decide_eq_true hk⟩)

theorem enqueue_inserted (hrow : rowOf (jobKeys U c.track) s.rows = none) :
    enqueue U s c = some (s.rows ++ [c.newRow U s], .queued) := by
  have hinsert : insertJob s.rows (newJob s.nextId (jobKeys U c.track) c.track c.requestedBy
      c.auto s.now) = some (s.rows ++ [c.newRow U s]) := by
    refine if_neg fun hany => ?_
    obtain ⟨r, hr, hk⟩ := List.any_eq_true.1 hany
    exact rowOf_none_iff.1 hrow r hr (of_decide_eq_true hk)
  simp only [enqueue, hinsert]

theorem enqueue_requeued {found : JobRow}
    (hfound : s.rows.find? (fun r => Requeues (jobKeys U c.track) c.force s.now r) = some found)
    (hu : UniqueRows s) :
    enqueue U s c = some (s.rows.map fun r =>
      if Requeues (jobKeys U c.track) c.force s.now r then r.requeued s.now else r, .queued) := by
  obtain ⟨hmem, hreq⟩ := find_spec hfound
  have hrow : rowOf (jobKeys U c.track) s.rows = some found := by
    rw [← hreq.1]
    exact hu.rowOf_mem hmem
  simp only [enqueue, insertJob_none hrow, requeueJob, hfound, Option.map_some]

/-- Where the row of the keys is not to be requeued, the atomic function reads its status. -/
theorem enqueue_selected (hu : UniqueRows s) {r : JobRow}
    (hrow : rowOf (jobKeys U c.track) s.rows = some r)
    (hkeep : ¬ Requeues (jobKeys U c.track) c.force s.now r) :
    enqueue U s c = some (s.rows, enqueueAnswer r.status) := by
  have hnone : s.rows.find? (fun r => Requeues (jobKeys U c.track) c.force s.now r) = none := by
    apply List.find?_eq_none.2
    intro r' hr' hreq
    have hreq := of_decide_eq_true hreq
    have hrow' := hu.rowOf_mem hr'
    rw [hreq.1, hrow] at hrow'
    exact hkeep (Option.some.inj hrow' ▸ hreq)
  simp only [enqueue, insertJob_none hrow, requeueJob, hnone, Option.map_none, selectStatus_eq,
    hrow, Option.map_some]

/-- A forced call that runs at one point in time requeues a finished job. -/
theorem enqueue_forced (hforce : c.force = true) {rows : List JobRow} :
    enqueue U s c ≠ some (rows, .recentlyDone) := by
  intro h
  cases hrow : rowOf (jobKeys U c.track) s.rows with
  | none => rw [enqueue_inserted hrow] at h; simp at h
  | some r =>
      rw [enqueue, insertJob_none hrow] at h
      cases hreq : requeueJob s.rows (jobKeys U c.track) c.force s.now with
      | some p => simp [hreq] at h
      | none =>
          simp only [hreq, selectStatus_eq, hrow, Option.map_some, Option.some.injEq,
            Prod.mk.injEq] at h
          obtain ⟨hr, hk⟩ := rowOf_spec hrow
          have hnone := List.find?_eq_none.1 (Option.map_eq_none_iff.1 hreq) r hr
          exact hnone (decide_eq_true ⟨hk, enqueueAnswer_settled.1 h.2, Or.inl hforce⟩)

end Atomic

/-! ## Between the requeue attempt and the status read -/

/-- The step changed the job of a key tuple. -/
def changesJob (k : JobKeys) (st : QueueRunStep) : Bool :=
  match rowOf k st.after.rows with
  | some r => st.event.job? = some r.id
  | none => false

/-- The job of a key tuple is done or failed after the step. -/
def settledAfter (k : JobKeys) (st : QueueRunStep) : Bool :=
  match rowOf k st.after.rows with
  | some r => decide r.status.Settled
  | none => false

/-- The last step that changed the job since the call's last statement was the finish of a worker
that left the job done or failed. -/
def settledSince (id : Nat) (k : JobKeys) : List QueueRunStep → Bool
  | [] => false
  | st :: l =>
      match st.event with
      | .passed i => if i = id then false else settledSince id k l
      | .finished .. => if changesJob k st then settledAfter k st else settledSince id k l
      | _ => if changesJob k st then false else settledSince id k l

theorem changesJob_of_row {k : JobKeys} {st : QueueRunStep} {r : JobRow}
    (hrow : rowOf k st.after.rows = some r) (hjob : st.event.job? = some r.id) :
    changesJob k st = true := by
  simp [changesJob, hrow, hjob]

section Reading

variable {U : UnicodeTables} {s s' : Queue} {a : QueueAction} {e : QueueEvent} {id : Nat}
  {c : EnqueueCall} {l : List QueueRunStep}

/-- A call that is about to read the status either has just run its requeue statement, which found
nothing to requeue, or was there before the step. -/
theorem selecting_cases (h : queueStep U s a = some (s', e)) (hc : s'.calls id = some c)
    (hphase : c.phase = .selecting) :
    (∃ before, s.calls id = some before ∧ before.phase = .requeueing ∧ s'.rows = s.rows ∧
        s'.now = s.now ∧ e = .passed id ∧
        ∀ r ∈ s.rows, ¬ Requeues (jobKeys U c.track) c.force s.now r) ∨
      (s.calls id = some c ∧ e ≠ .passed id) := by
  rcases queueStep_calls h with ⟨i, call, -, hcall, hstep⟩ | ⟨hother, -, hkept⟩
  · by_cases hid : id = i
    · subst hid
      cases hstep with
      | kept phase hnone =>
          rw [Queue.setCall_self] at hc
          cases hc
          exact Or.inl ⟨call, hcall, phase, rfl, rfl, rfl, hnone⟩
      | inserted | conflicted | requeued | selected | missing =>
          rw [Queue.setCall_self] at hc
          cases hc
          simp at hphase
    · rw [hstep.other hid] at hc
      refine Or.inr ⟨hc, ?_⟩
      cases hstep <;> intro he <;> cases he <;> exact hid rfl
  · rcases hkept id c hc with hold | hnew | hended
    · exact Or.inr ⟨hold, (hother id).2⟩
    · rw [hnew] at hphase
      cases hphase
    · rw [hended] at hphase
      cases hphase

theorem queueStep_now (h : queueStep U s a = some (s', e)) (hjob : e.job? ≠ none) :
    s'.now = s.now := by
  cases queueStep_effect h with
  | ticked elapsed => exact absurd rfl hjob
  | idle | inserted | requeued | claimed | fetching | finished | died => rfl

/-- What a step has done to the job of a key tuple: nothing, or it queued or claimed the job, or it
finished it. -/
theorem queueStep_after (hu : UniqueRows s) (h : queueStep U s a = some (s', e)) {k : JobKeys}
    {r : JobRow} (hrow : rowOf k s'.rows = some r) :
    (rowOf k s.rows = some r ∧ e.job? ≠ some r.id) ∨
      (¬ r.status.Settled ∧ e.job? = some r.id ∧
        ∀ token job enabled written, e ≠ .finished token job enabled written) ∨
      ∃ (old : JobRow) (attempts : Int) (results : StrMap Json) (token : Nat) (enabled : List Str),
        r = old.finished results attempts s.now ∧ e = .finished token r.id enabled (some r) := by
  have heffect := queueStep_row hu h k
  generalize rowOf k s.rows = row at heffect
  rw [hrow] at heffect
  generalize hafter : some r = row' at heffect
  cases heffect with
  | same other =>
      subst hafter
      exact Or.inl ⟨rfl, other r rfl⟩
  | inserted i called =>
      cases hafter
      refine Or.inr (Or.inl ⟨?_, rfl, fun _ _ _ _ => QueueEvent.noConfusion⟩)
      simp [EnqueueCall.newRow, newJob, JobStatus.Settled]
  | requeued i called requeues =>
      cases hafter
      refine Or.inr (Or.inl ⟨?_, rfl, fun _ _ _ _ => QueueEvent.noConfusion⟩)
      simp [JobRow.requeued, JobStatus.Settled]
  | claimed claimable =>
      cases hafter
      refine Or.inr (Or.inl ⟨?_, rfl, fun _ _ _ _ => QueueEvent.noConfusion⟩)
      simp [JobRow.claimed, JobStatus.Settled]
  | @finished old token holder enabled results held same =>
      cases hafter
      exact Or.inr (Or.inr ⟨old, _, results, token, enabled, rfl, rfl⟩)

/-- For a forced call that is about to read the status, the job is done or failed exactly when a
worker's finish has left it so since the call's requeue statement. -/
def SettledTracked (U : UnicodeTables) (l : List QueueRunStep) (s : Queue) : Prop :=
  ∀ id c, s.calls id = some c → c.phase = .selecting → c.force = true →
    ∀ r, rowOf (jobKeys U c.track) s.rows = some r →
      (r.status.Settled ↔ settledSince id (jobKeys U c.track) l = true)

theorem trace_settledTracked (ht : (queue U).Trace l s) : SettledTracked U l s := by
  refine ht.invariant (I := SettledTracked U) (fun _ _ hc => by cases hc) ?_
  intro l s a s' e ht ih hs id c hc hphase hforce r hrow
  rcases selecting_cases hs hc hphase with ⟨-, -, -, hrows, -, rfl, hnone⟩ | ⟨hold, hne⟩
  · rw [hrows] at hrow
    obtain ⟨hr, hk⟩ := rowOf_spec hrow
    have hnot : ¬ r.status.Settled := fun hset => hnone r hr ⟨hk, hset, Or.inl hforce⟩
    simp [settledSince, hnot]
  · have hih := ih id c hold hphase hforce
    have hchange (hjob : e.job? = some r.id) :
        changesJob (jobKeys U c.track) ⟨s, a, e, s'⟩ = true := changesJob_of_row hrow hjob
    rcases queueStep_after (run_uniqueRows ht.run) hs hrow with
      ⟨hbefore, hother⟩ | ⟨hbusy, hjob, hfinished⟩ | ⟨_, _, _, token, enabled, -, rfl⟩
    · have hkept : changesJob (jobKeys U c.track) ⟨s, a, e, s'⟩ = false := by
        simp [changesJob, hrow, hother]
      rw [hih r hbefore]
      cases e with
      | passed i =>
          have hi : i ≠ id := fun hi => hne (by rw [hi])
          simp [settledSince, hi]
      | ticked | called | inserted | requeued | answered | callFailed | claimed | fetching
      | finished | died => simp [settledSince, hkept]
    · have hchange := hchange hjob
      cases e with
      | passed i => cases hjob
      | finished token job enabled written => exact absurd rfl (hfinished token job enabled written)
      | ticked | called | inserted | requeued | answered | callFailed | claimed | fetching
      | died => simp [settledSince, hchange, hbusy]
    · have hchange := hchange rfl
      simp [settledSince, hchange, settledAfter, hrow]

/-! ## Calls that are not forced -/

/-- The call, run at this one point in time, answers `RecentlyDone` and writes nothing. -/
def Rests (U : UnicodeTables) (c : EnqueueCall) (s : Queue) : Prop :=
  enqueue U s c = some (s.rows, .recentlyDone)

/-- While a call that is not forced is about to read the status, the job is queued or running, or
the call could have answered `RecentlyDone` now or at a state of its span. -/
def RestTracked (U : UnicodeTables) (l : List QueueRunStep) (s : Queue) : Prop :=
  ∀ id c, s.calls id = some c → c.phase = .selecting → c.force = false →
    ∀ r, rowOf (jobKeys U c.track) s.rows = some r →
      ¬ r.status.Settled ∨ Rests U c s ∨ ∃ t ∈ callSpan id l, Rests U c t

theorem firstStatement_of_phase {st : QueueRunStep} {before : EnqueueCall}
    (hc : st.before.calls id = some before) (hphase : before.phase ≠ .inserting) :
    firstStatement id st = false := by
  rw [firstStatement]
  cases st.action with
  | proceed i =>
      by_cases hi : i = id
      · simp [hi, hc, hphase]
      · cases st.before.calls id <;> simp [hi]
  | tick | call | failCall | claim | fetch | finish | die => rfl

theorem trace_restTracked (ht : (queue U).Trace l s) : RestTracked U l s := by
  refine ht.invariant (I := RestTracked U) (fun _ _ hc => by cases hc) ?_
  intro l s a s' e ht ih hs id c hc hphase hforce r hrow
  have hu := run_uniqueRows ht.run
  have hu' := run_uniqueRows (ht.step hs).run
  rcases selecting_cases hs hc hphase with ⟨-, -, -, hrows, hnow, rfl, hnone⟩ | ⟨hold, hne⟩
  -- the requeue statement left the job, so it is not finished, or not long enough ago
  · by_cases hset : r.status.Settled
    · have hkeep : ¬ Requeues (jobKeys U c.track) c.force s'.now r := by
        rw [hnow]
        rw [hrows] at hrow
        exact hnone r (rowOf_spec hrow).1
      have hrest := enqueue_selected hu' hrow hkeep
      rw [enqueueAnswer_settled.2 hset] at hrest
      exact Or.inr (Or.inl hrest)
    · exact Or.inl hset
  · have hspan : callSpan id (⟨s, a, e, s'⟩ :: l) = s :: callSpan id l := by
      rw [callSpan, firstStatement_of_phase hold (by rw [hphase]; decide)]
      simp
    rcases queueStep_after hu hs hrow with
      ⟨hbefore, -⟩ | ⟨hbusy, -, -⟩ | ⟨old, attempts, results, token, enabled, rfl, rfl⟩
    -- the job is as it was; a state in which the call could rest is now behind
    · rcases ih id c hold hphase hforce r hbefore with hbusy | hrest | ⟨t, ht, hrest⟩
      · exact Or.inl hbusy
      · exact Or.inr (Or.inr ⟨s, by rw [hspan]; exact List.mem_cons_self, hrest⟩)
      · exact Or.inr (Or.inr ⟨t, by rw [hspan]; exact List.mem_cons_of_mem _ ht, hrest⟩)
    · exact Or.inl hbusy
    · by_cases hset : (old.finished results attempts s.now).status.Settled
      · have hnow := queueStep_now hs (Option.some_ne_none _)
        have hkeep : ¬ Requeues (jobKeys U c.track) c.force s'.now
            (old.finished results attempts s.now) := by
          rintro ⟨-, -, hforced | hage⟩
          · rw [hforce] at hforced
            cases hforced
          · rw [hnow] at hage
            simp only [JobRow.finished] at hage
            exact absurd hage (Int.not_lt.2 (Int.sub_le_self _ (by decide)))
        have hrest := enqueue_selected hu' hrow hkeep
        rw [enqueueAnswer_settled.2 hset] at hrest
        exact Or.inr (Or.inl hrest)
      · exact Or.inl hset

end Reading

/-! ## The exact condition -/

section Condition

variable {U : UnicodeTables} {l : List QueueRunStep} {st : QueueRunStep} {s : Queue} {id : Nat}
  {c : EnqueueCall} {answer : Enqueue}

theorem trace_cons (ht : (queue U).Trace (st :: l) s) :
    (queue U).Trace l st.before ∧ queueStep U st.before st.action = some (st.after, st.event) := by
  cases ht with
  | step ht hs => exact ⟨ht, hs⟩

/-- The statements of a call before its last one write nothing. -/
theorem passed_rows (ht : (queue U).Trace l s) {st' : QueueRunStep} (hst : st' ∈ l)
    (he : st'.event = .passed id) : st'.after.rows = st'.before.rows := by
  obtain ⟨_, -, hstep⟩ := ht.mem st' hst
  rw [he] at hstep
  rcases queueStep_calls hstep with ⟨i, call, -, -, hcall⟩ | ⟨hother, -, -⟩
  · generalize hafter : st'.after = after at hcall
    generalize hpassed : QueueEvent.passed id = e at hcall
    cases hcall with
    | conflicted | kept => rfl
    | inserted | requeued | selected | missing => cases hpassed
  · exact absurd rfl (hother id).2

/-- A call whose effect is that of the atomic function at its last statement. -/
theorem linearizes_here (ht : (queue U).Trace (st :: l) s)
    (h : enqueue U st.before c = some (st.after.rows, answer)) : Linearizes U id c answer st l :=
  ⟨fun _ hst he => passed_rows (trace_cons ht).1 hst he, st.before, List.mem_cons_self, _, h,
    Or.inr ⟨rfl, rfl⟩⟩

/-- A call that read the status of a job that it need not requeue. -/
theorem linearizes_selected (ht : (queue U).Trace (st :: l) s) {r : JobRow}
    (hrows : st.after.rows = st.before.rows)
    (hrow : rowOf (jobKeys U c.track) st.before.rows = some r)
    (hkeep : ¬ Requeues (jobKeys U c.track) c.force st.before.now r) :
    Linearizes U id c (enqueueAnswer r.status) st l := by
  apply linearizes_here ht
  rw [hrows]
  exact enqueue_selected (run_uniqueRows (trace_cons ht).1.run) hrow hkeep

/-- A call that is not forced and read a finished job could have rested at a state of its span. -/
theorem linearizes_unforced (ht : (queue U).Trace (st :: l) s) {r : JobRow}
    (hrows : st.after.rows = st.before.rows) (hc : st.before.calls id = some c)
    (hphase : c.phase = .selecting) (hforce : c.force = false)
    (hrow : rowOf (jobKeys U c.track) st.before.rows = some r) (hset : r.status.Settled) :
    Linearizes U id c .recentlyDone st l := by
  have htrace := (trace_cons ht).1
  rcases trace_restTracked htrace id c hc hphase hforce r hrow with hbusy | hrest | ⟨t, hmem, hrest⟩
  · exact absurd hset hbusy
  · exact linearizes_here ht (by rw [hrows]; exact hrest)
  · refine ⟨fun _ hst he => passed_rows htrace hst he, t, ?_, _, hrest, Or.inl ⟨rfl, hrows⟩⟩
    rw [callSpan, firstStatement_of_phase hc (by rw [hphase]; decide)]
    exact List.mem_cons_of_mem _ hmem

/-- **Which calls are linearizable.** A call that returned an answer is linearizable, unless it is
forced, returned with its status read, and the last change of the job after its requeue statement
was a finish that left the job done or failed. A forced call then, and only then, answers
`RecentlyDone`. -/
theorem enqueue_linearizable_iff (ht : (queue U).Trace (st :: l) s)
    (hret : st.event.answer? = some (id, answer)) (hc : st.before.calls id = some c) :
    (Linearizes U id c answer st l ↔
      ¬ (c.force = true ∧ c.phase = .selecting ∧ settledSince id (jobKeys U c.track) l = true)) ∧
    (c.force = true → (answer = .recentlyDone ↔
      c.phase = .selecting ∧ settledSince id (jobKeys U c.track) l = true)) := by
  obtain ⟨htrace, hs⟩ := trace_cons ht
  have hu := run_uniqueRows htrace.run
  have hstep := answered_callStep hs hret hc
  have hhere := @linearizes_here U l st s id c answer ht
  have hselected {r : JobRow} := @linearizes_selected U l st s id c ht r
  have hunforced {r : JobRow} := @linearizes_unforced U l st s id c ht r
  generalize st.event = e at hstep hret
  generalize hafter : st.after = after at hstep hhere hselected hunforced
  cases hstep with
  | inserted phase fresh =>
      cases hret
      simp [hhere (enqueue_inserted fresh), phase]
  | conflicted | kept | missing => cases hret
  | requeued phase hfound =>
      cases hret
      simp [hhere (enqueue_requeued hfound hu), phase]
  | @selected r phase found =>
      cases hret
      have htracked := trace_settledTracked htrace id c hc phase
      cases hforce : c.force with
      | false =>
          simp only [Bool.false_eq_true, false_and, not_false_eq_true, iff_true, false_imp_iff,
            and_true]
          by_cases hset : r.status.Settled
          · rw [enqueueAnswer_settled.2 hset]
            exact hunforced rfl hc phase hforce found hset
          · exact hselected rfl found fun hreq => hset hreq.2.1
      | true =>
          rw [← htracked hforce r found]
          simp only [phase, true_and, forall_const]
          refine ⟨?_, enqueueAnswer_settled⟩
          constructor
          · rintro ⟨-, t, -, rows, henq, -⟩ hset
            rw [enqueueAnswer_settled.2 hset] at henq
            exact enqueue_forced hforce henq
          · intro hset
            exact hselected rfl found fun hreq => hset hreq.2.1

end Condition

/-! ## A forced call that is told to wait -/

/-- What a step answered to a call, and whether the call is forced. -/
def answerTo (id : Nat) (st : QueueRunStep) : Option (Nat × Enqueue) × Option (Bool × CallPhase) :=
  (st.event.answer?, (st.before.calls id).map fun c => (c.force, c.phase))

/-- A forced call meets a finished job and requeues it. -/
theorem enqueue_linearizable_forced :
    ∃ st l c, (queue asciiTables).Trace (st :: l) st.after ∧
      st.event.answer? = some (2, .queued) ∧ c.force = true ∧
      Linearizes asciiTables 2 c .queued st l := by
  obtain ⟨st, l, ht, hst⟩ := Machine.trace_head (M := queue asciiTables) (f := answerTo 2)
    (b := (some (2, .queued), some (true, .requeueing))) racingCalls (by decide +kernel)
  obtain ⟨hret, hcall⟩ := Prod.mk.inj hst
  obtain ⟨c, hc, hforce⟩ := Option.map_eq_some_iff.1 hcall
  obtain ⟨hforce, hphase⟩ := Prod.mk.inj hforce
  refine ⟨st, l, c, ht, hret, hforce, (enqueue_linearizable_iff ht hret hc).1.2 ?_⟩
  simp [hphase]

/-- A forced call finds the job running and reads its status after the worker's finish. -/
def finishedBetween : List QueueAction :=
  [.call 0 creep none false false, .proceed 0, .claim [], .fetch 0 [],
    .call 1 creep none false true, .proceed 1, .proceed 1, .finish 0 (fun _ => ⟨.ok [], fun _ => none⟩) [], .proceed 1]

/-- The forced call answers `RecentlyDone`, which the atomic function answers at no state. -/
theorem forced_enqueue_not_linearizable :
    ∃ st l c, (queue asciiTables).Trace (st :: l) st.after ∧ st.before.calls 1 = some c ∧
      c.force = true ∧ st.event.answer? = some (1, .recentlyDone) ∧
      ¬ Linearizes asciiTables 1 c .recentlyDone st l := by
  obtain ⟨st, l, ht, hst⟩ := Machine.trace_head (M := queue asciiTables) (f := answerTo 1)
    (b := (some (1, .recentlyDone), some (true, .selecting))) finishedBetween (by decide +kernel)
  obtain ⟨hret, hcall⟩ := Prod.mk.inj hst
  obtain ⟨c, hc, hforce⟩ := Option.map_eq_some_iff.1 hcall
  obtain ⟨hforce, -⟩ := Prod.mk.inj hforce
  refine ⟨st, l, c, ht, hc, hforce, hret, ?_⟩
  rintro ⟨-, t, -, rows, henq, -⟩
  exact enqueue_forced hforce henq

end AnyPlayerSync.Passages
