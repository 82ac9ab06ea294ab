import AnyPlayerSync.Foundation.Table
import AnyPlayerSync.Passages.Queue

/-!
# Enqueue calls and the rows they meet

What a step of the queue does to the calls (`queueStep_calls`) and to the row of one key tuple
(`RowEffect`): a row is inserted or requeued by a call, claimed or finished by a worker, or it stays
as it is. From this, each call returns an answer (`proceed_answers`) and each transition into the
queue is reported by exactly one `Queued` (`enqueue_counted`).
-/

set_option autoImplicit false

namespace AnyPlayerSync.Passages

open AnyPlayerSync.Foundation

/-! ## Events and calls -/

/-- The answer that a call returns with an event: `enqueue` returns as soon as a statement has
inserted or requeued the row. -/
def QueueEvent.answer? : QueueEvent → Option (Nat × Enqueue)
  | .inserted id _ => some (id, .queued)
  | .requeued id _ => some (id, .queued)
  | .answered id answer => some (id, answer)
  | _ => none

/-- The job that an event changed. -/
def QueueEvent.job? : QueueEvent → Option Nat
  | .inserted _ job => some job
  | .requeued _ job => some job
  | .claimed _ job _ => some job
  | .finished _ job _ _ => some job
  | _ => none

/-- The first statement inserts when no row has the keys. -/
theorem proceedCall_fresh (U : UnicodeTables) {s : Queue} (id : Nat) {c : EnqueueCall}
    (hphase : c.phase = .inserting) (hfresh : rowOf (jobKeys U c.track) s.rows = none) :
    proceedCall U s id c = some
      (Queue.setCall { s with rows := s.rows ++ [c.newRow U s], nextId := s.nextId + 1 } id
        { c with phase := .returned }, .inserted id s.nextId) := by
  simp only [proceedCall.eq_def, hphase, insertJob]
  split_ifs with hkeys
  · obtain ⟨r, hr⟩ := exists_row_of_any hkeys
    cases hfresh.symm.trans hr
  · rfl

/-- What a step that is not a statement of a call leaves of the calls: new ones, ended ones and
those that were there. -/
theorem queueStep_calls {U : UnicodeTables} {s s' : Queue} {a : QueueAction} {e : QueueEvent}
    (h : queueStep U s a = some (s', e)) :
    (∃ id c, a = .proceed id ∧ s.calls id = some c ∧ CallStep U s id c s' e) ∨
      ((∀ id, a ≠ .proceed id ∧ e ≠ .passed id) ∧ e.answer? = none ∧
        ∀ id c, s'.calls id = some c →
          s.calls id = some c ∨ c.phase = .inserting ∨ c.phase = .returned) := by
  have hset {id : Nat} {call : EnqueueCall}
      (hphase : call.phase = .inserting ∨ call.phase = .returned) :
      ∀ i c, (s.setCall id call).calls i = some c →
        s.calls i = some c ∨ c.phase = .inserting ∨ c.phase = .returned := by
    intro i c hi
    rcases Queue.setCall_cases hi with rfl | hi
    · exact Or.inr hphase
    · exact Or.inl hi
  have hsame : ∀ i c, s.calls i = some c →
      s.calls i = some c ∨ c.phase = .inserting ∨ c.phase = .returned := fun _ _ hi => Or.inl hi
  cases queueStep_turn h with
  | @proceed id c _ _ there step => exact Or.inl ⟨id, c, rfl, there, step⟩
  | call fresh => exact Or.inr ⟨fun _ => ⟨by simp, by simp⟩, rfl, hset (Or.inl rfl)⟩
  | failCall there phase => exact Or.inr ⟨fun _ => ⟨by simp, by simp⟩, rfl, hset (Or.inr rfl)⟩
  | tick | claim | fetch | finish | die =>
      exact Or.inr ⟨fun _ => ⟨by simp, by simp⟩, rfl, hsame⟩

/-- A statement of a call leaves the other calls alone. -/
theorem CallStep.other {U : UnicodeTables} {s s' : Queue} {id i : Nat} {c : EnqueueCall}
    {e : QueueEvent} (hs : CallStep U s id c s' e) (hi : i ≠ id) : s'.calls i = s.calls i := by
  cases hs <;> exact Function.update_of_ne hi ..

theorem CallStep.answer_id {U : UnicodeTables} {s s' : Queue} {i id : Nat} {c : EnqueueCall}
    {e : QueueEvent} {answer : Enqueue} (hs : CallStep U s i c s' e)
    (hret : e.answer? = some (id, answer)) : i = id := by
  cases hs <;> simp [QueueEvent.answer?] at hret <;> exact hret.1

/-- An answer is returned by a statement of the call. -/
theorem answered_callStep {U : UnicodeTables} {s s' : Queue} {a : QueueAction} {e : QueueEvent}
    {id : Nat} {c : EnqueueCall} {answer : Enqueue} (hs : queueStep U s a = some (s', e))
    (hret : e.answer? = some (id, answer)) (hc : s.calls id = some c) :
    CallStep U s id c s' e := by
  rcases queueStep_calls hs with ⟨i, call, -, hcall, hstep⟩ | ⟨-, hnone, -⟩
  · have hid := hstep.answer_id hret
    subst hid
    rw [hc] at hcall
    cases hcall
    exact hstep
  · rw [hnone] at hret
    cases hret

/-! ## The row of one key tuple -/

/-- What a step of the queue can do to the row of one key tuple: nothing, or what the event says. -/
inductive RowEffect (U : UnicodeTables) (s : Queue) :
    Option JobRow → Option JobRow → QueueEvent → Prop
  | same {row : Option JobRow} {e : QueueEvent} (other : ∀ r, row = some r → e.job? ≠ some r.id) :
      RowEffect U s row row e
  | inserted (id : Nat) {c : EnqueueCall} (called : s.calls id = some c) :
      RowEffect U s none (some (c.newRow U s)) (.inserted id s.nextId)
  | requeued (id : Nat) {c : EnqueueCall} {r : JobRow} (called : s.calls id = some c)
      (requeues : Requeues (jobKeys U c.track) c.force s.now r) :
      RowEffect U s (some r) (some (r.requeued s.now)) (.requeued id r.id)
  | claimed {r : JobRow} (claimable : Claimable s.now r) :
      RowEffect U s (some r) (some (r.claimed s.now)) (.claimed s.nextToken r.id s.now)
  | finished {r : JobRow} {token : Nat} {holder : Holder} (enabled : List Str)
      (results : StrMap Json) (held : s.holders token = some holder)
      (same : holder.job.id = r.id) :
      RowEffect U s (some r) (some (r.finished results holder.job.attempts s.now))
        (.finished token r.id enabled (some (r.finished results holder.job.attempts s.now)))

section Rows

variable {U : UnicodeTables} {s s' : Queue} {e : QueueEvent} {k : JobKeys}

theorem rowOf_spec {rows : List JobRow} {r : JobRow} (h : rowOf k rows = some r) :
    r ∈ rows ∧ r.keys = k := Table.row?_spec h

theorem UniqueRows.rowOf_mem (hu : UniqueRows s) {r : JobRow} (hr : r ∈ s.rows) :
    rowOf r.keys s.rows = some r := Table.row?_of_mem hu.keys hr

/-- A change of rows that keeps the keys. -/
theorem rowOf_map {f : JobRow → JobRow} (hf : ∀ r, (f r).keys = r.keys) (rows : List JobRow) :
    rowOf k (rows.map f) = (rowOf k rows).map f := Table.row?_map hf k rows

theorem rowOf_append {rows : List JobRow} (row : JobRow) (hfresh : rowOf row.keys rows = none) :
    rowOf k (rows ++ [row]) = if row.keys = k then some row else rowOf k rows :=
  Table.row?_append (Table.row?_eq_none_iff.1 hfresh) k

theorem RowEffect.quiet {row : Option JobRow} (hjob : e.job? = none) : RowEffect U s row row e := by
  refine .same fun r _ h => ?_
  rw [hjob] at h
  cases h

theorem RowEffect.absent : RowEffect U s none none e := .same fun _ h => by cases h

/-- An `UPDATE` whose `WHERE` clause names the row of the event. -/
theorem RowEffect.update {f : JobRow → JobRow} {p : JobRow → Prop} [DecidablePred p]
    (hkeys : ∀ r, (f r).keys = r.keys)
    (hnamed : ∀ r ∈ s.rows, p r → RowEffect U s (some r) (some (f r)) e)
    (hother : ∀ r ∈ s.rows, ¬ p r → e.job? ≠ some r.id) :
    RowEffect U s (rowOf k s.rows) (rowOf k (s.rows.map fun r => if p r then f r else r)) e := by
  have hkeep : ∀ r, (if p r then f r else r).keys = r.keys := by
    intro r
    split_ifs
    · exact hkeys r
    · rfl
  rw [rowOf_map hkeep]
  cases hrow : rowOf k s.rows with
  | none => exact .absent
  | some r =>
      have hr := (rowOf_spec hrow).1
      by_cases hp : p r
      · rw [Option.map_some, if_pos hp]
        exact hnamed r hr hp
      · rw [Option.map_some, if_neg hp]
        apply RowEffect.same
        intro r' hr'
        cases hr'
        exact hother r hr hp

theorem CallStep.row {id : Nat} {c : EnqueueCall} (hs : CallStep U s id c s' e)
    (hcall : s.calls id = some c) (hu : UniqueRows s) (k : JobKeys) :
    RowEffect U s (rowOf k s.rows) (rowOf k s'.rows) e := by
  cases hs with
  | inserted phase fresh =>
      simp only [Queue.setCall]
      rw [rowOf_append (c.newRow U s) fresh]
      split_ifs with hk
      · rw [← hk, show (c.newRow U s).keys = jobKeys U c.track from rfl, fresh]
        exact .inserted id hcall
      · refine .same fun r hr hjob => ?_
        exact absurd (Option.some.inj hjob).symm (Nat.ne_of_lt (hu.below r (rowOf_spec hr).1))
  | conflicted phase found => exact .quiet rfl
  | @requeued found phase hfound =>
      obtain ⟨hmem, hreq⟩ := find_spec hfound
      refine .update (fun r => rfl) (fun r hr hp => ?_) fun r hr hp hjob => ?_
      · obtain rfl := Table.eq_of_key hu.keys hr hmem (hp.1.trans hreq.1.symm)
        exact .requeued id hcall hp
      · obtain rfl := hu.eq_of_id hr hmem (Option.some.inj hjob).symm
        exact hp hreq
  | kept phase hnone => exact .quiet rfl
  | selected phase found => exact .quiet rfl
  | missing phase hnone => exact .quiet rfl

/-- A finish writes the row of its job, which its event reports. -/
theorem finish_row (hu : UniqueRows s) {token : Nat} {holder : Holder}
    (hheld : s.holders token = some holder) (enabled : List Str) (clock : Str)
    (results : StrMap Json) (k : JobKeys) :
    RowEffect U s (rowOf k s.rows) (rowOf k (finish s.rows holder.job results clock s.now))
      (.finished token holder.job.id enabled
        ((finish s.rows holder.job results clock s.now).find? fun r => r.id = holder.job.id)) := by
  refine .update (fun r => rfl) (fun r hr hid => ?_) fun r _ hid hjob => ?_
  · have hids : ∀ r : JobRow, (if r.id = holder.job.id then
        r.finished (stampResults clock results) holder.job.attempts s.now else r).id = r.id := by
      intro r
      split_ifs <;> rfl
    have hwritten := Table.row?_map hids holder.job.id s.rows
    rw [← hid, Table.row?_of_mem hu.nodup hr, Option.map_some, hid, if_pos rfl] at hwritten
    rw [finish, ← Table.row?, hwritten, ← hid]
    exact .finished enabled _ hheld hid.symm
  · exact hid (Option.some.inj hjob).symm

theorem queueStep_row {a : QueueAction} (hu : UniqueRows s)
    (h : queueStep U s a = some (s', e)) (k : JobKeys) :
    RowEffect U s (rowOf k s.rows) (rowOf k s'.rows) e := by
  rcases queueStep_calls h with ⟨id, c, -, hcall, hstep⟩ | ⟨-, hanswer, -⟩
  · exact hstep.row hcall hu k
  · cases queueStep_effect h with
    | ticked elapsed => exact .quiet rfl
    | idle grows event =>
        apply RowEffect.quiet
        rcases event with ⟨id, rfl | rfl | rfl⟩ | ⟨id, answer, rfl⟩ <;> rfl
    -- only a statement of a call inserts or requeues
    | inserted | requeued => cases hanswer
    | @claimed found mem claimable =>
        refine .update (fun r => rfl) (fun r hr hid => ?_) fun r _ hid hjob => ?_
        · obtain rfl := hu.eq_of_id hr mem hid
          exact .claimed claimable
        · exact hid (Option.some.inj hjob).symm
    | fetching enabled held phase => exact .quiet rfl
    | @finished token holder enabled pending fetched clock held phase =>
        exact finish_row hu held enabled clock _ k
    | died held phase => exact .quiet rfl

/-- Rows are never deleted. -/
theorem RowEffect.stays {row row' : Option JobRow} (he : RowEffect U s row row' e)
    (h : row ≠ none) : row' ≠ none := by
  cases he with
  | same other => exact h
  | inserted | requeued | claimed | finished => simp

end Rows

/-! ## Each call answers -/

/-- A call whose insert met a row finds that row again. -/
def CallsFound (U : UnicodeTables) (s : Queue) : Prop :=
  ∀ id c, s.calls id = some c → c.phase = .requeueing ∨ c.phase = .selecting →
    rowOf (jobKeys U c.track) s.rows ≠ none

section Calls

variable {U : UnicodeTables} {s s' : Queue} {a : QueueAction} {e : QueueEvent}

theorem queueStep_callsFound (hu : UniqueRows s) (hf : CallsFound U s)
    (h : queueStep U s a = some (s', e)) : CallsFound U s' := by
  intro id c hc hphase
  apply (queueStep_row hu h (jobKeys U c.track)).stays
  rcases queueStep_calls h with ⟨i, call, -, hcall, hstep⟩ | ⟨-, -, hkept⟩
  · by_cases hid : id = i
    · subst hid
      cases hstep with
      | conflicted phase found =>
          rw [Queue.setCall_self] at hc
          cases hc
          rw [found]
          simp
      | kept phase hnone =>
          rw [Queue.setCall_self] at hc
          cases hc
          exact hf id call hcall (Or.inl phase)
      | inserted | requeued | selected | missing =>
          rw [Queue.setCall_self] at hc
          cases hc
          simp at hphase
    · rw [hstep.other hid] at hc
      exact hf id c hc hphase
  · rcases hkept id c hc with hold | hnew | hended
    · exact hf id c hold hphase
    · rw [hnew] at hphase
      simp at hphase
    · rw [hended] at hphase
      simp at hphase

theorem run_callsFound {h : List QueueEvent} (hr : (queue U).Run h s) : CallsFound U s := by
  refine hr.invariant (I := fun _ s => CallsFound U s) ?_ ?_
  · exact fun _ _ hc => by cases hc
  · intro _ _ _ _ _ hr ih hs _
    exact queueStep_callsFound (run_uniqueRows hr) ih hs

/-- How many statements a call may still run. -/
def CallPhase.left : CallPhase → Nat
  | .inserting => 3
  | .requeueing => 2
  | .selecting => 1
  | .returned => 0

/-- A call that has not returned can run its next statement, has fewer left afterwards, and returns
an answer when it returns: its `SELECT` finds a row. -/
theorem proceed_answers {h : List QueueEvent} (hr : (queue U).Run h s) {id : Nat}
    {c : EnqueueCall} (hc : s.calls id = some c) (hphase : c.phase ≠ .returned) :
    ∃ s' e c', (queue U).step s (.proceed id) = some (s', e) ∧ s'.calls id = some c' ∧
      c'.phase.left < c.phase.left ∧
      (c'.phase = .returned → ∃ answer, e.answer? = some (id, answer)) := by
  have hproceed : ∃ s' e, proceedCall U s id c = some (s', e) := by
    rw [proceedCall.eq_def]
    cases hp : c.phase with
    | inserting =>
        cases hi : insertJob s.rows (newJob s.nextId (jobKeys U c.track) c.track c.requestedBy
          c.auto s.now) <;> simp [hi]
    | requeueing => cases hi : requeueJob s.rows (jobKeys U c.track) c.force s.now <;> simp [hi]
    | selecting => cases hi : selectStatus s.rows (jobKeys U c.track) <;> simp [hi]
    | returned => exact absurd hp hphase
  obtain ⟨s', e, hstep⟩ := hproceed
  have hqueue : (queue U).step s (.proceed id) = some (s', e) := by
    simp only [queue, queueStep, hc, hstep]
  refine ⟨s', e, ?_⟩
  cases proceedCall_callStep hstep with
  | inserted phase fresh =>
      exact ⟨_, hqueue, Function.update_self .., by simp [phase, CallPhase.left], fun _ => ⟨_, rfl⟩⟩
  | conflicted phase found =>
      exact ⟨_, hqueue, Function.update_self .., by simp [phase, CallPhase.left], by simp⟩
  | requeued phase hfound =>
      exact ⟨_, hqueue, Function.update_self .., by simp [phase, CallPhase.left], fun _ => ⟨_, rfl⟩⟩
  | kept phase hnone =>
      exact ⟨_, hqueue, Function.update_self .., by simp [phase, CallPhase.left], by simp⟩
  | selected phase found =>
      exact ⟨_, hqueue, Function.update_self .., by simp [phase, CallPhase.left], fun _ => ⟨_, rfl⟩⟩
  | missing phase hnone => exact absurd hnone (run_callsFound hr id c hc (Or.inr phase))

/-! ## Each transition into the queue is reported once -/

/-- The job of a key tuple has entered the queue: it was not there, or it was finished. -/
def entered : Option JobStatus → Option JobStatus → Bool
  | none, some .queued => true
  | some .done, some .queued => true
  | some .failed, some .queued => true
  | _, _ => false

/-- A step of a run. -/
abbrev QueueRunStep := Machine.Step Queue QueueAction QueueEvent

/-- A step of an `enqueue` call brings the job of a key tuple into the queue. -/
def entersQueue (k : JobKeys) (st : QueueRunStep) : Bool :=
  match st.action with
  | .proceed _ => entered (selectStatus st.before.rows k) (selectStatus st.after.rows k)
  | _ => false

/-- A step of an `enqueue` call for a key tuple returns `Queued`. -/
def answersQueued (U : UnicodeTables) (k : JobKeys) (st : QueueRunStep) : Bool :=
  match st.event.answer? with
  | some (id, .queued) =>
      match st.before.calls id with
      | some c => jobKeys U c.track = k
      | none => false
  | _ => false

theorem entered_self (status : Option JobStatus) : entered status status = false := by
  cases status with
  | none => rfl
  | some status => cases status <;> rfl

theorem selectStatus_eq (rows : List JobRow) (k : JobKeys) :
    selectStatus rows k = (rowOf k rows).map JobRow.status := rfl

/-- A step enters the queue for a key tuple exactly when it returns `Queued` to a call for it. -/
theorem entersQueue_eq (hu : UniqueRows s) (k : JobKeys)
    (h : queueStep U s a = some (s', e)) :
    entersQueue k ⟨s, a, e, s'⟩ = answersQueued U k ⟨s, a, e, s'⟩ := by
  rcases queueStep_calls h with ⟨id, c, rfl, hcall, hstep⟩ | ⟨hother, hanswer, -⟩
  · simp only [entersQueue, answersQueued, selectStatus_eq]
    cases hstep with
    | inserted phase fresh =>
        simp only [QueueEvent.answer?, hcall, Queue.setCall]
        rw [rowOf_append (c.newRow U s) fresh]
        by_cases hk : jobKeys U c.track = k
        · rw [if_pos (show (c.newRow U s).keys = k from hk), ← hk, fresh]
          simp [entered, EnqueueCall.newRow, newJob]
        · rw [if_neg (show (c.newRow U s).keys ≠ k from hk), entered_self]
          simp [hk]
    | conflicted phase found => simp only [QueueEvent.answer?]; exact entered_self _
    | @requeued found phase hfound =>
        obtain ⟨hmem, hreq⟩ := find_spec hfound
        simp only [QueueEvent.answer?, hcall, Queue.setCall]
        rw [rowOf_map (fun r => by split_ifs <;> rfl)]
        by_cases hk : jobKeys U c.track = k
        · have hrow : rowOf k s.rows = some found := by
            rw [← hk, ← hreq.1]
            exact hu.rowOf_mem hmem
          simp only [hrow, Option.map_some, if_pos hreq]
          rcases hreq.2.1 with hdone | hfailed
          · simp [entered, hdone, JobRow.requeued, hk]
          · simp [entered, hfailed, JobRow.requeued, hk]
        · have hsame : (rowOf k s.rows).map (fun r =>
              if Requeues (jobKeys U c.track) c.force s.now r then r.requeued s.now else r) =
                rowOf k s.rows := by
            cases hrow : rowOf k s.rows with
            | none => rfl
            | some r =>
                have hne : ¬ Requeues (jobKeys U c.track) c.force s.now r := fun hreq' =>
                  hk (hreq'.1.symm.trans (rowOf_spec hrow).2)
                rw [Option.map_some, if_neg hne]
          rw [hsame, entered_self]
          simp [hk]
    | kept phase hnone => simp only [QueueEvent.answer?]; exact entered_self _
    | @selected r phase found =>
        simp only [QueueEvent.answer?]
        cases r.status <;> exact entered_self _
    | missing phase hnone => simp only [QueueEvent.answer?]; exact entered_self _
  · have hfalse : entersQueue k ⟨s, a, e, s'⟩ = false := by
      cases a with
      | proceed id => exact absurd rfl (hother id).1
      | tick | call | failCall | claim | fetch | finish | die => rfl
    rw [hfalse, answersQueued, hanswer]

/-- A statement of a call changes no row that is queued or running. -/
theorem CallStep.keeps_busy {id : Nat} {c : EnqueueCall} (hs : CallStep U s id c s' e)
    {r : JobRow} (hr : r ∈ s.rows) (hbusy : r.status = .queued ∨ r.status = .running) :
    r ∈ s'.rows := by
  cases hs with
  | inserted phase fresh => exact List.mem_append_left _ hr
  | requeued phase hfound =>
      refine List.mem_map.2 ⟨r, hr, if_neg ?_⟩
      rintro ⟨-, hdone | hfailed, -⟩
      · rw [hdone] at hbusy
        simp at hbusy
      · rw [hfailed] at hbusy
        simp at hbusy
  | conflicted | kept | selected | missing => exact hr

/-- **Enqueue is counted.** In every trace each key tuple has one row; each call that has not
returned runs its next statement, of at most three, and returns an answer; the `Queued` answers for
a key tuple are as many as the transitions of its row into the queue; and no statement of a call
changes a row that is queued or running. -/
theorem enqueue_counted {l : List QueueRunStep} (ht : (queue U).Trace l s) :
    (s.rows.map JobRow.keys).Nodup ∧
    (∀ id c, s.calls id = some c → c.phase ≠ .returned →
      ∃ s' e c', (queue U).step s (.proceed id) = some (s', e) ∧ s'.calls id = some c' ∧
        c'.phase.left < c.phase.left ∧
        (c'.phase = .returned → ∃ answer, e.answer? = some (id, answer))) ∧
    (∀ k, (l.filter (answersQueued U k)).length = (l.filter (entersQueue k)).length) ∧
    ∀ st ∈ l, ∀ id, st.action = .proceed id → ∀ r ∈ st.before.rows,
      r.status = .queued ∨ r.status = .running → r ∈ st.after.rows := by
  refine ⟨(run_uniqueRows ht.run).keys, ?_, ?_, ?_⟩
  · intro id c hc hphase
    exact proceed_answers ht.run hc hphase
  · intro k
    apply ht.count_eq
    intro earlier st hearlier hstep
    exact (entersQueue_eq (run_uniqueRows hearlier.run) k hstep).symm
  · intro st hst id hid r hr hbusy
    obtain ⟨_, _, hstep⟩ := ht.mem st hst
    rcases queueStep_calls hstep with ⟨_, _, -, -, hcall⟩ | ⟨hother, -, -⟩
    · exact hcall.keeps_busy hr hbusy
    · exact absurd hid (hother id).1

end Calls

/-- A track without an album. -/
def creep : TrackRequest := ⟨"Creep".toList, "Radiohead".toList, none⟩

/-- Two calls for one track race for the insert; the job is done; a forced call requeues it. -/
def racingCalls : List QueueAction :=
  [.call 0 creep none false false, .call 1 creep none false true, .proceed 0, .proceed 1,
    .proceed 1, .proceed 1, .claim [], .fetch 0 [], .finish 0 (fun _ => ⟨.ok [], fun _ => none⟩) [],
    .call 2 creep none false true, .proceed 2, .proceed 2]

/-- Two answers, for the insert and the requeue. -/
theorem enqueue_counted_race :
    let steps := ((queue asciiTables).trace ([], Queue.empty) racingCalls).1
    let k := jobKeys asciiTables creep
    (steps.filter (answersQueued asciiTables k)).length = 2 ∧
      (steps.filter (answersQueued asciiTables k)).length = (steps.filter (entersQueue k)).length :=
  ⟨by decide +kernel, (enqueue_counted (Machine.trace_exec racingCalls)).2.2.1 _⟩

end AnyPlayerSync.Passages
