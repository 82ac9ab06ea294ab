import AnyPlayerSync.Passages.Enqueue

/-!
# How often a job is attempted

`claim` counts an attempt each time it hands out a job, `enqueue` starts the count anew, and only
`finish` compares it with `MAX_ATTEMPTS`, in the copy that the worker got with its claim. Two ways
lead past the limit: the takeover of a stale `running` job asks for no count, and a worker whose job
was taken over puts the job back into the queue by its own, older count.

Without these two a job is claimed at most `MAX_ATTEMPTS` times between two requeues
(`attempts_bounded`); with one of them, the limit is passed at the next claim at the latest
(`attempts_exceeded`).
-/

set_option autoImplicit false

namespace AnyPlayerSync.Passages

open AnyPlayerSync.Foundation

/-! ## Counting claims -/

/-- The claims of a job since `enqueue` last inserted or requeued it. -/
def claimsSince (job : Nat) : List QueueEvent → Nat
  | [] => 0
  | .inserted _ j :: h => if j = job then 0 else claimsSince job h
  | .requeued _ j :: h => if j = job then 0 else claimsSince job h
  | .claimed _ j _ :: h => if j = job then claimsSince job h + 1 else claimsSince job h
  | _ :: h => claimsSince job h

/-- The two steps that look at no limit stay below it: a stale job that is taken over has attempts
left, and so has a job that a finish puts back into the queue, whatever the worker's own count. -/
def AttemptsLeft (_ : List QueueEvent) (s : Queue) : QueueEvent → Prop
  | .claimed _ job _ =>
      ∀ r ∈ s.rows, r.id = job → r.status = .running → r.attempts < maxAttempts
  | .finished _ job _ written =>
      ∀ r ∈ s.rows, r.id = job → written.map JobRow.status = some .queued →
        r.attempts < maxAttempts
  | _ => True

instance (h : List QueueEvent) (s : Queue) : (e : QueueEvent) → Decidable (AttemptsLeft h s e)
  | .claimed _ job _ => inferInstanceAs (Decidable
      (∀ r ∈ s.rows, r.id = job → r.status = .running → r.attempts < maxAttempts))
  | .finished _ job _ written => inferInstanceAs (Decidable
      (∀ r ∈ s.rows, r.id = job → written.map JobRow.status = some .queued →
        r.attempts < maxAttempts))
  | .ticked | .called _ | .inserted _ _ | .requeued _ _ | .passed _ | .answered _ _
  | .callFailed _ | .fetching _ _ _ | .died _ => isTrue trivial

theorem claimsSince_other {job : Nat} {e : QueueEvent} (h : List QueueEvent)
    (he : e.job? ≠ some job) : claimsSince job (e :: h) = claimsSince job h := by
  cases e with
  | inserted id j => exact if_neg fun hj => he (by rw [QueueEvent.job?, hj])
  | requeued id j => exact if_neg fun hj => he (by rw [QueueEvent.job?, hj])
  | claimed token j at_ => exact if_neg fun hj => he (by rw [QueueEvent.job?, hj])
  | ticked | called | passed | answered | callFailed | fetching | finished | died => rfl

section Steps

variable {U : UnicodeTables} {s s' : Queue} {a : QueueAction} {e : QueueEvent}
  {h : List QueueEvent}

/-- The column `attempts` counts the claims. -/
def Counted (h : List QueueEvent) (s : Queue) : Prop :=
  ∀ k r, rowOf k s.rows = some r → (claimsSince r.id h : Int) = r.attempts

theorem queueStep_counted (hu : UniqueRows s) (hc : Counted h s)
    (hs : queueStep U s a = some (s', e)) : Counted (e :: h) s' := by
  intro k r hrow
  have heffect := queueStep_row hu hs k
  generalize hbefore : rowOf k s.rows = row at heffect
  rw [hrow] at heffect
  generalize hafter : some r = row' at heffect
  cases heffect with
  | same other =>
      subst hafter
      rw [claimsSince_other h (other r rfl)]
      exact hc k r hbefore
  | inserted id called =>
      cases hafter
      simp [claimsSince, EnqueueCall.newRow, newJob]
  | requeued id called requeues =>
      cases hafter
      simp [claimsSince, JobRow.requeued]
  | claimed claimable =>
      cases hafter
      simp [claimsSince, JobRow.claimed, hc k _ hbefore]
  | @finished old _ _ enabled results held same =>
      cases hafter
      exact hc k old hbefore

theorem run_counted {C : List QueueEvent → Queue → QueueEvent → Prop}
    (hr : (queue U).RunIf C h s) : Counted h s := by
  refine hr.invariant (I := Counted) (fun _ _ hrow => by cases hrow) ?_
  intro _ _ _ _ _ hr ih hs _
  exact queueStep_counted (run_uniqueRows hr) ih hs

/-- Jobs in the queue have attempts left. -/
def QueuedHaveAttempts (s : Queue) : Prop :=
  ∀ k r, rowOf k s.rows = some r → r.status = .queued → r.attempts < maxAttempts

theorem run_queuedHaveAttempts (hr : (queue U).RunIf AttemptsLeft h s) :
    QueuedHaveAttempts s := by
  refine hr.invariant (I := fun _ s => QueuedHaveAttempts s) (fun _ _ hrow => by cases hrow) ?_
  intro h s a s' e hr ih hs hleft k r hrow hqueued
  have heffect := queueStep_row (run_uniqueRows hr) hs k
  generalize hbefore : rowOf k s.rows = row at heffect
  rw [hrow] at heffect
  generalize hafter : some r = row' at heffect
  cases heffect with
  | same other =>
      subst hafter
      exact ih k r hbefore hqueued
  | inserted id called =>
      cases hafter
      simp [EnqueueCall.newRow, newJob, maxAttempts]
  | requeued id called requeues =>
      cases hafter
      simp [JobRow.requeued, maxAttempts]
  | claimed claimable => cases hafter; cases hqueued
  | @finished old _ _ enabled results held same =>
      cases hafter
      exact hleft old (rowOf_spec hbefore).1 rfl (by rw [Option.map_some, hqueued])

/-- **A job is attempted at most `MAX_ATTEMPTS` times** between two requeues, in every run that
takes over no stale job without attempts left and puts no such job back into the queue. -/
theorem attempts_bounded (hr : (queue U).RunIf AttemptsLeft h s) (job : Nat) :
    (claimsSince job h : Int) ≤ maxAttempts := by
  revert job
  refine hr.invariant (I := fun h _ => ∀ job, (claimsSince job h : Int) ≤ maxAttempts)
    (fun _ => by simp [claimsSince, maxAttempts]) ?_
  intro h s a s' e hr ih hs hleft job
  by_cases hjob : e.job? = some job
  · cases queueStep_effect hs with
    | ticked | fetching | died => cases hjob
    | idle grows event =>
        rcases event with ⟨id, rfl | rfl | rfl⟩ | ⟨id, answer, rfl⟩ <;> cases hjob
    | inserted id fresh freshKeys status results =>
        rw [QueueEvent.job?, Option.some.injEq] at hjob
        simp [claimsSince, hjob, maxAttempts]
    | requeued id hfound =>
        rw [QueueEvent.job?, Option.some.injEq] at hjob
        simp [claimsSince, hjob, maxAttempts]
    | @claimed found mem claimable =>
        rw [QueueEvent.job?, Option.some.injEq] at hjob
        have hrow := (run_uniqueRows hr).rowOf_mem mem
        have hcount := run_counted hr _ _ hrow
        have hlt : found.attempts < maxAttempts := by
          rcases claimable with ⟨hqueued, -⟩ | ⟨hrunning, -⟩
          · exact run_queuedHaveAttempts hr _ _ hrow hqueued
          · exact hleft _ mem rfl hrunning
        simp only [claimsSince, if_pos hjob]
        rw [← hjob]
        omega
    | finished fetched clock held phase => exact ih job
  · rw [claimsSince_other h hjob]
    exact ih job

/-! ## Past the limit -/

theorem exists_earliest {rows : List JobRow} {r : JobRow} (hr : r ∈ rows) :
    ∃ found, earliest rows = some found := by
  cases rows with
  | nil => cases hr
  | cons first rows =>
      rw [earliest]
      cases earliest rows with
      | none => exact ⟨first, rfl⟩
      | some best => by_cases hb : best.Before first <;> simp [hb]

/-- A queued job is claimed once it is due and the others are locked. -/
theorem claim_due (hrun : (queue U).Run h s) {r : JobRow} (hr : r ∈ s.rows)
    (hqueued : r.status = .queued) :
    ∃ token at_ later, (queue U).Run (.claimed token r.id at_ :: .ticked :: h) later := by
  let due : Queue := { s with now := s.now + (r.nextAttemptAt - s.now).toNat }
  let locked := (s.rows.filter fun x => x.id ≠ r.id).map JobRow.id
  have hle : r.nextAttemptAt ≤ s.now + (r.nextAttemptAt - s.now).toNat :=
    Int.le_add_of_sub_left_le (Int.self_le_toNat _)
  have hfree : r.id ∉ locked := by
    intro hmem
    obtain ⟨x, hx, hid⟩ := List.mem_map.1 hmem
    exact of_decide_eq_true (List.mem_filter.1 hx).2 hid
  have hin : r ∈ s.rows.filter fun x => Claimable due.now x ∧ x.id ∉ locked :=
    List.mem_filter.2 ⟨hr, decide_eq_true ⟨Or.inl ⟨hqueued, hle⟩, hfree⟩⟩
  obtain ⟨found, hfound⟩ := exists_earliest hin
  obtain ⟨hmem, hcond⟩ := List.mem_filter.1 (earliest_mem hfound)
  have hid : found.id = r.id := by
    by_contra hne
    refine (of_decide_eq_true hcond).2 (List.mem_map.2 ⟨found, ?_, rfl⟩)
    exact List.mem_filter.2 ⟨hmem, decide_eq_true hne⟩
  have hclaim : ∃ rows, claim due.rows locked due.now =
      some (rows, (found.claimed due.now).job) := ⟨_, by rw [claim, hfound]; rfl⟩
  obtain ⟨rows, hclaim⟩ := hclaim
  have htick : (queue U).step s (.tick (r.nextAttemptAt - s.now).toNat) = some (due, .ticked) := rfl
  have hstep : (queue U).step due (.claim locked) = some
      ({ due with rows := rows, nextToken := due.nextToken + 1 }.setHolder due.nextToken
        ⟨(found.claimed due.now).job, due.now, .claimed⟩,
      .claimed due.nextToken found.id due.now) := by
    simp only [queue, queueStep, hclaim]
    rfl
  have hend := (hrun.step htick trivial).step hstep trivial
  rw [hid] at hend
  exact ⟨_, _, _, hend⟩

/-- **The limit is passed** once a step breaks the condition: at once when a stale job without
attempts left is taken over, and at its next claim when such a job is put back into the queue. -/
theorem attempts_exceeded (hr : (queue U).Run h s) (hs : (queue U).step s a = some (s', e))
    (hbroken : ¬ AttemptsLeft h s e) :
    ∃ h' s'' job, (queue U).Run h' s'' ∧ (e :: h) <:+ h' ∧
      maxAttempts < (claimsSince job h' : Int) := by
  have hu := run_uniqueRows hr
  have hrun := hr.step hs trivial
  cases e with
  | claimed token job at_ =>
      simp only [AttemptsLeft] at hbroken
      push Not at hbroken
      obtain ⟨r, hmem, rfl, -, hover⟩ := hbroken
      have hcount := run_counted hr _ _ (hu.rowOf_mem hmem)
      refine ⟨_, s', r.id, hrun, List.suffix_refl _, ?_⟩
      simp only [claimsSince, if_true]
      omega
  | finished token job enabled written =>
      simp only [AttemptsLeft] at hbroken
      push Not at hbroken
      obtain ⟨r, hmem, rfl, hwritten, hover⟩ := hbroken
      have hrow := hu.rowOf_mem hmem
      have heffect := queueStep_row hu hs r.keys
      rw [hrow] at heffect
      generalize hafter : rowOf r.keys s'.rows = row' at heffect
      cases heffect with
      | same other => exact absurd rfl (other r rfl)
      | finished enabled results held same =>
          rw [Option.map_some, Option.some.injEq] at hwritten
          have hcount := run_counted hr _ _ hrow
          obtain ⟨_, _, later, hlater⟩ := claim_due hrun (rowOf_spec hafter).1 hwritten
          refine ⟨_, later, r.id, hlater, ?_, ?_⟩
          · exact ⟨[_, _], rfl⟩
          · simp only [claimsSince, JobRow.finished, if_true]
            omega
  | ticked | called | inserted | requeued | passed | answered | callFailed | fetching | died =>
      exact absurd trivial hbroken

end Steps

/-! ## Workers that die -/

/-- A worker that claims the job 31 minutes later and dies. -/
def killed (token : Nat) : List QueueAction := [.tick (31 * 60000000), .claim [], .die token]

/-- Five workers die in turn with the same job. -/
def fiveKilled : List QueueAction :=
  [.call 0 creep none false false, .proceed 0] ++ (List.range 5).flatMap killed

theorem attempts_bounded_fiveKilled :
    (claimsSince 1 ((queue asciiTables).exec ([], Queue.empty) fiveKilled).1 : Int) ≤ maxAttempts :=
  attempts_bounded (U := asciiTables) (Machine.runIf_exec (C := AttemptsLeft) (by decide)) 1

/-- The job is stale after each of them, so a sixth worker gets it. -/
theorem sixth_worker_claims :
    ∃ h s, (queue asciiTables).Run h s ∧ (claimsSince 1 h : Int) = maxAttempts + 1 :=
  ⟨_, _, Machine.run_exec (fiveKilled ++ killed 5), by decide⟩

end AnyPlayerSync.Passages
