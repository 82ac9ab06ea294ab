import AnyPlayerSync.Foundation.Spacing
import AnyPlayerSync.Passages.Attempts
import AnyPlayerSync.Passages.Leases
import AnyPlayerSync.Passages.Outcomes
import Mathlib.Algebra.Order.Group.Int

/-!
# When a job is claimed again

A finish with an error puts the job back for `2^attempts` minutes, and a `running` job is taken over
after half an hour. So two claims of a job between which it is not requeued never come close
together, whatever the workers do and whoever finishes late: they are two minutes apart
(`claims_spaced`), and where each worker finishes before its lease goes stale, the k-th one keeps
the next away for `2^k` minutes, up to the half hour of a lease (`retries_backed_off`).

Both are one induction (`Retried`): a queued row is due no earlier than the delay after its latest
claim, and a running one is not older than it.
-/

set_option autoImplicit false

namespace AnyPlayerSync.Passages

open AnyPlayerSync.Foundation
open AnyPlayerSync.Sync (Time)

/-! ## Claims with their times -/

/-- The times at which a job was claimed since `enqueue` last inserted or requeued it, latest
first. -/
def claimTimes (job : Nat) : List QueueEvent → List Time
  | [] => []
  | .inserted _ j :: h => if j = job then [] else claimTimes job h
  | .requeued _ j :: h => if j = job then [] else claimTimes job h
  | .claimed _ j at_ :: h => if j = job then at_ :: claimTimes job h else claimTimes job h
  | _ :: h => claimTimes job h

/-- Each time lies past the one before it, by the delay that its number asks for. -/
def Delayed (delay : Nat → Time) : List Time → Prop
  | later :: earlier :: times =>
      earlier + delay (times.length + 1) ≤ later ∧ Delayed delay (earlier :: times)
  | _ => True

/-- Two minutes after every claim. -/
def twoMinutes (_ : Nat) : Time := 2 * minute

/-- Twice as long after each claim, up to the lease of a worker. -/
def backoff (claims : Nat) : Time := min (2 ^ claims * minute) staleLease

theorem claimTimes_other {job : Nat} {e : QueueEvent} (h : List QueueEvent)
    (he : e.job? ≠ some job) : claimTimes job (e :: h) = claimTimes job h := by
  cases e with
  | inserted id j => exact if_neg fun hj => he (by rw [QueueEvent.job?, hj])
  | requeued id j => exact if_neg fun hj => he (by rw [QueueEvent.job?, hj])
  | claimed token j at_ => exact if_neg fun hj => he (by rw [QueueEvent.job?, hj])
  | ticked | called | passed | answered | callFailed | fetching | finished | died => rfl

theorem claimTimes_length (job : Nat) (h : List QueueEvent) :
    (claimTimes job h).length = claimsSince job h := by
  induction h with
  | nil => rfl
  | cons e h ih =>
      cases e with
      | inserted id j | requeued id j =>
          simp only [claimTimes, claimsSince]
          split_ifs
          · rfl
          · exact ih
      | claimed token j at_ =>
          simp only [claimTimes, claimsSince]
          split_ifs
          · rw [List.length_cons, ih]
          · exact ih
      | ticked | called | passed | answered | callFailed | fetching | finished | died => exact ih

/-- Delays of at least a gap keep the gap. -/
theorem Delayed.spaced {gap : Time} (hgap : 0 ≤ gap) {times : List Time}
    (h : Delayed (fun _ => gap) times) : Spaced gap times := by
  induction times with
  | nil => exact spaced_nil
  | cons later times ih =>
      cases times with
      | nil => exact spaced_nil.cons ahead_nil (le_refl later)
      | cons earlier times =>
          obtain ⟨hle, hrest⟩ := h
          have hspaced := ih hrest
          have hahead : Ahead gap (earlier + gap) (earlier :: times) :=
            Ahead.cons (List.pairwise_cons.1 hspaced).1 le_rfl hgap
          exact hspaced.cons hahead hle

/-! ## The invariant -/

/-- The rows owe the delay to their claims. -/
structure Retried (delay : Nat → Time) (h : List QueueEvent) (s : Queue) : Prop where
  delayed : ∀ job, Delayed delay (claimTimes job h)
  past : ∀ job, ∀ t ∈ claimTimes job h, t ≤ s.now
  due : ∀ k r, rowOf k s.rows = some r → ∀ t times, claimTimes r.id h = t :: times →
    (r.status = .running → t ≤ r.updatedAt) ∧
      (r.status = .queued → t + delay (times.length + 1) ≤ r.nextAttemptAt)

/-- A finish that puts its job back keeps it for the delay. -/
def FinishWaits (delay : Nat → Time) (h : List QueueEvent) (s : Queue) : QueueEvent → Prop
  | .finished _ job _ (some row) =>
      row.status = .queued → s.now + delay (claimsSince job h) ≤ row.nextAttemptAt
  | _ => True

section Steps

variable {U : UnicodeTables} {s s' : Queue} {a : QueueAction} {e : QueueEvent}
  {h : List QueueEvent} {delay : Nat → Time}

/-- The claim of a job that was claimed before comes after the delay. -/
theorem Retried.claim_late (hr : Retried delay h s) (hu : UniqueRows s)
    (hlease : ∀ n, delay n ≤ staleLease) {found : JobRow} (mem : found ∈ s.rows)
    (claimable : Claimable s.now found) {t : Time} {times : List Time}
    (htimes : claimTimes found.id h = t :: times) : t + delay (times.length + 1) ≤ s.now := by
  obtain ⟨hrunning, hqueued⟩ := hr.due _ _ (hu.rowOf_mem mem) t times htimes
  rcases claimable with ⟨hstatus, hdue⟩ | ⟨hstatus, hstale⟩
  · exact Int.le_trans (hqueued hstatus) hdue
  · calc t + delay (times.length + 1) ≤ found.updatedAt + staleLease :=
          Int.add_le_add (hrunning hstatus) (hlease _)
      _ ≤ s.now := Int.le_of_lt (Int.add_lt_of_lt_sub_right hstale)

theorem Retried.delayed_step (hr : Retried delay h s) (hu : UniqueRows s)
    (hlease : ∀ n, delay n ≤ staleLease) (he : QueueEffect s s' e) (job : Nat) :
    Delayed delay (claimTimes job (e :: h)) := by
  by_cases hjob : e.job? = some job
  · cases he with
    | ticked | fetching | died => exact hr.delayed job
    | idle grows event =>
        rcases event with ⟨id, rfl | rfl | rfl⟩ | ⟨id, answer, rfl⟩ <;> exact hr.delayed job
    | inserted id fresh freshKeys status results =>
        rw [QueueEvent.job?, Option.some.injEq] at hjob
        simp only [claimTimes, if_pos hjob, Delayed]
    | requeued id hfound =>
        rw [QueueEvent.job?, Option.some.injEq] at hjob
        simp only [claimTimes, if_pos hjob, Delayed]
    | @claimed found mem claimable =>
        rw [QueueEvent.job?, Option.some.injEq] at hjob
        subst hjob
        have hdelayed := hr.delayed found.id
        simp only [claimTimes, if_true]
        cases htimes : claimTimes found.id h with
        | nil => trivial
        | cons t times =>
            rw [htimes] at hdelayed
            exact ⟨hr.claim_late hu hlease mem claimable htimes, hdelayed⟩
    | finished fetched clock held phase => exact hr.delayed job
  · rw [claimTimes_other h hjob]
    exact hr.delayed job

theorem Retried.past_step (hr : Retried delay h s) (he : QueueEffect s s' e) (job : Nat) :
    ∀ t ∈ claimTimes job (e :: h), t ≤ s'.now := by
  have hold : ∀ t ∈ claimTimes job h, t ≤ s'.now := fun t ht =>
    Int.le_trans (hr.past job t ht) he.now_le
  by_cases hjob : e.job? = some job
  · cases he with
    | ticked | fetching | died | finished => exact hold
    | idle grows event =>
        rcases event with ⟨id, rfl | rfl | rfl⟩ | ⟨id, answer, rfl⟩ <;> exact hold
    | inserted id fresh freshKeys status results =>
        rw [QueueEvent.job?, Option.some.injEq] at hjob
        simp [claimTimes, hjob]
    | requeued id hfound =>
        rw [QueueEvent.job?, Option.some.injEq] at hjob
        simp [claimTimes, hjob]
    | @claimed found mem claimable =>
        rw [QueueEvent.job?, Option.some.injEq] at hjob
        simp only [claimTimes, if_pos hjob]
        exact List.forall_mem_cons.2 ⟨Int.le_refl s.now, hold⟩
  · rw [claimTimes_other h hjob]
    exact hold

theorem Retried.due_step (hr : Retried delay h s) (hu : UniqueRows s)
    (hs : queueStep U s a = some (s', e)) (hw : FinishWaits delay h s e) :
    ∀ k r, rowOf k s'.rows = some r → ∀ t times, claimTimes r.id (e :: h) = t :: times →
      (r.status = .running → t ≤ r.updatedAt) ∧
        (r.status = .queued → t + delay (times.length + 1) ≤ r.nextAttemptAt) := by
  intro k r hrow t times htimes
  have heffect := queueStep_row hu hs k
  generalize hbefore : rowOf k s.rows = row at heffect
  rw [hrow] at heffect
  generalize hafter : some r = row' at heffect
  cases heffect with
  | same other =>
      subst hafter
      rw [claimTimes_other h (other r rfl)] at htimes
      exact hr.due k r hbefore t times htimes
  | inserted id called =>
      cases hafter
      simp [claimTimes, EnqueueCall.newRow, newJob] at htimes
  | requeued id called requeues =>
      cases hafter
      simp [claimTimes, JobRow.requeued] at htimes
  | claimed claimable =>
      cases hafter
      simp only [claimTimes, JobRow.claimed, if_true, List.cons.injEq] at htimes
      obtain ⟨rfl, -⟩ := htimes
      exact ⟨fun _ => Int.le_refl _, fun hqueued => by cases hqueued⟩
  | @finished old token holder enabled results held same =>
      cases hafter
      have hold : claimTimes old.id h = t :: times := htimes
      have hpast := hr.past old.id t (by rw [hold]; exact List.mem_cons_self)
      have hlength := claimTimes_length old.id h
      rw [hold, List.length_cons] at hlength
      rw [FinishWaits, ← hlength] at hw
      refine ⟨fun _ => hpast, fun hqueued => ?_⟩
      exact Int.le_trans (Int.add_le_add_right hpast _) (hw hqueued)

theorem Retried.step (hr : Retried delay h s) (hu : UniqueRows s)
    (hlease : ∀ n, delay n ≤ staleLease) (hs : queueStep U s a = some (s', e))
    (hw : FinishWaits delay h s e) : Retried delay (e :: h) s' :=
  ⟨hr.delayed_step hu hlease (queueStep_effect hs), hr.past_step (queueStep_effect hs),
    hr.due_step hu hs hw⟩

/-- A run whose finishes wait for the delay claims no job before the delay. -/
theorem run_retried {C : List QueueEvent → Queue → QueueEvent → Prop}
    (hlease : ∀ n, delay n ≤ staleLease)
    (hwaits : ∀ h s a s' e, (queue U).RunIf C h s → queueStep U s a = some (s', e) → C h s e →
      FinishWaits delay h s e)
    (hr : (queue U).RunIf C h s) : Retried delay h s := by
  refine hr.invariant (I := Retried delay) ?_ ?_
  · exact ⟨fun _ => trivial, fun _ _ ht => by (cases ht), fun _ _ hrow => by (cases hrow)⟩
  · intro h s a s' e hrun ih hs hc
    exact ih.step (run_uniqueRows hrun) hlease hs (hwaits h s a s' e hrun hs hc)

/-! ## What a finish waits for -/

/-- A worker's own count includes its claim. -/
theorem run_attempts_pos {C : List QueueEvent → Queue → QueueEvent → Prop}
    (hr : (queue U).RunIf C h s) :
    ∀ token holder, s.holders token = some holder → 1 ≤ holder.job.attempts := by
  have hset : ∀ {t : Queue} {token : Nat} {new : Holder},
      (∀ token holder, t.holders token = some holder → 1 ≤ holder.job.attempts) →
      1 ≤ new.job.attempts →
      ∀ i holder, (t.setHolder token new).holders i = some holder → 1 ≤ holder.job.attempts := by
    intro t token new ht hnew i holder hi
    by_cases hid : i = token
    · subst hid
      simp only [Queue.setHolder, Function.update_self, Option.some.injEq] at hi
      exact hi ▸ hnew
    · simp only [Queue.setHolder, Function.update_of_ne hid] at hi
      exact ht i holder hi
  refine hr.invariant (I := fun _ s => ∀ token holder, s.holders token = some holder →
    1 ≤ holder.job.attempts) (fun _ _ hheld => by cases hheld) ?_
  intro h s a s' e hrun ih hs hc
  cases queueStep_effect hs with
  | ticked | idle | inserted | requeued => exact ih
  | @claimed found mem claimable =>
      have hcount := run_counted hrun _ _ ((run_uniqueRows hrun).rowOf_mem mem)
      apply hset ih
      change 1 ≤ found.attempts + 1
      omega
  | @fetching token holder enabled held phase => exact hset ih (ih token holder held)
  | @finished token holder enabled pending fetched clock held phase =>
      exact hset ih (ih token holder held)
  | @died token holder held phase => exact hset ih (ih token holder held)

/-- A job that a finish puts back waits for `2^attempts` minutes, by the worker's own count. -/
theorem finished_nextAttemptAt {r : JobRow} {results : StrMap Json} {attempts : Nat} {now : Time}
    (h : (r.finished results attempts now).status = .queued) :
    (r.finished results attempts now).nextAttemptAt = now + 2 ^ attempts * minute := by
  simp only [JobRow.finished, finishStatus] at h ⊢
  split_ifs at h ⊢ with hretry
  have hlt : attempts < 5 := by
    have := hretry.2
    simp only [maxAttempts] at this
    omega
  have hmin : (min (max (attempts : Int) 0) 10).toNat = attempts := by omega
  simp only [hmin, Nat.pow_eq, Int.natCast_pow]
  rfl

/-- Where a finish puts its job back, and when. -/
theorem finished_waits {token job : Nat} {enabled : List Str} {row : JobRow}
    (he : QueueEffect s s' (.finished token job enabled (some row))) (hqueued : row.status = .queued)
    (hpos : ∀ token holder, s.holders token = some holder → 1 ≤ holder.job.attempts) :
    ∃ holder, s.holders token = some holder ∧ holder.phase ≠ .ended ∧ holder.job.id = job ∧
      ∃ attempts : Nat, holder.job.attempts = attempts ∧ 1 ≤ attempts ∧
        row.nextAttemptAt = s.now + 2 ^ attempts * minute := by
  generalize hwritten : some row = written at he
  cases he with
  | idle grows event => rcases event with ⟨id, h | h | h⟩ | ⟨id, answer, h⟩ <;> cases h
  | @finished _ holder enabled pending fetched clock held phase =>
      obtain ⟨hmem, hid⟩ := find_spec hwritten.symm
      obtain ⟨r, -, hr⟩ := List.mem_map.1 hmem
      have hown : r.id = holder.job.id := by
        split_ifs at hr with hown
        · exact hown
        · exact hr ▸ hid
      rw [if_pos hown] at hr
      subst hr
      obtain ⟨attempts, hattempts⟩ := Int.eq_ofNat_of_zero_le
        (Int.le_trans (by decide : (0 : Int) ≤ 1) (hpos token holder held))
      have hone := hpos token holder held
      refine ⟨holder, held, WorkPhase.fetching_ne_ended phase, rfl, attempts, hattempts, by omega, ?_⟩
      rw [hattempts] at hqueued ⊢
      exact finished_nextAttemptAt hqueued

/-! ## Claims keep apart -/

theorem two_le_two_pow {n : Nat} (h : 1 ≤ n) : (2 : Int) ≤ 2 ^ n := by
  have hpow : 2 ^ 1 ≤ 2 ^ n := Nat.pow_le_pow_right (by decide) h
  exact_mod_cast hpow

theorem run_finishWaits_twoMinutes {C : List QueueEvent → Queue → QueueEvent → Prop}
    (hr : (queue U).RunIf C h s) (hs : queueStep U s a = some (s', e)) :
    FinishWaits twoMinutes h s e := by
  cases e with
  | finished token job enabled written =>
      cases written with
      | none => trivial
      | some row =>
          intro hqueued
          obtain ⟨holder, -, -, -, attempts, -, hone, hnext⟩ :=
            finished_waits (queueStep_effect hs) hqueued (run_attempts_pos hr)
          rw [hnext]
          apply Int.add_le_add_left
          exact Int.mul_le_mul_of_nonneg_right (two_le_two_pow hone) (by decide)
  | _ => trivial

/-- **Claims of a job keep apart.** In every run, whichever workers die, overlap or finish late, a
span of time holds no more claims of a job since it was last requeued than two minutes fit into it,
and one. -/
theorem claims_spaced (hr : (queue U).Run h s) (job : Nat) {first last : Time}
    (hle : first ≤ last) :
    ((claimTimes job h).filter fun t => first ≤ t ∧ t ≤ last).length * (2 * minute) ≤
      (last - first) + 2 * minute := by
  have hretried : Retried twoMinutes h s :=
    run_retried (fun _ => (by decide : 2 * minute ≤ staleLease))
      (fun _ _ _ _ _ hrun hs _ => run_finishWaits_twoMinutes hrun hs) hr
  have hgap : (0 : Time) ≤ 2 * minute := by decide
  have hspaced : Spaced (2 * minute) (claimTimes job h) := (hretried.delayed job).spaced hgap
  have hcount := (hspaced.filter fun t => first ≤ t ∧ t ≤ last).length_nsmul_le (a := first)
    (b := last) ?_ hle hgap
  · rw [Int.nsmul_eq_mul] at hcount
    have hsub := Int.le_sub_right_of_add_le hcount
    rwa [add_sub_right_comm] at hsub
  · intro t ht
    simpa using (List.mem_filter.1 ht).2

/-- A takeover and a retry: claims at the start, after 31 minutes and after 35. -/
theorem claims_spaced_retry :
    claimTimes 1 ((queue asciiTables).exec ([], Queue.empty) retrySchedule).1 =
        [35 * minute, 31 * minute, 0] ∧
      ((claimTimes 1 ((queue asciiTables).exec ([], Queue.empty) retrySchedule).1).filter
        fun t => 30 * minute ≤ t ∧ t ≤ 35 * minute).length * (2 * minute) ≤
          (35 * minute - 30 * minute) + 2 * minute :=
  ⟨by decide, claims_spaced (Machine.run_exec retrySchedule) 1 (by decide)⟩

/-! ## The backoff -/

/-- A worker with a fresh lease counts the claims of its job. -/
theorem run_finishWaits_backoff (hr : (queue U).RunIf FreshLease h s)
    (hs : queueStep U s a = some (s', e)) (hc : FreshLease h s e) : FinishWaits backoff h s e := by
  cases e with
  | finished token job enabled written =>
      cases written with
      | none => trivial
      | some row =>
          intro hqueued
          obtain ⟨holder, held, hphase, rfl, attempts, hattempts, -, hnext⟩ :=
            finished_waits (queueStep_effect hs) hqueued (run_attempts_pos hr)
          obtain ⟨leased, hmem, ⟨hid, -, -, hcopy, -⟩, -⟩ :=
            (run_held hr).working_row (hc.working held hphase)
          have hcount := run_counted hr _ _ ((run_uniqueRows hr).rowOf_mem hmem)
          rw [hid, hcopy, hattempts] at hcount
          rw [hnext, Int.ofNat.inj hcount]
          exact Int.add_le_add_left (min_le_left _ _) s.now
  | _ => trivial

/-- **Retries back off.** Where each worker finishes before its lease goes stale, the k-th claim of
a job since it was last requeued keeps the next one away for `2^k` minutes, or for the half hour of
a lease when that is less. -/
theorem retries_backed_off (hr : (queue U).RunIf FreshLease h s) (job : Nat) :
    Delayed backoff (claimTimes job h) := by
  have hretried : Retried backoff h s :=
    run_retried (fun n => min_le_right _ _)
      (fun _ _ _ _ _ hrun hs hc => run_finishWaits_backoff hrun hs hc) hr
  exact hretried.delayed job

theorem retries_backed_off_twoAttempts :
    claimTimes 1 ((queue asciiTables).exec ([], Queue.empty) twoAttempts).1 = [2 * minute, 0] ∧
      Delayed backoff (claimTimes 1 ((queue asciiTables).exec ([], Queue.empty) twoAttempts).1) :=
  ⟨by decide, retries_backed_off (Machine.runIf_exec (by decide)) 1⟩

end Steps

end AnyPlayerSync.Passages
