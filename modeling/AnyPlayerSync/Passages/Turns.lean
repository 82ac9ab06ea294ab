import AnyPlayerSync.Foundation.Spacing
import AnyPlayerSync.Passages.Attempts
import Mathlib.Algebra.Order.Group.Int
import Mathlib.Data.Prod.Lex

/-!
# When a waiting job gets its turn

A claim takes the first due row in the order `next_attempt_at, id`. Every statement that makes a
job due again (an insert, a requeue, a finish that retries) sets `next_attempt_at` to the present or
later, so nothing gets in front of a job that is overdue: only the jobs that were ahead of it can be
claimed before it, and each of them again only when its lease has gone stale.

`Overtaken` is the invariant from the moment at which the job is overdue. `overtaking_bounded`
counts: one claim for each job ahead, and one more for each lease that passes meanwhile.
-/

set_option autoImplicit false

namespace AnyPlayerSync.Passages

open AnyPlayerSync.Foundation
open AnyPlayerSync.Sync (Time)

/-! ## The order of the claim -/

section Order

variable {a b c : JobRow}

theorem JobRow.before_iff : a.Before b ↔
    toLex (a.nextAttemptAt, a.id) < toLex (b.nextAttemptAt, b.id) :=
  (@Prod.Lex.toLex_lt_toLex _ _ _ _ (a.nextAttemptAt, a.id) (b.nextAttemptAt, b.id)).symm

theorem JobRow.not_before_trans (h : ¬ a.Before b) (h' : ¬ b.Before c) : ¬ a.Before c := by
  rw [before_iff, not_lt] at h h' ⊢
  exact h'.trans h

theorem JobRow.not_before_of_before (h : a.Before b) : ¬ b.Before a := by
  rw [before_iff] at h ⊢
  exact lt_asymm h

/-- Rows with different ids are one before the other. -/
theorem JobRow.before_of_not (h : ¬ b.Before a) (hid : a.id ≠ b.id) : a.Before b := by
  rw [before_iff] at h ⊢
  refine lt_of_le_of_ne (not_lt.1 h) fun heq => hid ?_
  exact congrArg (fun p => (ofLex p).2) heq

/-- No row comes before the one that the claim's order puts first. -/
theorem earliest_spec {rows : List JobRow} {first : JobRow} (h : earliest rows = some first) :
    ∀ r ∈ rows, ¬ r.Before first := by
  induction rows generalizing first with
  | nil => exact fun r hr => absurd hr List.not_mem_nil
  | cons head rows ih =>
      rw [earliest] at h
      cases hbest : earliest rows with
      | none =>
          rw [hbest] at h
          cases h
          cases rows with
          | nil =>
              intro r hr
              rw [List.mem_singleton.1 hr, JobRow.before_iff]
              exact lt_irrefl _
          | cons r rows =>
              obtain ⟨found, hfound⟩ := exists_earliest (@List.mem_cons_self _ r rows)
              rw [hbest] at hfound
              cases hfound
      | some best =>
          rw [hbest] at h
          simp only at h
          split_ifs at h with hbefore
          · cases h
            exact List.forall_mem_cons.2 ⟨JobRow.not_before_of_before hbefore, ih hbest⟩
          · cases h
            refine List.forall_mem_cons.2 ⟨?_, fun r hr =>
              JobRow.not_before_trans (ih hbest r hr) hbefore⟩
            rw [JobRow.before_iff]
            exact lt_irrefl _

end Order

/-! ## Waiting -/

/-- The job is overdue. -/
structure Waits (r : JobRow) (s : Queue) : Prop where
  mem : r ∈ s.rows
  queued : r.status = .queued
  overdue : r.nextAttemptAt < s.now

/-- The step leaves the row of the job as it is, and no other transaction holds it at a claim. -/
structure PassesOver (r : JobRow) (st : Machine.Step Queue QueueAction QueueEvent) : Prop where
  kept : r ∈ st.after.rows
  free : ∀ locked, st.action = .claim locked → r.id ∉ locked

/-- The claims among some events, each with its job and its time. -/
def claimsOf (h : List QueueEvent) : List (Nat × Time) :=
  h.filterMap fun
    | .claimed _ job at_ => some (job, at_)
    | _ => none

theorem claimsOf_cons_claimed (token job : Nat) (at_ : Time) (h : List QueueEvent) :
    claimsOf (.claimed token job at_ :: h) = (job, at_) :: claimsOf h := rfl

theorem claimsOf_cons_other {e : QueueEvent} (he : ∀ token job at_, e ≠ .claimed token job at_)
    (h : List QueueEvent) : claimsOf (e :: h) = claimsOf h := by
  cases e with
  | claimed token job at_ => exact absurd rfl (he token job at_)
  | ticked | called | inserted | requeued | passed | answered | callFailed | fetching | finished
  | died => rfl

/-- The rows that are ahead of the job in the order of the claim. -/
def aheadOf (r : JobRow) (s : Queue) : List JobRow := s.rows.filter fun x => x.Before r

theorem mem_aheadOf {r x : JobRow} {s : Queue} : x ∈ aheadOf r s ↔ x ∈ s.rows ∧ x.Before r := by
  simp [aheadOf]

theorem claim_of_claimed {U : UnicodeTables} {s s' : Queue} {a : QueueAction} {token job : Nat}
    {at_ : Time} (h : queueStep U s a = some (s', .claimed token job at_)) :
    ∃ locked, a = .claim locked := by
  have hturn := queueStep_turn h
  generalize hevent : QueueEvent.claimed token job at_ = e at hturn
  cases hturn with
  | @claim locked => exact ⟨locked, rfl⟩
  | proceed there step => cases step <;> cases hevent
  | tick | call | failCall | fetch | finish | die => cases hevent

/-- What a claim takes is first among the due rows that it finds free. -/
theorem claim_first {U : UnicodeTables} {s s' : Queue} {a : QueueAction} {token job : Nat}
    {at_ : Time} (h : queueStep U s a = some (s', .claimed token job at_)) :
    ∃ locked found, a = .claim locked ∧ found ∈ s.rows ∧ Claimable s.now found ∧
      found.id = job ∧ at_ = s.now ∧ found.claimed s.now ∈ s'.rows ∧
      ∀ x ∈ s.rows, Claimable s.now x → x.id ∉ locked → ¬ x.Before found := by
  obtain ⟨locked, rfl⟩ := claim_of_claimed h
  simp only [queueStep, claim] at h
  cases hfound : earliest (s.rows.filter fun r => Claimable s.now r ∧ r.id ∉ locked) with
  | none => rw [hfound] at h; cases h
  | some found =>
      rw [hfound] at h
      cases h
      obtain ⟨hmem, hcond⟩ := List.mem_filter.1 (earliest_mem hfound)
      refine ⟨locked, found, rfl, hmem, (of_decide_eq_true hcond).1, rfl, rfl, ?_, ?_⟩
      · exact List.mem_map.2 ⟨found, hmem, if_pos rfl⟩
      · intro x hx hclaimable hfree
        exact earliest_spec hfound x
          (List.mem_filter.2 ⟨hx, decide_eq_true ⟨hclaimable, hfree⟩⟩)

/-! ## The invariant -/

/-- What has happened since the job was overdue. -/
structure Overtaken (r : JobRow) (s₀ : Queue)
    (later : List (Machine.Step Queue QueueAction QueueEvent)) (s : Queue) : Prop where
  waits : r ∈ s.rows
  past : s₀.now ≤ s.now
  /-- Who is ahead was ahead at first. -/
  ahead : ∀ x ∈ s.rows, x.Before r → x.id ∈ (aheadOf r s₀).map JobRow.id
  /-- Who was claimed was ahead at first, and the claim is past. -/
  claimed : ∀ p ∈ claimsOf (later.map Machine.Step.event),
    p.1 ∈ (aheadOf r s₀).map JobRow.id ∧ s₀.now ≤ p.2 ∧ p.2 ≤ s.now
  /-- Who is still ahead after a claim has run since. -/
  running : ∀ x ∈ s.rows, x.Before r →
    ∀ t ∈ timesOf x.id (claimsOf (later.map Machine.Step.event)),
      x.status = .running ∧ t ≤ x.updatedAt
  spaced : ∀ job, Spaced staleLease (timesOf job (claimsOf (later.map Machine.Step.event)))

section Steps

variable {U : UnicodeTables} {r : JobRow} {s₀ s s' : Queue} {a : QueueAction} {e : QueueEvent}
  {later : List (Machine.Step Queue QueueAction QueueEvent)}

/-- A row that becomes due at present is behind a job that is overdue. -/
theorem not_before_of_now (hdue : r.nextAttemptAt < s.now) {x : JobRow}
    (hx : s.now ≤ x.nextAttemptAt) : ¬ x.Before r := by
  rintro (hlt | ⟨heq, -⟩)
  · exact absurd (hx.trans_lt hlt) (lt_asymm hdue)
  · exact absurd (heq ▸ hx) (not_le.2 hdue)

/-- Who is ahead after a step was ahead before it, as it is or before a claim of it. -/
theorem before_step (hu : UniqueRows s) (hs : queueStep U s a = some (s', e))
    (hdue : r.nextAttemptAt < s.now) {x : JobRow} (hx : x ∈ s'.rows) (hbefore : x.Before r) :
    (x ∈ s.rows ∧ e.job? ≠ some x.id) ∨
      ∃ y ∈ s.rows, y.Before r ∧ x = y.claimed s.now ∧ e = .claimed s.nextToken y.id s.now := by
  have heffect := queueStep_row hu hs x.keys
  rw [((queueStep_effect hs).uniqueRows hu).rowOf_mem hx] at heffect
  generalize hafter : some x = after at heffect
  generalize hrow : rowOf x.keys s.rows = row at heffect
  cases heffect with
  | same other =>
      subst hafter
      exact Or.inl ⟨(rowOf_spec hrow).1, other x rfl⟩
  | claimed claimable =>
      cases hafter
      exact Or.inr ⟨_, (rowOf_spec hrow).1, hbefore, rfl, rfl⟩
  | inserted id called =>
      cases hafter
      exact absurd hbefore (not_before_of_now hdue (le_refl _))
  | requeued id called requeues =>
      cases hafter
      exact absurd hbefore (not_before_of_now hdue (le_refl _))
  | finished enabled results held same =>
      cases hafter
      refine absurd hbefore (not_before_of_now hdue ?_)
      exact Int.le_add_of_nonneg_right (Int.mul_nonneg (Int.natCast_nonneg _) (by decide))

/-- What is claimed while the job waits is ahead of it. -/
theorem claimed_before (hu' : UniqueRows s') (hmem : r ∈ s.rows)
    (hqueued : r.status = .queued) (hdue : r.nextAttemptAt < s.now) {token job : Nat} {at_ : Time}
    (hs : queueStep U s a = some (s', .claimed token job at_))
    (hc : PassesOver r ⟨s, a, .claimed token job at_, s'⟩) :
    ∃ found ∈ s.rows, found.Before r ∧ Claimable s.now found ∧ found.id = job ∧ at_ = s.now := by
  obtain ⟨locked, found, rfl, hfound, hclaimable, hid, hat, hafter, hfirst⟩ := claim_first hs
  have hother : found.id ≠ r.id := by
    intro hsame
    have heq : found.claimed s.now = r := hu'.eq_of_id hafter hc.kept hsame
    rw [← heq] at hqueued
    cases hqueued
  refine ⟨found, hfound, JobRow.before_of_not ?_ hother, hclaimable, hid, hat⟩
  exact hfirst r hmem (Or.inl ⟨hqueued, hdue.le⟩) (hc.free locked rfl)

/-- A job that was claimed while the other waits is claimed again after its lease only. -/
theorem Overtaken.claim_late (ho : Overtaken r s₀ later s) {found : JobRow} (hmem : found ∈ s.rows)
    (hbefore : found.Before r) (hclaimable : Claimable s.now found) :
    Ahead staleLease s.now (timesOf found.id (claimsOf (later.map Machine.Step.event))) := by
  intro t ht
  obtain ⟨hrunning, hle⟩ := ho.running found hmem hbefore t ht
  rcases hclaimable with ⟨hqueued, -⟩ | ⟨-, hstale⟩
  · rw [hrunning] at hqueued
    cases hqueued
  · calc t + staleLease ≤ found.updatedAt + staleLease := Int.add_le_add_right hle _
      _ ≤ s.now := Int.le_of_lt (Int.add_lt_of_lt_sub_right hstale)

theorem Overtaken.step (ho : Overtaken r s₀ later s) (hu : UniqueRows s) (hu' : UniqueRows s')
    (hqueued : r.status = .queued) (hoverdue : r.nextAttemptAt < s₀.now)
    (hs : queueStep U s a = some (s', e)) (hc : PassesOver r ⟨s, a, e, s'⟩) :
    Overtaken r s₀ (⟨s, a, e, s'⟩ :: later) s' := by
  have hdue : r.nextAttemptAt < s.now := hoverdue.trans_le ho.past
  have hnow : s.now ≤ s'.now := (queueStep_effect hs).now_le
  have hahead : ∀ x ∈ s'.rows, x.Before r → x.id ∈ (aheadOf r s₀).map JobRow.id := by
    intro x hx hbefore
    rcases before_step hu hs hdue hx hbefore with ⟨hx, -⟩ | ⟨y, hy, hbefore, rfl, -⟩
    · exact ho.ahead x hx hbefore
    · exact ho.ahead y hy hbefore
  have hold : ∀ p ∈ claimsOf (later.map Machine.Step.event),
      p.1 ∈ (aheadOf r s₀).map JobRow.id ∧ s₀.now ≤ p.2 ∧ p.2 ≤ s'.now := by
    intro p hp
    obtain ⟨hmem, hfirst, hlast⟩ := ho.claimed p hp
    exact ⟨hmem, hfirst, hlast.trans hnow⟩
  by_cases hclaim : ∃ token job at_, e = .claimed token job at_
  · obtain ⟨token, job, at_, rfl⟩ := hclaim
    obtain ⟨found, hfound, hbefore, hclaimable, rfl, rfl⟩ :=
      claimed_before hu' ho.waits hqueued hdue hs hc
    refine ⟨hc.kept, ho.past.trans hnow, hahead, ?_, ?_, ?_⟩
    · rw [List.map_cons, claimsOf_cons_claimed]
      exact List.forall_mem_cons.2 ⟨⟨ho.ahead found hfound hbefore, ho.past, hnow⟩, hold⟩
    · intro x hx hxr t ht
      rw [List.map_cons, claimsOf_cons_claimed] at ht
      rcases before_step hu hs hdue hx hxr with ⟨hx, hother⟩ | ⟨y, hy, hyr, rfl, he⟩
      · have hid : found.id ≠ x.id := fun h => hother (congrArg some h)
        rw [timesOf_cons_other hid] at ht
        exact ho.running x hx hxr t ht
      · -- the row that is claimed shows this claim, the latest
        refine ⟨rfl, ?_⟩
        rcases List.mem_cons.1 (mem_timesOf.1 ht) with hlast | hearlier
        · exact (congrArg Prod.snd hlast).le
        · exact (ho.claimed _ hearlier).2.2
    · intro job
      rw [List.map_cons, claimsOf_cons_claimed]
      by_cases hjob : found.id = job
      · subst hjob
        rw [timesOf_cons_self]
        exact (ho.spaced found.id).cons (ho.claim_late hfound hbefore hclaimable) le_rfl
      · rw [timesOf_cons_other hjob]
        exact ho.spaced job
  · push Not at hclaim
    refine ⟨hc.kept, ho.past.trans hnow, hahead, ?_, ?_, ?_⟩
    · rw [List.map_cons, claimsOf_cons_other hclaim]
      exact hold
    · intro x hx hxr t ht
      rw [List.map_cons, claimsOf_cons_other hclaim] at ht
      rcases before_step hu hs hdue hx hxr with ⟨hx, -⟩ | ⟨y, hy, hyr, rfl, he⟩
      · exact ho.running x hx hxr t ht
      · exact absurd he (hclaim _ _ _)
    · rw [List.map_cons, claimsOf_cons_other hclaim]
      exact ho.spaced

variable {h : List QueueEvent}

/-- All steps that pass the job over keep the invariant. -/
theorem after_overtaken (hr : (queue U).Run h s₀) (hw : Waits r s₀)
    (ha : (queue U).After s₀ later s) (hc : ∀ st ∈ later, PassesOver r st) :
    Overtaken r s₀ later s := by
  refine ha.invariant (I := Overtaken r s₀) ?_ ?_ hc
  · refine ⟨hw.mem, le_refl _, fun x hx hbefore => ?_, ?_, ?_, fun _ => spaced_nil⟩
    · exact List.mem_map_of_mem (mem_aheadOf.2 ⟨hx, hbefore⟩)
    · exact fun p hp => absurd hp List.not_mem_nil
    · exact fun x _ _ t ht => absurd ht List.not_mem_nil
  · intro l s a s' e ha ih hs hpass
    have hu := run_uniqueRows (ha.run hr)
    exact ih.step hu ((queueStep_effect hs).uniqueRows hu) hw.queued hw.overdue hs hpass

/-! ## How often a job is overtaken -/

/-- The leases that fit into a time. -/
def leases (elapsed : Time) : Nat := (elapsed / staleLease).toNat

/-- A job that is ahead is claimed once, and once more for each lease. -/
theorem Overtaken.timesOf_length_le (ho : Overtaken r s₀ later s) (job : Nat) :
    (timesOf job (claimsOf (later.map Machine.Step.event))).length ≤
      leases (s.now - s₀.now) + 1 := by
  have hspan : ∀ t ∈ timesOf job (claimsOf (later.map Machine.Step.event)),
      s₀.now ≤ t ∧ t ≤ s.now := fun t ht => (ho.claimed _ (mem_timesOf.1 ht)).2
  have hle := (ho.spaced job).length_nsmul_le hspan ho.past (by decide)
  generalize (timesOf job (claimsOf (later.map Machine.Step.event))).length = n at hle ⊢
  have hlease : (0 : Int) < staleLease := by decide
  have hfit : ((n : Int) - 1) * staleLease ≤ s.now - s₀.now := by
    rw [Int.nsmul_eq_mul] at hle
    have hsub := Int.le_sub_right_of_add_le hle
    rw [Int.sub_mul, Int.one_mul]
    exact Int.sub_right_le_of_le_add (by rwa [add_sub_right_comm] at hsub)
  have hdiv := (Int.le_ediv_iff_mul_le hlease).2 hfit
  rw [leases]
  omega

/-- While the job waits no claim comes back empty. -/
theorem claim_enabled (hmem : r ∈ s.rows) (hqueued : r.status = .queued)
    (hdue : r.nextAttemptAt < s.now) {locked : List Nat} (hfree : r.id ∉ locked) :
    ∃ s' e, queueStep U s (.claim locked) = some (s', e) := by
  have hin : r ∈ s.rows.filter fun x => Claimable s.now x ∧ x.id ∉ locked :=
    List.mem_filter.2 ⟨hmem, decide_eq_true ⟨Or.inl ⟨hqueued, hdue.le⟩, hfree⟩⟩
  obtain ⟨found, hfound⟩ := exists_earliest hin
  simp only [queueStep, claim, hfound]
  exact ⟨_, _, rfl⟩

/-- **No job starves.** From a moment at which a job is overdue, and for as long as it waits and is
locked by nobody who claims: every claim gets a job, and whatever is enqueued, requeued, retried,
finished late or taken over meanwhile, there is at most one claim for each job that was ahead of it
at that moment, and one more for each of them in every lease that passes. -/
theorem overtaking_bounded (hr : (queue U).Run h s₀) (hw : Waits r s₀)
    (ha : (queue U).After s₀ later s) (hc : ∀ st ∈ later, PassesOver r st) :
    (∀ locked, r.id ∉ locked → ∃ s' e, queueStep U s (.claim locked) = some (s', e)) ∧
      (claimsOf (later.map Machine.Step.event)).length ≤
        (aheadOf r s₀).length * (leases (s.now - s₀.now) + 1) := by
  have ho := after_overtaken hr hw ha hc
  refine ⟨fun locked => claim_enabled ho.waits hw.queued (hw.overdue.trans_le ho.past), ?_⟩
  have hcount := length_le_of_timesOf (fun p hp => (ho.claimed p hp).1) ho.timesOf_length_le
  rwa [List.length_map] at hcount

end Steps

/-! ## The second of two jobs -/

/-- A second track. -/
def karmaPolice : TrackRequest := ⟨"Karma Police".toList, "Radiohead".toList, none⟩

/-- Two jobs are enqueued, and are overdue. -/
def twoDue : Queue :=
  ((queue asciiTables).exec ([], Queue.empty)
    [.call 0 creep none false false, .proceed 0, .call 1 karmaPolice none false false, .proceed 1,
      .tick 1]).2

/-- The first track's job. -/
def creepRow : JobRow := newJob 1 (jobKeys asciiTables creep) creep none false 0

/-- The second track's job. -/
def karmaPoliceRow : JobRow := newJob 2 (jobKeys asciiTables karmaPolice) karmaPolice none false 0

theorem twoDue_spec : twoDue.rows = [creepRow, karmaPoliceRow] ∧ twoDue.now = 1 := by
  have hkeys : jobKeys asciiTables creep ≠ jobKeys asciiTables karmaPolice := by decide +kernel
  simp [twoDue, queue, Machine.exec, queueStep, proceedCall, insertJob, Queue.setCall, Queue.empty,
    newJob, hkeys, creepRow, karmaPoliceRow]

/-- A claim takes the first, while the second waits. -/
def oneClaimed : List (Machine.Step Queue QueueAction QueueEvent) × Queue :=
  (queue asciiTables).trace ([], twoDue) [.claim []]

theorem oneClaimed_passesOver : ∀ st ∈ oneClaimed.1, PassesOver karmaPoliceRow st := by
  obtain ⟨hrows, hnow⟩ := twoDue_spec
  have hclaim : claim twoDue.rows [] twoDue.now =
      some ([creepRow.claimed 1, karmaPoliceRow], (creepRow.claimed 1).job) := by
    rw [hrows, hnow]
    rfl
  simp only [oneClaimed, Machine.trace, queue, queueStep, hclaim]
  refine List.forall_mem_cons.2 ⟨⟨.tail _ (.head _), ?_⟩, List.forall_mem_nil _⟩
  rintro locked ⟨rfl⟩
  exact List.not_mem_nil

theorem overtaking_bounded_second :
    (∀ locked, karmaPoliceRow.id ∉ locked →
      ∃ s' e, queueStep asciiTables oneClaimed.2 (.claim locked) = some (s', e)) ∧
      (claimsOf (oneClaimed.1.map Machine.Step.event)).length ≤
        (aheadOf karmaPoliceRow twoDue).length *
          (leases (oneClaimed.2.now - twoDue.now) + 1) := by
  obtain ⟨hrows, hnow⟩ := twoDue_spec
  have hwaits : Waits karmaPoliceRow twoDue := by
    refine ⟨?_, rfl, ?_⟩
    · rw [hrows]
      exact .tail _ (.head _)
    · rw [hnow]
      decide
  exact overtaking_bounded (Machine.run_exec _) hwaits (Machine.after_trace _ _)
    oneClaimed_passesOver

end AnyPlayerSync.Passages
