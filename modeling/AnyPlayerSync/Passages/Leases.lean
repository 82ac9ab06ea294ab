import AnyPlayerSync.Passages.Queue

/-!
# Ingest leases

A claim leases its job: the row is `running` and its `updated_at` is the time of the claim, so
another claim can take it over only when the lease has gone stale. `finish` finds the row by its id
alone. When a worker whose lease was taken over still finishes, it overwrites the row of the new
holder, and the job becomes claimable again while the new lease is fresh
(`late_finish_breaks_lease`).

When no worker finishes a job that another worker holds (`HolderFinishes`), every claim is finished,
stale or shown by its row (`Leased`), and leases are exclusive (`leases_exclusive`).
-/

set_option autoImplicit false

namespace AnyPlayerSync.Passages

open AnyPlayerSync.Foundation
open AnyPlayerSync.Sync (Time)

/-! ## The property and its condition -/

/-- The worker that made a claim has finished it. -/
def FinishedBy (h : List QueueEvent) (token : Nat) : Bool :=
  h.any fun
    | .finished t _ _ _ => t == token
    | _ => false

/-- Whenever a job is claimed, and whenever it could be, each earlier claim of it is finished or its
lease is stale. -/
structure LeasesExclusive (h : List QueueEvent) (s : Queue) : Prop where
  claims : ∀ later token job at_ earlier, h = later ++ .claimed token job at_ :: earlier →
    ∀ token' at', .claimed token' job at' ∈ earlier →
      FinishedBy earlier token' = true ∨ at' + staleLease < at_
  claimable : ∀ row ∈ s.rows, Claimable s.now row → ∀ token at_, .claimed token row.id at_ ∈ h →
    FinishedBy h token = true ∨ at_ + staleLease < s.now

/-- An event is a claim of the job by another worker, unfinished and fresh. -/
def HeldByOther (h : List QueueEvent) (now : Time) (token job : Nat) : QueueEvent → Prop
  | .claimed token' job' at' =>
      job' = job ∧ token' ≠ token ∧ FinishedBy h token' = false ∧ now ≤ at' + staleLease
  | _ => False

instance (h : List QueueEvent) (now : Time) (token job : Nat) (e : QueueEvent) :
    Decidable (HeldByOther h now token job e) := by
  unfold HeldByOther; split <;> infer_instance

/-- No worker finishes a job while another worker's claim of it is unfinished and fresh. -/
def HolderFinishes (h : List QueueEvent) (s : Queue) : QueueEvent → Prop
  | .finished token job _ _ => ∀ e ∈ h, ¬ HeldByOther h s.now token job e
  | _ => True

instance (h : List QueueEvent) (s : Queue) (e : QueueEvent) : Decidable (HolderFinishes h s e) := by
  unfold HolderFinishes; split <;> infer_instance

/-! ## Every claim is finished, stale or shown by its row -/

section Steps

variable {s s' : Queue} {e : QueueEvent}

/-- The row of the job shows the lease that began at `at_`. -/
def ShowsLease (s : Queue) (job : Nat) (at_ : Time) : Prop :=
  ∃ row ∈ s.rows, row.id = job ∧ row.status = .running ∧ row.updatedAt = at_

/-- Each claim is finished, or stale, or its lease is still on the row. -/
def Leased (h : List QueueEvent) (s : Queue) : Prop :=
  ∀ token job at_, .claimed token job at_ ∈ h →
    FinishedBy h token = true ∨ at_ + staleLease < s.now ∨ ShowsLease s job at_

theorem FinishedBy_cons_of {h : List QueueEvent} {token : Nat} (hf : FinishedBy h token = true)
    (e : QueueEvent) : FinishedBy (e :: h) token = true := by
  rw [FinishedBy, List.any_cons, Bool.or_eq_true]
  exact Or.inr hf

/-- A claimable row does not show a lease that is not stale. -/
theorem ShowsLease.stale (hu : UniqueRows s) {row : JobRow} (hrow : row ∈ s.rows)
    (hc : Claimable s.now row) {at_ : Time} (hs : ShowsLease s row.id at_) :
    at_ + staleLease < s.now := by
  obtain ⟨r, hr, hid, hstatus, hat⟩ := hs
  cases hu.eq_of_id hr hrow hid
  rcases hc with ⟨hqueued, -⟩ | ⟨-, hstale⟩
  · rw [hstatus] at hqueued
    cases hqueued
  · rw [← hat]
    exact Int.add_lt_of_lt_sub_right hstale

/-- A lease stays shown by a row that a step does not write. -/
theorem ShowsLease.of_unchanged {job : Nat} {at_ : Time} (hs : ShowsLease s job at_)
    (hkeep : ∀ row ∈ s.rows, row.id = job → row.status = .running → row ∈ s'.rows) :
    ShowsLease s' job at_ := by
  obtain ⟨row, hrow, hid, hstatus, hat⟩ := hs
  exact ⟨row, hkeep row hrow hid hstatus, hid, hstatus, hat⟩

/-- Rows of other jobs stay as an update of one job leaves them. -/
theorem mem_update_other {rows : List JobRow} {f : JobRow → JobRow} {id : Nat} {row : JobRow}
    (hrow : row ∈ rows) (hid : row.id ≠ id) :
    row ∈ rows.map fun r => if r.id = id then f r else r :=
  List.mem_map.2 ⟨row, hrow, if_neg hid⟩

/-- **One step** that meets the condition keeps every claim finished, stale or shown. -/
theorem QueueEffect.leased {h : List QueueEvent} (he : QueueEffect s s' e) (hu : UniqueRows s)
    (hl : Leased h s) (hc : HolderFinishes h s e) : Leased (e :: h) s' := by
  intro token job at_ hmem
  have hold : .claimed token job at_ ∈ h → s.now ≤ s'.now →
      (∀ row ∈ s.rows, row.id = job → row.status = .running → row ∈ s'.rows) →
      FinishedBy (e :: h) token = true ∨ at_ + staleLease < s'.now ∨ ShowsLease s' job at_ := by
    intro hmem hnow hkeep
    rcases hl token job at_ hmem with hf | hstale | hshow
    · exact Or.inl (FinishedBy_cons_of hf e)
    · exact Or.inr (Or.inl (Int.lt_of_lt_of_le hstale hnow))
    · exact Or.inr (Or.inr (hshow.of_unchanged hkeep))
  cases he with
  | ticked elapsed =>
      exact hold (List.mem_of_ne_of_mem (fun h => by cases h) hmem)
        (Int.le_add_of_nonneg_right (Int.natCast_nonneg elapsed)) fun _ h _ _ => h
  | idle grows event =>
      refine hold (List.mem_of_ne_of_mem ?_ hmem) (Int.le_refl _) fun _ h _ _ => h
      rintro rfl
      rcases event with ⟨id, h | h | h⟩ | ⟨id, answer, h⟩ <;> cases h
  | inserted id fresh freshKeys status results =>
      exact hold (List.mem_of_ne_of_mem (fun h => by cases h) hmem) (Int.le_refl _)
        fun _ h _ _ => List.mem_append_left _ h
  -- only finished jobs are requeued, and the row that shows a lease is running
  | requeued id hfound =>
      refine hold (List.mem_of_ne_of_mem (fun h => by cases h) hmem) (Int.le_refl _) ?_
      intro row hrow _ hrunning
      refine List.mem_map.2 ⟨row, hrow, if_neg fun hreq => ?_⟩
      rcases hreq.2.1 with hdone | hfailed
      · rw [hrunning] at hdone; cases hdone
      · rw [hrunning] at hfailed; cases hfailed
  | @claimed found mem claimable =>
      -- the new claim is shown by the row it has updated; an older one of this job was stale
      rcases List.mem_cons.1 hmem with hnew | hmem
      · cases hnew
        exact Or.inr (Or.inr ⟨_, List.mem_map.2 ⟨found, mem, if_pos rfl⟩, rfl, rfl, rfl⟩)
      · by_cases hjob : job = found.id
        · subst hjob
          rcases hl token _ at_ hmem with hf | hstale | hshow
          · exact Or.inl (FinishedBy_cons_of hf _)
          · exact Or.inr (Or.inl hstale)
          · exact Or.inr (Or.inl (hshow.stale hu mem claimable))
        · exact hold hmem (Int.le_refl _) fun row hrow hid _ =>
            mem_update_other hrow (hid ▸ hjob)
  | @finished own holder enabled pending fetched clock held phase =>
      have hmem := List.mem_of_ne_of_mem (fun h => by cases h) hmem
      -- a finish ends its own claim, and by the condition it meets no fresh claim of another
      by_cases hjob : job = holder.job.id
      · by_cases hown : token = own
        · exact Or.inl (by simp [FinishedBy, hown])
        · cases hf : FinishedBy h token with
          | true => exact Or.inl (FinishedBy_cons_of hf _)
          | false =>
              exact Or.inr (Or.inl (Int.not_le.1 fun hfresh =>
                hc _ hmem ⟨hjob, hown, hf, hfresh⟩))
      · exact hold hmem (Int.le_refl _) fun row hrow hid _ => mem_update_other hrow (hid ▸ hjob)
  | fetching enabled held phase =>
      exact hold (List.mem_of_ne_of_mem (fun h => by cases h) hmem) (Int.le_refl _) fun _ h _ _ => h
  | died held phase =>
      exact hold (List.mem_of_ne_of_mem (fun h => by cases h) hmem) (Int.le_refl _) fun _ h _ _ => h

end Steps

theorem run_leased {U : UnicodeTables} {h : List QueueEvent} {s : Queue}
    (hr : (queue U).RunIf HolderFinishes h s) : Leased h s :=
  hr.invariant (I := Leased) (fun _ _ _ h0 => by cases h0)
    fun _ _ _ _ _ hr ih hs hc => (queueStep_effect hs).leased (run_uniqueRows hr) ih hc

/-- What is claimable is not leased. -/
theorem Leased.claimable {h : List QueueEvent} {s : Queue} (hl : Leased h s) (hu : UniqueRows s)
    {row : JobRow} (hrow : row ∈ s.rows) (hc : Claimable s.now row) {token : Nat} {at_ : Time}
    (hmem : .claimed token row.id at_ ∈ h) :
    FinishedBy h token = true ∨ at_ + staleLease < s.now := by
  rcases hl token row.id at_ hmem with hf | hstale | hshow
  · exact Or.inl hf
  · exact Or.inr hstale
  · exact Or.inr (hshow.stale hu hrow hc)

/-- **Leases are exclusive** in every run in which no worker finishes a job while another worker's
claim of it is unfinished and fresh. -/
theorem leases_exclusive (U : UnicodeTables) {h : List QueueEvent} {s : Queue}
    (hr : (queue U).RunIf HolderFinishes h s) : LeasesExclusive h s where
  claims := by
    intro later token job at_ earlier heq
    refine hr.forall_steps (P := fun e earlier => ∀ token job at_, e = .claimed token job at_ →
      ∀ token' at', .claimed token' job at' ∈ earlier →
        FinishedBy earlier token' = true ∨ at' + staleLease < at_)
      ?_ later _ earlier heq token job at_ rfl
    intro h s a s' e hr hs _ token job at_ he token' at' hmem
    have heffect := queueStep_effect hs
    subst he
    cases heffect with
    | idle grows event => rcases event with ⟨id, h | h | h⟩ | ⟨id, answer, h⟩ <;> cases h
    | claimed mem claimable =>
        exact (run_leased hr).claimable (run_uniqueRows hr) mem claimable hmem
  claimable row hrow hc token at_ hmem := (run_leased hr).claimable (run_uniqueRows hr) hrow hc hmem

/-! ## The late finish -/

/-- A source that could not be reached. -/
def unreachable : Str → Fetched := fun _ => ⟨.error (.transient "HTTP 503".toList), fun _ => none⟩

/-- A job is enqueued and claimed; the lease goes stale and a second worker claims the job. -/
def takeover : List QueueAction :=
  [.call 0 ⟨"Creep".toList, "Radiohead".toList, none⟩ none false false, .proceed 0, .claim [],
    .fetch 0 ["wikipedia".toList], .tick (31 * 60000000), .claim []]

/-- The first worker died: the second finishes, and the job is claimed again for its retry. -/
def retrySchedule : List QueueAction :=
  takeover ++ [.die 0, .fetch 1 ["wikipedia".toList], .finish 1 unreachable [],
    .tick (4 * 60000000), .claim []]

theorem leases_exclusive_retry :
    (queue asciiTables).meets HolderFinishes ([], Queue.empty) retrySchedule = true ∧
      LeasesExclusive ((queue asciiTables).exec ([], Queue.empty) retrySchedule).1
        ((queue asciiTables).exec ([], Queue.empty) retrySchedule).2 :=
  ⟨by decide, leases_exclusive asciiTables (Machine.runIf_exec (by decide))⟩

/-- The first worker comes back and finishes with an error, which requeues the job two minutes
later, where a third worker claims it. -/
def lateFinishSchedule : List QueueAction :=
  takeover ++ [.finish 0 unreachable [], .tick (2 * 60000000), .claim []]

/-- The finish of a worker whose lease was taken over makes the job claimable while the new
holder's lease is two minutes old. -/
theorem late_finish_breaks_lease :
    (queue asciiTables).Run ((queue asciiTables).exec ([], Queue.empty) lateFinishSchedule).1
        ((queue asciiTables).exec ([], Queue.empty) lateFinishSchedule).2 ∧
      ¬ LeasesExclusive ((queue asciiTables).exec ([], Queue.empty) lateFinishSchedule).1
        ((queue asciiTables).exec ([], Queue.empty) lateFinishSchedule).2 := by
  refine ⟨Machine.run_exec _, fun hl => ?_⟩
  have h := hl.claims [] _ _ _ _ rfl 1 _ (.tail _ (.tail _ (.head _)))
  exact absurd h (by decide)

end AnyPlayerSync.Passages
