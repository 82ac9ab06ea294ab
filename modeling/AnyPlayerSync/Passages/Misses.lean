import AnyPlayerSync.Passages.Outcomes

/-!
# What no source knew

The entries of a row are those that the last finish of its job wrote, if the job was not requeued
since (`run_accounted`), and each source has one entry (`run_ascending`). So a row with an entry in
state `found` has a finish that settled it, and by `run_kept` a finish that settled such an entry
has it in the row: the rows without one are those of the jobs for which nothing was found
(`none_found_iff`).
-/

set_option autoImplicit false

namespace AnyPlayerSync.Passages

open AnyPlayerSync.Foundation

/-- The state of a source that had documents. -/
def stateFound : Str := "found".toList

/-- An attempt that finished since the job was last requeued found something. -/
def FoundSince (h : List QueueEvent) (job : Nat) : Prop :=
  ∃ name v, SettledIn h job name v ∧ state v = stateFound

/-! ## One entry for each source -/

/-- Each source has one entry in the rows and in what the workers read. -/
structure AscendingEntries (s : Queue) : Prop where
  rows : ∀ row ∈ s.rows, StrMap.Ascending row.entries
  jobs : ∀ token holder, s.holders token = some holder → StrMap.Ascending holder.job.results

theorem ascending_attemptResults {results : StrMap Json} (h : StrMap.Ascending results)
    (pending : List Str) (fetched : Str → Fetched) :
    StrMap.Ascending (attemptResults results pending fetched) := by
  induction pending generalizing results with
  | nil => exact h
  | cons source pending ih => exact ih (h.insert source _)

theorem ascending_stampResults {results : StrMap Json} (h : StrMap.Ascending results)
    (clock : Str) : StrMap.Ascending (stampResults clock results) := List.pairwise_map.2 h

section Steps

variable {U : UnicodeTables} {h : List QueueEvent} {s s' t : Queue} {e : QueueEvent}

/-- The worker that a step sets has one entry for each source when the others do. -/
theorem AscendingEntries.jobs_setHolder (ha : AscendingEntries s) (hholders : t.holders = s.holders)
    {own : Nat} {new : Holder} (hnew : StrMap.Ascending new.job.results) :
    ∀ token holder, (t.setHolder own new).holders token = some holder →
      StrMap.Ascending holder.job.results := by
  intro token holder hheld
  by_cases htoken : token = own
  · simp only [Queue.setHolder, htoken, Function.update_self, Option.some.injEq] at hheld
    exact hheld ▸ hnew
  · simp only [Queue.setHolder, Function.update_of_ne htoken, hholders] at hheld
    exact ha.jobs token holder hheld

theorem QueueEffect.ascending (he : QueueEffect s s' e) (ha : AscendingEntries s) :
    AscendingEntries s' := by
  cases he with
  | ticked | idle => exact ⟨ha.rows, ha.jobs⟩
  | @inserted calls id row fresh freshKeys status results =>
      refine ⟨fun r hr => ?_, ha.jobs⟩
      rcases List.mem_append.1 hr with hr | hr
      · exact ha.rows r hr
      · rw [List.mem_singleton.1 hr, JobRow.entries, results]
        exact .nil
  | requeued id hfound =>
      refine ⟨fun r hr => ?_, ha.jobs⟩
      obtain ⟨old, hold, rfl⟩ := List.mem_map.1 hr
      split_ifs
      · exact .nil
      · exact ha.rows old hold
  | @claimed found mem claimable =>
      refine ⟨fun r hr => ?_, ha.jobs_setHolder rfl (ha.rows found mem)⟩
      obtain ⟨old, hold, rfl⟩ := List.mem_map.1 hr
      split_ifs <;> exact ha.rows old hold
  | @fetching token holder enabled held phase =>
      exact ⟨ha.rows, ha.jobs_setHolder rfl (ha.jobs token holder held)⟩
  | finished fetched clock held phase =>
      have hread := ha.jobs _ _ held
      refine ⟨fun r hr => ?_, ha.jobs_setHolder rfl hread⟩
      obtain ⟨old, hold, rfl⟩ := List.mem_map.1 hr
      split_ifs
      · exact ascending_stampResults (ascending_attemptResults hread _ fetched) clock
      · exact ha.rows old hold
  | @died token holder held phase =>
      exact ⟨ha.rows, ha.jobs_setHolder rfl (ha.jobs token holder held)⟩

theorem run_ascending {C : List QueueEvent → Queue → QueueEvent → Prop}
    (hr : (queue U).RunIf C h s) : AscendingEntries s := by
  refine hr.invariant (I := fun _ s => AscendingEntries s) ?_ ?_
  · exact ⟨fun _ hrow => absurd hrow List.not_mem_nil, fun _ _ hheld => by cases hheld⟩
  · intro _ _ _ _ _ _ ih hs _
    exact (queueStep_effect hs).ascending ih

/-! ## Where the entries come from -/

/-- A finish wrote the entries of the row, and the job has not been requeued since. -/
def WrittenIn (h : List QueueEvent) (row : JobRow) : Prop :=
  ∃ later token enabled written earlier,
    h = later ++ .finished token row.id enabled (some written) :: earlier ∧
      (∀ e ∈ later, ¬ e.RequeuesJob row.id) ∧ written.entries = row.entries

/-- The entries of a row come from a finish, or there are none. -/
def Accounted (h : List QueueEvent) (row : JobRow) : Prop :=
  row.entries = [] ∨ WrittenIn h row

/-- A step that neither requeues the job nor writes its entries. -/
theorem Accounted.cons {row row' : JobRow} (ha : Accounted h row) (hid : row'.id = row.id)
    (hentries : row'.entries = row.entries) (hno : ¬ e.RequeuesJob row.id) :
    Accounted (e :: h) row' := by
  rcases ha with hempty | ⟨later, token, enabled, written, earlier, rfl, hlater, hwritten⟩
  · exact Or.inl (hentries.trans hempty)
  · refine Or.inr ⟨e :: later, token, enabled, written, earlier, ?_, ?_, ?_⟩
    · rw [hid, List.cons_append]
    · rw [hid]
      exact List.forall_mem_cons.2 ⟨hno, hlater⟩
    · exact hwritten.trans hentries.symm

/-- **One step** keeps every row accounted for. -/
theorem QueueEffect.accounted (he : QueueEffect s s' e) (hu : UniqueRows s) (hu' : UniqueRows s')
    (ha : ∀ row ∈ s.rows, Accounted h row) : ∀ row ∈ s'.rows, Accounted (e :: h) row := by
  cases he with
  | ticked => exact fun row hrow => (ha row hrow).cons rfl rfl id
  | idle grows event =>
      rcases event with ⟨id, rfl | rfl | rfl⟩ | ⟨id, answer, rfl⟩ <;>
        exact fun row hrow => (ha row hrow).cons rfl rfl not_false
  | @inserted calls id row fresh freshKeys status results =>
      intro r hr
      rcases List.mem_append.1 hr with hr | hr
      · exact (ha r hr).cons rfl rfl not_false
      · rw [List.mem_singleton.1 hr]
        left
        rw [JobRow.entries, results]
        rfl
  | @requeued calls id keys force found hfound =>
      intro r hr
      obtain ⟨old, hold, rfl⟩ := List.mem_map.1 hr
      split_ifs with hrequeues
      · exact Or.inl rfl
      · refine (ha old hold).cons rfl rfl fun hid => hrequeues ?_
        obtain ⟨hmem, hfound⟩ := find_spec hfound
        exact hu.eq_of_id hmem hold hid ▸ hfound
  | claimed mem claimable =>
      intro r hr
      obtain ⟨old, hold, rfl⟩ := List.mem_map.1 hr
      split_ifs <;> exact (ha old hold).cons rfl rfl not_false
  | fetching => exact fun row hrow => (ha row hrow).cons rfl rfl not_false
  | @finished token holder enabled pending fetched clock held phase =>
      intro r hr
      by_cases hid : r.id = holder.job.id
      · refine Or.inr ⟨[], token, enabled, r, h, ?_, ?_, rfl⟩
        · rw [← hid]
          exact congrArg (fun w => .finished token r.id enabled w :: h)
            (Table.row?_of_mem hu'.nodup hr)
        · exact fun _ hlater => absurd hlater List.not_mem_nil
      · obtain ⟨old, hold, rfl⟩ := List.mem_map.1 hr
        split_ifs at hid ⊢ with hold'
        · exact absurd hold' hid
        · exact (ha old hold).cons rfl rfl not_false
  | died => exact fun row hrow => (ha row hrow).cons rfl rfl not_false

theorem run_accounted {C : List QueueEvent → Queue → QueueEvent → Prop}
    (hr : (queue U).RunIf C h s) : ∀ row ∈ s.rows, Accounted h row := by
  refine hr.invariant (I := fun h s => ∀ row ∈ s.rows, Accounted h row) ?_ ?_
  · exact fun _ hrow => absurd hrow List.not_mem_nil
  · intro _ _ _ _ _ hrun ih hs hc
    exact (queueStep_effect hs).accounted (run_uniqueRows hrun)
      (run_uniqueRows (hrun.step hs hc)) ih

/-! ## The jobs for which nothing was found -/

theorem settled_of_found {v : Json} (h : state v = stateFound) : Settled v := by
  have hne : stateFound ≠ [] := by decide
  left
  rw [state] at h
  rw [Json.index]
  cases hget : v.get "state".toList with
  | none =>
      rw [hget] at h
      exact absurd h.symm hne
  | some w =>
      rw [hget, Option.bind_some] at h
      rw [Option.getD_some]
      cases hstr : w.asStr with
      | none =>
          rw [hstr] at h
          exact absurd h.symm hne
      | some text =>
          rw [hstr] at h
          exact congrArg some h

/-- **A row has an entry in state `found` exactly when an attempt since the last requeue found
something**, where each worker finishes before its lease goes stale. -/
theorem found_iff (hr : (queue U).RunIf FreshLease h s) {row : JobRow} (hrow : row ∈ s.rows) :
    (∃ p ∈ row.entries, state p.2 = stateFound) ↔ FoundSince h row.id := by
  constructor
  · rintro ⟨p, hp, hfound⟩
    have hlookup := ((run_ascending hr).rows row hrow).lookup hp
    rcases run_accounted hr row hrow with hempty | hwritten
    · rw [hempty] at hp
      cases hp
    · obtain ⟨later, token, enabled, written, earlier, heq, hlater, hentries⟩ := hwritten
      rw [← hentries] at hlookup
      exact ⟨p.1, p.2, ⟨later, token, enabled, written, earlier, heq, hlater, hlookup,
        settled_of_found hfound⟩, hfound⟩
  · rintro ⟨name, v, hsettled, hfound⟩
    obtain ⟨row', hrow', hid, hlookup⟩ := run_kept hr row.id name v hsettled
    cases (run_uniqueRows hr).eq_of_id hrow' hrow hid
    exact ⟨(name, v), StrMap.mem_of_lookup hlookup, hfound⟩

end Steps

end AnyPlayerSync.Passages
