import AnyPlayerSync.Passages.Queue

/-!
# Settled outcomes

A worker reads the job's results when it claims the job and writes them back when it finishes, so
the entries of a job are kept from attempt to attempt as long as no other worker finishes the job
in between. When each worker finishes or dies before its lease goes stale (`FreshLease`), the row
of a claimed job stays what its worker read (`Held`), a settled entry is neither fetched again nor
changed, and the status follows the entries (`outcomes_kept`).
-/

set_option autoImplicit false

namespace AnyPlayerSync.Passages

open AnyPlayerSync.Foundation
open AnyPlayerSync.Sync (Time)

/-! ## The property and its condition -/

/-- The entries of a row. -/
def JobRow.entries (row : JobRow) : StrMap Json := row.results.asObject.getD []

/-- Some entry of a row is an error. -/
def JobRow.HasError (row : JobRow) : Prop := ∃ p ∈ row.entries, state p.2 = stateError

/-- The row that a finish leaves, for the sources enabled at its attempt. -/
structure FinishMeets (enabled : List Str) (row : JobRow) : Prop where
  covers : ∀ name ∈ enabled, (StrMap.lookup name row.entries).isSome
  queued_iff : row.status = .queued ↔ row.HasError ∧ row.attempts < maxAttempts
  failed_iff : row.status = .failed ↔
    row.entries ≠ [] ∧ (∀ p ∈ row.entries, state p.2 = stateError) ∧ maxAttempts ≤ row.attempts
  done_iff : row.status = .done ↔ row.status ≠ .queued ∧ row.status ≠ .failed
  lastError_iff : row.lastError.isSome ↔ row.HasError

/-- The event requeues the job. -/
def QueueEvent.RequeuesJob (job : Nat) : QueueEvent → Prop
  | .requeued _ job' => job' = job
  | _ => False

/-- The attempt that finished wrote this settled entry of the job, and the job has not been
requeued since. -/
def SettledIn (h : List QueueEvent) (job : Nat) (name : Str) (v : Json) : Prop :=
  ∃ later token enabled row earlier,
    h = later ++ .finished token job enabled (some row) :: earlier ∧
      (∀ e ∈ later, ¬ e.RequeuesJob job) ∧ StrMap.lookup name row.entries = some v ∧ Settled v

/-- Settled entries stay in the row and are not fetched again, and each finish leaves a row that
follows its entries. -/
structure OutcomesKept (h : List QueueEvent) (s : Queue) : Prop where
  kept : ∀ job name v, SettledIn h job name v →
    ∃ row ∈ s.rows, row.id = job ∧ StrMap.lookup name row.entries = some v
  not_refetched : ∀ later token job pending earlier,
    h = later ++ .fetching token job pending :: earlier →
      ∀ name v, SettledIn earlier job name v → name ∉ pending
  finishes : ∀ token job enabled written, .finished token job enabled written ∈ h →
    ∃ row, written = some row ∧ row.id = job ∧ FinishMeets enabled row

/-- The lease of a claim is not stale. -/
def LeaseFresh (s : Queue) (token : Nat) : Prop :=
  match s.holders token with
  | some holder => s.now ≤ holder.claimedAt + staleLease
  | none => True

instance (s : Queue) (token : Nat) : Decidable (LeaseFresh s token) := by
  unfold LeaseFresh; split <;> infer_instance

/-- Each worker fetches and finishes before its lease goes stale. -/
def FreshLease (_ : List QueueEvent) (s : Queue) : QueueEvent → Prop
  | .fetching token _ _ => LeaseFresh s token
  | .finished token _ _ _ => LeaseFresh s token
  | _ => True

instance (h : List QueueEvent) (s : Queue) : (e : QueueEvent) → Decidable (FreshLease h s e)
  | .fetching token _ _ => inferInstanceAs (Decidable (LeaseFresh s token))
  | .finished token _ _ _ => inferInstanceAs (Decidable (LeaseFresh s token))
  | .ticked | .called _ | .inserted _ _ | .requeued _ _ | .passed _ | .answered _ _
  | .callFailed _ | .claimed _ _ _ | .died _ => isTrue trivial

/-! ## One finish -/

theorem resultErrors_ne_nil {results : StrMap Json} :
    resultErrors results ≠ [] ↔ ∃ p ∈ results, state p.2 = stateError := by
  simp [resultErrors, List.filter_eq_nil_iff]

theorem allError_iff {results : StrMap Json} :
    allError results = true ↔ results ≠ [] ∧ ∀ p ∈ results, state p.2 = stateError := by
  simp [allError]

/-- **One finish** whose copy of the attempts is the row's leaves a row that follows its entries. -/
theorem finished_meets {r : JobRow} {results : StrMap Json} {enabled : List Str} {now : Time}
    (hcovers : ∀ name ∈ enabled, (StrMap.lookup name results).isSome) :
    FinishMeets enabled (r.finished results r.attempts now) := by
  have hentries : (r.finished results r.attempts now).entries = results := rfl
  have herror : (r.finished results r.attempts now).HasError ↔ resultErrors results ≠ [] := by
    rw [resultErrors_ne_nil, JobRow.HasError, hentries]
  refine ⟨hcovers, ?_, ?_, ?_, ?_⟩
  · rw [herror]
    simp only [JobRow.finished, finishStatus]
    split_ifs with hq hall <;> simp [hq]
  · rw [hentries]
    simp only [JobRow.finished, finishStatus]
    -- all entries are errors: retried while attempts are left, failed after that
    by_cases hall : allError results = true
    · obtain ⟨hne, hforall⟩ := allError_iff.1 hall
      obtain ⟨p, hp⟩ := List.exists_mem_of_ne_nil _ hne
      have herr : resultErrors results ≠ [] := resultErrors_ne_nil.2 ⟨p, hp, hforall p hp⟩
      by_cases hlt : r.attempts < maxAttempts
      · simp [herr, hlt, Int.not_le.2 hlt]
      · simp only [hlt, and_false, if_false, hall, if_true, true_iff]
        exact ⟨hne, hforall, Int.not_lt.1 hlt⟩
    · have hnot : ¬ (results ≠ [] ∧ (∀ p ∈ results, state p.2 = stateError) ∧
          maxAttempts ≤ r.attempts) := fun ⟨hne, hforall, _⟩ => hall (allError_iff.2 ⟨hne, hforall⟩)
      simp only [hall, Bool.false_eq_true, if_false, iff_false_intro hnot, iff_false]
      split_ifs <;> simp
  · simp only [JobRow.finished, finishStatus]
    split_ifs <;> simp
  · rw [herror]
    simp only [JobRow.finished]
    split_ifs with h <;> simp [h]

/-! ## The row of a claimed job is what its worker read -/

/-- A worker between its claim and its finish, its lease not stale. -/
def Working (s : Queue) (token : Nat) (holder : Holder) : Prop :=
  s.holders token = some holder ∧ holder.phase ≠ .ended ∧ s.now ≤ holder.claimedAt + staleLease

/-- The row is leased to the holder and holds what the holder read. -/
def JobRow.LeasedTo (row : JobRow) (holder : Holder) : Prop :=
  row.id = holder.job.id ∧ row.status = .running ∧ row.updatedAt = holder.claimedAt ∧
    row.attempts = holder.job.attempts ∧ row.results = .obj holder.job.results

/-- Each worker has the row of its job to itself, and its job is as the row shows it. -/
structure Held (s : Queue) : Prop where
  row : ∀ token holder, Working s token holder → ∃ row ∈ s.rows, row.LeasedTo holder
  exclusive : ∀ token token' holder holder', Working s token holder → Working s token' holder' →
    holder.job.id = holder'.job.id → token = token'
  stamped : ∀ row ∈ s.rows, ∃ fields, row.results = .obj fields ∧ ∀ p ∈ fields, Stamped p.2
  pending : ∀ token holder enabled pending, s.holders token = some holder →
    holder.phase = .fetching enabled pending →
      pending = pendingSources enabled holder.job.results

section Steps

variable {s s' : Queue} {e : QueueEvent}

/-- A claimable row is not leased to a worker with a fresh lease. -/
theorem Working.not_claimable {token : Nat} {holder : Holder} (hw : Working s token holder)
    {row : JobRow} (hl : row.LeasedTo holder) : ¬ Claimable s.now row := by
  rintro (⟨hqueued, -⟩ | ⟨-, hstale⟩)
  · rw [hl.2.1] at hqueued
    cases hqueued
  · rw [hl.2.2.1] at hstale
    exact absurd (Int.add_lt_of_lt_sub_right hstale) (Int.not_lt.2 hw.2.2)

/-- The rows that an update of one job leaves alone. -/
theorem Held.row_other {rows : List JobRow} {f : JobRow → JobRow} {id : Nat} {holder : Holder}
    (hne : holder.job.id ≠ id) (hrow : ∃ row ∈ rows, row.LeasedTo holder) :
    ∃ row ∈ rows.map (fun r => if r.id = id then f r else r), row.LeasedTo holder := by
  obtain ⟨row, hmem, hl⟩ := hrow
  exact ⟨row, List.mem_map.2 ⟨row, hmem, if_neg fun h => hne (hl.1.symm.trans h)⟩, hl⟩

theorem LeaseFresh.working {token : Nat} {holder : Holder} (hfresh : LeaseFresh s token)
    (held : s.holders token = some holder) (hphase : holder.phase ≠ .ended) :
    Working s token holder := by
  rw [LeaseFresh, held] at hfresh
  exact ⟨held, hphase, hfresh⟩

theorem WorkPhase.fetching_ne_ended {phase : WorkPhase} {enabled pending : List Str}
    (hphase : phase = .fetching enabled pending) : phase ≠ .ended := by
  rw [hphase]
  exact WorkPhase.noConfusion

/-- The holders other than the one that a step sets are those before it. -/
theorem Working.of_setHolder_ne {t : Queue} {token other : Nat} {new holder : Holder}
    (hnow : t.now = s.now) (hholders : t.holders = s.holders) (hne : other ≠ token)
    (hw : Working (t.setHolder token new) other holder) : Working s other holder := by
  obtain ⟨hheld, hphase, hfresh⟩ := hw
  simp only [Queue.setHolder, Function.update_of_ne hne, hholders] at hheld
  exact ⟨hheld, hphase, hnow ▸ hfresh⟩

theorem Working.of_setHolder_self {t : Queue} {token : Nat} {new holder : Holder}
    (hw : Working (t.setHolder token new) token holder) : holder = new := by
  have hheld := hw.1
  simp only [Queue.setHolder, Function.update_self, Option.some.injEq] at hheld
  exact hheld.symm

/-- A worker that ends is no longer working, and the others are those before. -/
theorem Working.of_setHolder_ended {t : Queue} {own token : Nat} {ended holder : Holder}
    (hnow : t.now = s.now) (hholders : t.holders = s.holders) (hended : ended.phase = .ended)
    (hw : Working (t.setHolder own ended) token holder) : token ≠ own ∧ Working s token holder := by
  have hne : token ≠ own := by
    rintro rfl
    obtain rfl := hw.of_setHolder_self
    exact hw.2.1 hended
  exact ⟨hne, hw.of_setHolder_ne hnow hholders hne⟩

/-- What the workers fetch follows what they read, when the worker that a step sets does too. -/
theorem Held.pending_setHolder {t : Queue} {own : Nat} {new : Holder} (hh : Held s)
    (hholders : t.holders = s.holders)
    (hnew : ∀ enabled pending, new.phase = .fetching enabled pending →
      pending = pendingSources enabled new.job.results) :
    ∀ token holder enabled pending, (t.setHolder own new).holders token = some holder →
      holder.phase = .fetching enabled pending →
        pending = pendingSources enabled holder.job.results := by
  intro token holder enabled pending hheld hphase
  by_cases htoken : token = own
  · simp only [Queue.setHolder, htoken, Function.update_self, Option.some.injEq] at hheld
    subst hheld
    exact hnew enabled pending hphase
  · simp only [Queue.setHolder, Function.update_of_ne htoken, hholders] at hheld
    exact hh.pending token holder enabled pending hheld hphase

/-- A claim leases the row to the new worker. The workers before it hold other jobs, since a job
with a fresh worker is not claimable. -/
theorem Held.claimed (hh : Held s) (hu : UniqueRows s) {found : JobRow} (mem : found ∈ s.rows)
    (claimable : Claimable s.now found) :
    Held (Queue.setHolder
      { s with
        rows := s.rows.map fun r => if r.id = found.id then r.claimed s.now else r
        nextToken := s.nextToken + 1 }
      s.nextToken ⟨(found.claimed s.now).job, s.now, .claimed⟩) := by
  have hother : ∀ token holder, Working s token holder → holder.job.id ≠ found.id := by
    intro token holder hw hid
    obtain ⟨row, hrow, hl⟩ := hh.row token holder hw
    cases hu.eq_of_id hrow mem (hl.1.trans hid)
    exact hw.not_claimable hl claimable
  refine ⟨fun token holder hw => ?_, fun token token' holder holder' hw hw' hid => ?_,
    fun r hr => ?_, hh.pending_setHolder rfl fun _ _ hphase => nomatch hphase⟩
  · by_cases htoken : token = s.nextToken
    · subst htoken
      obtain rfl := hw.of_setHolder_self
      obtain ⟨fields, hfields, -⟩ := hh.stamped found mem
      refine ⟨found.claimed s.now, List.mem_map.2 ⟨found, mem, if_pos rfl⟩, ?_⟩
      refine ⟨rfl, rfl, rfl, rfl, ?_⟩
      simp [JobRow.claimed, JobRow.job, hfields, Json.asObject]
    · have hw := hw.of_setHolder_ne rfl rfl htoken
      exact Held.row_other (hother token holder hw) (hh.row token holder hw)
  · by_cases htoken : token = s.nextToken <;> by_cases htoken' : token' = s.nextToken
    · exact htoken.trans htoken'.symm
    · subst htoken
      obtain rfl := hw.of_setHolder_self
      exact absurd hid.symm (hother token' holder' (hw'.of_setHolder_ne rfl rfl htoken'))
    · subst htoken'
      obtain rfl := hw'.of_setHolder_self
      exact absurd hid (hother token holder (hw.of_setHolder_ne rfl rfl htoken))
    · exact hh.exclusive _ _ _ _ (hw.of_setHolder_ne rfl rfl htoken)
        (hw'.of_setHolder_ne rfl rfl htoken') hid
  · obtain ⟨r, hmem, rfl⟩ := List.mem_map.1 hr
    split_ifs <;> exact hh.stamped r hmem

/-- A worker that begins to fetch changes only its phase. -/
theorem Held.fetching (hh : Held s) {own : Nat} {holder : Holder}
    (held : s.holders own = some holder) (phase : holder.phase = .claimed) (enabled : List Str) :
    Held (s.setHolder own
      { holder with phase := .fetching enabled (pendingSources enabled holder.job.results) }) := by
  have hback : ∀ token h', Working (s.setHolder own
      { holder with phase := .fetching enabled (pendingSources enabled holder.job.results) })
        token h' →
      ∃ h'', Working s token h'' ∧ h''.job = h'.job ∧ h''.claimedAt = h'.claimedAt := by
    intro token h' hw
    by_cases htoken : token = own
    · subst htoken
      obtain rfl := hw.of_setHolder_self
      exact ⟨holder, ⟨held, by rw [phase]; exact WorkPhase.noConfusion, hw.2.2⟩, rfl, rfl⟩
    · exact ⟨h', hw.of_setHolder_ne rfl rfl htoken, rfl, rfl⟩
  refine ⟨fun token h' hw => ?_, fun token token' h1 h2 hw hw' hid => ?_, hh.stamped,
    hh.pending_setHolder rfl fun enabled pending hphase => ?_⟩
  · obtain ⟨h'', hw'', hjob, hat⟩ := hback token h' hw
    obtain ⟨row, hrow, hl⟩ := hh.row token h'' hw''
    refine ⟨row, hrow, ?_⟩
    rw [JobRow.LeasedTo, ← hjob, ← hat]
    exact hl
  · obtain ⟨h1', hw1, hjob1, -⟩ := hback token h1 hw
    obtain ⟨h2', hw2, hjob2, -⟩ := hback token' h2 hw'
    exact hh.exclusive _ _ _ _ hw1 hw2 (by rw [hjob1, hjob2]; exact hid)
  · cases hphase
    rfl

/-- A finish on a fresh lease writes the row of its own job, which no other worker holds. -/
theorem Held.finished (hh : Held s) {own : Nat} {holder : Holder} (hown : Working s own holder)
    (pending : List Str) (fetched : Str → Fetched) (clock : Str) :
    Held (Queue.setHolder
      { s with
        rows := finish s.rows holder.job (attemptResults holder.job.results pending fetched) clock
          s.now }
      own { holder with phase := .ended }) := by
  refine ⟨fun token h' hw => ?_, fun token token' h1 h2 hw hw' hid => ?_, fun r hr => ?_,
    hh.pending_setHolder rfl fun _ _ hphase => nomatch hphase⟩
  · obtain ⟨hne, hw⟩ := hw.of_setHolder_ended rfl rfl rfl
    exact Held.row_other (fun hid => hne (hh.exclusive _ _ _ _ hw hown hid)) (hh.row token h' hw)
  · exact hh.exclusive _ _ _ _ (hw.of_setHolder_ended rfl rfl rfl).2
      (hw'.of_setHolder_ended rfl rfl rfl).2 hid
  · obtain ⟨r, hmem, rfl⟩ := List.mem_map.1 hr
    split_ifs with hid
    · -- the old entries are stamped as the leased row's are, the new ones by this finish
      obtain ⟨row, hrow, hl⟩ := hh.row own holder hown
      obtain ⟨fields, hfields, hstamped⟩ := hh.stamped row hrow
      have heq := Json.obj.inj (hl.2.2.2.2.symm.trans hfields)
      exact ⟨_, rfl, stamped_stampResults (heq ▸ hstamped) clock⟩
    · exact hh.stamped r hmem

/-- **One step**, on a fresh lease when it is a worker's, keeps what the workers hold. -/
theorem QueueEffect.held {h : List QueueEvent} (he : QueueEffect s s' e) (hu : UniqueRows s)
    (hh : Held s) (hc : FreshLease h s e) : Held s' := by
  cases he with
  | ticked elapsed =>
      have hback : ∀ token holder, Working { s with now := s.now + (elapsed : Int) } token holder →
          Working s token holder := fun token holder ⟨h1, h2, h3⟩ =>
        ⟨h1, h2, Int.le_trans (Int.le_add_of_nonneg_right (Int.natCast_nonneg elapsed)) h3⟩
      exact ⟨fun token holder hw => hh.row token holder (hback _ _ hw),
        fun _ _ _ _ hw hw' => hh.exclusive _ _ _ _ (hback _ _ hw) (hback _ _ hw'),
        hh.stamped, hh.pending⟩
  | idle grows event => exact ⟨hh.row, hh.exclusive, hh.stamped, hh.pending⟩
  | @inserted calls id row fresh freshKeys status results =>
      refine ⟨fun token holder hw => ?_, hh.exclusive, fun r hr => ?_, hh.pending⟩
      · obtain ⟨r, hr, hl⟩ := hh.row token holder hw
        exact ⟨r, List.mem_append_left _ hr, hl⟩
      · rcases List.mem_append.1 hr with hr | hr
        · exact hh.stamped r hr
        · rw [List.mem_singleton.1 hr]
          exact ⟨[], results, fun _ hp => nomatch hp⟩
  | @requeued calls id keys force found hfound =>
      refine ⟨fun token holder hw => ?_, hh.exclusive, fun r hr => ?_, hh.pending⟩
      · -- a leased row is running, and only finished jobs are requeued
        obtain ⟨r, hr, hl⟩ := hh.row token holder hw
        refine ⟨r, List.mem_map.2 ⟨r, hr, if_neg fun hreq => ?_⟩, hl⟩
        rcases hreq.2.1 with hdone | hfailed
        · rw [hl.2.1] at hdone; cases hdone
        · rw [hl.2.1] at hfailed; cases hfailed
      · obtain ⟨r, hmem, rfl⟩ := List.mem_map.1 hr
        split_ifs
        · exact ⟨[], rfl, fun _ hp => nomatch hp⟩
        · exact hh.stamped r hmem
  | claimed mem claimable => exact hh.claimed hu mem claimable
  | fetching enabled held phase => exact hh.fetching held phase enabled
  | finished fetched clock held phase =>
      exact hh.finished (LeaseFresh.working hc held (WorkPhase.fetching_ne_ended phase)) _ fetched
        clock
  | died held phase =>
      refine ⟨fun token h' hw => hh.row token h' (hw.of_setHolder_ended rfl rfl rfl).2,
        fun _ _ _ _ hw hw' => hh.exclusive _ _ _ _ (hw.of_setHolder_ended rfl rfl rfl).2
          (hw'.of_setHolder_ended rfl rfl rfl).2,
        hh.stamped, hh.pending_setHolder rfl fun _ _ hphase => nomatch hphase⟩

end Steps

theorem run_held {U : UnicodeTables} {h : List QueueEvent} {s : Queue}
    (hr : (queue U).RunIf FreshLease h s) : Held s := by
  refine hr.invariant (I := fun _ s => Held s) ?_ ?_
  · exact ⟨fun _ _ hw => (nomatch hw.1), fun _ _ _ _ hw => (nomatch hw.1),
      fun _ hrow => (nomatch hrow), fun _ _ _ _ hheld => nomatch hheld⟩
  · intro _ _ _ _ _ hr ih hs hc
    exact (queueStep_effect hs).held (run_uniqueRows hr) ih hc

/-! ## Settled entries -/

/-- The row of a job has this entry. -/
def HasEntry (s : Queue) (job : Nat) (name : Str) (v : Json) : Prop :=
  ∃ row ∈ s.rows, row.id = job ∧ StrMap.lookup name row.entries = some v

theorem lookup_stampResults (clock name : Str) (results : StrMap Json) :
    StrMap.lookup name (stampResults clock results) =
      (StrMap.lookup name results).map (stamp clock) :=
  StrMap.lookup_map (stamp clock) name results

/-- A settled entry comes out of an attempt as it went in. -/
theorem settled_attempt {results : StrMap Json} {enabled : List Str} {name : Str} {v : Json}
    (hlookup : StrMap.lookup name results = some v) (hsettled : Settled v)
    (hstamped : ∀ p ∈ results, Stamped p.2) (fetched : Str → Fetched) (clock : Str) :
    StrMap.lookup name
      (stampResults clock (attemptResults results (pendingSources enabled results) fetched)) =
        some v := by
  have hnot : name ∉ pendingSources enabled results := fun hmem =>
    (mem_pendingSources.1 hmem).2 v hlookup hsettled
  rw [lookup_stampResults, lookup_attemptResults_other hnot, hlookup, Option.map_some,
    stamp_of_stamped (hstamped (name, v) (StrMap.mem_of_lookup hlookup))]

section Kept

variable {h : List QueueEvent} {s s' : Queue} {e : QueueEvent}

/-- The row of a worker with a fresh lease, with its stamped entries. -/
theorem Held.working_row (hh : Held s) {token : Nat} {holder : Holder}
    (hw : Working s token holder) :
    ∃ row ∈ s.rows, row.LeasedTo holder ∧ row.entries = holder.job.results ∧
      ∀ p ∈ holder.job.results, Stamped p.2 := by
  obtain ⟨row, hrow, hl⟩ := hh.row token holder hw
  obtain ⟨fields, hfields, hstamped⟩ := hh.stamped row hrow
  cases Json.obj.inj (hl.2.2.2.2.symm.trans hfields)
  exact ⟨row, hrow, hl, by rw [JobRow.entries, hl.2.2.2.2]; rfl, hstamped⟩

/-- **One step** that does not requeue the job keeps its settled entries. -/
theorem QueueEffect.hasEntry (he : QueueEffect s s' e) (hu : UniqueRows s) (hh : Held s)
    (hc : FreshLease h s e) {job : Nat} (hreq : ¬ e.RequeuesJob job) {name : Str} {v : Json}
    (hsettled : Settled v) (hentry : HasEntry s job name v) : HasEntry s' job name v := by
  obtain ⟨row, hrow, hid, hlookup⟩ := hentry
  cases he with
  | ticked | idle | fetching | died => exact ⟨row, hrow, hid, hlookup⟩
  | inserted => exact ⟨row, List.mem_append_left _ hrow, hid, hlookup⟩
  | @requeued calls id keys force found hfound =>
      refine ⟨row, List.mem_map.2 ⟨row, hrow, if_neg fun hr => ?_⟩, hid, hlookup⟩
      obtain ⟨hmem, hkeys⟩ := find_spec hfound
      have heq : found = row :=
        List.inj_on_of_nodup_map hu.keys hmem hrow (hkeys.1.trans hr.1.symm)
      exact hreq (heq ▸ hid)
  | @claimed found mem claimable =>
      by_cases hfound : row.id = found.id
      · exact ⟨row.claimed s.now, List.mem_map.2 ⟨row, hrow, if_pos hfound⟩, hid, hlookup⟩
      · exact ⟨row, List.mem_map.2 ⟨row, hrow, if_neg hfound⟩, hid, hlookup⟩
  | @finished own holder enabled pending fetched clock held phase =>
      -- a finish of this job writes back the entries that its worker read, and the worker did not
      -- fetch the settled ones
      by_cases hown : row.id = holder.job.id
      · obtain ⟨row', hrow', hl, hentries, hstamped⟩ :=
          hh.working_row (LeaseFresh.working hc held (WorkPhase.fetching_ne_ended phase))
        cases hu.eq_of_id hrow hrow' (hown.trans hl.1.symm)
        refine ⟨_, List.mem_map.2 ⟨row, hrow, if_pos hown⟩, hid, ?_⟩
        rw [hentries] at hlookup
        have hpending := hh.pending own holder enabled pending held phase
        rw [hpending]
        exact settled_attempt hlookup hsettled hstamped fetched clock
      · exact ⟨row, List.mem_map.2 ⟨row, hrow, if_neg hown⟩, hid, hlookup⟩

end Kept

/-- The row that a finish wrote is the job's row afterwards. -/
theorem QueueEffect.written {s s' : Queue} {token job : Nat} {enabled : List Str}
    {written : Option JobRow} (he : QueueEffect s s' (.finished token job enabled written)) :
    written = s'.rows.find? fun r => r.id = job := by
  cases he with
  | idle grows event => rcases event with ⟨id, h | h | h⟩ | ⟨id, answer, h⟩ <;> cases h
  | finished fetched clock held phase => rfl

/-- Settled entries are in the row until the job is requeued. -/
theorem run_kept {U : UnicodeTables} {h : List QueueEvent} {s : Queue}
    (hr : (queue U).RunIf FreshLease h s) :
    ∀ job name v, SettledIn h job name v → HasEntry s job name v := by
  refine hr.invariant (I := fun h s => ∀ job name v, SettledIn h job name v → HasEntry s job name v)
    ?_ ?_
  · rintro job name v ⟨later, token, enabled, row, earlier, heq, -⟩
    exact absurd heq.symm (by simp)
  · rintro h s a s' e hr ih hs hc job name v
      ⟨later, token, enabled, row, earlier, heq, hno, hlookup, hsettled⟩
    have heffect := queueStep_effect hs
    -- by cases on whether this step is the finish that wrote the entry
    cases later with
    | nil =>
        obtain ⟨rfl, -⟩ := List.cons.inj heq
        obtain ⟨hmem, hid⟩ := find_spec heffect.written.symm
        exact ⟨row, hmem, hid, hlookup⟩
    | cons e' later =>
        obtain ⟨rfl, hrest⟩ := List.cons.inj heq
        refine heffect.hasEntry (run_uniqueRows hr) (run_held hr) hc
          (hno _ List.mem_cons_self) hsettled (ih job name v ?_)
        exact ⟨later, token, enabled, row, earlier, hrest,
          fun e he => hno e (List.mem_cons_of_mem _ he), hlookup, hsettled⟩

/-- A finish on a fresh lease leaves a row that follows its entries. -/
theorem finish_meets {h : List QueueEvent} {s s' : Queue} {token job : Nat} {enabled : List Str}
    {written : Option JobRow} (he : QueueEffect s s' (.finished token job enabled written))
    (hu' : UniqueRows s') (hh : Held s)
    (hc : FreshLease h s (.finished token job enabled written)) :
    ∃ row, written = some row ∧ row.id = job ∧ FinishMeets enabled row := by
  have hwritten := he.written
  cases he with
  | idle grows event => rcases event with ⟨id, h | h | h⟩ | ⟨id, answer, h⟩ <;> cases h
  | @finished own holder enabled pending fetched clock held phase =>
      obtain ⟨row, hrow, hl, hentries, -⟩ :=
        hh.working_row (LeaseFresh.working hc held (WorkPhase.fetching_ne_ended phase))
      have hpending := hh.pending token holder enabled pending held phase
      have hmem : row.finished (stampResults clock
          (attemptResults holder.job.results pending fetched)) holder.job.attempts s.now ∈
            finish s.rows holder.job (attemptResults holder.job.results pending fetched) clock
              s.now :=
        List.mem_map.2 ⟨row, hrow, if_pos hl.1⟩
      obtain ⟨found, hfound⟩ := Option.isSome_iff_exists.1
        (List.find?_isSome.2 ⟨_, hmem, decide_eq_true hl.1⟩ :
          ((finish s.rows holder.job (attemptResults holder.job.results pending fetched) clock
            s.now).find? fun r => r.id = holder.job.id).isSome)
      obtain ⟨hfmem, hid⟩ := find_spec hfound
      cases hu'.eq_of_id hfmem hmem (hid.trans hl.1.symm)
      refine ⟨_, hfound, hl.1, ?_⟩
      rw [← hl.2.2.2.1]
      refine finished_meets fun name hname => ?_
      rw [lookup_stampResults, Option.isSome_map]
      apply lookup_attemptResults_isSome
      -- an enabled source is pending, and then it has an outcome, or its entry is settled
      by_cases hin : name ∈ pending
      · exact Or.inl hin
      · rw [hpending, mem_pendingSources] at hin
        push Not at hin
        obtain ⟨v, hv, -⟩ := hin hname
        exact Or.inr (by rw [hv]; rfl)

/-- **Settled outcomes are kept and the status follows them**, in every run in which each worker
fetches and finishes before its lease goes stale. -/
theorem outcomes_kept (U : UnicodeTables) {h : List QueueEvent} {s : Queue}
    (hr : (queue U).RunIf FreshLease h s) : OutcomesKept h s where
  kept := run_kept hr
  not_refetched := by
    intro later token job pending earlier heq
    refine hr.forall_steps (P := fun e earlier => ∀ token job pending,
      e = .fetching token job pending →
        ∀ name v, SettledIn earlier job name v → name ∉ pending) ?_ later _ earlier heq _ _ _ rfl
    rintro h s a s' e hr hs hc token job pending rfl name v hsettled hmem
    have heffect := queueStep_effect hs
    cases heffect with
    | idle grows event => rcases event with ⟨id, h | h | h⟩ | ⟨id, answer, h⟩ <;> cases h
    | @fetching own holder enabled held phase =>
        have hw : Working s token holder :=
          LeaseFresh.working hc held (by rw [phase]; exact WorkPhase.noConfusion)
        obtain ⟨row, hrow, hl, hentries, -⟩ := (run_held hr).working_row hw
        obtain ⟨row', hrow', hid, hlookup⟩ := run_kept hr _ name v hsettled
        cases (run_uniqueRows hr).eq_of_id hrow hrow' (hl.1.trans hid.symm)
        rw [hentries] at hlookup
        obtain ⟨later, _, _, _, _, _, _, _, hv⟩ := hsettled
        exact (mem_pendingSources.1 hmem).2 v hlookup hv
  finishes := by
    have hevents := hr.forall_events (P := fun e => ∀ token job enabled written,
      e = .finished token job enabled written →
        ∃ row, written = some row ∧ row.id = job ∧ FinishMeets enabled row) ?_
    · intro token job enabled written hmem
      exact hevents _ hmem _ _ _ _ rfl
    · rintro h s a s' e hr hs hc token job enabled written rfl
      exact finish_meets (queueStep_effect hs) (run_uniqueRows (hr.step hs hc)) (run_held hr) hc

/-- Wikipedia finds nothing, the other sources cannot be reached. -/
def onlyWikipediaAnswers (name : Str) : Fetched where
  result := if name = "wikipedia".toList then .ok [] else .error (.transient "HTTP 503".toList)
  stored _ := none

/-- A job with two attempts; the second no longer fetches Wikipedia. -/
def twoAttempts : List QueueAction :=
  [.call 0 ⟨"Creep".toList, "Radiohead".toList, none⟩ none false false, .proceed 0, .claim [],
    .fetch 0 ["wikipedia".toList, "songfacts".toList], .finish 0 onlyWikipediaAnswers [],
    .tick (2 * 60000000), .claim [], .fetch 1 ["wikipedia".toList, "songfacts".toList],
    .finish 1 onlyWikipediaAnswers []]

/-- A claim, of any job. -/
def QueueEvent.isClaim : QueueEvent → Bool
  | .claimed _ _ _ => true
  | _ => false

/-- The job is claimed twice, and what the first attempt settled is there to be kept. -/
theorem outcomes_kept_twoAttempts :
    let run := (queue asciiTables).exec ([], Queue.empty) twoAttempts
    (queue asciiTables).meets FreshLease ([], Queue.empty) twoAttempts = true ∧
      (run.1.filter QueueEvent.isClaim).length = 2 ∧
      (∃ v, SettledIn run.1 1 "wikipedia".toList v) ∧ OutcomesKept run.1 run.2 := by
  refine ⟨by decide, by decide, ?_, outcomes_kept asciiTables (Machine.runIf_exec (by decide))⟩
  refine ⟨_, [_, _, _, _], 0, _, _, _, rfl, ?_, rfl, by decide⟩
  intro e he
  simp only [List.mem_cons, List.not_mem_nil, or_false] at he
  rcases he with rfl | rfl | rfl | rfl <;> exact fun h => h

end AnyPlayerSync.Passages
