import AnyPlayerSync.Keys.KeyWords
import AnyPlayerSync.Passages.Enqueue

/-!
# The quota of automatic jobs

A passage lookup that finds no passage about the song counts the jobs that its user's lookups have
caused today (`auto_count_today`) and, when the count is below `AUTO_DAILY_LIMIT`, enqueues the
track. The count and the three statements of the enqueue are separate statements, interleaved here
with any other lookups and with the whole ingest queue; calls that are not automatic are those of
`admin_ingest`.

The count is taken of the rows by their creation, so it misses a job that a lookup requeues, and a
count that was read is out of date once another lookup has inserted. Without the second a day has at
most the limit and what was requeued on it (`queued_le_requeued`), and without either the quota
holds over every day (`quota_kept`).
-/

set_option autoImplicit false

namespace AnyPlayerSync.Passages

open AnyPlayerSync.Foundation
open AnyPlayerSync.Sync (Time UserId)

/-- A user's lookups may cause this many jobs a day. -/
def autoDailyLimit : Nat := 200

/-- `auto_count_today`. -/
def autoCountToday (rows : List JobRow) (user : UserId) (now : Time) : Nat :=
  (rows.filter fun r =>
    r.auto = true ∧ r.requestedBy = some user ∧ now - day < r.createdAt).length

/-! ## The machine -/

/-- A lookup that found no song passage: it is about to count, or it has decided. -/
inductive LookupPhase where
  | counting (user : UserId) (track : TrackRequest)
  | decided

/-- The queue, and the lookups over it. -/
structure Quota where
  queue : Queue
  lookups : Nat → Option LookupPhase

/-- A scheduling choice. -/
inductive QuotaAction where
  | lookup (id : Nat) (user : UserId) (track : TrackRequest)
  | count (id : Nat)
  | queue (a : QueueAction)

/-- What a step tells; a count is told with its value. -/
inductive QuotaEvent where
  | lookedUp (id : Nat)
  | counted (id count : Nat)
  | queue (e : QueueEvent)

/-- Only a lookup enqueues automatically, under its own number. -/
def Quota.reserved (s : Quota) : QueueAction → Bool
  | .call id _ _ auto _ => auto || (s.lookups id).isSome
  | _ => false

/-- One step: of a lookup, or of the queue. -/
def quotaStep (U : UnicodeTables) (s : Quota) : QuotaAction → Option (Quota × QuotaEvent)
  | .lookup id user track =>
      match s.lookups id, s.queue.calls id with
      | none, none =>
          some ({ s with lookups := Function.update s.lookups id (some (.counting user track)) },
            .lookedUp id)
      | _, _ => none
  | .count id =>
      match s.lookups id with
      | some (.counting user track) =>
          let count := autoCountToday s.queue.rows user s.queue.now
          let lookups := Function.update s.lookups id (some .decided)
          if count < autoDailyLimit then
            (queueStep U s.queue (.call id track (some user) true false)).map fun p =>
              (⟨p.1, lookups⟩, .counted id count)
          else some ({ s with lookups := lookups }, .counted id count)
      | _ => none
  | .queue a =>
      if s.reserved a then none
      else (queueStep U s.queue a).map fun p => ({ s with queue := p.1 }, .queue p.2)

/-- Lookups over the ingest queue, started on an empty table. -/
def quota (U : UnicodeTables) : Machine Quota QuotaAction QuotaEvent where
  init := ⟨Queue.empty, fun _ => none⟩
  step := quotaStep U

/-- A step of a run. -/
abbrev QuotaRunStep := Machine.Step Quota QuotaAction QuotaEvent

/-! ## Jobs that enter the queue -/

/-- The user for whom a call enqueues automatically. -/
def EnqueueCall.autoFor (c : EnqueueCall) (user : UserId) : Bool :=
  c.auto && c.requestedBy = some user

/-- The step answers `Queued` to a lookup of the user. -/
def queuedFor (user : UserId) (st : QuotaRunStep) : Bool :=
  match st.event with
  | .queue e =>
      match e.answer? with
      | some (id, .queued) => (st.before.queue.calls id).any fun c => c.autoFor user
      | _ => false
  | _ => false

/-- The step inserts a job for a lookup of the user. -/
def insertedFor (user : UserId) (st : QuotaRunStep) : Bool :=
  match st.event with
  | .queue (.inserted id _) => (st.before.queue.calls id).any fun c => c.autoFor user
  | _ => false

/-- The step requeues an old job for a lookup of the user. -/
def requeuedFor (user : UserId) (st : QuotaRunStep) : Bool :=
  match st.event with
  | .queue (.requeued id _) => (st.before.queue.calls id).any fun c => c.autoFor user
  | _ => false

/-- The step was taken on the day that begins at `t`. -/
def onDay (t : Time) (st : QuotaRunStep) : Bool :=
  decide (t ≤ st.before.queue.now ∧ st.before.queue.now < t + day)

/-- When a lookup inserts a job, the count that it read still holds: it is below the limit. -/
def insertChecked (st : QuotaRunStep) : Bool :=
  match st.event with
  | .queue (.inserted id _) =>
      (st.before.queue.calls id).all fun c =>
        !c.auto || c.requestedBy.all fun user =>
          autoCountToday st.before.queue.rows user st.before.queue.now < autoDailyLimit
  | _ => true

/-- An insert is checked, and no lookup requeues a job. -/
def quotaChecked (st : QuotaRunStep) : Bool :=
  insertChecked st &&
    match st.event with
    | .queue (.requeued id _) => (st.before.queue.calls id).all fun c => !c.auto
    | _ => true

/-! ## The rows remember -/

/-- The rows that lookups of the user have created from `t` on. -/
def autoRows (user : UserId) (t : Time) (rows : List JobRow) : Nat :=
  (rows.filter fun r => r.auto = true ∧ r.requestedBy = some user ∧ t ≤ r.createdAt).length

section Rows

variable {U : UnicodeTables} {s s' : Queue} {a : QueueAction} {e : QueueEvent} {user : UserId}
  {t : Time}

/-- An update that keeps the three columns. -/
theorem autoRows_map {f : JobRow → JobRow} (rows : List JobRow)
    (hf : ∀ r, (f r).auto = r.auto ∧ (f r).requestedBy = r.requestedBy ∧
      (f r).createdAt = r.createdAt) : autoRows user t (rows.map f) = autoRows user t rows := by
  rw [autoRows, autoRows, List.filter_map, List.length_map]
  congr 2
  funext r
  obtain ⟨h1, h2, h3⟩ := hf r
  simp [h1, h2, h3]

/-- No step takes one of these rows away. -/
theorem autoRows_step (h : queueStep U s a = some (s', e)) :
    autoRows user t s.rows ≤ autoRows user t s'.rows := by
  cases queueStep_effect h with
  | ticked | idle | fetching | died => exact Nat.le_refl _
  | inserted id fresh freshKeys status results =>
      simp only [autoRows, List.filter_append, List.length_append]
      exact Nat.le_add_right _ _
  | requeued id hfound =>
      exact Nat.le_of_eq (autoRows_map _ fun r => by split_ifs <;> exact ⟨rfl, rfl, rfl⟩).symm
  | claimed mem claimable =>
      exact Nat.le_of_eq (autoRows_map _ fun r => by split_ifs <;> exact ⟨rfl, rfl, rfl⟩).symm
  | finished fetched clock held phase =>
      exact Nat.le_of_eq (autoRows_map _ fun r => by split_ifs <;> exact ⟨rfl, rfl, rfl⟩).symm

/-- A lookup's insert adds one. -/
theorem autoRows_inserted {c : EnqueueCall} (hauto : c.autoFor user = true) (ht : t ≤ s.now) :
    autoRows user t (s.rows ++ [c.newRow U s]) = autoRows user t s.rows + 1 := by
  obtain ⟨h1, h2⟩ := Bool.and_eq_true_iff.1 hauto
  have h2 := of_decide_eq_true h2
  simp only [autoRows, List.filter_append, List.length_append]
  rw [List.filter_cons_of_pos (by simp [EnqueueCall.newRow, newJob, h1, h2, ht])]
  rfl

/-- What was created on the day that has not ended is counted today. -/
theorem autoRows_le_count {rows : List JobRow} {now : Time} (hnow : now < t + day) :
    autoRows user t rows ≤ autoCountToday rows user now := by
  apply List.Sublist.length_le
  apply List.monotone_filter_right
  intro r hr
  simp only [decide_eq_true_eq] at hr ⊢
  exact ⟨hr.1, hr.2.1, Int.lt_of_lt_of_le (Int.sub_right_lt_of_lt_add hnow) hr.2.2⟩

end Rows

/-! ## A day -/

section Days

variable {U : UnicodeTables} {s s' : Quota} {a : QuotaAction} {e : QuotaEvent} {user : UserId}
  {l : List QuotaRunStep}

/-- A step of a lookup leaves the rows; the others are steps of the queue. -/
theorem quotaStep_cases (h : quotaStep U s a = some (s', e)) :
    ((∀ qe, e ≠ .queue qe) ∧ s'.queue.rows = s.queue.rows) ∨
      ∃ qa qe, e = .queue qe ∧ queueStep U s.queue qa = some (s'.queue, qe) := by
  cases a with
  | lookup id user track =>
      cases hl : s.lookups id <;> cases hc : s.queue.calls id <;>
        simp only [quotaStep, hl, hc] at h <;> cases h
      exact Or.inl ⟨fun _ => QuotaEvent.noConfusion, rfl⟩
  | count id =>
      cases hl : s.lookups id with
      | none => simp only [quotaStep, hl] at h; cases h
      | some phase =>
          cases phase with
          | decided => simp only [quotaStep, hl] at h; cases h
          | counting user track =>
              simp only [quotaStep, hl] at h
              split_ifs at h
              · obtain ⟨⟨q, e⟩, hp, heq⟩ := Option.map_eq_some_iff.1 h
                cases heq
                cases queueStep_turn hp with
                | call fresh => exact Or.inl ⟨fun _ => QuotaEvent.noConfusion, rfl⟩
              · cases h
                exact Or.inl ⟨fun _ => QuotaEvent.noConfusion, rfl⟩
  | queue qa =>
      rw [quotaStep] at h
      split_ifs at h
      obtain ⟨p, hp, heq⟩ := Option.map_eq_some_iff.1 h
      cases heq
      exact Or.inr ⟨qa, p.2, rfl, hp⟩

theorem quotaStep_rows (h : quotaStep U s a = some (s', e)) (user : UserId) (t : Time) :
    autoRows user t s.queue.rows ≤ autoRows user t s'.queue.rows := by
  rcases quotaStep_cases h with ⟨-, hrows⟩ | ⟨qa, qe, -, hq⟩
  · rw [hrows]
  · exact autoRows_step hq

/-- A lookup is answered `Queued` when it has inserted its job or requeued it. -/
theorem queuedFor_cases (h : quotaStep U s a = some (s', e))
    (hq : queuedFor user ⟨s, a, e, s'⟩ = true) :
    insertedFor user ⟨s, a, e, s'⟩ = true ∨ requeuedFor user ⟨s, a, e, s'⟩ = true := by
  rcases quotaStep_cases h with ⟨hne, -⟩ | ⟨qa, qe, rfl, hqueue⟩
  · rw [queuedFor.eq_def] at hq
    cases e with
    | queue qe => exact absurd rfl (hne qe)
    | lookedUp | counted => cases hq
  · rw [queuedFor.eq_def] at hq
    simp only at hq
    split at hq
    · rename_i id hanswer
      obtain ⟨c, hc, hauto⟩ := (Option.any_eq_true _ _).1 hq
      have hstep := answered_callStep hqueue hanswer hc
      generalize s'.queue = after at hstep
      cases hstep with
      | inserted phase fresh => exact Or.inl ((Option.any_eq_true _ _).2 ⟨c, hc, hauto⟩)
      | requeued phase hfound => exact Or.inr ((Option.any_eq_true _ _).2 ⟨c, hc, hauto⟩)
      | @selected r phase found =>
          simp only [QueueEvent.answer?, Option.some.injEq, Prod.mk.injEq] at hanswer
          cases hstatus : r.status <;> rw [hstatus] at hanswer <;> cases hanswer.2
      | conflicted | kept | missing => cases hanswer
    · cases hq

/-- A checked insert for a lookup of the user adds a row, and the count is below the limit. -/
theorem insertedFor_rows (h : quotaStep U s a = some (s', e))
    (hi : insertedFor user ⟨s, a, e, s'⟩ = true) (hk : insertChecked ⟨s, a, e, s'⟩ = true) :
    autoCountToday s.queue.rows user s.queue.now < autoDailyLimit ∧
      ∀ t, t ≤ s.queue.now →
        autoRows user t s'.queue.rows = autoRows user t s.queue.rows + 1 := by
  rw [insertedFor.eq_def] at hi
  simp only at hi
  split at hi
  · rename_i id row
    obtain ⟨c, hc, hauto⟩ := (Option.any_eq_true _ _).1 hi
    obtain ⟨h1, h2⟩ := Bool.and_eq_true_iff.1 hauto
    have h2 := of_decide_eq_true h2
    rcases quotaStep_cases h with ⟨hne, -⟩ | ⟨qa, qe, hqe, hqueue⟩
    · exact absurd rfl (hne _)
    · cases hqe
      have hstep := answered_callStep hqueue rfl hc
      generalize s'.queue = after at hstep ⊢
      cases hstep with
      | inserted phase fresh =>
          exact ⟨by simpa [insertChecked, hc, h1, h2] using hk,
            fun t ht => autoRows_inserted hauto ht⟩
  · cases hi

/-- On every day a user's lookups insert at most the limit of jobs, in every run in which the count
still holds when a lookup inserts. -/
theorem inserts_kept (ht : (quota U).Trace l s) (hk : ∀ st ∈ l, insertChecked st = true)
    (user : UserId) (t : Time) :
    (l.filter fun st => insertedFor user st && onDay t st).length ≤ autoDailyLimit := by
  suffices h : (∀ st ∈ l, insertChecked st = true) →
      (l.filter fun st => insertedFor user st && decide (t ≤ st.before.queue.now)).length ≤
          autoRows user t s.queue.rows ∧
        (l.filter fun st => insertedFor user st && onDay t st).length ≤ autoDailyLimit from
    (h hk).2
  refine ht.invariant (I := fun l s => (∀ st ∈ l, insertChecked st = true) →
    (l.filter fun st => insertedFor user st && decide (t ≤ st.before.queue.now)).length ≤
        autoRows user t s.queue.rows ∧
      (l.filter fun st => insertedFor user st && onDay t st).length ≤ autoDailyLimit) ?_ ?_
  · exact fun _ => ⟨Nat.zero_le _, Nat.zero_le _⟩
  · intro l s a s' e ht ih hs hk
    obtain ⟨hrows, hday⟩ := ih fun st hst => hk st (List.mem_cons_of_mem _ hst)
    have hgrow := quotaStep_rows hs user t
    by_cases hi : insertedFor user ⟨s, a, e, s'⟩ = true
    · obtain ⟨hcount, hinsert⟩ := insertedFor_rows hs hi (hk _ List.mem_cons_self)
      by_cases hfrom : t ≤ s.queue.now
      · have hinsert := hinsert t hfrom
        rw [List.filter_cons_of_pos (by simp [hi, hfrom]), List.length_cons]
        refine ⟨by omega, ?_⟩
        by_cases hto : s.queue.now < t + day
        -- what the day has seen was created on it, and is counted now
        · rw [List.filter_cons_of_pos (by simp [hi, onDay, hfrom, hto]), List.length_cons]
          have hle : autoRows user t s.queue.rows ≤ autoCountToday s.queue.rows user s.queue.now :=
            autoRows_le_count hto
          have hsub : (l.filter fun st => insertedFor user st && onDay t st).length ≤
              (l.filter fun st =>
                insertedFor user st && decide (t ≤ st.before.queue.now)).length := by
            apply List.Sublist.length_le
            apply List.monotone_filter_right
            intro st hst
            simp only [onDay, Bool.and_eq_true, decide_eq_true_eq] at hst ⊢
            exact ⟨hst.1, hst.2.1⟩
          omega
        · rw [List.filter_cons_of_neg (by simp [onDay, hto])]
          exact hday
      · rw [List.filter_cons_of_neg (by simp [hfrom]),
          List.filter_cons_of_neg (by simp [onDay, hfrom])]
        exact ⟨Nat.le_trans hrows hgrow, hday⟩
    · rw [List.filter_cons_of_neg (by simp [hi]), List.filter_cons_of_neg (by simp [hi])]
      exact ⟨Nat.le_trans hrows hgrow, hday⟩

/-- What the lookups of a day bring in beyond the limit they have requeued. -/
theorem queued_le_requeued (ht : (quota U).Trace l s) (hk : ∀ st ∈ l, insertChecked st = true)
    (user : UserId) (t : Time) :
    (l.filter fun st => queuedFor user st && onDay t st).length ≤
      autoDailyLimit + (l.filter fun st => requeuedFor user st && onDay t st).length := by
  have hinserts := inserts_kept ht hk user t
  have hsplit : (l.filter fun st => queuedFor user st && onDay t st).length ≤
      (l.filter fun st => insertedFor user st && onDay t st).length +
        (l.filter fun st => requeuedFor user st && onDay t st).length := by
    apply ht.count_le_add
    intro st hs hst
    obtain ⟨hq, hday⟩ := Bool.and_eq_true_iff.1 hst
    simp only [hday, Bool.and_true]
    exact queuedFor_cases hs hq
  omega

theorem quotaChecked_requeues {st : QuotaRunStep} (h : quotaChecked st = true) (user : UserId) :
    ¬ requeuedFor user st = true := by
  have h := (Bool.and_eq_true_iff.1 h).2
  rw [requeuedFor.eq_def]
  split
  · rename_i id row hevent
    rw [hevent] at h
    intro hc
    obtain ⟨c, hcall, hauto⟩ := (Option.any_eq_true _ _).1 hc
    have hmanual := (Option.all_eq_true _ _).1 h c hcall
    rw [EnqueueCall.autoFor, Bool.and_eq_true] at hauto
    rw [hauto.1] at hmanual
    cases hmanual
  · exact Bool.false_ne_true

/-- **The quota holds over every day** in every run in which the count still holds when a lookup
inserts, and no lookup requeues an old job. -/
theorem quota_kept (ht : (quota U).Trace l s) (hk : ∀ st ∈ l, quotaChecked st = true) (user : UserId)
    (t : Time) : (l.filter fun st => queuedFor user st && onDay t st).length ≤ autoDailyLimit := by
  have hqueued := queued_le_requeued ht
    (fun st hst => (Bool.and_eq_true_iff.1 (hk st hst)).1) user t
  have hrequeued : (l.filter fun st => requeuedFor user st && onDay t st) = [] := by
    rw [List.filter_eq_nil_iff]
    intro st hst hboth
    exact quotaChecked_requeues (hk st hst) user (Bool.and_eq_true_iff.1 hboth).1
  rwa [hrequeued] at hqueued

end Days

/-- One lookup of a track that nobody has asked for. -/
def firstLookup : List QuotaAction := [.lookup 0 1 creep, .count 0, .queue (.proceed 0)]

theorem quota_kept_first :
    (((quota asciiTables).trace ([], (quota asciiTables).init) firstLookup).1.filter
      fun st => queuedFor 1 st && onDay 0 st).length ≤ autoDailyLimit :=
  quota_kept (Machine.trace_exec firstLookup) (by decide) 1 0

/-! ## Lookups that count before any of them inserts -/

section Race

variable (U : UnicodeTables)

/-- Tracks that differ in their artist: `a`, `aa`, ... -/
def nthTrack (i : Nat) : TrackRequest := ⟨"Creep".toList, List.replicate (i + 1) 'a', none⟩

theorem nthTrack_artistKey (i : Nat) :
    (jobKeys U (nthTrack i)).artistKey = List.replicate (i + 1) 'a' := by
  have hword : ∀ c ∈ List.replicate (i + 1) 'a', c = 'a' := fun c hc => List.eq_of_mem_replicate hc
  have hsplit : Text.splitWhitespace (List.replicate (i + 1) 'a') =
      [List.replicate (i + 1) 'a'] := by
    have hfree : ∀ c ∈ List.replicate (i + 1) 'a', Text.isWhitespace c = false := by
      intro c hc
      rw [hword c hc]
      rfl
    rw [Text.splitWhitespace, List.splitOnP_eq_singleton hfree]
    simp
  show Keys.matchKey U (List.replicate (i + 1) 'a') = _
  rw [Keys.matchKey_eq, hsplit, List.map_singleton, Text.join_singleton]
  apply Keys.keyWord_ascii
  intro c hc
  rw [hword c hc]
  decide

theorem nthTrack_keys {i j : Nat} (h : jobKeys U (nthTrack i) = jobKeys U (nthTrack j)) :
    i = j := by
  have hartist := congrArg JobKeys.artistKey h
  rw [nthTrack_artistKey, nthTrack_artistKey] at hartist
  have hlen := congrArg List.length hartist
  simpa using hlen

/-- The call of the `i`-th lookup, before its first statement. -/
def nthCall (i : Nat) : EnqueueCall := ⟨nthTrack i, some 1, true, false, .inserting⟩

/-- Any number of lookups may have counted nothing before the first of them inserts. -/
theorem lookups_counted (n : Nat) : ∃ l s, (quota U).Trace l s ∧ s.queue.now = 0 ∧
    s.queue.rows = [] ∧ (∀ i, i < n → s.queue.calls i = some (nthCall i)) ∧
    ∀ i, n ≤ i → s.queue.calls i = none ∧ s.lookups i = none := by
  induction n with
  | zero => exact ⟨_, _, .start, rfl, rfl, nofun, fun _ _ => ⟨rfl, rfl⟩⟩
  | succ n ih =>
      obtain ⟨l, s, ht, hnow, hrows, hcalls, hfree⟩ := ih
      obtain ⟨hcall, hlookup⟩ := hfree n (Nat.le_refl n)
      let asked : Quota :=
        { s with lookups := Function.update s.lookups n (some (.counting 1 (nthTrack n))) }
      let counted : Quota :=
        ⟨s.queue.setCall n (nthCall n), Function.update asked.lookups n (some .decided)⟩
      have hask : (quota U).step s (.lookup n 1 (nthTrack n)) = some (asked, .lookedUp n) := by
        simp only [quota, quotaStep, hlookup, hcall]
        rfl
      have hcount : (quota U).step asked (.count n) = some (counted, .counted n 0) := by
        have hphase : asked.lookups n = some (.counting 1 (nthTrack n)) := Function.update_self ..
        simp only [quota, quotaStep, hphase, queueStep]
        simp [asked, counted, hrows, hcall, autoCountToday, autoDailyLimit, nthCall]
      refine ⟨_, _, (ht.step hask).step hcount, hnow, hrows, fun i hi => ?_, fun i hi => ?_⟩
      · by_cases hin : i = n
        · rw [hin]
          exact Function.update_self ..
        · exact (Function.update_of_ne hin ..).trans (hcalls i (by omega))
      · have hin : i ≠ n := by omega
        obtain ⟨h1, h2⟩ := hfree i (by omega)
        exact ⟨(Function.update_of_ne hin ..).trans h1, (Function.update_of_ne hin ..).trans
          ((Function.update_of_ne hin ..).trans h2)⟩

/-- Each of them then inserts its job. -/
theorem lookups_inserted (n m : Nat) (hm : m ≤ n) : ∃ l s, (quota U).Trace l s ∧
    s.queue.now = 0 ∧ (∀ r ∈ s.queue.rows, ∃ i, i < m ∧ r.keys = jobKeys U (nthTrack i)) ∧
    (∀ i, m ≤ i → i < n → s.queue.calls i = some (nthCall i)) ∧
    m ≤ (l.filter fun st => queuedFor 1 st && onDay 0 st).length := by
  induction m with
  | zero =>
      obtain ⟨l, s, ht, hnow, hrows, hcalls, -⟩ := lookups_counted U n
      refine ⟨l, s, ht, hnow, ?_, fun i _ hi => hcalls i hi, Nat.zero_le _⟩
      rw [hrows]
      intro r hr
      exact absurd hr List.not_mem_nil
  | succ m ih =>
      obtain ⟨l, s, ht, hnow, hrows, hcalls, hcount⟩ := ih (by omega)
      have hcall := hcalls m (Nat.le_refl m) hm
      have hfresh : rowOf (jobKeys U (nthTrack m)) s.queue.rows = none := by
        apply rowOf_none_iff.2
        intro r hr hk
        obtain ⟨i, hi, hki⟩ := hrows r hr
        have := nthTrack_keys U (hki.symm.trans hk)
        omega
      let inserted : Quota :=
        { s with
          queue := Queue.setCall
            { s.queue with
              rows := s.queue.rows ++ [(nthCall m).newRow U s.queue],
              nextId := s.queue.nextId + 1 }
            m { nthCall m with phase := .returned } }
      have hinsert : (quota U).step s (.queue (.proceed m)) =
          some (inserted, .queue (.inserted m s.queue.nextId)) := by
        have hproceed := proceedCall_fresh U m (c := nthCall m) rfl hfresh
        simp only [quota, quotaStep, Quota.reserved, queueStep, hcall, hproceed]
        rfl
      refine ⟨_, _, ht.step hinsert, hnow, fun r hr => ?_, fun i hi hin => ?_, ?_⟩
      · rcases List.mem_append.1 hr with hold | hnew
        · obtain ⟨i, hi, hk⟩ := hrows r hold
          exact ⟨i, by omega, hk⟩
        · rw [List.mem_singleton.1 hnew]
          exact ⟨m, Nat.lt_succ_self m, rfl⟩
      · have hne : i ≠ m := by omega
        exact (Function.update_of_ne hne ..).trans (hcalls i (by omega) hin)
      · rw [List.filter_cons_of_pos, List.length_cons]
        · exact Nat.succ_le_succ hcount
        · simp [queuedFor, QueueEvent.answer?, hcall, nthCall, EnqueueCall.autoFor, onDay, hnow,
            day, minute]

end Race

/-- 201 lookups of one user read the count before the first of them inserts: each inserts. -/
theorem lookups_exceed_quota : ∃ l s, (quota asciiTables).Trace l s ∧
    ¬ (l.filter fun st => queuedFor 1 st && onDay 0 st).length ≤ autoDailyLimit := by
  obtain ⟨l, s, ht, -, -, -, hcount⟩ := lookups_inserted asciiTables 201 201 (Nat.le_refl _)
  refine ⟨l, s, ht, fun hle => ?_⟩
  rw [autoDailyLimit] at hle
  omega

end AnyPlayerSync.Passages
