import AnyPlayerSync.Foundation.Pages
import AnyPlayerSync.Passages.Queue
import AnyPlayerSync.Server.Handlers

/-!
# Paging through the jobs

A reader of `admin_list_jobs` passes the last id of each page as the next `before_id`, and stops at
an empty page. Between two requests the queue takes any steps.
-/

set_option autoImplicit false

namespace AnyPlayerSync.Server

open AnyPlayerSync.Foundation
open AnyPlayerSync.Foundation.Pages
open AnyPlayerSync.Passages

/-! ## One page -/

/-- The answer to one row of `list`. -/
def summary (r : JobRow) : JobSummary :=
  ⟨r.id, r.track, r.status, r.attempts, r.results, r.lastError, r.updatedAt⟩

/-- The rows that `before_id` admits. -/
def admits (beforeId : Option Int) (r : JobRow) : Bool :=
  beforeId.all fun before => (r.id : Int) < before

/-- The rows of a page of `list`. -/
def listRows (rows : List JobRow) (limit : Int) (beforeId : Option Int) : List JobRow :=
  page JobRow.id (admits beforeId) (min (max limit 1) 500).toNat rows

theorem listJobs_eq (rows : List JobRow) (limit : Int) (beforeId : Option Int) :
    listJobs rows limit beforeId = (listRows rows limit beforeId).map summary := rfl

/-- Whatever the limit, a page shows a row if there is one to show. -/
theorem isPage_listRows {rows : List JobRow} (hn : (rows.map JobRow.id).Nodup) (limit : Int)
    (beforeId : Option Int) :
    IsPage JobRow.id (admits beforeId) rows (listRows rows limit beforeId) := by
  have hlimit : 0 < (min (max limit 1) 500).toNat := by omega
  exact isPage_page hn hlimit

/-! ## The reader -/

/-- The queue and the pages read so far, earliest first. -/
structure Paging where
  queue : Queue
  pages : List (List JobSummary)

/-- Before the first page. -/
def Paging.start (q : Queue) : Paging := ⟨q, []⟩

/-- The reader has one more page. -/
def Paging.push (s : Paging) (jobs : List JobSummary) : Paging :=
  { s with pages := s.pages ++ [jobs] }

/-- The ids shown so far. -/
def Paging.ids (s : Paging) : List Nat := s.pages.flatten.map JobSummary.id

/-- The last id of the last page. There is none once a page came back empty. -/
def Paging.beforeId (s : Paging) : Option Int :=
  (s.pages.getLast?.bind List.getLast?).map fun j => (j.id : Int)

/-- A scheduling choice; a page may be asked for with a limit. -/
inductive PagingAction where
  | queue (a : QueueAction)
  | page (limit : Option Int)

/-- What a step tells. -/
inductive PagingEvent where
  | queue (e : QueueEvent)
  | page (jobs : List JobSummary)

/-- A step of the queue, or the next page; `100` is the handler's default limit. -/
def pagingStep (U : UnicodeTables) (s : Paging) : PagingAction → Option (Paging × PagingEvent)
  | .queue a => (queueStep U s.queue a).map fun (q, e) => ({ s with queue := q }, .queue e)
  | .page limit =>
      match s.beforeId with
      | none => none
      | some before =>
          let jobs := listJobs s.queue.rows (limit.getD 100) (some before)
          some (s.push jobs, .page jobs)

/-- The reader, started with the first page of a queue. -/
def paging (U : UnicodeTables) (q₀ : Queue) (limit : Option Int) :
    Machine Paging PagingAction PagingEvent where
  init := (Paging.start q₀).push (listJobs q₀.rows (limit.getD 100) none)
  step := pagingStep U

@[simp]
theorem Paging.push_pages (s : Paging) (jobs : List JobSummary) :
    (s.push jobs).pages = s.pages ++ [jobs] := rfl

@[simp]
theorem Paging.push_ids (s : Paging) (jobs : List JobSummary) :
    (s.push jobs).ids = s.ids ++ jobs.map JobSummary.id := by
  simp [Paging.ids]

@[simp]
theorem Paging.push_beforeId (s : Paging) (jobs : List JobSummary) :
    (s.push jobs).beforeId = jobs.getLast?.map fun j => (j.id : Int) := by
  simp [Paging.beforeId]

/-! ## What the queue may become -/

/-- The jobs of `q₀` are still there, and the others are newer. -/
structure Since (q₀ q : Queue) : Prop where
  unique : UniqueRows q
  nextId : q₀.nextId ≤ q.nextId
  kept : ∀ k ∈ q₀.rows.map JobRow.id, k ∈ q.rows.map JobRow.id
  newer : ∀ k ∈ q.rows.map JobRow.id, k ∈ q₀.rows.map JobRow.id ∨ q₀.nextId ≤ k

theorem Since.refl {q₀ : Queue} (hq : UniqueRows q₀) : Since q₀ q₀ :=
  ⟨hq, Nat.le_refl _, fun _ hk => hk, fun _ hk => Or.inl hk⟩

theorem Since.step {q₀ q q' : Queue} {e : QueueEvent} (hs : Since q₀ q) (he : QueueEffect q q' e) :
    Since q₀ q' := by
  have hu := he.uniqueRows hs.unique
  rcases he.ids with ⟨hids, hnext⟩ | ⟨hids, hnext⟩
  · exact ⟨hu, hs.nextId.trans hnext, hids ▸ hs.kept, hids ▸ hs.newer⟩
  · refine ⟨hu, by rw [hnext]; exact hs.nextId.trans (Nat.le_succ _), ?_, ?_⟩
    · intro k hk
      rw [hids]
      exact List.mem_append_left _ (hs.kept k hk)
    · intro k hk
      rw [hids] at hk
      rcases List.mem_append.1 hk with hk | hk
      · exact hs.newer k hk
      · rw [List.mem_singleton.1 hk]
        exact Or.inr hs.nextId

/-! ## Every run -/

/-- The ids that the reader has still to ask for. -/
def Paging.Pending (s : Paging) (k : Nat) : Prop :=
  ∀ jobs, s.pages.getLast? = some jobs → Below JobSummary.id jobs k

theorem Paging.pending_start (q : Queue) : (Paging.start q).Pending = fun _ => True := by
  funext k
  simp [Paging.Pending, Paging.start]

theorem Paging.pending_push (s : Paging) (jobs : List JobSummary) :
    (s.push jobs).Pending = Below JobSummary.id jobs := by
  funext k
  simp [Paging.Pending]

/-- The next `before_id` admits what is pending. -/
theorem Paging.admits_iff {s : Paging} {before : Int} (hs : s.beforeId = some before) (r : JobRow) :
    admits (some before) r = true ↔ s.Pending r.id := by
  obtain ⟨j, hj, rfl⟩ := Option.map_eq_some_iff.1 hs
  obtain ⟨jobs, hjobs, hlast⟩ := Option.bind_eq_some_iff.1 hj
  simp [admits, Paging.Pending, Below, hjobs, hlast]

/-- The reader began when the queue was `q₀`. -/
structure PagingInv (q₀ : Queue) (s : Paging) : Prop where
  since : Since q₀ s.queue
  reading : Reading (q₀.rows.map JobRow.id) s.ids s.Pending
  existing : ∀ k ∈ s.ids, k ∈ q₀.rows.map JobRow.id
  length : s.pages.length ≤ s.ids.length + 1
  progress : s.beforeId ≠ none → s.pages.length ≤ s.ids.length

theorem pagingInv_start {q₀ : Queue} (hq : UniqueRows q₀) : PagingInv q₀ (Paging.start q₀) := by
  refine ⟨Since.refl hq, ?_, fun _ hk => (nomatch hk), Nat.zero_le _, fun _ => Nat.le_refl _⟩
  rw [Paging.pending_start]
  exact reading_start _

section Steps

variable {q₀ : Queue} {s : Paging}

/-- A page that admits what is pending. -/
theorem PagingInv.page (hi : PagingInv q₀ s) {limit : Int} {beforeId : Option Int}
    (hadmits : ∀ r, admits beforeId r = true ↔ s.Pending r.id)
    (hexisting : ∀ r ∈ s.queue.rows, admits beforeId r = true → r.id ∈ q₀.rows.map JobRow.id)
    (hlength : s.pages.length ≤ s.ids.length) :
    PagingInv q₀ (s.push (listJobs s.queue.rows limit beforeId)) := by
  have hpage := isPage_listRows hi.since.unique.nodup limit beforeId
  rw [listJobs_eq]
  generalize listRows s.queue.rows limit beforeId = rows at hpage ⊢
  have hids : (s.push (rows.map summary)).ids = s.ids ++ rows.map JobRow.id := by
    rw [Paging.push_ids, List.map_map]
    rfl
  refine ⟨hi.since, ?_, ?_, ?_, ?_⟩
  · rw [hids, Paging.pending_push, below_map]
    exact hi.reading.turn hadmits hi.since.kept hpage
  · intro k hk
    rw [hids] at hk
    rcases List.mem_append.1 hk with hk | hk
    · exact hi.existing k hk
    · obtain ⟨r, hr, rfl⟩ := List.mem_map.1 hk
      exact hexisting r (hpage.mem r hr).1 (hpage.mem r hr).2
  · rw [hids, Paging.push_pages, List.length_append, List.length_append, List.length_singleton]
    omega
  · intro hnext
    have hrows : rows ≠ [] := by
      rintro rfl
      exact hnext (by simp)
    have hpos := List.length_pos_of_ne_nil hrows
    rw [hids, Paging.push_pages, List.length_append, List.length_append, List.length_singleton,
      List.length_map]
    omega

/-- A page at the reader's cursor shows jobs that were there at the first page. -/
theorem PagingInv.existing_of_admits (hi : PagingInv q₀ s) (hq : UniqueRows q₀) {before : Int}
    (hs : s.beforeId = some before) {r : JobRow} (hr : r ∈ s.queue.rows)
    (hadmits : admits (some before) r = true) : r.id ∈ q₀.rows.map JobRow.id := by
  obtain ⟨j, hj, rfl⟩ := Option.map_eq_some_iff.1 hs
  obtain ⟨jobs, hjobs, hlast⟩ := Option.bind_eq_some_iff.1 hj
  have hshown : j.id ∈ s.ids := by
    apply List.mem_map_of_mem
    exact List.mem_flatten.2 ⟨jobs, List.mem_of_getLast? hjobs, List.mem_of_getLast? hlast⟩
  have hlt : r.id < j.id := by simpa [admits] using hadmits
  obtain ⟨row, hrow, hid⟩ := List.mem_map.1 (hi.existing _ hshown)
  have hbelow := hq.below row hrow
  -- a newer job would have an id above every id shown
  rcases hi.since.newer _ (List.mem_map_of_mem hr) with hold | hnew
  · exact hold
  · omega

theorem PagingInv.step {U : UnicodeTables} (hi : PagingInv q₀ s) (hq : UniqueRows q₀)
    {a : PagingAction} {s' : Paging} {e : PagingEvent} (hs : pagingStep U s a = some (s', e)) :
    PagingInv q₀ s' := by
  cases a with
  | queue a =>
      obtain ⟨⟨q, e'⟩, hstep, heq⟩ := Option.map_eq_some_iff.1 hs
      cases heq
      exact ⟨hi.since.step (queueStep_effect hstep), hi.reading, hi.existing, hi.length,
        hi.progress⟩
  | page limit =>
      cases hbefore : s.beforeId with
      | none =>
          simp only [pagingStep, hbefore] at hs
          cases hs
      | some before =>
          simp only [pagingStep, hbefore] at hs
          cases hs
          refine hi.page (Paging.admits_iff hbefore) ?_ (hi.progress ?_)
          · exact fun r hr hadmits => hi.existing_of_admits hq hbefore hr hadmits
          · rw [hbefore]
            exact Option.some_ne_none _

end Steps

section Runs

variable {U : UnicodeTables} {q₀ : Queue} {limit : Option Int} {h : List PagingEvent} {s : Paging}

theorem run_pagingInv (hq : UniqueRows q₀) (hr : (paging U q₀ limit).Run h s) : PagingInv q₀ s := by
  refine hr.invariant (I := fun _ s => PagingInv q₀ s) ?_ ?_
  -- the first page has no cursor: everything is pending
  · refine (pagingInv_start hq).page ?_ ?_ (Nat.le_refl _)
    · intro r
      rw [Paging.pending_start]
      exact ⟨fun _ => trivial, fun _ => rfl⟩
    · exact fun r hr _ => List.mem_map_of_mem hr
  · intro _ _ _ _ _ _ ih hs _
    exact ih.step hq hs

/-- **Paging misses nothing.** The ids descend, the pages come to an end, and when one comes back
empty every job of the first page's queue was shown once. -/
theorem paging_misses_nothing (hq : UniqueRows q₀) (hr : (paging U q₀ limit).Run h s) :
    s.ids.Pairwise (· > ·) ∧ s.pages.length ≤ q₀.rows.length + 1 ∧
      (s.pages.getLast? = some [] → ∀ r ∈ q₀.rows, s.ids.count r.id = 1) := by
  have hi := run_pagingInv hq hr
  refine ⟨hi.reading.descending, ?_, ?_⟩
  · have hnodup : s.ids.Nodup := hi.reading.descending.imp fun h => h.ne'
    have hle := (List.subperm_of_subset hnodup hi.existing).length_le
    rw [List.length_map] at hle
    exact hi.length.trans (Nat.succ_le_succ hle)
  · intro hempty r hrow
    have hpending : s.Pending = fun _ => False := by
      funext k
      simp [Paging.Pending, hempty, Below]
    have hended := hi.reading
    rw [hpending] at hended
    exact hended.count_eq_one (List.mem_map_of_mem hrow)

end Runs

/-- A third track. -/
def bad : TrackRequest := ⟨"Bad".toList, "U2".toList, none⟩

/-- Two jobs, and a sequence that has given out one more id. -/
def twoJobs : Queue :=
  let one : TrackRequest := ⟨"One".toList, "U2".toList, none⟩
  { Queue.empty with
    rows := [newJob 1 (jobKeys asciiTables one) one none false 0,
      newJob 3 (jobKeys asciiTables bad) bad none false 0]
    nextId := 4 }

/-- A job is enqueued and another claimed while the pages are read, one job a page. -/
def readTwo : List PagingAction :=
  [.queue (.call 0 ⟨"Gone".toList, "U2".toList, none⟩ none false false), .queue (.proceed 0),
    .page (some (-5)), .queue (.claim []), .page none]

theorem paging_misses_nothing_two :
    let s := ((paging asciiTables twoJobs (some 0)).exec
      ([], (paging asciiTables twoJobs (some 0)).init) readTwo).2
    (s.queue.rows.map JobRow.id = [1, 3, 4] ∧
      s.pages.map (List.map JobSummary.id) = [[3], [1], []]) ∧
      s.ids.Pairwise (· > ·) ∧ s.pages.length ≤ twoJobs.rows.length + 1 ∧
      (s.pages.getLast? = some [] → ∀ r ∈ twoJobs.rows, s.ids.count r.id = 1) := by
  have hq : UniqueRows twoJobs := ⟨by decide, by decide, by decide +kernel⟩
  have hfirst : (paging asciiTables twoJobs (some 0)).init =
      ⟨twoJobs, [[⟨3, bad, .queued, 0, .obj [], none, 0⟩]]⟩ := by
    simp [paging, Paging.start, Paging.push, listJobs, twoJobs, newJob, List.mergeSort]
  refine ⟨?_, paging_misses_nothing hq (Machine.run_exec readTwo)⟩
  rw [hfirst]
  decide +kernel

end AnyPlayerSync.Server
