import Mathlib.Data.List.Sort
import Mathlib.Tactic.Common

/-!
# Pages of a table

A page shows the rows below a cursor, highest key first, up to a limit; the next cursor is the key
of its last row. `IsPage` says what a page is, whatever its limit.

`Reading existing shown pending` is the invariant of a reader who began when the table had the keys
`existing`: what was shown descends, what is pending lies below it, and every existing key is one or
the other. Each page keeps it (`Reading.turn`) as long as the table keeps the
existing keys, and when nothing is pending every existing key was shown once.
-/

set_option autoImplicit false

namespace AnyPlayerSync.Foundation.Pages

universe u v

variable {α : Type u} {κ : Type v} [LinearOrder κ] (key : α → κ)

/-! ## Pages -/

/-- The rows that meet `p`, highest key first, at most `limit` of them. -/
def page (p : α → Bool) (limit : Nat) (rows : List α) : List α :=
  ((rows.filter p).mergeSort fun a b => key b ≤ key a).take limit

/-- A page descends through rows that meet `p`; those it leaves out lie below it, and it is empty
only when there are none. -/
structure IsPage (p : α → Bool) (rows page : List α) : Prop where
  mem : ∀ r ∈ page, r ∈ rows ∧ p r = true
  descending : page.Pairwise fun r r' => key r' < key r
  rest : ∀ r ∈ rows, p r = true → r ∈ page ∨ ∀ q ∈ page, key r < key q
  progress : page = [] → ∀ r ∈ rows, p r = false

/-- The keys below the last row of a page: none when the page is empty. -/
def Below (page : List α) (k : κ) : Prop := ∃ last, page.getLast? = some last ∧ k < key last

variable {key}

theorem below_map {β : Type u} (f : β → α) (page : List β) :
    Below key (page.map f) = Below (fun b => key (f b)) page := by
  funext k
  simp [Below, List.getLast?_map]

/-- With a unique key the rows descend strictly. -/
theorem sorted_descending {rows : List α} (hn : (rows.map key).Nodup) :
    (rows.mergeSort fun a b => key b ≤ key a).Pairwise fun r r' => key r' < key r := by
  have hle : (rows.mergeSort fun a b => key b ≤ key a).Pairwise
      fun a b => decide (key b ≤ key a) = true := by
    apply List.pairwise_mergeSort
    · intro a b c hab hbc
      rw [decide_eq_true_eq] at hab hbc ⊢
      exact le_trans hbc hab
    · intro a b
      rw [Bool.or_eq_true, decide_eq_true_eq, decide_eq_true_eq]
      exact le_total (key b) (key a)
  have hne : (rows.mergeSort fun a b => key b ≤ key a).Pairwise fun a b => key a ≠ key b := by
    rw [← List.pairwise_map, ← List.nodup_iff_pairwise_ne]
    exact ((List.mergeSort_perm rows _).map key).nodup_iff.2 hn
  refine hle.imp₂ ?_ hne
  intro a b hab hab'
  exact lt_of_le_of_ne (of_decide_eq_true hab) hab'.symm

theorem isPage_page {p : α → Bool} {limit : Nat} {rows : List α} (hn : (rows.map key).Nodup)
    (hlimit : 0 < limit) : IsPage key p rows (page key p limit rows) := by
  have hfiltered : ((rows.filter p).map key).Nodup := hn.sublist (List.filter_sublist.map key)
  have hsorted := sorted_descending hfiltered
  have hmem : ∀ r, r ∈ (rows.filter p).mergeSort (fun a b => key b ≤ key a) ↔
      r ∈ rows ∧ p r = true := fun r => by rw [List.mem_mergeSort, List.mem_filter]
  rw [page]
  generalize (rows.filter p).mergeSort (fun a b => key b ≤ key a) = sorted at hsorted hmem ⊢
  refine ⟨?_, ?_, ?_, ?_⟩
  · intro r hr
    exact (hmem r).1 (List.mem_of_mem_take hr)
  · exact hsorted.sublist (List.take_sublist limit sorted)
  · intro r hr hp
    have hin := (hmem r).2 ⟨hr, hp⟩
    rw [← List.take_append_drop limit sorted] at hsorted hin
    rcases List.mem_append.1 hin with hin | hin
    · exact Or.inl hin
    · exact Or.inr fun q hq => (List.pairwise_append.1 hsorted).2.2 q hq r hin
  · intro hnil r hr
    have hsortedNil : sorted = [] := by
      rcases List.take_eq_nil_iff.1 hnil with h | h
      · exact absurd h hlimit.ne'
      · exact h
    rw [Bool.eq_false_iff]
    intro hp
    have hin := (hmem r).2 ⟨hr, hp⟩
    rw [hsortedNil] at hin
    cases hin

/-! ## Readers -/

/-- A reader between two pages. -/
structure Reading (existing shown : List κ) (pending : κ → Prop) : Prop where
  descending : shown.Pairwise fun k k' => k' < k
  below : ∀ k, pending k → ∀ s ∈ shown, k < s
  covered : ∀ k ∈ existing, k ∈ shown ∨ pending k

/-- Before the first page. -/
theorem reading_start (existing : List κ) : Reading existing [] fun _ => True :=
  ⟨List.Pairwise.nil, fun _ _ _ h => (nomatch h), fun _ _ => Or.inr trivial⟩

section Step

variable {existing shown : List κ} {pending : κ → Prop} {p : α → Bool} {rows page : List α}

/-- A page that is not empty moves the cursor to its last row. -/
theorem Reading.next (hr : Reading existing shown pending) (hp : ∀ r, p r = true ↔ pending (key r))
    (hkept : ∀ k ∈ existing, k ∈ rows.map key) (hpage : IsPage key p rows page) {last : α}
    (hlast : page.getLast? = some last) :
    Reading existing (shown ++ page.map key) fun k => k < key last := by
  obtain ⟨front, rfl⟩ := List.getLast?_eq_some_iff.1 hlast
  have hlow : ∀ q ∈ front ++ [last], key last ≤ key q := by
    intro q hq
    rcases List.mem_append.1 hq with hq | hq
    · exact ((List.pairwise_append.1 hpage.descending).2.2 q hq last (List.mem_singleton_self _)).le
    · rw [List.mem_singleton.1 hq]
  have hpending : ∀ q ∈ front ++ [last], pending (key q) :=
    fun q hq => (hp q).1 (hpage.mem q hq).2
  refine ⟨?_, ?_, ?_⟩
  · rw [List.pairwise_append]
    refine ⟨hr.descending, List.pairwise_map.2 hpage.descending, ?_⟩
    intro s hs k hk
    obtain ⟨q, hq, rfl⟩ := List.mem_map.1 hk
    exact hr.below _ (hpending q hq) s hs
  · intro k hk s hs
    rcases List.mem_append.1 hs with hs | hs
    · have hmem : last ∈ front ++ [last] := List.mem_append_right _ (List.mem_singleton_self _)
      exact hk.trans (hr.below _ (hpending last hmem) s hs)
    · obtain ⟨q, hq, rfl⟩ := List.mem_map.1 hs
      exact lt_of_lt_of_le hk (hlow q hq)
  · intro k hk
    rcases hr.covered k hk with hshown | hpend
    · exact Or.inl (List.mem_append_left _ hshown)
    -- a pending key is still in the table: the page shows it, or it lies below the last row
    · obtain ⟨r, hrow, rfl⟩ := List.mem_map.1 (hkept k hk)
      rcases hpage.rest r hrow ((hp r).2 hpend) with hin | hout
      · exact Or.inl (List.mem_append_right _ (List.mem_map_of_mem hin))
      · exact Or.inr (hout last (List.mem_append_right _ (List.mem_singleton_self _)))

/-- After an empty page nothing is pending. -/
theorem Reading.ended (hr : Reading existing shown pending) (hp : ∀ r, p r = true ↔ pending (key r))
    (hkept : ∀ k ∈ existing, k ∈ rows.map key) (hpage : IsPage key p rows []) :
    Reading existing shown fun _ => False := by
  refine ⟨hr.descending, fun _ h => h.elim, ?_⟩
  intro k hk
  rcases hr.covered k hk with hshown | hpend
  · exact Or.inl hshown
  · obtain ⟨r, hrow, rfl⟩ := List.mem_map.1 (hkept k hk)
    have hnone := hpage.progress rfl r hrow
    rw [(hp r).2 hpend] at hnone
    cases hnone

/-- One page more, empty or not. -/
theorem Reading.turn (hr : Reading existing shown pending) (hp : ∀ r, p r = true ↔ pending (key r))
    (hkept : ∀ k ∈ existing, k ∈ rows.map key) (hpage : IsPage key p rows page) :
    Reading existing (shown ++ page.map key) (Below key page) := by
  cases hlast : page.getLast? with
  | none =>
      obtain rfl := List.getLast?_eq_none_iff.1 hlast
      have hnone : Below key ([] : List α) = fun _ => False := by
        funext k
        simp [Below]
      rw [List.map_nil, List.append_nil, hnone]
      exact hr.ended hp hkept hpage
  | some last =>
      have hbelow : Below key page = fun k => k < key last := by
        funext k
        simp [Below, hlast]
      rw [hbelow]
      exact hr.next hp hkept hpage hlast

/-- **Nothing is missed and nothing comes twice.** -/
theorem Reading.count_eq_one (hr : Reading existing shown fun _ => False) {k : κ}
    (hk : k ∈ existing) : shown.count k = 1 := by
  have hnodup : shown.Nodup := hr.descending.imp fun h => h.ne'
  rcases hr.covered k hk with hshown | h
  · exact List.count_eq_one_of_mem hnodup hshown
  · exact h.elim

end Step

end AnyPlayerSync.Foundation.Pages
