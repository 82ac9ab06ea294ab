import Mathlib.Data.List.Nodup
import Mathlib.Order.Basic
import Mathlib.Tactic.Common

/-!
# Tables with a key

A table is a list of rows with a key column; `(rows.map key).Nodup` says that the key is unique.
`row?` finds the row with a key. `put` replaces the row with the key of the new row, or appends the
new row. A column that is unique stays so when no row's value is written (`nodup_map`) or the new
row takes no value of another row (`nodup_append`, `nodup_put`). An id that a sequence gives is
unique because the sequence is ahead of the table (`Numbered`).
-/

set_option autoImplicit false

namespace AnyPlayerSync.Foundation.Table

universe u v

variable {α : Type u} {κ : Type v} (key : α → κ)

variable {key} in
/-- Rows of a unique key are equal. -/
theorem eq_of_key {rows : List α} (hn : (rows.map key).Nodup) {r r' : α} (hr : r ∈ rows)
    (hr' : r' ∈ rows) (h : key r = key r') : r = r' :=
  List.inj_on_of_nodup_map hn hr hr' h

variable {key} in
/-- A change of rows keeps a column that it does not write. -/
theorem column_map {f : α → α} (hf : ∀ r, key (f r) = key r) (rows : List α) :
    (rows.map f).map key = rows.map key := by
  rw [List.map_map, show key ∘ f = key from funext hf]

variable {key} in
theorem nodup_map {f : α → α} (hf : ∀ r, key (f r) = key r) {rows : List α}
    (hn : (rows.map key).Nodup) : ((rows.map f).map key).Nodup := by
  rw [column_map hf]
  exact hn

variable {key} in
/-- A column that is unique stays so when the new row has a new value. -/
theorem nodup_append {rows : List α} {row : α} (hn : (rows.map key).Nodup)
    (hfresh : ∀ r ∈ rows, key r ≠ key row) : ((rows ++ [row]).map key).Nodup := by
  rw [List.map_append, List.map_singleton, List.nodup_append]
  refine ⟨hn, List.nodup_singleton _, ?_⟩
  intro a ha b hb
  obtain ⟨r, hr, rfl⟩ := List.mem_map.1 ha
  rw [List.mem_singleton.1 hb]
  exact hfresh r hr

section Numbered

variable {ι : Type v} {id : α → ι} {rows : List α} {next next' : ι}

/-- The ids of the rows are unique, and below the next number of their sequence. -/
structure Numbered [LT ι] (id : α → ι) (rows : List α) (next : ι) : Prop where
  nodup : (rows.map id).Nodup
  below : ∀ r ∈ rows, id r < next

theorem numbered_nil [LT ι] (id : α → ι) (next : ι) : Numbered id [] next where
  nodup := List.nodup_nil
  below _ h := absurd h List.not_mem_nil

variable [Preorder ι]

/-- Numbers of the sequence may be used up. -/
theorem Numbered.mono (h : Numbered id rows next) (hnext : next ≤ next') :
    Numbered id rows next' where
  nodup := h.nodup
  below r hr := lt_of_lt_of_le (h.below r hr) hnext

/-- An update that leaves the ids. -/
theorem Numbered.map (h : Numbered id rows next) {f : α → α} (hf : ∀ r, id (f r) = id r) :
    Numbered id (rows.map f) next where
  nodup := nodup_map hf h.nodup
  below r hr := by
    obtain ⟨old, hold, rfl⟩ := List.mem_map.1 hr
    rw [hf]
    exact h.below old hold

/-- A new row takes the next number. -/
theorem Numbered.append (h : Numbered id rows next) {row : α} (hrow : id row = next)
    (hnext : next < next') : Numbered id (rows ++ [row]) next' where
  nodup := nodup_append h.nodup fun r hr => by
    rw [hrow]
    exact ne_of_lt (h.below r hr)
  below r hr := by
    rcases List.mem_append.1 hr with hr | hr
    · exact lt_trans (h.below r hr) hnext
    · rw [List.mem_singleton.1 hr, hrow]
      exact hnext

end Numbered

section Find

variable [DecidableEq κ]

/-- The row with a key. -/
def row? (k : κ) (rows : List α) : Option α := rows.find? fun r => key r = k

variable {key}

theorem row?_spec {k : κ} {rows : List α} {r : α} (h : row? key k rows = some r) :
    r ∈ rows ∧ key r = k :=
  ⟨List.mem_of_find?_eq_some h, by simpa using List.find?_some h⟩

theorem row?_eq_none_iff {k : κ} {rows : List α} :
    row? key k rows = none ↔ ∀ r ∈ rows, key r ≠ k := by
  simp [row?, List.find?_eq_none]

theorem row?_of_mem {rows : List α} (hn : (rows.map key).Nodup) {r : α} (hr : r ∈ rows) :
    row? key (key r) rows = some r := by
  cases h : row? key (key r) rows with
  | none => exact absurd rfl (row?_eq_none_iff.1 h r hr)
  | some r' =>
      obtain ⟨hr', hkey⟩ := row?_spec h
      rw [eq_of_key hn hr' hr hkey]

/-- A change of rows that keeps the key. -/
theorem row?_map {f : α → α} (hf : ∀ r, key (f r) = key r) (k : κ) (rows : List α) :
    row? key k (rows.map f) = (row? key k rows).map f := by
  rw [row?, row?, List.find?_map]
  simp only [Function.comp_def, hf]

/-- A new row whose key is new. -/
theorem row?_append {rows : List α} {row : α} (hfresh : ∀ r ∈ rows, key r ≠ key row) (k : κ) :
    row? key k (rows ++ [row]) = if key row = k then some row else row? key k rows := by
  rw [row?, List.find?_append, ← row?]
  split_ifs with hk
  · subst hk
    rw [row?_eq_none_iff.2 hfresh, Option.none_or]
    exact List.find?_cons_of_pos (decide_eq_true rfl)
  · rw [List.find?_cons_of_neg (by simpa using hk), List.find?_nil, Option.or_none]

/-- The key is free when no row has it. -/
theorem fresh_of_not_any {k : κ} {rows : List α} (h : ¬ (rows.any fun r => key r = k) = true) :
    ∀ r ∈ rows, key r ≠ k := by
  simpa using h

end Find

section Put

variable [DecidableEq κ]

/-- Replace the row with the key of `row`, or append `row`. -/
def put (row : α) (rows : List α) : List α :=
  if rows.any fun r => key r = key row then rows.map fun r => if key r = key row then row else r
  else rows ++ [row]

variable {key} {row : α} {rows : List α}

theorem mem_put {r : α} : r ∈ put key row rows ↔ r = row ∨ (r ∈ rows ∧ key r ≠ key row) := by
  rw [put]
  split_ifs with h
  · obtain ⟨old, hold, hkey⟩ := List.any_eq_true.1 h
    have hkey : key old = key row := of_decide_eq_true hkey
    constructor
    · intro hr
      obtain ⟨x, hx, rfl⟩ := List.mem_map.1 hr
      split_ifs with hxk
      · exact Or.inl rfl
      · exact Or.inr ⟨hx, hxk⟩
    · rintro (rfl | ⟨hr, hne⟩)
      · exact List.mem_map.2 ⟨old, hold, if_pos hkey⟩
      · exact List.mem_map.2 ⟨r, hr, if_neg hne⟩
  · have hne := fresh_of_not_any h
    constructor
    · intro hr
      rcases List.mem_append.1 hr with hr | hr
      · exact Or.inr ⟨hr, hne r hr⟩
      · exact Or.inl (List.mem_singleton.1 hr)
    · rintro (rfl | ⟨hr, -⟩)
      · exact List.mem_append_right _ (List.mem_singleton_self _)
      · exact List.mem_append_left _ hr

/-- A unique column stays unique when no row that stays has the new row's value. -/
theorem nodup_put {β : Type v} {f : α → β} (hn : (rows.map f).Nodup)
    (hk : (rows.map key).Nodup) (hf : ∀ r ∈ rows, key r ≠ key row → f r ≠ f row) :
    ((put key row rows).map f).Nodup := by
  rw [put]
  split_ifs with h
  · rw [List.map_map]
    have hrows : rows.Nodup := List.Nodup.of_map key hk
    refine List.Nodup.map_on ?_ hrows
    intro x hx y hy hxy
    simp only [Function.comp_apply] at hxy
    split_ifs at hxy with hxk hyk hyk
    · exact eq_of_key hk hx hy (hxk.trans hyk.symm)
    · exact absurd hxy.symm (hf y hy hyk)
    · exact absurd hxy (hf x hx hxk)
    · exact eq_of_key hn hx hy hxy
  · exact nodup_append hn fun r hr => hf r hr (fresh_of_not_any h r hr)

end Put

end AnyPlayerSync.Foundation.Table
