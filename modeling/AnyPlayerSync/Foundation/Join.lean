import Mathlib.Data.List.Nodup
import Mathlib.Logic.Function.Basic
import Mathlib.Tactic.Common

/-!
# A join by groups

The rows of one table are collected by key in one pass over them (`groups`), and each row of another
table takes its group out of the collection (`join`). With a unique key this is the plain join, row
by row (`join_eq`), and each row whose key is there is taken once (`join_perm`).
-/

set_option autoImplicit false

namespace AnyPlayerSync.Foundation.Join

universe u v w

variable {α : Type u} {β : Type v} {κ : Type w} [DecidableEq κ] (one : α → κ) (many : β → κ)

/-- A map from keys to lists of rows. -/
abbrev Groups (β : Type v) (κ : Type w) := κ → Option (List β)

/-- `entry(key).or_default().push(row)`. -/
def push (g : Groups β κ) (row : β) : Groups β κ :=
  Function.update g (many row) (some ((g (many row)).getD [] ++ [row]))

/-- Each row under its key, in the order of the rows. -/
def groups (rows : List β) : Groups β κ := rows.foldl (push many) fun _ => none

/-- `remove(key).unwrap_or_default()` for each row. -/
def join (g : Groups β κ) : List α → List (α × List β)
  | [] => []
  | a :: rows => (a, (g (one a)).getD []) :: join (Function.update g (one a) none) rows

variable {one many}

theorem push_getD (g : Groups β κ) (row : β) (k : κ) :
    (push many g row k).getD [] = (g k).getD [] ++ [row].filter fun r => many r = k := by
  by_cases hk : many row = k
  · subst hk
    simp [push]
  · simp [push, Function.update_of_ne (Ne.symm hk), hk]

theorem foldl_push_getD (rows : List β) (g : Groups β κ) (k : κ) :
    (rows.foldl (push many) g k).getD [] = (g k).getD [] ++ rows.filter fun r => many r = k := by
  induction rows generalizing g with
  | nil => simp
  | cons row rows ih =>
      rw [List.foldl_cons, ih, push_getD, List.append_assoc, ← List.filter_append,
        List.singleton_append]

/-- The group of a key has its rows, in their order. -/
theorem groups_getD (rows : List β) (k : κ) :
    (groups many rows k).getD [] = rows.filter fun r => many r = k := by
  rw [groups, foldl_push_getD]
  simp

/-- A group is taken by one row at most, when the key is unique. -/
theorem join_eq (g : Groups β κ) {rows : List α} (hn : (rows.map one).Nodup) :
    join one g rows = rows.map fun a => (a, (g (one a)).getD []) := by
  induction rows generalizing g with
  | nil => rfl
  | cons a rows ih =>
      obtain ⟨hfresh, hrest⟩ := List.nodup_cons.1 hn
      rw [join, ih _ hrest, List.map_cons]
      congr 1
      apply List.map_congr_left
      intro b hb
      have hne : one b ≠ one a := fun h => hfresh (h ▸ List.mem_map_of_mem hb)
      rw [Function.update_of_ne hne]

/-- Two filters that exclude each other. -/
theorem filter_append_perm_filter {p q r : β → Bool} (rows : List β)
    (hr : ∀ b, r b = (p b || q b)) (hpq : ∀ b, p b = true → q b = false) :
    (rows.filter p ++ rows.filter q).Perm (rows.filter r) := by
  induction rows with
  | nil => exact .nil
  | cons b rows ih =>
      cases hp : p b with
      | true =>
          rw [List.filter_cons_of_pos hp, List.filter_cons_of_neg (by simp [hpq b hp]),
            List.filter_cons_of_pos (by simp [hr, hp])]
          exact ih.cons b
      | false =>
          cases hq : q b with
          | true =>
              rw [List.filter_cons_of_neg (by simp [hp]), List.filter_cons_of_pos hq,
                List.filter_cons_of_pos (by simp [hr, hq])]
              exact List.perm_middle.trans (ih.cons b)
          | false =>
              rw [List.filter_cons_of_neg (by simp [hp]), List.filter_cons_of_neg (by simp [hq]),
                List.filter_cons_of_neg (by simp [hr, hp, hq])]
              exact ih

/-- Each row whose key is there is taken once. -/
theorem join_perm (rows : List β) {keys : List κ} (hn : keys.Nodup) :
    (keys.flatMap fun k => rows.filter fun r => many r = k).Perm
      (rows.filter fun r => many r ∈ keys) := by
  induction keys with
  | nil => simp
  | cons k keys ih =>
      obtain ⟨hfresh, hrest⟩ := List.nodup_cons.1 hn
      rw [List.flatMap_cons]
      refine ((ih hrest).append_left _).trans (filter_append_perm_filter rows ?_ ?_)
      · intro r
        simp
      · intro r hr
        rw [decide_eq_false_iff_not, of_decide_eq_true hr]
        exact hfresh

end AnyPlayerSync.Foundation.Join
