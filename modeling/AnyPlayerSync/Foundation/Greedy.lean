import Mathlib.Data.List.Infix

/-!
# Greedy selection

One pass over a list, best first: an item that is ruled out by those already chosen is passed over,
and the first item after that which is too much ends the selection.

- `greedy_invariant`: what every choice keeps holds of the selection.
- `greedy_complete`: an item that is not chosen was ruled out by better ones, or comes no earlier
  than the one that ended the selection.
-/

set_option autoImplicit false

namespace AnyPlayerSync.Foundation

section Greedy

variable {α : Type} (skips stops : List α → α → Prop) [∀ chosen a, Decidable (skips chosen a)]
  [∀ chosen a, Decidable (stops chosen a)]

/-- The selection, given what is chosen already. -/
def greedy : List α → List α → List α
  | [], chosen => chosen
  | a :: rest, chosen =>
      if skips chosen a then greedy rest chosen
      else if stops chosen a then chosen
      else greedy rest (chosen ++ [a])

variable {skips stops}

theorem prefix_greedy (rest : List α) :
    ∀ chosen, chosen <+: greedy skips stops rest chosen := by
  induction rest with
  | nil => exact fun chosen => List.prefix_refl chosen
  | cons a rest ih =>
      intro chosen
      rw [greedy]
      split_ifs
      · exact ih chosen
      · exact List.prefix_refl chosen
      · exact (List.prefix_append chosen [a]).trans (ih _)

/-- The selection keeps the order of the list. -/
theorem greedy_sublist (rest : List α) : ∀ chosen,
    (greedy skips stops rest chosen).Sublist (chosen ++ rest) := by
  induction rest with
  | nil =>
      intro chosen
      rw [List.append_nil]
      exact List.Sublist.refl _
  | cons a rest ih =>
      intro chosen
      rw [greedy]
      split_ifs
      · exact (ih chosen).trans ((List.sublist_cons_self a rest).append_left chosen)
      · exact List.sublist_append_left chosen _
      · rw [List.append_cons chosen a rest]
        exact ih _

theorem greedy_invariant {P : List α → Prop} (rest : List α)
    (hchoose : ∀ chosen a, P chosen → ¬ skips chosen a → ¬ stops chosen a → P (chosen ++ [a])) :
    ∀ chosen, P chosen → P (greedy skips stops rest chosen) := by
  induction rest with
  | nil => exact fun _ h => h
  | cons a rest ih =>
      intro chosen h
      rw [greedy]
      split_ifs with hskip hstop
      · exact ih _ h
      · exact h
      · exact ih _ (hchoose _ _ h hskip hstop)

/-- The first item is chosen when nothing is against it. -/
theorem greedy_ne_nil {a : α} {rest : List α} (hskip : ¬ skips [] a) (hstop : ¬ stops [] a) :
    greedy skips stops (a :: rest) [] ≠ [] := by
  rw [greedy, if_neg hskip, if_neg hstop]
  exact List.IsPrefix.ne_nil (prefix_greedy rest [a]) (List.cons_ne_nil a [])

/-- The item was ruled out by chosen items that come before it. -/
def Skipped (skips : List α → α → Prop) (selection pre : List α) (a : α) : Prop :=
  ∃ earlier, earlier <+: selection ∧ (∀ x ∈ earlier, x ∈ pre) ∧ skips earlier a

variable (skips stops) in
/-- The pass reads `before` whole: each item of it is chosen or was ruled out. It ends there, or at
an item that passes but is too much. -/
theorem greedy_complete_from (rest : List α) : ∀ chosen, ∃ before after, rest = before ++ after ∧
    (∀ x ∈ greedy skips stops rest chosen, x ∈ chosen ++ before) ∧
    (∀ f ∈ after.head?, ¬ skips (greedy skips stops rest chosen) f ∧
      stops (greedy skips stops rest chosen) f) ∧
    ∀ pre a post, before = pre ++ a :: post → a ∈ greedy skips stops rest chosen ∨
      Skipped skips (greedy skips stops rest chosen) (chosen ++ pre) a := by
  induction rest with
  | nil =>
      intro chosen
      refine ⟨[], [], rfl, ?_, ?_, ?_⟩
      · intro x hx
        exact List.mem_append_left _ hx
      · intro f hf
        cases hf
      · intro pre a post h
        exact absurd h (by simp)
  | cons a rest ih =>
      intro chosen
      by_cases hskip : skips chosen a
      · obtain ⟨before, after, hrest, hmem, hend, hall⟩ := ih chosen
        rw [greedy, if_pos hskip]
        refine ⟨a :: before, after, by rw [hrest]; rfl, fun x hx => ?_, hend, ?_⟩
        · rcases List.mem_append.1 (hmem x hx) with hx | hx
          · exact List.mem_append_left _ hx
          · exact List.mem_append_right _ (List.mem_cons_of_mem a hx)
        · intro pre b post h
          cases pre with
          | nil =>
              cases h
              exact Or.inr ⟨chosen, prefix_greedy rest chosen, fun x hx =>
                List.mem_append_left _ hx, hskip⟩
          | cons c pre =>
              cases h
              apply (hall pre b post rfl).imp_right
              rintro ⟨earlier, hbegins, hearlier, hskips⟩
              refine ⟨earlier, hbegins, fun x hx => ?_, hskips⟩
              rcases List.mem_append.1 (hearlier x hx) with hx | hx
              · exact List.mem_append_left _ hx
              · exact List.mem_append_right _ (List.mem_cons_of_mem a hx)
      · by_cases hstop : stops chosen a
        · rw [greedy, if_neg hskip, if_pos hstop]
          refine ⟨[], a :: rest, rfl, fun x hx => List.mem_append_left _ hx, ?_, ?_⟩
          · intro f hf
            cases hf
            exact ⟨hskip, hstop⟩
          · intro pre b post h
            exact absurd h (by simp)
        · obtain ⟨before, after, hrest, hmem, hend, hall⟩ := ih (chosen ++ [a])
          rw [greedy, if_neg hskip, if_neg hstop]
          refine ⟨a :: before, after, by rw [hrest]; rfl, fun x hx => ?_, hend, ?_⟩
          · rw [List.append_cons]
            exact hmem x hx
          · intro pre b post h
            cases pre with
            | nil =>
                cases h
                refine Or.inl ((prefix_greedy rest (chosen ++ [a])).subset ?_)
                exact List.mem_append_right _ (List.mem_singleton_self a)
            | cons c pre =>
                cases h
                rw [List.append_cons chosen a pre]
                exact hall pre b post rfl

end Greedy

end AnyPlayerSync.Foundation
