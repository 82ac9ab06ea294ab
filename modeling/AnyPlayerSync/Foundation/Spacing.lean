import Mathlib.Algebra.Order.Monoid.Basic
import Mathlib.Algebra.Order.Monoid.Defs
import Mathlib.Data.List.Basic
import Mathlib.Tactic.Common

/-!
# Spaced times

Times that lie a fixed gap apart, latest first, in any ordered monoid. A new time keeps the gap when
it is not before a bound that lies a gap past all earlier ones (`Spaced.cons`), and then the bound
moves (`Ahead.cons`). What spaced times are for is `Spaced.length_nsmul_le`: however they were
chosen, a span of time holds no more of them than gaps fit into it, and one.
-/

set_option autoImplicit false

namespace AnyPlayerSync.Foundation

universe u

variable {α : Type u} [AddCommMonoid α] [LinearOrder α]

/-- Each time lies a gap past all earlier ones. -/
def Spaced (gap : α) (times : List α) : Prop :=
  times.Pairwise fun later earlier => earlier + gap ≤ later

/-- The bound lies a gap past all times. -/
def Ahead (gap bound : α) (times : List α) : Prop := ∀ t ∈ times, t + gap ≤ bound

variable {gap bound t : α} {times : List α}

theorem spaced_nil : Spaced gap ([] : List α) := List.Pairwise.nil

theorem ahead_nil : Ahead gap bound ([] : List α) := by
  intro t ht
  cases ht

theorem Ahead.mono {bound' : α} (h : Ahead gap bound times) (hle : bound ≤ bound') :
    Ahead gap bound' times := fun t ht => (h t ht).trans hle

/-- A time that has reached the bound keeps the gap to all earlier ones. -/
theorem Spaced.cons (h : Spaced gap times) (hahead : Ahead gap bound times) (hle : bound ≤ t) :
    Spaced gap (t :: times) := List.pairwise_cons.2 ⟨hahead.mono hle, h⟩

theorem Spaced.filter (h : Spaced gap times) (p : α → Bool) : Spaced gap (times.filter p) :=
  List.Pairwise.filter p h

variable [IsOrderedAddMonoid α]

theorem Ahead.cons (h : Ahead gap bound times) (hle : bound ≤ t) (hgap : 0 ≤ gap) :
    Ahead gap (t + gap) (t :: times) := by
  intro u hu
  rcases List.mem_cons.1 hu with rfl | hu
  · exact le_rfl
  · exact (h u hu).trans (hle.trans (le_add_of_nonneg_right hgap))

/-- **How many times a span holds.** Spaced times between `a` and `b` take up a gap each, save for
the first. -/
theorem Spaced.length_nsmul_le {a b : α} (h : Spaced gap times)
    (hspan : ∀ t ∈ times, a ≤ t ∧ t ≤ b) (hab : a ≤ b) (hgap : 0 ≤ gap) :
    times.length • gap + a ≤ b + gap := by
  induction times generalizing b with
  | nil =>
      rw [List.length_nil, zero_nsmul, zero_add]
      exact hab.trans (le_add_of_nonneg_right hgap)
  | cons x times ih =>
      obtain ⟨hx, htimes⟩ := List.pairwise_cons.1 h
      obtain ⟨hax, hxb⟩ := hspan x List.mem_cons_self
      -- all earlier times lie a gap before `x`, so the span that is left for them is shorter
      have hrest : times.length • gap + a ≤ b := by
        cases times with
        | nil =>
            rw [List.length_nil, zero_nsmul, zero_add]
            exact hab
        | cons y times =>
            have hy := (hspan y (List.mem_cons_of_mem x List.mem_cons_self)).1
            have hbefore : ∀ t ∈ y :: times, a ≤ t ∧ t ≤ y := by
              intro t ht
              refine ⟨(hspan t (List.mem_cons_of_mem x ht)).1, ?_⟩
              rcases List.mem_cons.1 ht with rfl | ht
              · exact le_rfl
              · exact (le_add_of_nonneg_right hgap).trans ((List.pairwise_cons.1 htimes).1 t ht)
            calc (y :: times).length • gap + a ≤ y + gap := ih htimes hbefore hy
              _ ≤ x := hx y List.mem_cons_self
              _ ≤ b := hxb
      calc (x :: times).length • gap + a = (times.length • gap + a) + gap := by
            rw [List.length_cons, succ_nsmul, add_right_comm]
        _ ≤ b + gap := add_le_add_left hrest gap

/-! ## Times of several owners -/

section Owners

universe v

variable {κ : Type v} {β : Type u} [DecidableEq κ]

/-- The times of one owner. -/
def timesOf (k : κ) (l : List (κ × β)) : List β := (l.filter fun p => p.1 = k).map Prod.snd

theorem timesOf_cons_self (k : κ) (t : β) (l : List (κ × β)) :
    timesOf k ((k, t) :: l) = t :: timesOf k l := by
  simp [timesOf]

theorem timesOf_cons_other {k k' : κ} (h : k' ≠ k) (t : β) (l : List (κ × β)) :
    timesOf k ((k', t) :: l) = timesOf k l := by
  simp [timesOf, h]

theorem mem_timesOf {k : κ} {t : β} {l : List (κ × β)} : t ∈ timesOf k l ↔ (k, t) ∈ l := by
  simp [timesOf]

/-- Where each owner has at most `n` times, there are `n` times the owners of them. -/
theorem length_le_of_timesOf {n : Nat} {keys : List κ} {l : List (κ × β)}
    (hkeys : ∀ p ∈ l, p.1 ∈ keys) (hn : ∀ k, (timesOf k l).length ≤ n) :
    l.length ≤ keys.length * n := by
  induction keys generalizing l with
  | nil =>
      cases l with
      | nil => exact Nat.zero_le _
      | cons p l => exact absurd (hkeys p List.mem_cons_self) List.not_mem_nil
  | cons k keys ih =>
      have hsplit := List.length_eq_length_filter_add (l := l) fun p => decide (p.1 = k)
      have hown : (l.filter fun p => p.1 = k).length ≤ n := by
        have h := hn k
        rwa [timesOf, List.length_map] at h
      have hothers : (l.filter fun p => !decide (p.1 = k)).length ≤ keys.length * n := by
        apply ih
        · intro p hp
          obtain ⟨hp, hne⟩ := List.mem_filter.1 hp
          exact (List.mem_cons.1 (hkeys p hp)).resolve_left (by simpa using hne)
        · intro k'
          refine Nat.le_trans (List.Sublist.length_le ?_) (hn k')
          exact (List.filter_sublist.filter _).map _
      rw [List.length_cons, Nat.succ_mul]
      omega

end Owners

end AnyPlayerSync.Foundation
