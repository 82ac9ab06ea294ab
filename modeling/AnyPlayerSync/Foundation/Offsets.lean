import AnyPlayerSync.Foundation.Text
import Mathlib.Data.List.Basic
import Mathlib.Data.List.Infix

/-!
# Offsets

Sequences whose elements have a width, such as characters in an encoding, cut at offsets into the
encoded sequence. An offset is a boundary when no element stands across it (`isBoundary_iff`). A
slice exists when both of its ends are boundaries, in order (`slice?_eq_some_iff`); a program that
takes any other slice fails.

`lower?` is the loop that looks for a boundary at or below an offset. It ends at the width of the
longest beginning that fits (`lower?_eq_some`).

Rust strings are such sequences: the width of a character is the number of its bytes in UTF-8.
-/

set_option autoImplicit false

namespace AnyPlayerSync.Foundation.Offsets

/-! ## The longest beginning -/

/-- The longest beginning of a sequence that meets a condition. -/
structure Longest {α : Type} (P : List α → Prop) (l p : List α) : Prop where
  begins : p <+: l
  holds : P p
  longest : ∀ q, q <+: l → P q → q <+: p

theorem Longest.unique {α : Type} {P : List α → Prop} {l p q : List α} (hp : Longest P l p)
    (hq : Longest P l q) : p = q :=
  (hq.longest p hp.begins hp.holds).eq_of_length_le
    (hp.longest q hq.begins hq.holds).length_le

variable {α : Type} (width : α → Nat)

/-! ## Widths -/

/-- The width of a sequence. -/
def span : List α → Nat
  | [] => 0
  | a :: l => width a + span l

@[simp] theorem span_nil : span width [] = 0 := rfl

@[simp] theorem span_cons (a : α) (l : List α) :
    span width (a :: l) = width a + span width l := rfl

@[simp] theorem span_append (l m : List α) :
    span width (l ++ m) = span width l + span width m := by
  induction l with
  | nil => simp
  | cons a l ih => simp [ih, Nat.add_assoc]

theorem span_le_of_prefix {p l : List α} (h : p <+: l) : span width p ≤ span width l := by
  obtain ⟨s, rfl⟩ := h
  rw [span_append]
  exact Nat.le_add_right _ _

/-! ## Cutting -/

/-- What stands before and after an offset, when no element stands across it. -/
def cut? : Nat → List α → Option (List α × List α)
  | 0, l => some ([], l)
  | _ + 1, [] => none
  | n + 1, a :: l =>
      if width a ≤ n + 1 then (cut? (n + 1 - width a) l).map (Prod.map (a :: ·) id) else none

/-- `l[start..stop]`. -/
def slice? (l : List α) (start stop : Nat) : Option (List α) :=
  (cut? width stop l).bind fun halves => (cut? width start halves.1).map Prod.snd

/-- The offset does not fall inside an element. -/
def isBoundary (l : List α) (n : Nat) : Bool := (cut? width n l).isSome

/-- The loop that lowers an offset until it is a boundary, with a bound on its turns. It fails
where it would lower zero. -/
def lower? (l : List α) : Nat → Nat → Option Nat
  | 0, _ => none
  | turns + 1, n =>
      if isBoundary width l n then some n
      else if n = 0 then none
      else lower? l turns (n - 1)

/-! ## Searching -/

section Search

variable [DecidableEq α]

/-- The offset of the last occurrence of an element. -/
def lastOffset? (a : α) : List α → Option Nat
  | [] => none
  | b :: l =>
      match lastOffset? a l with
      | some n => some (width b + n)
      | none => if b = a then some 0 else none

theorem lastOffset?_of_not_mem {a : α} {l : List α} (h : a ∉ l) : lastOffset? width a l = none := by
  induction l with
  | nil => rfl
  | cons b l ih =>
      rw [List.mem_cons, not_or] at h
      rw [lastOffset?, ih h.2]
      exact if_neg (Ne.symm h.1)

theorem lastOffset?_append_cons {a : α} {after : List α} (h : a ∉ after) (before : List α) :
    lastOffset? width a (before ++ a :: after) = some (span width before) := by
  induction before with
  | nil =>
      rw [List.nil_append, lastOffset?, lastOffset?_of_not_mem width h]
      exact if_pos rfl
  | cons b before ih =>
      rw [List.cons_append, lastOffset?, ih, span_cons]

end Search

section Positive

variable {width} (hpos : ∀ a, 0 < width a)
include hpos

theorem span_pos {l : List α} (h : l ≠ []) : 0 < span width l := by
  obtain ⟨a, l, rfl⟩ := List.exists_cons_of_ne_nil h
  have ha := hpos a
  rw [span_cons]
  omega

theorem span_eq_zero_iff {l : List α} : span width l = 0 ↔ l = [] := by
  constructor
  · intro h
    by_contra hne
    have hlt := span_pos hpos hne
    omega
  · rintro rfl
    rfl

theorem cut?_zero_eq_some_iff {l p s : List α} :
    cut? width 0 l = some (p, s) ↔ l = p ++ s ∧ span width p = 0 := by
  have hcut : cut? width 0 l = some ([], l) := by
    cases l <;> rfl
  rw [hcut, Option.some_inj, Prod.mk.injEq, span_eq_zero_iff hpos]
  constructor
  · rintro ⟨rfl, rfl⟩
    exact ⟨rfl, rfl⟩
  · rintro ⟨h, rfl⟩
    exact ⟨rfl, h⟩

theorem cut?_eq_some_iff {l : List α} : ∀ {n : Nat} {p s : List α},
    cut? width n l = some (p, s) ↔ l = p ++ s ∧ span width p = n := by
  induction l with
  | nil =>
      intro n p s
      cases n with
      | zero => exact cut?_zero_eq_some_iff hpos
      | succ n =>
          rw [cut?]
          constructor
          · intro h
            cases h
          · rintro ⟨h, hspan⟩
            rw [(List.append_eq_nil_iff.1 h.symm).1] at hspan
            cases hspan
  | cons a l ih =>
      intro n p s
      cases n with
      | zero => exact cut?_zero_eq_some_iff hpos
      | succ n =>
          rw [cut?]
          constructor
          · intro h
            split_ifs at h with hle
            obtain ⟨⟨p', s'⟩, hrest, hsame⟩ := Option.map_eq_some_iff.1 h
            cases hsame
            obtain ⟨rfl, hspan⟩ := ih.1 hrest
            refine ⟨rfl, ?_⟩
            rw [span_cons, hspan]
            omega
          · rintro ⟨h, hspan⟩
            cases p with
            | nil => cases hspan
            | cons b p =>
                rw [List.cons_append, List.cons.injEq] at h
                obtain ⟨rfl, rfl⟩ := h
                rw [span_cons] at hspan
                have hrest : cut? width (n + 1 - width a) (p ++ s) = some (p, s) :=
                  ih.2 ⟨rfl, by omega⟩
                rw [if_pos (by omega), hrest]
                rfl

theorem slice?_eq_some_iff {l m : List α} {start stop : Nat} :
    slice? width l start stop = some m ↔
      ∃ p s, l = p ++ m ++ s ∧ span width p = start ∧ span width (p ++ m) = stop := by
  rw [slice?, Option.bind_eq_some_iff]
  constructor
  · rintro ⟨⟨front, s⟩, hfront, hmiddle⟩
    obtain ⟨⟨p, m'⟩, hcut, rfl⟩ := Option.map_eq_some_iff.1 hmiddle
    obtain ⟨hl, hstop⟩ := (cut?_eq_some_iff hpos).1 hfront
    obtain ⟨rfl, hstart⟩ := (cut?_eq_some_iff hpos).1 hcut
    exact ⟨p, s, hl, hstart, hstop⟩
  · rintro ⟨p, s, hl, hstart, hstop⟩
    refine ⟨(p ++ m, s), (cut?_eq_some_iff hpos).2 ⟨hl, hstop⟩, ?_⟩
    rw [(cut?_eq_some_iff hpos).2 ⟨rfl, hstart⟩]
    rfl

/-- A beginning is the slice up to its width. -/
theorem slice?_zero {l p : List α} (h : p <+: l) : slice? width l 0 (span width p) = some p := by
  obtain ⟨s, rfl⟩ := h
  exact (slice?_eq_some_iff hpos).2 ⟨[], s, rfl, rfl, rfl⟩

theorem isBoundary_iff {l : List α} {n : Nat} :
    isBoundary width l n = true ↔ ∃ p, p <+: l ∧ span width p = n := by
  rw [isBoundary, Option.isSome_iff_exists]
  constructor
  · rintro ⟨⟨p, s⟩, hcut⟩
    obtain ⟨rfl, hspan⟩ := (cut?_eq_some_iff hpos).1 hcut
    exact ⟨p, List.prefix_append p s, hspan⟩
  · rintro ⟨p, ⟨s, rfl⟩, hspan⟩
    exact ⟨(p, s), (cut?_eq_some_iff hpos).2 ⟨rfl, hspan⟩⟩

/-- The search ends at the width of the longest beginning that fits. -/
theorem lower?_eq_some {l p : List α} (turns : Nat) : ∀ {n : Nat},
    Longest (fun q => span width q ≤ n) l p → n - span width p < turns →
      lower? width l turns n = some (span width p) := by
  induction turns with
  | zero =>
      intro n _ hlt
      exact absurd hlt (Nat.not_lt_zero _)
  | succ turns ih =>
      intro n hp hlt
      have hfits : span width p ≤ n := hp.holds
      rw [lower?]
      by_cases hhere : isBoundary width l n = true
      · rw [if_pos hhere]
        obtain ⟨q, hq, hspan⟩ := (isBoundary_iff hpos).1 hhere
        have hle := span_le_of_prefix width (hp.longest q hq hspan.le)
        exact congrArg some (by omega)
      · have hne : span width p ≠ n := fun h => hhere ((isBoundary_iff hpos).2 ⟨p, hp.begins, h⟩)
        rw [if_neg hhere, if_neg (by omega)]
        apply ih
        · -- what fits one below does fit here
          refine ⟨hp.begins, Nat.le_sub_one_of_lt (Nat.lt_of_le_of_ne hfits hne), ?_⟩
          intro q hq hle
          exact hp.longest q hq (hle.trans (Nat.sub_le n 1))
        · omega

end Positive

end AnyPlayerSync.Foundation.Offsets

/-! ## UTF-8 -/

namespace AnyPlayerSync.Foundation.Text

open Offsets

/-- `s.len()`. -/
def len (s : Str) : Nat := span Char.utf8Size s

/-- `s[start..stop]`, which panics where there is none. -/
def slice (s : Str) (start stop : Nat) : Option Str := slice? Char.utf8Size s start stop

/-- `s.rfind(c)`. -/
def rfind (c : Char) (s : Str) : Option Nat := lastOffset? Char.utf8Size c s

@[simp] theorem len_append (s t : Str) : len (s ++ t) = len s + len t := span_append _ s t

theorem len_singleton (c : Char) : len [c] = c.utf8Size := Nat.add_zero _

theorem len_eq_zero_iff (s : Str) : len s = 0 ↔ s = [] := span_eq_zero_iff Char.utf8Size_pos

theorem slice_append (p m s : Str) : slice (p ++ m ++ s) (len p) (len (p ++ m)) = some m :=
  (slice?_eq_some_iff Char.utf8Size_pos).2 ⟨p, s, rfl, rfl, rfl⟩

theorem slice_begins {s p : Str} (h : p <+: s) : slice s 0 (len p) = some p :=
  slice?_zero Char.utf8Size_pos h

theorem rfind_of_not_mem {c : Char} {s : Str} (h : c ∉ s) : rfind c s = none :=
  lastOffset?_of_not_mem _ h

theorem rfind_append_cons {c : Char} {after : Str} (h : c ∉ after) (before : Str) :
    rfind c (before ++ c :: after) = some (len before) :=
  lastOffset?_append_cons _ h before

end AnyPlayerSync.Foundation.Text
