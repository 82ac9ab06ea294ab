import AnyPlayerSync.Foundation.Offsets
import AnyPlayerSync.Keys.Spellings

/-!
# The base title

`base_title` on a string as the program holds it, where a slice is taken at byte offsets and fails
off a character boundary. `baseTitle?` has those slices and the loop with a bound on its turns; it
gives `baseTitle` with any bound above the length of the title (`baseTitle?_eq_some`), so no slice
fails and the loop ends.

A base title is its own base title (`baseTitle_baseTitle`): it has no `" - "`, no white space at its
end and no bracketed qualifier after other text, or it is the title as given.
-/

set_option autoImplicit false

namespace AnyPlayerSync.Keys

open AnyPlayerSync.Foundation
open AnyPlayerSync.Foundation.Text

variable (U : UnicodeTables)

/-! ## On bytes -/

/-- One turn of the loop: the shorter title, or none where the loop ends. A slice can fail. -/
def baseTitleTurn? (base : Str) : Option (Option Str) :=
  match base.getLast?.bind openBracket? with
  | none => some none
  | some bracket =>
      match rfind bracket base with
      | none => some none
      | some start =>
          (slice base (start + 1) (len base - 1)).bind fun inner =>
            if !isQualifier U inner || start = 0 then some none
            else (slice base 0 start).map fun before => some (trimEnd before)

/-- The loop, with a bound on its turns. -/
def baseTitleLoop? : Nat → Str → Option Str
  | 0, _ => none
  | turns + 1, base =>
      (baseTitleTurn? U base).bind fun turn =>
        match turn with
        | some shorter => baseTitleLoop? turns shorter
        | none => some base

/-- The title with release qualifiers removed. -/
def baseTitle? (turns : Nat) (title : Str) : Option Str :=
  (baseTitleLoop? U turns (trimEnd (firstPart title))).map fun base =>
    if base = [] then title else base

theorem utf8Size_bracket {o : Char} (h : o ∈ brackets) : o.utf8Size = 1 :=
  forall_brackets (p := fun o => o.utf8Size = 1) (by decide) o h

/-- Brackets are single bytes, so the slice between two of them ends where it should. -/
theorem slice_between {o close : Char} (ho : o ∈ brackets) (hclose : close ∈ brackets)
    (before inner : Str) :
    slice (before ++ o :: (inner ++ [close])) (len before + 1)
      (len (before ++ o :: (inner ++ [close])) - 1) = some inner := by
  have hcut : before ++ o :: (inner ++ [close]) = (before ++ [o]) ++ inner ++ [close] := by
    simp only [List.append_assoc, List.cons_append, List.nil_append]
  have hstart : len (before ++ [o]) = len before + 1 := by
    rw [len_append, len_singleton, utf8Size_bracket ho]
  have hstop : len ((before ++ [o]) ++ inner ++ [close]) - 1 = len ((before ++ [o]) ++ inner) := by
    rw [len_append, len_singleton, utf8Size_bracket hclose, Nat.add_sub_cancel]
  rw [hcut, hstop, ← hstart]
  exact slice_append (before ++ [o]) inner [close]

/-- The slices of a turn are in range and on character boundaries. -/
theorem baseTitleTurn?_eq (base : Str) : baseTitleTurn? U base = some (stripQualifier U base) := by
  rw [baseTitleTurn?, stripQualifier]
  cases hlast : base.getLast? with
  | none => rfl
  | some close =>
      cases hopen : openBracket? close with
      | none => simp [hopen]
      | some bracket =>
          simp only [Option.bind_some, hopen, Option.bind_eq_bind]
          cases hsplit : splitLast bracket base with
          | none => simp [rfind_of_not_mem (splitLast_eq_none_iff.1 hsplit)]
          | some halves =>
              obtain ⟨before, after⟩ := halves
              obtain ⟨hbracket, hclosing, -⟩ := openBracket_mem hopen
              have hclose := dropLast_concat_of_splitLast hopen hlast hsplit
              have hnot := not_mem_of_splitLast hsplit
              have hcut := splitLast_eq hsplit
              have hinner := slice_between hbracket hclosing before after.dropLast
              rw [hclose, ← hcut] at hinner
              have hrfind : rfind bracket base = some (len before) := by
                rw [hcut]
                exact rfind_append_cons hnot before
              have hbefore : slice base 0 (len before) = some before :=
                slice_begins (hcut ▸ List.prefix_append before _)
              simp only [hrfind, hinner, hbefore, Option.bind_some, Option.map_some,
                len_eq_zero_iff]
              cases isQualifier U after.dropLast <;> by_cases hne : before = [] <;> simp [hne]

/-! ## The loop -/

/-- With a turn for each character, more turns change nothing. -/
theorem stripQualifiers_eq (turns : Nat) : ∀ (turns' : Nat) (s : Str), s.length ≤ turns →
    s.length ≤ turns' → stripQualifiers U turns s = stripQualifiers U turns' s := by
  have hnil : ∀ n, stripQualifiers U n [] = [] := by
    intro n
    cases n <;> rfl
  induction turns with
  | zero =>
      intro turns' s hs _
      rw [List.eq_nil_of_length_eq_zero (Nat.le_zero.1 hs), hnil, hnil]
  | succ turns ih =>
      intro turns' s hs hs'
      cases turns' with
      | zero => rw [List.eq_nil_of_length_eq_zero (Nat.le_zero.1 hs'), hnil, hnil]
      | succ turns' =>
          rw [stripQualifiers, stripQualifiers]
          cases hstep : stripQualifier U s with
          | none => rfl
          | some shorter =>
              have hlt := stripQualifier_length_lt U hstep
              exact ih turns' shorter (by omega) (by omega)

/-- The loop ends: a turn for each character and one to see the end are enough. -/
theorem baseTitleLoop?_eq_some (turns : Nat) : ∀ base : Str, base.length ≤ turns →
    baseTitleLoop? U (turns + 1) base = some (stripQualifiers U turns base) := by
  induction turns with
  | zero =>
      intro base hlen
      rw [List.eq_nil_of_length_eq_zero (Nat.le_zero.1 hlen)]
      rfl
  | succ turns ih =>
      intro base hlen
      rw [baseTitleLoop?, baseTitleTurn?_eq, Option.bind_some, stripQualifiers]
      cases hstep : stripQualifier U base with
      | none => rfl
      | some shorter =>
          have hlt := stripQualifier_length_lt U hstep
          exact ih shorter (by omega)

/-- **No slice fails and the loop ends**, with the base title. -/
theorem baseTitle?_eq_some {turns : Nat} {t : Str} (h : t.length < turns) :
    baseTitle? U turns t = some (baseTitle U t) := by
  obtain ⟨turns, rfl⟩ := Nat.exists_eq_add_one_of_ne_zero (Nat.ne_zero_of_lt h)
  have hbegins : trimEnd (firstPart t) <+: t := (trimEnd_begins _).trans (firstPart_begins t)
  have hlen : (trimEnd (firstPart t)).length ≤ turns :=
    hbegins.length_le.trans (Nat.le_of_lt_succ h)
  rw [baseTitle?, baseTitleLoop?_eq_some U turns _ hlen, Option.map_some, baseTitle_eq,
    stripQualifiers_eq U turns _ _ hlen le_rfl, stripAll]

/-! ## Idempotence -/

section Idempotence

variable {U}

theorem firstPart_free (t : Str) : ¬ " - ".toList <:+: firstPart t := by
  obtain ⟨first, parts, hparts⟩ := List.exists_cons_of_ne_nil (splitStr_ne_nil " - ".toList t)
  have hcut : Parts " - ".toList t (splitStr " - ".toList t) := splitStr_parts (by decide) t
  rw [firstPart, hparts, List.headD_cons]
  exact hcut.free first (hparts ▸ List.mem_cons_self)

/-- A text that ends in no white space still does without its qualifiers. -/
theorem Qualified.trimEnd_eq {x s : Str} (hs : trimEnd s = s) (h : Qualified U x s) :
    trimEnd x = x := by
  induction h with
  | refl => exact hs
  | tail _ hstep _ =>
      obtain ⟨before, -, rfl⟩ := hstep
      exact trimEnd_trimEnd before

theorem stripAll_stripAll (s : Str) : stripAll U (stripAll U s) = stripAll U s := by
  have hnone := stripQualifier_stripQualifiers U s.length s le_rfl
  rw [← stripAll] at hnone
  cases hlen : (stripAll U s).length with
  | zero => rw [stripAll, hlen, stripQualifiers]
  | succ n => rw [stripAll, hlen, stripQualifiers, hnone]

/-- What is left of a title is a beginning of it. -/
theorem stripAll_firstPart_begins (t : Str) : stripAll U (trimEnd (firstPart t)) <+: t :=
  (qualified_stripAll _).isPrefix.trans ((trimEnd_begins _).trans (firstPart_begins t))

theorem baseTitle_eq_or (t : Str) : baseTitle U t = t ∨ baseTitle U t ≠ [] ∧ baseTitle U t <+: t := by
  rw [baseTitle_eq]
  split_ifs with h
  · exact Or.inl rfl
  · exact Or.inr ⟨h, stripAll_firstPart_begins t⟩

theorem baseTitle_ne_nil {t : Str} (h : t ≠ []) : baseTitle U t ≠ [] := by
  rcases baseTitle_eq_or (U := U) t with heq | ⟨hne, -⟩
  · rwa [heq]
  · exact hne

/-- **The base title is its own base title.** -/
theorem baseTitle_baseTitle (t : Str) : baseTitle U (baseTitle U t) = baseTitle U t := by
  by_cases hnil : stripAll U (trimEnd (firstPart t)) = []
  · -- the title is given whole
    have hwhole : baseTitle U t = t := by
      rw [baseTitle_eq, if_pos hnil]
    rw [hwhole, hwhole]
  · have hbase : baseTitle U t = stripAll U (trimEnd (firstPart t)) := by
      rw [baseTitle_eq, if_neg hnil]
    have hqualified := qualified_stripAll (U := U) (trimEnd (firstPart t))
    have hfree : ¬ " - ".toList <:+: stripAll U (trimEnd (firstPart t)) := fun hin =>
      firstPart_free t (hin.trans (hqualified.isPrefix.trans (trimEnd_begins _)).isInfix)
    have hcut : trimEnd (firstPart (stripAll U (trimEnd (firstPart t)))) =
        stripAll U (trimEnd (firstPart t)) := by
      rw [firstPart_of_free hfree]
      exact hqualified.trimEnd_eq (trimEnd_trimEnd _)
    rw [hbase, baseTitle_eq, hcut, stripAll_stripAll, if_neg hnil]

end Idempotence

/-- **The base title is safe and idempotent.** -/
theorem baseTitle_safe (t : Str) :
    (∀ turns, t.length < turns → baseTitle? U turns t = some (baseTitle U t)) ∧
      (baseTitle U t = t ∨ baseTitle U t ≠ [] ∧ baseTitle U t <+: t) ∧
      (t ≠ [] → baseTitle U t ≠ []) ∧
      baseTitle U (baseTitle U t) = baseTitle U t :=
  ⟨fun _ h => baseTitle?_eq_some U h, baseTitle_eq_or t, baseTitle_ne_nil, baseTitle_baseTitle t⟩

end AnyPlayerSync.Keys
