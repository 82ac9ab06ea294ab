import AnyPlayerSync.Keys.Cuts
import Mathlib.Logic.Relation

/-!
# Trailing qualifiers

The test for a qualifier reads no more of a text than its key (`isQualifier_congr`): white space and
dashes separate the words that it looks for, and neither is a digit.

`Qualified U x s`: the text `s` is `x` followed by bracketed qualifiers. The loop of `base_title`
walks down these texts, one at each length, to the first that has no bracketed qualifier after
other text (`stripAll_eq`).
-/

set_option autoImplicit false

namespace AnyPlayerSync.Keys

open AnyPlayerSync.Foundation
open AnyPlayerSync.Foundation.Text

variable {U : UnicodeTables}

/-! ## The words of a qualifier -/

section Words

/-- Cutting at some of the separators first leaves the parts as they are. -/
theorem splitOnP_flatMap_splitOnP {α : Type} {p q : α → Bool}
    (h : ∀ a, q a = true → p a = true) (l : List α) :
    (l.splitOnP q).flatMap (List.splitOnP p) = l.splitOnP p := by
  induction l with
  | nil =>
      rw [List.splitOnP_nil, List.flatMap_singleton]
  | cons a l ih =>
      rw [List.splitOnP_cons_eq_if_modifyHead, List.splitOnP_cons_eq_if_modifyHead, ← ih]
      obtain ⟨w, parts, hsplit⟩ := List.exists_cons_of_ne_nil (List.splitOnP_ne_nil q l)
      rw [hsplit]
      by_cases hq : q a = true
      · rw [if_pos hq, if_pos (h a hq), List.flatMap_cons, List.splitOnP_nil]
        rfl
      · rw [if_neg hq, List.modifyHead_cons, List.flatMap_cons, List.flatMap_cons,
          List.splitOnP_cons_eq_if_modifyHead]
        split_ifs
        · rfl
        · obtain ⟨v, rest, hrest⟩ := List.exists_cons_of_ne_nil (List.splitOnP_ne_nil p w)
          rw [hrest]
          rfl

/-- Changing separators to separators leaves the parts as they are. -/
theorem splitOnP_map {α : Type} {p : α → Bool} {f : α → α}
    (h : ∀ a, f a = a ∨ p a = true ∧ p (f a) = true) (l : List α) :
    (l.map f).splitOnP p = l.splitOnP p := by
  induction l with
  | nil => rfl
  | cons a l ih =>
      rw [List.map_cons, List.splitOnP_cons_eq_if_modifyHead, List.splitOnP_cons_eq_if_modifyHead,
        ih]
      rcases h a with hfix | ⟨ha, hfa⟩
      · rw [hfix]
      · rw [if_pos ha, if_pos hfa]

/-- One of the parts of a text is a qualifier. -/
def hasQualifier (U : UnicodeTables) (s : Str) : Bool :=
  (s.splitOnP fun c => !U.isAlphanumeric c && c != '.').any fun word => word ∈ titleQualifiers

theorem isQualifier_eq (s : Str) : isQualifier U s =
    ((trim (toLowercase U s)).all (fun c => '0' ≤ c && c ≤ '9') ||
      hasQualifier U (toLowercase U s)) := rfl

/-- White space separates words. -/
theorem separator_whitespace (hU : PlainMarks U) {c : Char} (hc : isWhitespace c = true) :
    (!U.isAlphanumeric c && c != '.') = true := by
  have hne : c ≠ '.' := by
    rintro rfl
    revert hc
    decide
  simp [hU.whitespace c hc, hne]

/-- Dashes separate words, before and after they are folded. -/
theorem separator_dash (hU : PlainMarks U) {c : Char} (hc : c ∈ '-' :: dashes) :
    (!U.isAlphanumeric c && c != '.') = true := by
  have hne : c ≠ '.' := by
    rintro rfl
    revert hc
    decide
  simp [hU.dash c hc, hne]

/-- Runs of white space do not matter to the words of a bracket. -/
theorem hasQualifier_collapse (hU : PlainMarks U) (s : Str) :
    hasQualifier U (collapse s) = hasQualifier U s := by
  have hwords : ∀ t, hasQualifier U t = (splitWhitespace t).any (hasQualifier U) := by
    intro t
    rw [hasQualifier, ← splitOnP_flatMap_splitOnP fun c => separator_whitespace hU,
      List.any_flatMap, splitWhitespace, List.any_filter]
    congr 1
    funext w
    by_cases hw : w = []
    · -- an empty part is no qualifier
      have hnone : ([[]] : List Str).any (fun word => word ∈ titleQualifiers) = false := by decide
      rw [hw, List.splitOnP_nil, hnone, decide_eq_false (not_not.2 rfl), Bool.false_and]
    · simp [hw, hasQualifier]
  rw [hwords, splitWhitespace_collapse, ← hwords]

/-- Nor do the kinds of dashes. -/
theorem hasQualifier_foldDashes (hU : PlainMarks U) (s : Str) :
    hasQualifier U (foldDashes s) = hasQualifier U s := by
  rw [hasQualifier, foldDashes, splitOnP_map, ← hasQualifier]
  intro c
  split_ifs with hc
  · exact Or.inr ⟨separator_dash hU (List.mem_cons_of_mem _ hc),
      separator_dash hU List.mem_cons_self⟩
  · exact Or.inl rfl

theorem all_foldDashes {p : Char → Bool} (hp : ∀ c ∈ '-' :: dashes, p c = false) (s : Str) :
    (foldDashes s).all p = s.all p := by
  rw [foldDashes, List.all_map]
  congr 1
  funext c
  rw [Function.comp_apply]
  split_ifs with hc
  · rw [hp '-' List.mem_cons_self, hp c (List.mem_cons_of_mem _ hc)]
  · rfl

theorem not_digit_whitespace {c : Char} (hc : isWhitespace c = true) :
    ('0' ≤ c && c ≤ '9') = false := by
  have hwhite := toNat_of_whitespace hc
  rw [Bool.and_eq_false_iff, decide_eq_false_iff_not, decide_eq_false_iff_not]
  by_contra h
  simp only [not_or, not_not] at h
  have hzero : 0x30 ≤ c.toNat := h.1
  have hnine : c.toNat ≤ 0x39 := h.2
  omega

/-- What the test reads of a text is in its key. -/
theorem isQualifier_eq_key (hU : PlainMarks U) (s : Str) : isQualifier U s =
    ((matchKey U s).all (fun c => '0' ≤ c && c ≤ '9') || hasQualifier U (matchKey U s)) := by
  have hkey : matchKey U s = foldDashes (collapse (toLowercase U s)) := by
    rw [← toLowercase_collapse]
    rfl
  rw [isQualifier_eq, hkey, hasQualifier_foldDashes hU, hasQualifier_collapse hU,
    all_foldDashes (forall_dashes (by decide)), all_trim fun c => not_digit_whitespace]

/-- Whether a bracket is a qualifier depends on its key only. -/
theorem isQualifier_congr (hU : PlainMarks U) {s d : Str} (h : matchKey U s = matchKey U d) :
    isQualifier U s = isQualifier U d := by
  rw [isQualifier_eq_key hU, isQualifier_eq_key hU, h]

end Words

/-! ## Bracketed qualifiers -/

/-- The text is `before` and then a qualifier in brackets. -/
def Trailing (U : UnicodeTables) (s before : Str) : Prop :=
  ∃ o inner close, openBracket? close = some o ∧ o ∉ inner ∧ isQualifier U inner = true ∧
    s = before ++ o :: (inner ++ [close])

/-- One bracketed qualifier is taken off the end, with the white space before it. -/
def Shortens (U : UnicodeTables) (s r : Str) : Prop :=
  ∃ before, Trailing U s before ∧ trimEnd before = r

/-- The text `s` is `x` followed by bracketed qualifiers, or by none. -/
def Qualified (U : UnicodeTables) (x s : Str) : Prop := Relation.ReflTransGen (Shortens U) s x

/-- No bracketed qualifier comes after other text. -/
def Ends (U : UnicodeTables) (s : Str) : Prop := ∀ before, Trailing U s before → before = []

/-- The loop of `base_title`. -/
def stripAll (U : UnicodeTables) (s : Str) : Str := stripQualifiers U s.length s

theorem openBracket_mem {close o : Char} (h : openBracket? close = some o) :
    o ∈ brackets ∧ close ∈ brackets ∧ o ≠ close := by
  unfold openBracket? at h
  split at h
  · cases h
    decide
  · cases h
    decide
  · cases h

theorem getLast?_bracketed (before inner : Str) (o close : Char) :
    (before ++ o :: (inner ++ [close])).getLast? = some close := by
  rw [← List.cons_append, ← List.append_assoc, List.getLast?_concat]

theorem Trailing.isPrefix {s before : Str} (h : Trailing U s before) : before <+: s := by
  obtain ⟨o, inner, close, -, -, -, rfl⟩ := h
  exact List.prefix_append _ _

theorem not_trailing_nil (before : Str) : ¬ Trailing U [] before := by
  rintro ⟨o, inner, close, -, -, -, hnil⟩
  exact List.append_ne_nil_of_right_ne_nil before (List.cons_ne_nil _ _) hnil.symm

theorem not_mem_concat {o close : Char} {inner : Str} (h : openBracket? close = some o)
    (hinner : o ∉ inner) : o ∉ inner ++ [close] := by
  rw [List.mem_append, List.mem_singleton, not_or]
  exact ⟨hinner, (openBracket_mem h).2.2⟩

/-- There is at most one trailing qualifier. -/
theorem Trailing.unique {s b b' : Str} (h : Trailing U s b) (h' : Trailing U s b') : b = b' := by
  obtain ⟨o, inner, close, hopen, hinner, -, hs⟩ := h
  obtain ⟨o', inner', close', hopen', hinner', -, hs'⟩ := h'
  have hlast : close = close' := by
    have hends := congrArg List.getLast? (hs.symm.trans hs')
    rw [getLast?_bracketed, getLast?_bracketed] at hends
    exact Option.some.inj hends
  subst hlast
  have hsame : o = o' := Option.some.inj (hopen.symm.trans hopen')
  subst hsame
  exact (append_cons_inj_right (not_mem_concat hopen hinner) (not_mem_concat hopen hinner')
    (hs.symm.trans hs')).1

theorem shortens_rightUnique : Relator.RightUnique (Shortens U) := by
  rintro s r r' ⟨b, hb, rfl⟩ ⟨b', hb', rfl⟩
  rw [hb.unique hb']

/-- The closing bracket is the last character of what stands after the opening one. -/
theorem dropLast_concat_of_splitLast {s before after : Str} {o close : Char}
    (hopen : openBracket? close = some o) (hlast : s.getLast? = some close)
    (hsplit : splitLast o s = some (before, after)) : after.dropLast ++ [close] = after := by
  have hcut := splitLast_eq hsplit
  have hafter : after ≠ [] := by
    rintro rfl
    rw [hcut, List.getLast?_concat] at hlast
    exact (openBracket_mem hopen).2.2 (Option.some.inj hlast)
  rw [hcut, List.getLast?_append_cons, List.getLast?_cons_of_ne_nil hafter] at hlast
  exact List.dropLast_append_getLast? close hlast

/-- One turn of the loop. -/
theorem stripQualifier_eq_some_iff {s r : Str} : stripQualifier U s = some r ↔
    ∃ before, Trailing U s before ∧ before ≠ [] ∧ trimEnd before = r := by
  constructor
  · intro h
    simp only [stripQualifier, Option.bind_eq_bind, Option.bind_eq_some_iff] at h
    obtain ⟨close, hlast, o, hopen, ⟨before, after⟩, hsplit, h⟩ := h
    dsimp only at h
    split_ifs at h with htest
    rw [Bool.and_eq_true, decide_eq_true_eq] at htest
    have hcut := splitLast_eq hsplit
    have hclose := dropLast_concat_of_splitLast hopen hlast hsplit
    refine ⟨before, ⟨o, after.dropLast, close, hopen, ?_, htest.1, ?_⟩, htest.2,
      Option.some.inj h⟩
    · exact fun hmem => not_mem_of_splitLast hsplit (List.mem_of_mem_dropLast hmem)
    · rw [hclose, hcut]
  · rintro ⟨before, ⟨o, inner, close, hopen, hinner, hqualifier, rfl⟩, hne, rfl⟩
    rw [stripQualifier, getLast?_bracketed]
    simp only [Option.bind_eq_bind, Option.bind_some, hopen,
      splitLast_append_cons (not_mem_concat hopen hinner), List.dropLast_concat, hqualifier]
    simp [hne]

/-- What the loop cuts off is qualifiers. -/
theorem qualified_stripQualifiers (turns : Nat) :
    ∀ s, Qualified U (stripQualifiers U turns s) s := by
  induction turns with
  | zero => exact fun _ => Relation.ReflTransGen.refl
  | succ turns ih =>
      intro s
      rw [stripQualifiers]
      cases hstep : stripQualifier U s with
      | none => exact Relation.ReflTransGen.refl
      | some shorter =>
          obtain ⟨before, hbefore, -, htrim⟩ := stripQualifier_eq_some_iff.1 hstep
          exact Relation.ReflTransGen.head ⟨before, hbefore, htrim⟩ (ih shorter)

theorem qualified_stripAll (s : Str) : Qualified U (stripAll U s) s :=
  qualified_stripQualifiers s.length s

/-- The loop leaves no qualifier at the end. -/
theorem ends_stripAll (s : Str) : Ends U (stripAll U s) := by
  intro before hbefore
  by_contra hne
  have hnone := stripQualifier_stripQualifiers U s.length s le_rfl
  have hsome := stripQualifier_eq_some_iff.2 ⟨before, hbefore, hne, rfl⟩
  rw [stripAll, hnone] at hsome
  cases hsome

theorem Qualified.of_nil {x : Str} (h : Qualified U x []) : x = [] := by
  rcases Relation.ReflTransGen.cases_head h with hnil | ⟨r, ⟨before, hbefore, -⟩, -⟩
  · exact hnil.symm
  · exact absurd hbefore (not_trailing_nil before)

/-- From a text that has no bracketed qualifier after other text, only nothing is left to reach. -/
theorem Ends.eq_or_nil {x y : Str} (hx : Ends U x) (h : Qualified U y x) : y = x ∨ y = [] := by
  rcases Relation.ReflTransGen.cases_head h with heq | ⟨r, ⟨before, hbefore, hr⟩, hrest⟩
  · exact Or.inl heq.symm
  · rw [hx before hbefore] at hr
    exact Or.inr (Qualified.of_nil (hr ▸ hrest))

theorem Qualified.trimmed {x s : Str} (hs : Trimmed s) (h : Qualified U x s) : Trimmed x := by
  induction h with
  | refl => exact hs
  | tail _ hstep ih =>
      obtain ⟨before, hbefore, rfl⟩ := hstep
      exact ih.trimEnd_of_begins hbefore.isPrefix

theorem stripQualifiers_ne_nil (turns : Nat) : ∀ s, Trimmed s → s ≠ [] →
    stripQualifiers U turns s ≠ [] := by
  induction turns with
  | zero => exact fun _ _ hne => hne
  | succ turns ih =>
      intro s hs hne
      rw [stripQualifiers]
      cases hstep : stripQualifier U s with
      | none => exact hne
      | some shorter =>
          obtain ⟨before, hbefore, hbne, rfl⟩ := stripQualifier_eq_some_iff.1 hstep
          apply ih _ (hs.trimEnd_of_begins hbefore.isPrefix)
          intro hnil
          have hstart := not_indented_of_begins hbefore.isPrefix hs.start
          exact hbne (eq_nil_of_blank hstart ((trimEnd_eq_nil_iff before).1 hnil))

/-- Something is left of a trimmed title. -/
theorem stripAll_ne_nil {s : Str} (hs : Trimmed s) (hne : s ≠ []) : stripAll U s ≠ [] :=
  stripQualifiers_ne_nil s.length s hs hne

/-- The loop ends at the one text that is not empty and has no bracketed qualifier after other
text. -/
theorem stripAll_eq {x s : Str} (hs : Trimmed s) (h : Qualified U x s) (hne : x ≠ [])
    (hends : Ends U x) : stripAll U s = x := by
  have hsne : s ≠ [] := by
    rintro rfl
    exact hne h.of_nil
  rcases Relation.ReflTransGen.total_of_right_unique shortens_rightUnique h
    (qualified_stripAll s) with hdown | hdown
  · exact (hends.eq_or_nil hdown).resolve_right (stripAll_ne_nil hs hsne)
  · exact ((ends_stripAll s).eq_or_nil hdown).resolve_right hne |>.symm

/-! ## Spellings -/

section Congr

/-- Texts with one key have their trailing qualifiers at the same place. -/
theorem Trailing.congr (hU : PlainMarks U) {s d before : Str} (hd : trimEnd d = d)
    (hkey : matchKey U s = matchKey U d) (h : Trailing U s before) :
    ∃ before', Trailing U d before' ∧ matchKey U before = matchKey U before' := by
  obtain ⟨o, inner, close, hopen, hinner, hqualifier, rfl⟩ := h
  obtain ⟨ho, hclose, -⟩ := openBracket_mem hopen
  -- the opening bracket cuts the other text, and in what stands after it the closing one does
  obtain ⟨before', after, rfl, hafter, hbefore, hkey⟩ :=
    exists_cut hU ho (not_mem_concat hopen hinner) hkey
  obtain ⟨inner', rest, rfl, -, hinside, hrest⟩ :=
    exists_cut hU hclose List.not_mem_nil hkey
  have hblank : Blank rest := (matchKey_eq_nil_iff rest).1 hrest.symm
  have hnil : rest = [] := by
    apply eq_nil_of_blank_end (p := before' ++ o :: (inner' ++ [close])) _ hblank
    simpa using hd
  subst hnil
  refine ⟨before', ⟨o, inner', close, hopen, ?_, ?_, rfl⟩, hbefore⟩
  · exact fun hmem => hafter (List.mem_append_left _ hmem)
  · rw [← isQualifier_congr hU hinside, hqualifier]

/-- A spelling of a text that is followed by qualifiers is a spelling of it followed by
qualifiers. -/
theorem Qualified.congr (hU : PlainMarks U) {x s d : Str} (hd : Trimmed d)
    (hkey : matchKey U s = matchKey U d) (h : Qualified U x s) :
    ∃ y, Qualified U y d ∧ matchKey U x = matchKey U y := by
  induction h with
  | refl => exact ⟨d, Relation.ReflTransGen.refl, hkey⟩
  | tail _ hstep ih =>
      obtain ⟨before, hbefore, rfl⟩ := hstep
      obtain ⟨m, hm, hmid⟩ := ih
      obtain ⟨before', hbefore', hsame⟩ := hbefore.congr hU (hm.trimmed hd).finish hmid
      refine ⟨trimEnd before', Relation.ReflTransGen.tail hm ⟨before', hbefore', rfl⟩, ?_⟩
      rw [matchKey_trimEnd, matchKey_trimEnd, hsame]

theorem eq_nil_of_key {s d : Str} (hd : Trimmed d) (hkey : matchKey U s = matchKey U d)
    (hs : s = []) : d = [] := by
  apply eq_nil_of_blank hd.start
  apply (matchKey_eq_nil_iff (U := U) d).1
  rw [← hkey, hs]
  rfl

/-- **The loop on spellings** of a trimmed text. -/
theorem stripAll_congr (hU : PlainMarks U) {s d : Str} (hs : Trimmed s) (hd : Trimmed d)
    (hkey : matchKey U s = matchKey U d) :
    matchKey U (stripAll U s) = matchKey U (stripAll U d) := by
  by_cases hnil : s = []
  · rw [hnil, eq_nil_of_key hd hkey hnil]
  · have htrimmed := (qualified_stripAll (U := U) s).trimmed hs
    obtain ⟨y, hy, hsame⟩ := (qualified_stripAll s).congr hU hd hkey
    have hne : y ≠ [] := fun hy0 =>
      stripAll_ne_nil hs hnil (eq_nil_of_key htrimmed hsame.symm hy0)
    have hends : Ends U y := by
      intro before' hbefore'
      obtain ⟨before, hbefore, hcut⟩ := hbefore'.congr hU htrimmed.finish hsame.symm
      rw [ends_stripAll s before hbefore] at hcut
      apply eq_nil_of_blank (not_indented_of_begins hbefore'.isPrefix (hy.trimmed hd).start)
      exact (matchKey_eq_nil_iff before').1 hcut
    rw [stripAll_eq hd hy hne hends, hsame]

end Congr

/-! ## Leading white space -/

section Indent

variable {l u : Str}

theorem Qualified.isPrefix {x s : Str} (h : Qualified U x s) : x <+: s := by
  induction h with
  | refl => exact List.prefix_refl s
  | tail _ hstep ih =>
      obtain ⟨before, hbefore, rfl⟩ := hstep
      exact (trimEnd_begins before).trans (hbefore.isPrefix.trans ih)

/-- Taking a qualifier off makes the key shorter. -/
theorem Qualified.eq_or_length_lt (hU : PlainMarks U) {x s : Str} (h : Qualified U x s) :
    x = s ∨ (matchKey U x).length < (matchKey U s).length := by
  induction h with
  | refl => exact Or.inl rfl
  | tail _ hstep ih =>
      obtain ⟨before, ⟨o, inner, close, hopen, -, -, rfl⟩, rfl⟩ := hstep
      have hlt := matchKey_length_lt hU (openBracket_mem hopen).1 before (inner ++ [close])
      rw [matchKey_trimEnd]
      rcases ih with rfl | ih
      · exact Or.inr hlt
      · exact Or.inr (hlt.trans ih)

/-- Blanks before a text do not change its qualifier. -/
theorem trailing_blank_append_iff (hl : Blank l) {before : Str} : Trailing U (l ++ u) before ↔
    ∃ rest, before = l ++ rest ∧ Trailing U u rest := by
  constructor
  · rintro ⟨o, inner, close, hopen, hinner, hqualifier, hcut⟩
    rcases List.append_eq_append_iff.1 hcut with ⟨m, hm, hu⟩ | ⟨m, hm, hu⟩
    · exact ⟨m, hm, o, inner, close, hopen, hinner, hqualifier, hu⟩
    · cases m with
      | nil =>
          rw [List.append_nil] at hm
          exact ⟨[], by rw [hm, List.append_nil], o, inner, close, hopen, hinner, hqualifier,
            hu.symm⟩
      | cons d m =>
          have ho : o = d := (List.cons.inj hu).1
          have hwhite := hl d (hm ▸ List.mem_append_right before List.mem_cons_self)
          rw [← ho, solid_bracket (openBracket_mem hopen).1] at hwhite
          cases hwhite
  · rintro ⟨rest, rfl, o, inner, close, hopen, hinner, hqualifier, rfl⟩
    exact ⟨o, inner, close, hopen, hinner, hqualifier, (List.append_assoc _ _ _).symm⟩

theorem Qualified.blank_append (hl : Blank l) {x : Str} (h : Qualified U x u) (hne : x ≠ []) :
    Qualified U (l ++ x) (l ++ u) := by
  induction h with
  | refl => exact Relation.ReflTransGen.refl
  | tail _ hstep ih =>
      obtain ⟨before, hbefore, rfl⟩ := hstep
      have hmid := ih (by rintro rfl; exact not_trailing_nil before hbefore)
      have hblank : ¬ Blank before := mt (trimEnd_eq_nil_iff before).2 hne
      apply hmid.tail
      exact ⟨l ++ before, (trailing_blank_append_iff hl).2 ⟨before, rfl, hbefore⟩,
        trimEnd_append hblank l⟩

/-- Nothing is cut off a text without a trailing qualifier. -/
theorem eq_of_not_trailing {x y : Str} (hx : ∀ before, ¬ Trailing U x before)
    (h : Qualified U y x) : y = x := by
  rcases Relation.ReflTransGen.cases_head h with heq | ⟨r, ⟨before, hbefore, -⟩, -⟩
  · exact heq.symm
  · exact absurd hbefore (hx before)

/-- Before other text, leading white space stays. -/
theorem stripAll_blank_append (hl : Blank l) (hne : l ≠ []) (h : ¬ Qualified U [] u) :
    stripAll U (l ++ u) = l ++ stripAll U u := by
  have hsome : stripAll U u ≠ [] := fun hnil => h (hnil ▸ qualified_stripAll u)
  have hnone : ∀ before, ¬ Trailing U (l ++ stripAll U u) before := by
    intro before hbefore
    obtain ⟨rest, -, hrest⟩ := (trailing_blank_append_iff hl).1 hbefore
    have hnil := ends_stripAll u rest hrest
    subst hnil
    exact h ((qualified_stripAll u).tail ⟨[], hrest, rfl⟩)
  rcases Relation.ReflTransGen.total_of_right_unique shortens_rightUnique
    ((qualified_stripAll u).blank_append hl hsome) (qualified_stripAll (l ++ u)) with hdown | hdown
  · exact eq_of_not_trailing hnone hdown
  · have hlong : l ++ stripAll U u ≠ [] := List.append_ne_nil_of_left_ne_nil hne _
    exact (((ends_stripAll (l ++ u)).eq_or_nil hdown).resolve_right hlong).symm

/-- Before bracketed qualifiers only, leading white space makes the last of them go too. -/
theorem stripAll_blank_append_of_qualified (hl : Blank l) (hne : l ≠ []) (hu : Trimmed u)
    (hsome : u ≠ []) (h : Qualified U [] u) : stripAll U (l ++ u) = [] := by
  obtain hnil | ⟨first, hfirst, before, hbefore, htrim⟩ := Relation.ReflTransGen.cases_tail h
  · exact absurd hnil.symm hsome
  · replace hfirst : Qualified U first u := hfirst
    have hstart := not_indented_of_begins hbefore.isPrefix (hfirst.trimmed hu).start
    have hbnil : before = [] := eq_nil_of_blank hstart ((trimEnd_eq_nil_iff before).1 htrim)
    subst hbnil
    have hfne : first ≠ [] := by
      rintro rfl
      exact not_trailing_nil [] hbefore
    have hlast : Shortens U (l ++ first) [] := by
      refine ⟨l, (trailing_blank_append_iff hl).2 ⟨[], (List.append_nil l).symm, hbefore⟩, ?_⟩
      exact (trimEnd_eq_nil_iff l).2 hl
    have hdown : Qualified U [] (l ++ u) := (hfirst.blank_append hl hfne).tail hlast
    -- what the loop leaves begins with the white space, so no bracket opens at its start
    have hnone : stripAll U (l ++ u) ≠ [] →
        ∀ before, ¬ Trailing U (stripAll U (l ++ u)) before := by
      intro hy before hbefore
      rw [ends_stripAll (l ++ u) before hbefore] at hbefore
      obtain ⟨o, inner, close, hopen, -, -, hcut⟩ := hbefore
      obtain ⟨c, l, rfl⟩ := List.exists_cons_of_ne_nil hne
      have hbegins := (qualified_stripAll (U := U) ((c :: l) ++ u)).isPrefix
      rw [hcut, List.nil_append, List.cons_append, List.cons_prefix_cons] at hbegins
      have hwhite := hl c List.mem_cons_self
      rw [← hbegins.1, solid_bracket (openBracket_mem hopen).1] at hwhite
      cases hwhite
    by_contra hy
    rcases Relation.ReflTransGen.total_of_right_unique shortens_rightUnique hdown
      (qualified_stripAll (l ++ u)) with hless | hless
    · exact hy (Qualified.of_nil hless)
    · exact hy (eq_of_not_trailing (hnone hy) hless).symm

end Indent

end AnyPlayerSync.Keys
