import AnyPlayerSync.Foundation.Collapse
import AnyPlayerSync.Keys.KeyWords

/-!
# Cutting a key at a bracket

A bracket cuts the key of a text where it cuts the text (`matchKey_append_cons`): brackets have no
case, are no dashes and no white space, and no other character becomes one. So a text that has the
key of another is cut, at the last bracket of a kind, into parts that have the keys of the other's
parts (`exists_cut`).
-/

set_option autoImplicit false

namespace AnyPlayerSync.Keys

open AnyPlayerSync.Foundation
open AnyPlayerSync.Foundation.Text

/-- The characters at which a qualifier begins or ends. -/
def brackets : List Char := ['(', ')', '[', ']']

theorem forall_brackets {p : Char → Prop} (h : p '(' ∧ p ')' ∧ p '[' ∧ p ']') :
    ∀ o ∈ brackets, p o := by
  simpa [brackets] using h

theorem forall_dashes {p : Char → Prop} (h : p '-' ∧ p '\u2010' ∧ p '\u2011' ∧ p '\u2012' ∧
    p '\u2013' ∧ p '\u2014' ∧ p '\u2015') : ∀ c ∈ '-' :: dashes, p c := by
  simpa [dashes] using h

/-- What Unicode says of brackets, white space and dashes: no other character has a bracket in its
lower case, brackets have no case, and none of the three are letters or digits. -/
structure PlainMarks (U : UnicodeTables) : Prop where
  lower_bracket : ∀ c, ∀ o ∈ brackets, o ∈ U.lower c → c = o
  cased_bracket : ∀ o ∈ brackets, U.cased o = false
  caseIgnorable_bracket : ∀ o ∈ brackets, U.caseIgnorable o = false
  whitespace : ∀ c, isWhitespace c = true → U.isAlphanumeric c = false
  dash : ∀ c ∈ '-' :: dashes, U.isAlphanumeric c = false

theorem plainMarks_asciiTables : PlainMarks asciiTables where
  lower_bracket c o ho h := by
    have hlower : o = c.toLower := List.mem_singleton.1 h
    have hcode : o.toNat < 0x61 ∨ 0x7A < o.toNat :=
      forall_brackets (p := fun o => o.toNat < 0x61 ∨ 0x7A < o.toNat) (by decide) o ho
    rcases toLower_eq_or c with hsame | ⟨hfirst, hlast, -⟩
    · rw [hlower, hsame]
    · rw [← hlower] at hfirst hlast
      omega
  cased_bracket := forall_brackets (by decide)
  caseIgnorable_bracket := forall_brackets (by decide)
  whitespace c hc := by
    have hwhite := toNat_of_whitespace hc
    apply Bool.eq_false_iff.2
    intro halnum
    rcases Bool.or_eq_true_iff.1 halnum with halpha | hdigit
    · have hletter := isAlpha_toNat halpha
      omega
    · obtain ⟨hzero, hnine⟩ := Bool.and_eq_true_iff.1 hdigit
      have hzero : 48 ≤ c.toNat := of_decide_eq_true hzero
      have hnine : c.toNat ≤ 57 := of_decide_eq_true hnine
      omega
  dash := forall_dashes (by decide)

variable {U : UnicodeTables}

/-! ## The key at a bracket -/

section Cut

variable {o : Char}

theorem solid_bracket (ho : o ∈ brackets) : isWhitespace o = false :=
  forall_brackets (p := fun o => isWhitespace o = false) (by decide) o ho

theorem fold_bracket (ho : o ∈ brackets) (s : Str) :
    foldDashes (o :: s) = o :: foldDashes s := by
  have hnot : o ∉ dashes := forall_brackets (p := fun o => o ∉ dashes) (by decide) o ho
  rw [foldDashes, List.map_cons, if_neg hnot]
  rfl

/-- A bracket stays where it is under every step of the key. -/
theorem PlainMarks.barrier (hU : PlainMarks U) (ho : o ∈ brackets) : Barrier U o where
  ignorable := hU.caseIgnorable_bracket o ho
  cased := hU.cased_bracket o ho
  lower := by
    obtain ⟨hascii, hlower⟩ : o.toNat < 128 ∧ o.toLower = o :=
      forall_brackets (p := fun o => o.toNat < 128 ∧ o.toLower = o) (by decide) o ho
    rw [U.lower_ascii o hascii, hlower]
  ne_sigma := forall_brackets (p := fun o => o ≠ 'Σ') (by decide) o ho

theorem gap_cases (s : Str) : (gapBefore s = [] ∨ gapBefore s = [' ']) ∧
    (gapAfter s = [] ∨ gapAfter s = [' ']) := by
  rw [gapBefore, gapAfter]
  split_ifs <;> simp

/-- A bracket cuts the key where it cuts the text. -/
theorem matchKey_append_cons (hU : PlainMarks U) (ho : o ∈ brackets) (b a : Str) :
    matchKey U (b ++ o :: a) =
      matchKey U b ++ (gapAfter b ++ o :: (gapBefore a ++ matchKey U a)) := by
  have hkey : ∀ s, matchKey U s = foldDashes (toLowercase U (collapse s)) := fun _ => rfl
  have hspace : isWhitespace ' ' = true := by decide
  have hafter : foldDashes (toLowercase U (collapse b ++ gapAfter b)) =
      matchKey U b ++ gapAfter b := by
    rcases (gap_cases b).2 with h | h <;> rw [h]
    · rw [List.append_nil, List.append_nil, hkey]
    · rw [toLowercase_append U _ [] hspace, foldDashes_append, hkey]
      rfl
  have hbefore : foldDashes (toLowercase U (gapBefore a ++ collapse a)) =
      gapBefore a ++ matchKey U a := by
    rcases (gap_cases a).1 with h | h <;> rw [h]
    · rw [List.nil_append, List.nil_append, hkey]
    · have hlower := toLowercase_append U [] (collapse a) hspace
      rw [List.nil_append] at hlower
      rw [List.singleton_append, hlower, hkey]
      rfl
  rw [hkey, collapse_append_cons (solid_bracket ho), ← List.append_assoc,
    (hU.barrier ho).toLowercase_append, foldDashes_append, hafter, fold_bracket ho, hbefore,
    List.append_assoc]

theorem mem_of_mem_collapse {c : Char} (s : Str) (h : c ∈ collapse s) : c ∈ s ∨ c = ' ' := by
  induction s with
  | nil =>
      rw [collapse_blank blank_nil] at h
      cases h
  | cons d s ih =>
      by_cases hd : isWhitespace d = true
      · rw [collapse_whitespace_cons hd] at h
        exact (ih h).imp_left (List.mem_cons_of_mem d)
      · rw [Bool.not_eq_true] at hd
        rw [collapse_solid_cons hd] at h
        rcases List.mem_cons.1 h with rfl | h
        · exact Or.inl List.mem_cons_self
        · rcases List.mem_append.1 h with h | h
          · rcases (gap_cases s).1 with hgap | hgap <;> rw [hgap] at h
            · cases h
            · exact Or.inr (List.mem_singleton.1 h)
          · exact (ih h).imp_left (List.mem_cons_of_mem d)

/-- A bracket of the key is a bracket of the text. -/
theorem mem_of_mem_matchKey (hU : PlainMarks U) (ho : o ∈ brackets) {s : Str}
    (h : o ∈ matchKey U s) : o ∈ s := by
  obtain ⟨c, hc, hfold⟩ := List.mem_map.1 h
  have hco : c = o := by
    split_ifs at hfold with hdash
    · -- a folded dash is no bracket
      subst hfold
      exact absurd ho (by decide)
    · exact hfold
  rw [hco] at hc
  obtain ⟨hspace, hfinal, hsmall⟩ : o ≠ ' ' ∧ o ≠ 'ς' ∧ o ≠ 'σ' :=
    forall_brackets (p := fun o => o ≠ ' ' ∧ o ≠ 'ς' ∧ o ≠ 'σ') (by decide) o ho
  rcases exists_of_mem_toLowercaseFrom U _ _ hc with ⟨d, hd, hlower⟩ | hsigma | hsigma
  · rw [hU.lower_bracket d o ho hlower] at hd
    exact (mem_of_mem_collapse s hd).resolve_right hspace
  · exact absurd hsigma hfinal
  · exact absurd hsigma hsmall

/-- The last occurrence of a character cuts a text in one way. -/
theorem append_cons_inj_right {x x' z z' : Str} (hz : o ∉ z) (hz' : o ∉ z')
    (h : x ++ o :: z = x' ++ o :: z') : x = x' ∧ z = z' := by
  rcases List.append_eq_append_iff.1 h with ⟨m, hx, hm⟩ | ⟨m, hx, hm⟩
  · cases m with
    | nil =>
        rw [List.append_nil] at hx
        exact ⟨hx.symm, (List.cons.inj hm).2⟩
    | cons d m =>
        have hzm := (List.cons.inj hm).2
        exact absurd (hzm ▸ List.mem_append_right m List.mem_cons_self) hz
  · cases m with
    | nil =>
        rw [List.append_nil] at hx
        exact ⟨hx, (List.cons.inj hm).2.symm⟩
    | cons d m =>
        have hzm := (List.cons.inj hm).2
        exact absurd (hzm ▸ List.mem_append_right m List.mem_cons_self) hz'

/-! ## The words of a key -/

theorem isWord_keyWord {w : Str} (hw : IsWord w) : IsWord (keyWord U w) := by
  constructor
  · exact mt List.map_eq_nil_iff.1 (toLowercase_ne_nil U hw.1 hw.2)
  · intro d hd
    obtain ⟨c, hc, rfl⟩ := List.mem_map.1 hd
    split_ifs
    · rfl
    · exact toLowercase_solid U hw.2 c hc

/-- A key is made word by word. -/
theorem splitWhitespace_matchKey (s : Str) :
    splitWhitespace (matchKey U s) = (splitWhitespace s).map (keyWord U) := by
  rw [matchKey_eq]
  apply splitWhitespace_join
  intro w hw
  obtain ⟨v, hv, rfl⟩ := List.mem_map.1 hw
  exact isWord_keyWord (isWord_of_mem_splitWhitespace hv)

/-- A key is known by its words. -/
theorem matchKey_eq_of_words {s t : Str}
    (h : splitWhitespace (matchKey U s) = splitWhitespace (matchKey U t)) :
    matchKey U s = matchKey U t := by
  rw [splitWhitespace_matchKey, splitWhitespace_matchKey] at h
  rw [matchKey_eq, matchKey_eq, h]

/-- Only blank texts have the empty key. -/
theorem matchKey_eq_nil_iff (s : Str) : matchKey U s = [] ↔ Blank s := by
  rw [← splitWhitespace_eq_nil_iff]
  constructor
  · intro h
    have hwords := splitWhitespace_matchKey (U := U) s
    rw [h] at hwords
    exact List.map_eq_nil_iff.1 hwords.symm
  · exact matchKey_of_no_word U

/-- White space at the end does not change a key. -/
theorem matchKey_trimEnd (s : Str) : matchKey U (trimEnd s) = matchKey U s :=
  matchKey_congr U (splitWhitespace_trimEnd s)

/-- Nor does white space at the beginning. -/
theorem matchKey_blank_append {l : Str} (hl : Blank l) (s : Str) :
    matchKey U (l ++ s) = matchKey U s :=
  matchKey_congr U (splitWhitespace_blank_append hl s)

theorem blank_gap (s : Str) : Blank (gapBefore s) ∧ Blank (gapAfter s) := by
  obtain ⟨hbefore | hbefore, hafter | hafter⟩ := gap_cases s <;> rw [hbefore, hafter] <;> decide

/-- The blank at a cut can be taken off both sides. -/
theorem matchKey_eq_of_gapAfter {b b' : Str}
    (h : matchKey U b ++ gapAfter b = matchKey U b' ++ gapAfter b') :
    matchKey U b = matchKey U b' := by
  apply matchKey_eq_of_words
  rw [← splitWhitespace_append_blank _ (blank_gap b).2, h,
    splitWhitespace_append_blank _ (blank_gap b').2]

theorem matchKey_eq_of_gapBefore {a a' : Str}
    (h : gapBefore a ++ matchKey U a = gapBefore a' ++ matchKey U a') :
    matchKey U a = matchKey U a' := by
  apply matchKey_eq_of_words
  rw [← splitWhitespace_blank_append (blank_gap a).1, h,
    splitWhitespace_blank_append (blank_gap a').1]

theorem not_mem_gapBefore_matchKey (hU : PlainMarks U) (ho : o ∈ brackets) {a : Str} (ha : o ∉ a) :
    o ∉ gapBefore a ++ matchKey U a := by
  intro h
  rcases List.mem_append.1 h with h | h
  · have hwhite := (blank_gap a).1 o h
    rw [solid_bracket ho] at hwhite
    cases hwhite
  · exact ha (mem_of_mem_matchKey hU ho h)

theorem exists_append_cons_of_mem {d : Str} (h : o ∈ d) : ∃ b a, d = b ++ o :: a ∧ o ∉ a := by
  induction d with
  | nil => cases h
  | cons c d ih =>
      by_cases hd : o ∈ d
      · obtain ⟨b, a, hcut, ha⟩ := ih hd
        exact ⟨c :: b, a, by rw [hcut, List.cons_append], ha⟩
      · have hc : o = c := (List.mem_cons.1 h).resolve_right hd
        exact ⟨[], d, by rw [hc, List.nil_append], hd⟩

/-- A text with the key of another is cut where the other is. -/
theorem exists_cut (hU : PlainMarks U) (ho : o ∈ brackets) {b a d : Str} (ha : o ∉ a)
    (h : matchKey U (b ++ o :: a) = matchKey U d) :
    ∃ b' a', d = b' ++ o :: a' ∧ o ∉ a' ∧ matchKey U b = matchKey U b' ∧
      matchKey U a = matchKey U a' := by
  have hmem : o ∈ matchKey U d := by
    rw [← h, matchKey_append_cons hU ho]
    exact List.mem_append_right _ (List.mem_append_right _ List.mem_cons_self)
  obtain ⟨b', a', hcut, ha'⟩ := exists_append_cons_of_mem (mem_of_mem_matchKey hU ho hmem)
  refine ⟨b', a', hcut, ha', ?_⟩
  rw [hcut, matchKey_append_cons hU ho, matchKey_append_cons hU ho, ← List.append_assoc,
    ← List.append_assoc] at h
  obtain ⟨hbefore, hafter⟩ := append_cons_inj_right (not_mem_gapBefore_matchKey hU ho ha)
    (not_mem_gapBefore_matchKey hU ho ha') h
  exact ⟨matchKey_eq_of_gapAfter hbefore, matchKey_eq_of_gapBefore hafter⟩

/-- What stands before a bracket has a shorter key. -/
theorem matchKey_length_lt (hU : PlainMarks U) (ho : o ∈ brackets) (b a : Str) :
    (matchKey U b).length < (matchKey U (b ++ o :: a)).length := by
  rw [matchKey_append_cons hU ho, List.length_append, List.length_append, List.length_cons]
  omega

end Cut

end AnyPlayerSync.Keys
