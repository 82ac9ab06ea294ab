import AnyPlayerSync.Keys.Credits
import AnyPlayerSync.Keys.Qualifiers

/-!
# Spellings of a title

Two titles with one match key differ in case, white space and dashes only. `base_title` reads the
raw title. Its loop treats two spellings alike, but for leading white space: a title that begins
with it can lose all of its text and is then kept whole (`baseTitle_of_whole`). Its cut does not: it
is made at the first `" - "`, and a title with another dash or another space there is not cut.

`baseTitle_key_iff`: when the base titles of two spellings have one key. Spellings that are cut
alike, and both or neither begin with white space, are among them (`spelledAlike_of_firstPart`).
-/

set_option autoImplicit false

namespace AnyPlayerSync.Keys

open AnyPlayerSync.Foundation
open AnyPlayerSync.Foundation.Text

variable {U : UnicodeTables}

/-! ## The cut -/

/-- The title up to the first `" - "`. -/
def firstPart (title : Str) : Str := (splitStr " - ".toList title).headD title

theorem firstPart_of_free {t : Str} (h : ¬ " - ".toList <:+: t) : firstPart t = t := by
  rw [firstPart, splitStr_of_free h, List.headD_cons]

theorem firstPart_of_begins {c : Char} {t : Str} (h : " - ".toList <+: c :: t) :
    firstPart (c :: t) = [] := by
  rw [firstPart, splitStr, splitStrFrom, if_pos h, List.headD_cons]

theorem firstPart_cons {c : Char} {t : Str} (h : ¬ " - ".toList <+: c :: t) :
    firstPart (c :: t) = c :: firstPart t := by
  obtain ⟨first, parts, hparts⟩ :=
    List.exists_cons_of_ne_nil (splitStr_ne_nil " - ".toList t)
  rw [firstPart, firstPart, hparts, List.headD_cons, splitStr, splitStrFrom, if_neg h]
  change ((splitStr " - ".toList t).modifyHead (c :: ·)).headD (c :: t) = c :: first
  rw [hparts, List.modifyHead_cons, List.headD_cons]

theorem firstPart_begins (t : Str) : firstPart t <+: t := by
  induction t with
  | nil => exact List.nil_prefix
  | cons c t ih =>
      by_cases h : " - ".toList <+: c :: t
      · rw [firstPart_of_begins h]
        exact List.nil_prefix
      · rw [firstPart_cons h]
        exact (List.prefix_cons_inj c).2 ih

/-- A title with a separator is cut there. -/
theorem exists_rest {t : Str} (h : " - ".toList <:+: t) :
    ∃ rest, t = firstPart t ++ (" - ".toList ++ rest) := by
  induction t with
  | nil => exact absurd h (by decide)
  | cons c t ih =>
      by_cases hc : " - ".toList <+: c :: t
      · obtain ⟨rest, hrest⟩ := hc
        exact ⟨rest, by rw [firstPart_of_begins ⟨rest, hrest⟩, List.nil_append, hrest]⟩
      · obtain ⟨rest, hrest⟩ := ih ((List.infix_cons_iff.1 h).resolve_left hc)
        refine ⟨rest, ?_⟩
        rw [firstPart_cons hc, List.cons_append, ← hrest]

/-- The cut takes words off. -/
theorem matchKey_firstPart_length_lt {t : Str} (h : " - ".toList <:+: t) :
    (matchKey U (firstPart t)).length < (matchKey U t).length := by
  obtain ⟨rest, hrest⟩ := exists_rest h
  have hwords : splitWhitespace t =
      splitWhitespace (firstPart t) ++ ['-'] :: splitWhitespace rest := by
    conv_lhs => rw [hrest]
    have hspace : isWhitespace ' ' = true := by decide
    have hfirst := splitWhitespace_append_cons (firstPart t) ('-' :: ' ' :: rest) hspace
    have hdash : splitWhitespace ('-' :: ' ' :: rest) = ['-'] :: splitWhitespace rest :=
      splitWhitespace_append_cons ['-'] rest hspace
    rw [hdash] at hfirst
    exact hfirst
  have hdash : keyWord U ['-'] = ['-'] := keyWord_ascii U (by simp)
  rw [matchKey_eq, matchKey_eq, hwords, List.map_append, List.map_cons, hdash]
  by_cases hnil : (splitWhitespace (firstPart t)).map (keyWord U) = []
  · rw [hnil, List.nil_append]
    by_cases hrnil : (splitWhitespace rest).map (keyWord U) = []
    · rw [hrnil]
      decide
    · rw [join_words_cons _ hrnil, List.length_append]
      exact Nat.lt_of_lt_of_le Nat.zero_lt_one (Nat.le_add_right _ _)
  · rw [join_append _ hnil (List.cons_ne_nil _ _), List.length_append, List.length_append]
    have hsep : " ".toList.length = 1 := rfl
    omega

/-! ## The base title -/

/-- `base_title` gives the title whole: it begins with white space, and up to the first `" - "`
nothing but bracketed qualifiers follows. -/
def Whole (U : UnicodeTables) (t : Str) : Prop := Indented t ∧ Qualified U [] (trim (firstPart t))

theorem baseTitle_eq (t : Str) : baseTitle U t =
    if stripAll U (trimEnd (firstPart t)) = [] then t
    else stripAll U (trimEnd (firstPart t)) := by
  rw [baseTitle]
  rfl

/-- A text that is not blank is its trimmed core after leading white space, when trimmed at the
end. -/
theorem exists_lead {s : Str} (h : ¬ Blank s) :
    ∃ l, Blank l ∧ trimEnd s = l ++ trim s ∧ (l = [] ↔ ¬ Indented s) := by
  refine ⟨s.takeWhile isWhitespace, blank_takeWhile s, ?_, ?_⟩
  · have hcut : s.takeWhile isWhitespace ++ trimStart s = s := List.takeWhile_append_dropWhile
    have hcore : ¬ Blank (trimStart s) := fun hb => h (hcut ▸ (blank_takeWhile s).append hb)
    conv_lhs => rw [← hcut, trimEnd_append hcore]
    rfl
  · cases s with
    | nil => exact absurd blank_nil h
    | cons c s =>
        rw [indented_cons_iff, List.takeWhile_cons]
        split_ifs with hc <;> simp [hc]

theorem trim_ne_nil {s : Str} (h : ¬ Blank s) : trim s ≠ [] := mt (trim_eq_nil_iff s).1 h

theorem indented_firstPart {t : Str} (h : ¬ Blank (firstPart t)) :
    Indented (firstPart t) ↔ Indented t := by
  obtain ⟨rest, hrest⟩ := firstPart_begins t
  cases hfirst : firstPart t with
  | nil => exact absurd (hfirst ▸ blank_nil) h
  | cons c s => rw [← hrest, hfirst, List.cons_append, indented_cons_iff, indented_cons_iff]

theorem eq_nil_of_not_whole {t : Str} (h : ¬ Whole U t) (hb : Blank (firstPart t)) : t = [] := by
  have hstart : ¬ Indented t := by
    intro hindented
    apply h
    rw [Whole, (trim_eq_nil_iff (firstPart t)).2 hb]
    exact ⟨hindented, Relation.ReflTransGen.refl⟩
  have hfirst := eq_nil_of_blank (not_indented_of_begins (firstPart_begins t) hstart) hb
  cases t with
  | nil => rfl
  | cons c t =>
      by_cases hc : " - ".toList <+: c :: t
      · obtain ⟨rest, hrest⟩ := hc
        rw [← hrest] at hstart
        exact absurd (indented_cons_iff.2 (by decide)) hstart
      · rw [firstPart_cons hc] at hfirst
        cases hfirst

theorem baseTitle_nil : baseTitle U [] = [] := by
  rw [baseTitle_eq]
  exact if_pos rfl

theorem baseTitle_of_whole {t : Str} (h : Whole U t) : baseTitle U t = t := by
  rw [baseTitle_eq]
  apply if_pos
  by_cases hb : Blank (firstPart t)
  · rw [(trimEnd_eq_nil_iff _).2 hb]
    rfl
  · obtain ⟨l, hl, hcut, hlead⟩ := exists_lead hb
    have hne : l ≠ [] := by
      rw [Ne, hlead, not_not, indented_firstPart hb]
      exact h.1
    rw [hcut]
    exact stripAll_blank_append_of_qualified hl hne (trimmed_trim _) (trim_ne_nil hb) h.2

theorem baseTitle_key {t : Str} (h : ¬ Whole U t) :
    matchKey U (baseTitle U t) = matchKey U (stripAll U (trim (firstPart t))) := by
  by_cases hb : Blank (firstPart t)
  · rw [eq_nil_of_not_whole h hb, baseTitle_nil]
    rfl
  · obtain ⟨l, hl, hcut, hlead⟩ := exists_lead hb
    have hcore := stripAll_ne_nil (U := U) (trimmed_trim (firstPart t)) (trim_ne_nil hb)
    rw [baseTitle_eq, hcut]
    by_cases hne : l = []
    · rw [hne, List.nil_append, if_neg hcore]
    · have hindented : Indented t := by
        rw [← indented_firstPart hb]
        exact not_not.1 (mt hlead.2 hne)
      rw [stripAll_blank_append hl hne fun hq => h ⟨hindented, hq⟩,
        if_neg (List.append_ne_nil_of_left_ne_nil hne _), matchKey_blank_append hl]

/-! ## Titles that keep their key -/

/-- `base_title` leaves the key as it is: the title is given whole, or it has neither a `" - "` nor
a bracketed qualifier after other text. -/
def Kept (U : UnicodeTables) (t : Str) : Prop :=
  Whole U t ∨ (¬ " - ".toList <:+: t ∧ Ends U (trim t))

theorem baseTitle_key_eq_iff (hU : PlainMarks U) (t : Str) :
    matchKey U (baseTitle U t) = matchKey U t ↔ Kept U t := by
  constructor
  · intro h
    by_cases hwhole : Whole U t
    · exact Or.inl hwhole
    right
    rw [baseTitle_key hwhole] at h
    have hless := (qualified_stripAll (U := U) (trim (firstPart t))).eq_or_length_lt hU
    rw [h, matchKey_trim] at hless
    have hfree : ¬ " - ".toList <:+: t := by
      intro hsep
      have hlt := matchKey_firstPart_length_lt (U := U) hsep
      rcases hless with hsame | hless
      · rw [hsame, matchKey_trim] at h
        rw [h] at hlt
        exact lt_irrefl _ hlt
      · exact lt_asymm hlt hless
    rw [firstPart_of_free hfree] at hless
    have hsame := hless.resolve_right (lt_irrefl _)
    exact ⟨hfree, hsame ▸ ends_stripAll (trim t)⟩
  · intro h
    by_cases hwhole : Whole U t
    · rw [baseTitle_of_whole hwhole]
    obtain ⟨hfree, hends⟩ := h.resolve_left hwhole
    rw [baseTitle_key hwhole, firstPart_of_free hfree]
    by_cases hnil : trim t = []
    · rw [← matchKey_trim U t, hnil]
      rfl
    · rw [stripAll_eq (trimmed_trim t) Relation.ReflTransGen.refl hnil hends, matchKey_trim]

/-! ## Spellings -/

/-- Both titles keep their keys; or neither is given whole and, up to their first `" - "`, they are
spellings of one text that is followed by bracketed qualifiers, or by none. -/
def SpelledAlike (U : UnicodeTables) (t₁ t₂ : Str) : Prop :=
  (Kept U t₁ ∧ Kept U t₂) ∨
  (¬ Whole U t₁ ∧ ¬ Whole U t₂ ∧ ∃ x₁ x₂, x₁ ≠ [] ∧ matchKey U x₁ = matchKey U x₂ ∧
    Qualified U x₁ (trim (firstPart t₁)) ∧ Qualified U x₂ (trim (firstPart t₂)))

theorem stripAll_of_qualified {x s : Str} (hs : Trimmed s) (h : Qualified U x s) (hne : x ≠ []) :
    stripAll U s = stripAll U x := by
  have hx := h.trimmed hs
  exact stripAll_eq hs (h.trans (qualified_stripAll x)) (stripAll_ne_nil hx hne) (ends_stripAll x)

section Titles

variable {t₁ t₂ : Str}

theorem SpelledAlike.baseTitle_key (hU : PlainMarks U) (h : matchKey U t₁ = matchKey U t₂)
    (halike : SpelledAlike U t₁ t₂) :
    matchKey U (baseTitle U t₁) = matchKey U (baseTitle U t₂) := by
  rcases halike with ⟨hkept₁, hkept₂⟩ | ⟨hwhole₁, hwhole₂, x₁, x₂, hne, hkey, hx₁, hx₂⟩
  · rw [(baseTitle_key_eq_iff hU t₁).2 hkept₁, (baseTitle_key_eq_iff hU t₂).2 hkept₂, h]
  · have htrim₁ := hx₁.trimmed (trimmed_trim _)
    have htrim₂ := hx₂.trimmed (trimmed_trim _)
    have hne₂ : x₂ ≠ [] := fun hnil => hne (eq_nil_of_key htrim₁ hkey.symm hnil)
    rw [Keys.baseTitle_key hwhole₁, Keys.baseTitle_key hwhole₂,
      stripAll_of_qualified (trimmed_trim _) hx₁ hne,
      stripAll_of_qualified (trimmed_trim _) hx₂ hne₂, stripAll_congr hU htrim₁ htrim₂ hkey]

theorem spelledAlike_of_key (hU : PlainMarks U) (h : matchKey U t₁ = matchKey U t₂)
    (hbase : matchKey U (baseTitle U t₁) = matchKey U (baseTitle U t₂)) :
    SpelledAlike U t₁ t₂ := by
  -- a title that keeps its key leaves the other its key too
  have hkept : matchKey U (baseTitle U t₁) = matchKey U t₁ → SpelledAlike U t₁ t₂ := by
    intro hsame
    exact Or.inl ⟨(baseTitle_key_eq_iff hU t₁).1 hsame,
      (baseTitle_key_eq_iff hU t₂).1 (by rw [← hbase, hsame, h])⟩
  by_cases hwhole₁ : Whole U t₁
  · exact hkept (by rw [baseTitle_of_whole hwhole₁])
  by_cases hwhole₂ : Whole U t₂
  · exact hkept (by rw [hbase, baseTitle_of_whole hwhole₂, h])
  by_cases hb : Blank (firstPart t₁)
  · exact hkept (by rw [eq_nil_of_not_whole hwhole₁ hb, baseTitle_nil])
  · refine Or.inr ⟨hwhole₁, hwhole₂, _, _, stripAll_ne_nil (trimmed_trim _) (trim_ne_nil hb), ?_,
      qualified_stripAll _, qualified_stripAll _⟩
    rw [← Keys.baseTitle_key hwhole₁, ← Keys.baseTitle_key hwhole₂, hbase]

/-- **The base titles of two spellings.** -/
theorem baseTitle_key_iff (hU : PlainMarks U) (h : matchKey U t₁ = matchKey U t₂) :
    matchKey U (baseTitle U t₁) = matchKey U (baseTitle U t₂) ↔ SpelledAlike U t₁ t₂ :=
  ⟨spelledAlike_of_key hU h, SpelledAlike.baseTitle_key hU h⟩

/-- Spellings with one cut, of which both or neither begin with white space. -/
theorem spelledAlike_of_firstPart (hU : PlainMarks U)
    (hcut : matchKey U (firstPart t₁) = matchKey U (firstPart t₂))
    (hstart : Indented t₁ ↔ Indented t₂) : SpelledAlike U t₁ t₂ := by
  have hcore : matchKey U (trim (firstPart t₁)) = matchKey U (trim (firstPart t₂)) := by
    rw [matchKey_trim, matchKey_trim, hcut]
  have hnil : ∀ {s d : Str}, Trimmed s → Trimmed d → matchKey U s = matchKey U d →
      Qualified U [] s → Qualified U [] d := by
    intro s d hs hd hkey hq
    obtain ⟨y, hy, hsame⟩ := hq.congr hU hd hkey
    exact eq_nil_of_key (hy.trimmed hd) hsame rfl ▸ hy
  have hwhole : Whole U t₁ ↔ Whole U t₂ := by
    rw [Whole, Whole, hstart]
    exact and_congr_right fun _ => ⟨hnil (trimmed_trim _) (trimmed_trim _) hcore,
      hnil (trimmed_trim _) (trimmed_trim _) hcore.symm⟩
  by_cases hwhole₁ : Whole U t₁
  · exact Or.inl ⟨Or.inl hwhole₁, Or.inl (hwhole.1 hwhole₁)⟩
  have hwhole₂ := mt hwhole.2 hwhole₁
  by_cases hb : Blank (firstPart t₁)
  · have hb₂ : Blank (firstPart t₂) := by
      rw [← matchKey_eq_nil_iff (U := U), ← hcut, matchKey_eq_nil_iff]
      exact hb
    have hempty : Kept U [] := (baseTitle_key_eq_iff hU []).1 (by rw [baseTitle_nil])
    rw [eq_nil_of_not_whole hwhole₁ hb, eq_nil_of_not_whole hwhole₂ hb₂]
    exact Or.inl ⟨hempty, hempty⟩
  · exact Or.inr ⟨hwhole₁, hwhole₂, _, _, trim_ne_nil hb, hcore, Relation.ReflTransGen.refl,
      Relation.ReflTransGen.refl⟩

end Titles

end AnyPlayerSync.Keys
