import AnyPlayerSync.Foundation.TextParts

/-!
# Collapsed white space

The words of a text, joined by single spaces. A character that is not white space cuts the collapsed
text where it cuts the text (`collapse_append_cons`), with a space on a side where white space and a
word stand beside it. Lower case is taken word by word (`toLowercase_collapse`), and a test that
white space fails is met by the trimmed text as by the collapsed one (`all_trim`).
-/

set_option autoImplicit false

namespace AnyPlayerSync.Foundation.Text

/-- The words of a text, each after one blank. -/
def collapse (s : Str) : Str := join " ".toList (splitWhitespace s)

/-- The space that collapsing leaves of the white space before the first word. -/
def gapBefore (s : Str) : Str :=
  if Blank s then [] else if s.head?.any isWhitespace then [' '] else []

/-- The space that collapsing leaves of the white space after the last word. -/
def gapAfter (s : Str) : Str :=
  if Blank s then [] else if s.getLast?.any isWhitespace then [' '] else []

/-! ## Character by character -/

theorem blank_nil : Blank [] := by
  intro c hc
  cases hc

theorem blank_cons_iff {c : Char} {s : Str} :
    Blank (c :: s) ↔ isWhitespace c = true ∧ Blank s := List.forall_mem_cons

/-- A text without words is blank. -/
theorem splitWhitespace_eq_nil_iff (s : Str) : splitWhitespace s = [] ↔ Blank s := by
  constructor
  · intro h
    by_contra hb
    obtain ⟨w, hw, -⟩ := exists_word hb
    rw [h] at hw
    cases hw
  · exact splitWhitespace_blank

theorem collapse_blank {s : Str} (h : Blank s) : collapse s = [] := by
  rw [collapse, splitWhitespace_blank h]
  rfl

/-- White space at the beginning is lost. -/
theorem collapse_whitespace_cons {c : Char} (hc : isWhitespace c = true) (s : Str) :
    collapse (c :: s) = collapse s := by
  have hsplit := splitWhitespace_append_cons [] s hc
  rw [splitWhitespace_nil, List.nil_append, List.nil_append] at hsplit
  rw [collapse, hsplit, collapse]

theorem gapBefore_blank {s : Str} (h : Blank s) : gapBefore s = [] := if_pos h

theorem gapAfter_blank {s : Str} (h : Blank s) : gapAfter s = [] := if_pos h

theorem gapBefore_whitespace_cons {c : Char} (hc : isWhitespace c = true) {s : Str}
    (h : ¬ Blank s) : gapBefore (c :: s) = [' '] := by
  rw [gapBefore, if_neg fun hb => h (blank_cons_iff.1 hb).2, List.head?_cons, Option.any_some,
    if_pos hc]

theorem gapBefore_solid_cons {c : Char} (hc : isWhitespace c = false) (s : Str) :
    gapBefore (c :: s) = [] := by
  rw [gapBefore, List.head?_cons, Option.any_some, hc, if_neg Bool.false_ne_true, ite_self]

/-- A character of a word, then the rest. -/
theorem collapse_solid_cons {c : Char} (hc : isWhitespace c = false) (s : Str) :
    collapse (c :: s) = c :: (gapBefore s ++ collapse s) := by
  cases s with
  | nil =>
      rw [gapBefore_blank blank_nil, collapse_blank blank_nil, collapse, splitWhitespace,
        List.splitOnP_eq_singleton fun d hd => List.mem_singleton.1 hd ▸ hc]
      rfl
  | cons d s =>
      by_cases hd : isWhitespace d = true
      · -- the word ends here
        have hwords : splitWhitespace (c :: d :: s) = [c] :: splitWhitespace s :=
          splitWhitespace_word_cons (List.cons_ne_nil c [])
            (fun e he => List.mem_singleton.1 he ▸ hc) hd s
        rw [collapse, hwords, collapse_whitespace_cons hd]
        by_cases hb : Blank s
        · rw [gapBefore_blank (blank_cons_iff.2 ⟨hd, hb⟩), collapse_blank hb,
            splitWhitespace_blank hb]
          rfl
        · rw [gapBefore_whitespace_cons hd hb,
            join_cons _ _ (mt (splitWhitespace_eq_nil_iff s).1 hb)]
          rfl
      · -- the word goes on
        rw [Bool.not_eq_true] at hd
        obtain ⟨w, parts, hsplit⟩ := List.exists_cons_of_ne_nil
          (List.splitOnP_ne_nil isWhitespace s)
        rw [gapBefore_solid_cons hd, List.nil_append, collapse, collapse, splitWhitespace,
          splitWhitespace, List.splitOnP_cons_eq_if_modifyHead, if_neg (by simp [hc]),
          List.splitOnP_cons_eq_if_modifyHead, if_neg (by simp [hd]), hsplit,
          List.modifyHead_cons, List.modifyHead_cons, List.filter_cons_of_pos (by simp),
          List.filter_cons_of_pos (by simp)]
        exact List.intercalate_cons_cons_left

theorem gapAfter_cons {c : Char} {s : Str} (h : ¬ Blank s) : gapAfter (c :: s) = gapAfter s := by
  have hne : s ≠ [] := by
    rintro rfl
    exact h blank_nil
  rw [gapAfter, gapAfter, if_neg fun hb => h (blank_cons_iff.1 hb).2, if_neg h,
    List.getLast?_cons_of_ne_nil hne]

/-- A character that is not white space cuts the collapsed text. -/
theorem collapse_append_cons {o : Char} (ho : isWhitespace o = false) (a : Str) : ∀ b : Str,
    collapse (b ++ o :: a) = collapse b ++ (gapAfter b ++ o :: (gapBefore a ++ collapse a)) := by
  have hnot : ∀ b : Str, ¬ Blank (b ++ o :: a) := by
    intro b hb
    have hwhite := hb o (List.mem_append_right b List.mem_cons_self)
    rw [ho] at hwhite
    cases hwhite
  intro b
  induction b with
  | nil =>
      rw [List.nil_append, collapse_solid_cons ho, collapse_blank blank_nil,
        gapAfter_blank blank_nil]
      rfl
  | cons c b ih =>
      rw [List.cons_append]
      by_cases hb : Blank b
      · by_cases hc : isWhitespace c = true
        · have hblank := blank_cons_iff.2 ⟨hc, hb⟩
          rw [collapse_whitespace_cons hc, ih, collapse_blank hb, collapse_blank hblank,
            gapAfter_blank hb, gapAfter_blank hblank]
        · -- the only word before the cut is this character
          rw [Bool.not_eq_true] at hc
          rw [collapse_solid_cons hc, collapse_solid_cons hc, ih, collapse_blank hb,
            gapAfter_blank hb, gapBefore_blank hb, gapAfter,
            if_neg fun h => absurd (blank_cons_iff.1 h).1 (by simp [hc])]
          cases b with
          | nil =>
              rw [List.nil_append, gapBefore_solid_cons ho, List.getLast?_singleton,
                Option.any_some, hc]
              rfl
          | cons d b =>
              have hd := (blank_cons_iff.1 hb).1
              have hlast : isWhitespace ((d :: b).getLast (List.cons_ne_nil d b)) = true :=
                hb _ (List.getLast_mem _)
              rw [List.cons_append, gapBefore_whitespace_cons hd (hnot b),
                List.getLast?_cons_of_ne_nil (List.cons_ne_nil d b),
                List.getLast?_eq_some_getLast (List.cons_ne_nil d b), Option.any_some, hlast]
              rfl
      -- the text before the cut has a word, so this character does not touch the cut
      · rw [gapAfter_cons hb]
        by_cases hc : isWhitespace c = true
        · rw [collapse_whitespace_cons hc, collapse_whitespace_cons hc, ih]
        · rw [Bool.not_eq_true] at hc
          have hgap : gapBefore (b ++ o :: a) = gapBefore b := by
            obtain ⟨d, b, rfl⟩ := List.exists_cons_of_ne_nil
              (show b ≠ [] by rintro rfl; exact hb blank_nil)
            rw [gapBefore, gapBefore, if_neg (hnot _), if_neg hb]
            rfl
          rw [collapse_solid_cons hc, collapse_solid_cons hc, ih, hgap, List.cons_append,
            List.append_assoc]

/-! ## Words of a join -/

/-- Words joined by spaces are the words of the join. -/
theorem splitWhitespace_join {ws : List Str} (h : ∀ w ∈ ws, IsWord w) :
    splitWhitespace (join " ".toList ws) = ws := by
  induction ws with
  | nil => rfl
  | cons w ws ih =>
      have hw : IsWord w := h w List.mem_cons_self
      have hws := ih fun v hv => h v (List.mem_cons_of_mem w hv)
      by_cases hnil : ws = []
      · rw [hnil, join_singleton]
        simp [splitWhitespace, List.splitOnP_eq_singleton hw.2, hw.1]
      · rw [join_cons _ w hnil]
        exact (splitWhitespace_word_cons hw.1 hw.2 (by decide) _).trans (congrArg (w :: ·) hws)

/-- The words stay the same. -/
theorem splitWhitespace_collapse (s : Str) : splitWhitespace (collapse s) = splitWhitespace s :=
  splitWhitespace_join fun _ hw => isWord_of_mem_splitWhitespace hw

/-! ## The edges of a text -/

/-- The text begins with white space. -/
def Indented (s : Str) : Prop := s.head?.any isWhitespace = true

instance (s : Str) : Decidable (Indented s) :=
  inferInstanceAs (Decidable (s.head?.any isWhitespace = true))

theorem not_indented_nil : ¬ Indented [] := by decide

theorem indented_cons_iff {c : Char} {s : Str} : Indented (c :: s) ↔ isWhitespace c = true := by
  rw [Indented, List.head?_cons, Option.any_some]

/-- A beginning of a text that does not start with white space does not either. -/
theorem not_indented_of_begins {p s : Str} (h : p <+: s) (hs : ¬ Indented s) : ¬ Indented p := by
  obtain ⟨rest, rfl⟩ := h
  cases p with
  | nil => exact not_indented_nil
  | cons c p =>
      rw [List.cons_append, indented_cons_iff] at hs
      rwa [indented_cons_iff]

/-- A blank text that does not begin with white space is empty. -/
theorem eq_nil_of_blank {s : Str} (hs : ¬ Indented s) (h : Blank s) : s = [] := by
  cases s with
  | nil => rfl
  | cons c s => exact absurd (indented_cons_iff.2 (h c List.mem_cons_self)) hs

theorem not_indented_trimStart (s : Str) : ¬ Indented (trimStart s) := by
  induction s with
  | nil => exact not_indented_nil
  | cons c s ih =>
      by_cases hc : isWhitespace c = true
      · rwa [trimStart, List.dropWhile_cons_of_pos hc]
      · rwa [trimStart, List.dropWhile_cons_of_neg hc, indented_cons_iff]

theorem trimEnd_begins (s : Str) : trimEnd s <+: s := List.rdropWhile_prefix _ s

theorem not_indented_trim (s : Str) : ¬ Indented (trim s) :=
  not_indented_of_begins (trimEnd_begins _) (not_indented_trimStart s)

theorem trimEnd_trimEnd (s : Str) : trimEnd (trimEnd s) = trimEnd s :=
  List.rdropWhile_idempotent _ s

theorem trimEnd_trim (s : Str) : trimEnd (trim s) = trim s := trimEnd_trimEnd _

/-- No blank ending is left after trimming. -/
theorem eq_nil_of_blank_end {p q : Str} (h : trimEnd (p ++ q) = p ++ q) (hq : Blank q) :
    q = [] := by
  by_contra hne
  have hlast := List.rdropWhile_eq_self_iff.1 h (List.append_ne_nil_of_right_ne_nil p hne)
  rw [List.getLast_append_of_ne_nil _ hne] at hlast
  exact hlast (hq _ (List.getLast_mem hne))

theorem trimEnd_eq_nil_iff (s : Str) : trimEnd s = [] ↔ Blank s := List.rdropWhile_eq_nil_iff

/-- The end is trimmed in the last part that is not blank. -/
theorem trimEnd_append {t : Str} (h : ¬ Blank t) (s : Str) : trimEnd (s ++ t) = s ++ trimEnd t := by
  have hne : (List.dropWhile isWhitespace t.reverse).isEmpty = false := by
    rw [List.isEmpty_eq_false_iff]
    exact fun hnil => h ((trimEnd_eq_nil_iff t).1 (List.reverse_eq_nil_iff.2 hnil))
  rw [trimEnd, List.rdropWhile, List.reverse_append, List.dropWhile_append, hne,
    if_neg Bool.false_ne_true, List.reverse_append, List.reverse_reverse]
  rfl

/-- A blank part at the end is lost. -/
theorem trimEnd_append_blank (s : Str) {t : Str} (h : Blank t) : trimEnd (s ++ t) = trimEnd s := by
  have hnil : List.dropWhile isWhitespace t.reverse = [] :=
    List.reverse_eq_nil_iff.1 ((trimEnd_eq_nil_iff t).2 h)
  rw [trimEnd, List.rdropWhile, List.reverse_append, List.dropWhile_append, hnil]
  rfl

/-- Trimming loses no word. -/
theorem splitWhitespace_trimEnd (s : Str) : splitWhitespace (trimEnd s) = splitWhitespace s := by
  have hblank : Blank (s.rtakeWhile isWhitespace) := fun _ hc => List.mem_rtakeWhile_imp hc
  have hcut : trimEnd s ++ s.rtakeWhile isWhitespace = s := List.rdropWhile_append_rtakeWhile
  rw [← splitWhitespace_append_blank (trimEnd s) hblank, hcut]

/-- No white space at either edge. -/
structure Trimmed (s : Str) : Prop where
  start : ¬ Indented s
  finish : trimEnd s = s

theorem trimmed_trim (s : Str) : Trimmed (trim s) where
  start := not_indented_trim s
  finish := trimEnd_trim s

theorem Trimmed.not_blank {s : Str} (hs : Trimmed s) (hne : s ≠ []) : ¬ Blank s := fun h =>
  hne (eq_nil_of_blank hs.start h)

/-- A trimmed text has trimmed beginnings. -/
theorem Trimmed.trimEnd_of_begins {s p : Str} (hs : Trimmed s) (h : p <+: s) :
    Trimmed (trimEnd p) where
  start := not_indented_of_begins ((trimEnd_begins p).trans h) hs.start
  finish := trimEnd_trimEnd p

/-- White space inside a trimmed text leaves a space in the collapsed text. -/
theorem space_mem_collapse {c : Char} {s : Str} (hc : c ∈ trim s) (hw : isWhitespace c = true) :
    ' ' ∈ collapse s := by
  obtain ⟨p, q, hcut⟩ := List.append_of_mem hc
  have hstart : ¬ Blank p := by
    intro hp
    have hindented : ¬ Indented (p ++ c :: q) := hcut ▸ not_indented_trim s
    have hnil := eq_nil_of_blank
      (not_indented_of_begins (List.prefix_append p (c :: q)) hindented) hp
    rw [hnil, List.nil_append, indented_cons_iff] at hindented
    exact hindented hw
  have hend : ¬ Blank q := by
    intro hq
    have htrim : trimEnd (p ++ c :: q) = p ++ c :: q := hcut ▸ trimEnd_trim s
    exact List.cons_ne_nil c q (eq_nil_of_blank_end htrim (blank_cons_iff.2 ⟨hw, hq⟩))
  rw [collapse, ← splitWhitespace_trim, hcut, splitWhitespace_append_cons p q hw,
    join_append _ (mt (splitWhitespace_eq_nil_iff p).1 hstart)
      (mt (splitWhitespace_eq_nil_iff q).1 hend)]
  simp

/-- A text of one word is trimmed. -/
theorem collapse_eq_trim {s : Str} (h : ∀ c ∈ trim s, isWhitespace c = false) :
    collapse s = trim s := by
  rw [collapse, ← splitWhitespace_trim, splitWhitespace, List.splitOnP_eq_singleton h]
  by_cases hs : trim s = []
  · rw [hs]
    rfl
  · rw [List.filter_cons_of_pos (by simpa using hs), List.filter_nil, join_singleton]

/-- A test that white space fails is met by the trimmed text as by the collapsed one. -/
theorem all_trim {p : Char → Bool} (hp : ∀ c, isWhitespace c = true → p c = false) (s : Str) :
    (trim s).all p = (collapse s).all p := by
  by_cases h : ∀ c ∈ trim s, isWhitespace c = false
  · rw [collapse_eq_trim h]
  · simp only [not_forall, Bool.not_eq_false] at h
    obtain ⟨c, hc, hw⟩ := h
    have htrim : (trim s).all p = false := List.all_eq_false.2 ⟨c, hc, by simp [hp c hw]⟩
    have hspace : p ' ' = false := hp ' ' (by decide)
    have hcollapse : (collapse s).all p = false :=
      List.all_eq_false.2 ⟨' ', space_mem_collapse hc hw, by simp [hspace]⟩
    rw [htrim, hcollapse]

/-! ## Lower case -/

variable (U : UnicodeTables)

theorem toLowercase_ne_nil {s : Str} (h : s ≠ []) (hs : ∀ c ∈ s, isWhitespace c = false) :
    toLowercase U s ≠ [] := by
  obtain ⟨c, s, rfl⟩ := List.exists_cons_of_ne_nil h
  rw [toLowercase, toLowercaseFrom]
  apply List.append_ne_nil_of_left_ne_nil
  split_ifs
  · exact List.cons_ne_nil _ _
  · exact (U.lower_solid c (hs c List.mem_cons_self)).1

/-- Lower case brings in no white space. -/
theorem toLowercase_solid {s : Str} (hs : ∀ c ∈ s, isWhitespace c = false) :
    ∀ c ∈ toLowercase U s, isWhitespace c = false := by
  intro c hc
  rcases exists_of_mem_toLowercaseFrom U _ _ hc with ⟨d, hd, hlower⟩ | rfl | rfl
  · exact (U.lower_solid d (hs d hd)).2 c hlower
  · decide
  · decide

/-- A text without white space is one word, or none. -/
theorem splitWhitespace_toLowercase_solid {s : Str} (hs : ∀ c ∈ s, isWhitespace c = false) :
    splitWhitespace (toLowercase U s) = (splitWhitespace s).map (toLowercase U) := by
  by_cases hnil : s = []
  · rw [hnil]
    rfl
  · have hne := toLowercase_ne_nil U hnil hs
    rw [splitWhitespace, splitWhitespace, List.splitOnP_eq_singleton hs,
      List.splitOnP_eq_singleton (toLowercase_solid U hs)]
    simp [hnil, hne]

/-- By induction on the length: the first word is cut off each time. -/
theorem splitWhitespace_toLowercase_of_length_le (n : Nat) : ∀ s : Str, s.length ≤ n →
    splitWhitespace (toLowercase U s) = (splitWhitespace s).map (toLowercase U) := by
  induction n with
  | zero =>
      intro s hs
      rw [List.length_eq_zero_iff.1 (Nat.le_zero.1 hs)]
      rfl
  | succ n ih =>
      intro s hlen
      by_cases hs : ∀ c ∈ s, isWhitespace c = false
      · exact splitWhitespace_toLowercase_solid U hs
      · -- white space cuts the words on both sides
        simp only [not_forall, Bool.not_eq_false] at hs
        obtain ⟨c, hc, hw⟩ := hs
        obtain ⟨p, q, rfl⟩ := List.append_of_mem hc
        rw [List.length_append, List.length_cons] at hlen
        rw [toLowercase_append U p q hw, splitWhitespace_append_cons _ _ hw,
          splitWhitespace_append_cons _ _ hw, List.map_append, ih p (by omega), ih q (by omega)]

/-- Words are put in lower case one by one. -/
theorem splitWhitespace_toLowercase (s : Str) :
    splitWhitespace (toLowercase U s) = (splitWhitespace s).map (toLowercase U) :=
  splitWhitespace_toLowercase_of_length_le U s.length s le_rfl

/-- So a join of words is put in lower case word by word. -/
theorem toLowercase_join (ws : List Str) :
    toLowercase U (join " ".toList ws) = join " ".toList (ws.map (toLowercase U)) :=
  apply_join rfl (fun s t => toLowercase_append U s t (by decide)) ws

/-- Collapsing and lowering are done in either order. -/
theorem toLowercase_collapse (s : Str) :
    toLowercase U (collapse s) = collapse (toLowercase U s) := by
  rw [collapse, toLowercase_join, collapse, splitWhitespace_toLowercase]

end AnyPlayerSync.Foundation.Text
