import AnyPlayerSync.Foundation.Json
import Mathlib.Data.List.DropRight
import Mathlib.Data.List.Infix

/-!
# Text

The string operations of the Rust standard library, on lists of characters: trimming and splitting
at Unicode white space, splitting at a separator string, the last occurrence of a character, and
`str::to_lowercase`.

The character properties that Unicode tabulates (letters, case mappings) are not written out here;
`UnicodeTables` holds them together with the facts that the proofs use. `to_lowercase` itself,
with its rule for a final sigma, is defined over the tables.
-/

set_option autoImplicit false

namespace AnyPlayerSync.Foundation

namespace Text

/-! ## White space -/

/-- `char::is_whitespace`: the 25 characters of the property `White_Space`. -/
def isWhitespace (c : Char) : Bool :=
  let n := c.toNat
  (9 ≤ n && n ≤ 13) || n == 0x20 || n == 0x85 || n == 0xA0 || n == 0x1680 ||
    (0x2000 ≤ n && n ≤ 0x200A) || n == 0x2028 || n == 0x2029 || n == 0x202F || n == 0x205F ||
    n == 0x3000

/-- Without the white space at the beginning. -/
def trimStart (s : Str) : Str := s.dropWhile isWhitespace

/-- Without the white space at the end. -/
def trimEnd (s : Str) : Str := s.rdropWhile isWhitespace

/-- Without the white space at both ends. -/
def trim (s : Str) : Str := trimEnd (trimStart s)

/-- `split_whitespace`: the maximal runs of characters that are not white space. -/
def splitWhitespace (s : Str) : List Str := (s.splitOnP isWhitespace).filter fun w => w ≠ []

/-- `pieces.join(sep)`. -/
def join (sep : Str) (pieces : List Str) : Str := sep.intercalate pieces

/-- Nothing but white space. -/
def Blank (s : Str) : Prop := ∀ c ∈ s, isWhitespace c = true

instance (s : Str) : Decidable (Blank s) :=
  List.decidableBAll (fun c => isWhitespace c = true) s

/-! ## Searching and splitting -/

/-- `s.contains(sub)`. -/
def contains (s sub : Str) : Bool := decide (sub <:+: s)

/-- `split(sep)` for a non-empty separator; `skip` counts the characters of a found separator that
are still to be passed over. -/
def splitStrFrom (sep : Str) : Nat → Str → List Str
  | _, [] => [[]]
  | skip + 1, _ :: s => splitStrFrom sep skip s
  | 0, c :: s =>
      if sep <+: c :: s then [] :: splitStrFrom sep (sep.length - 1) s
      else (splitStrFrom sep 0 s).modifyHead (c :: ·)

/-- `s.split(sep)` for a non-empty separator. -/
def splitStr (sep s : Str) : List Str := splitStrFrom sep 0 s

/-- What stands before and after the last occurrence of a character. -/
def splitLast (c : Char) : Str → Option (Str × Str)
  | [] => none
  | d :: s =>
      match splitLast c s with
      | some (before, after) => some (d :: before, after)
      | none => if d = c then some ([], s) else none

end Text

/-! ## Case -/

/-- The Unicode tables behind `char::is_alphanumeric`, `char::to_lowercase` and the rule for a final
sigma, with what every version of them says of white space and of ASCII. -/
structure UnicodeTables where
  isAlphanumeric : Char → Bool
  lower : Char → Str
  cased : Char → Bool
  caseIgnorable : Char → Bool
  /-- White space has no case. -/
  lower_whitespace : ∀ c, Text.isWhitespace c = true → lower c = [c]
  /-- The case mapping of other characters has no white space. -/
  lower_solid : ∀ c, Text.isWhitespace c = false →
    lower c ≠ [] ∧ ∀ d ∈ lower c, Text.isWhitespace d = false
  lower_ascii : ∀ c : Char, c.toNat < 128 → lower c = [c.toLower]
  cased_whitespace : ∀ c, Text.isWhitespace c = true → cased c = false
  caseIgnorable_whitespace : ∀ c, Text.isWhitespace c = true → caseIgnorable c = false

namespace Text

variable (U : UnicodeTables)

/-- The first character that is not case-ignorable is cased. -/
def caseIgnorableThenCased (s : Str) : Bool :=
  match s.dropWhile U.caseIgnorable with
  | [] => false
  | c :: _ => U.cased c

/-- A capital sigma at the end of a word becomes `ς`, any other `σ`; `before` is the text before it,
last character first. -/
def lowerSigma (before after : Str) : Char :=
  if caseIgnorableThenCased U before && !caseIgnorableThenCased U after then 'ς' else 'σ'

/-- Lower case, with the characters before the text, on which a final sigma depends. -/
def toLowercaseFrom (before : Str) : Str → Str
  | [] => []
  | c :: s =>
      (if c = 'Σ' then [lowerSigma U before s] else U.lower c) ++ toLowercaseFrom (c :: before) s

/-- `str::to_lowercase`. -/
def toLowercase (s : Str) : Str := toLowercaseFrom U [] s

end Text

/-! ## ASCII tables -/

namespace Text

theorem toNat_of_whitespace {c : Char} (h : isWhitespace c = true) :
    c.toNat ≤ 0x20 ∨ 0x85 ≤ c.toNat := by
  simp only [isWhitespace, Bool.or_eq_true, Bool.and_eq_true, decide_eq_true_eq, beq_iff_eq] at h
  omega

theorem toLower_eq_or (c : Char) :
    c.toLower = c ∨ (0x61 ≤ c.toLower.toNat ∧ c.toLower.toNat ≤ 0x7A ∧ c.isUpper = true) := by
  unfold Char.toLower
  split
  -- an upper-case ASCII letter moves by 32, so the sum does not wrap
  · rename_i h
    have hsum : (c.val + ('a'.val - 'A'.val)).toNat = c.val.toNat + 32 := by
      have hle : c.val.toNat ≤ 90 := h.2
      have hdiff : ('a'.val - 'A'.val).toNat = 32 := by decide
      rw [UInt32.toNat_add, hdiff]
      omega
    have h1 : 65 ≤ c.val.toNat := h.1
    have h2 : c.val.toNat ≤ 90 := h.2
    refine Or.inr ⟨?_, ?_, decide_eq_true h⟩
    · change 97 ≤ (c.val + ('a'.val - 'A'.val)).toNat
      omega
    · change (c.val + ('a'.val - 'A'.val)).toNat ≤ 122
      omega
  · exact Or.inl rfl

theorem isUpper_toNat {c : Char} (h : c.isUpper = true) : 65 ≤ c.toNat ∧ c.toNat ≤ 90 := by
  have hrange : 'A'.val ≤ c.val ∧ c.val ≤ 'Z'.val := of_decide_eq_true h
  exact ⟨hrange.1, hrange.2⟩

theorem isAlpha_toNat {c : Char} (h : c.isAlpha = true) : 65 ≤ c.toNat ∧ c.toNat ≤ 122 := by
  rcases Bool.or_eq_true_iff.1 h with hup | hlow
  · obtain ⟨h1, h2⟩ := isUpper_toNat hup
    exact ⟨h1, Nat.le_trans h2 (by decide)⟩
  · obtain ⟨h1, h2⟩ := Bool.and_eq_true_iff.1 hlow
    have h97 : 97 ≤ c.toNat := of_decide_eq_true h1
    exact ⟨Nat.le_trans (by decide) h97, of_decide_eq_true h2⟩

end Text

/-- Tables that treat ASCII as Unicode does and give no other character a case. -/
def asciiTables : UnicodeTables where
  isAlphanumeric c := c.isAlphanum
  lower c := [c.toLower]
  cased c := c.isAlpha
  caseIgnorable c := c.toNat == 0x27 || c.toNat == 0x2E || c.toNat == 0x3A || c.toNat == 0x5E ||
    c.toNat == 0x60
  lower_whitespace c h := by
    have hc := Text.toNat_of_whitespace h
    rcases Text.toLower_eq_or c with hl | ⟨-, -, hup⟩
    · rw [hl]
    · have := Text.isUpper_toNat hup
      omega
  lower_solid c h := by
    refine ⟨List.cons_ne_nil _ _, fun d hd => ?_⟩
    rw [List.mem_singleton.1 hd]
    -- the lower-case letters are not among the white space
    rcases Text.toLower_eq_or c with hl | ⟨h1, h2, -⟩
    · rwa [hl]
    · by_contra hw
      have := Text.toNat_of_whitespace (Bool.not_eq_false _ ▸ hw)
      omega
  lower_ascii _ _ := rfl
  cased_whitespace c h := by
    have hc := Text.toNat_of_whitespace h
    by_contra ha
    have := Text.isAlpha_toNat (Bool.not_eq_false _ ▸ ha)
    omega
  caseIgnorable_whitespace c h := by
    have hc := Text.toNat_of_whitespace h
    simp only [Bool.or_eq_false_iff, beq_eq_false_iff_ne]
    omega

/-! ## Laws of the operations -/

namespace Text

/-- The parts of a list cut at a predicate have no element that meets it. -/
theorem splitOnP_free {α : Type} {p : α → Bool} {l part : List α} (h : part ∈ l.splitOnP p) :
    ∀ a ∈ part, p a = false := by
  induction l generalizing part with
  | nil =>
      rw [List.splitOnP_nil, List.mem_singleton] at h
      subst h
      intro _ ha
      cases ha
  | cons x l ih =>
      rw [List.splitOnP_cons_eq_if_modifyHead] at h
      split_ifs at h with hx
      · rcases List.mem_cons.1 h with rfl | h
        · intro _ ha
          cases ha
        · exact ih h
      · cases hs : l.splitOnP p with
        | nil => exact absurd hs (List.splitOnP_ne_nil p l)
        | cons first parts =>
            rw [hs] at h ih
            rcases List.mem_cons.1 h with rfl | h
            · intro a ha
              rcases List.mem_cons.1 ha with rfl | ha
              · exact Bool.not_eq_true _ ▸ hx
              · exact ih List.mem_cons_self a ha
            · exact ih (List.mem_cons_of_mem _ h)

/-- Every element that does not meet the predicate is in a part. -/
theorem exists_mem_splitOnP {α : Type} {p : α → Bool} {l : List α} {a : α} (ha : a ∈ l)
    (hp : p a = false) : ∃ part ∈ l.splitOnP p, a ∈ part := by
  induction l with
  | nil => cases ha
  | cons x l ih =>
      rw [List.splitOnP_cons_eq_if_modifyHead]
      split_ifs with hx
      · rcases List.mem_cons.1 ha with rfl | ha
        · rw [hp] at hx
          cases hx
        · obtain ⟨part, hpart, hmem⟩ := ih ha
          exact ⟨part, List.mem_cons_of_mem _ hpart, hmem⟩
      · cases hs : l.splitOnP p with
        | nil => exact absurd hs (List.splitOnP_ne_nil p l)
        | cons first parts =>
            rw [hs] at ih
            rcases List.mem_cons.1 ha with rfl | ha
            · exact ⟨a :: first, List.mem_cons_self, List.mem_cons_self⟩
            · obtain ⟨part, hpart, hmem⟩ := ih ha
              rcases List.mem_cons.1 hpart with rfl | hpart
              · exact ⟨x :: part, List.mem_cons_self, List.mem_cons_of_mem _ hmem⟩
              · exact ⟨part, List.mem_cons_of_mem _ hpart, hmem⟩

/-- The text is cut at the character. -/
theorem splitLast_eq {c : Char} : ∀ {s before after : Str},
    splitLast c s = some (before, after) → s = before ++ c :: after
  | d :: s, before, after, h => by
      rw [splitLast] at h
      cases hs : splitLast c s with
      | some p =>
          obtain ⟨b, a⟩ := p
          rw [hs] at h
          cases h
          exact congrArg (d :: ·) (splitLast_eq hs)
      | none =>
          rw [hs] at h
          dsimp only at h
          split_ifs at h with hd
          cases h
          rw [hd]
          rfl

theorem splitLast_eq_none_iff {c : Char} {s : Str} : splitLast c s = none ↔ c ∉ s := by
  induction s with
  | nil => exact ⟨fun _ => List.not_mem_nil, fun _ => rfl⟩
  | cons d s ih =>
      rw [splitLast, List.mem_cons, not_or, ← ih]
      cases hs : splitLast c s with
      | some p => simp
      | none =>
          split_ifs with hd
          · simp [hd]
          · simp [Ne.symm hd]

/-- The cut is at the last occurrence. -/
theorem not_mem_of_splitLast {c : Char} {s before after : Str}
    (h : splitLast c s = some (before, after)) : c ∉ after := by
  induction s generalizing before with
  | nil => cases h
  | cons d s ih =>
      rw [splitLast] at h
      cases hs : splitLast c s with
      | some p =>
          obtain ⟨b, a⟩ := p
          rw [hs] at h
          cases h
          exact ih hs
      | none =>
          rw [hs] at h
          dsimp only at h
          split_ifs at h
          cases h
          exact splitLast_eq_none_iff.1 hs

theorem splitLast_append_cons {c : Char} {after : Str} (h : c ∉ after) (before : Str) :
    splitLast c (before ++ c :: after) = some (before, after) := by
  induction before with
  | nil => rw [List.nil_append, splitLast, splitLast_eq_none_iff.2 h, if_pos rfl]
  | cons d before ih => rw [List.cons_append, splitLast, ih]

theorem Blank.of_append_left {s t : Str} (h : Blank (s ++ t)) : Blank s := fun c hc =>
  h c (List.mem_append_left t hc)

theorem Blank.append {s t : Str} (hs : Blank s) (ht : Blank t) : Blank (s ++ t) := fun c hc =>
  (List.mem_append.1 hc).elim (hs c) (ht c)

/-- White space at the cut separates the words. -/
theorem splitWhitespace_append_cons (s t : Str) {c : Char} (hc : isWhitespace c = true) :
    splitWhitespace (s ++ c :: t) = splitWhitespace s ++ splitWhitespace t := by
  rw [splitWhitespace, List.splitOnP_append_cons s t hc, List.filter_append]
  rfl

theorem splitWhitespace_nil : splitWhitespace [] = [] := rfl

theorem splitWhitespace_blank_append {s : Str} (h : Blank s) (t : Str) :
    splitWhitespace (s ++ t) = splitWhitespace t := by
  induction s with
  | nil => rfl
  | cons c s ih =>
      have hsplit := splitWhitespace_append_cons [] (s ++ t) (h c List.mem_cons_self)
      rw [List.nil_append] at hsplit
      rw [List.cons_append, hsplit, splitWhitespace_nil, List.nil_append,
        ih fun d hd => h d (List.mem_cons_of_mem c hd)]

theorem splitWhitespace_blank {s : Str} (h : Blank s) : splitWhitespace s = [] := by
  rw [← List.append_nil s, splitWhitespace_blank_append h, splitWhitespace_nil]

theorem splitWhitespace_append_blank (s : Str) {t : Str} (h : Blank t) :
    splitWhitespace (s ++ t) = splitWhitespace s := by
  cases t with
  | nil => rw [List.append_nil]
  | cons c t =>
      rw [splitWhitespace_append_cons s t (h c List.mem_cons_self),
        splitWhitespace_blank fun d hd => h d (List.mem_cons_of_mem c hd), List.append_nil]

/-- A word followed by white space is the first word. -/
theorem splitWhitespace_word_cons {w : Str} (hne : w ≠ [])
    (hw : ∀ c ∈ w, isWhitespace c = false) {c : Char} (hc : isWhitespace c = true) (t : Str) :
    splitWhitespace (w ++ c :: t) = w :: splitWhitespace t := by
  rw [splitWhitespace_append_cons w t hc]
  simp [splitWhitespace, List.splitOnP_eq_singleton hw, hne]

/-- A word is not empty and has no white space. -/
def IsWord (w : Str) : Prop := w ≠ [] ∧ ∀ c ∈ w, isWhitespace c = false

theorem isWord_of_mem_splitWhitespace {s w : Str} (h : w ∈ splitWhitespace s) : IsWord w := by
  rw [splitWhitespace, List.mem_filter] at h
  exact ⟨by simpa using h.2, splitOnP_free h.1⟩

/-- A text that is not blank has a word. -/
theorem exists_word {s : Str} (h : ¬ Blank s) : ∃ w ∈ splitWhitespace s, IsWord w := by
  simp only [Blank, not_forall] at h
  obtain ⟨c, hc, hw⟩ := h
  obtain ⟨w, hmem, hcw⟩ := exists_mem_splitOnP hc (Bool.not_eq_true _ ▸ hw)
  have hword : w ∈ splitWhitespace s :=
    List.mem_filter.2 ⟨hmem, by simpa using List.ne_nil_of_mem hcw⟩
  exact ⟨w, hword, isWord_of_mem_splitWhitespace hword⟩

theorem IsWord.not_blank {w : Str} (h : IsWord w) : ¬ Blank w := by
  intro hb
  obtain ⟨c, hc⟩ := List.exists_mem_of_ne_nil w h.1
  have := h.2 c hc
  rw [hb c hc] at this
  cases this

theorem blank_takeWhile (s : Str) : Blank (s.takeWhile isWhitespace) := fun _ hc =>
  List.mem_takeWhile_imp hc

/-- A string is its trimmed core between two blanks. -/
theorem exists_trim (s : Str) : ∃ before after, Blank before ∧ Blank after ∧
    s = before ++ trim s ++ after := by
  refine ⟨s.takeWhile isWhitespace, (trimStart s).rtakeWhile isWhitespace, blank_takeWhile s,
    fun c hc => ?_, ?_⟩
  · exact List.mem_rtakeWhile_imp hc
  · rw [List.append_assoc, trim, trimEnd, List.rdropWhile_append_rtakeWhile, trimStart,
      List.takeWhile_append_dropWhile]

/-- Trimming keeps the words. -/
theorem splitWhitespace_trim (s : Str) : splitWhitespace (trim s) = splitWhitespace s := by
  obtain ⟨before, after, hb, ha, hs⟩ := exists_trim s
  conv_rhs => rw [hs, List.append_assoc, splitWhitespace_blank_append hb,
    splitWhitespace_append_blank _ ha]

/-- Only a blank text trims to nothing. -/
theorem trim_eq_nil_iff (s : Str) : trim s = [] ↔ Blank s := by
  constructor
  · intro h
    obtain ⟨before, after, hb, ha, hs⟩ := exists_trim s
    rw [h, List.append_nil] at hs
    rw [hs]
    exact hb.append ha
  · intro h
    have hstart : trimStart s = [] := List.dropWhile_eq_nil_iff.2 h
    rw [trim, hstart]
    rfl

theorem Blank.of_trim {s : Str} (h : Blank (trim s)) : Blank s := by
  obtain ⟨before, after, hb, ha, hs⟩ := exists_trim s
  rw [hs]
  exact (hb.append h).append ha

theorem trim_isInfix (s : Str) : trim s <:+: s := by
  obtain ⟨before, after, -, -, hs⟩ := exists_trim s
  exact ⟨before, after, hs.symm⟩

end Text

end AnyPlayerSync.Foundation
