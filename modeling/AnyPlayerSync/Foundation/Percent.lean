import AnyPlayerSync.Foundation.Json

/-!
# URLs and percent-encoding

A URL is read by its components: the fragment begins at the first `#`, the query at the first `?`
before it, then come the scheme, the authority after `//` and the path. A client that makes a
request of it resolves the dot segments of the path first (`readRequest`). That is all it does to a
URL of characters that need no rewriting (`IsUrlChar`).

`decode` reads `%` with two hexadecimal digits as one byte and any other character as its UTF-8
bytes. It undoes every encoding of bytes that escapes `%` and keeps only ASCII (`decode_encode`); a
text that was not encoded is its own reading exactly when nothing in it looks like an escape
(`decode_eq_utf8_iff`).
-/

set_option autoImplicit false

namespace AnyPlayerSync.Foundation.Percent

/-! ## UTF-8 -/

/-- The bytes of a text. -/
def utf8 (s : Str) : List UInt8 := s.flatMap String.utf8EncodeChar

@[simp] theorem utf8_nil : utf8 [] = [] := rfl

@[simp] theorem utf8_cons (c : Char) (s : Str) :
    utf8 (c :: s) = String.utf8EncodeChar c ++ utf8 s := rfl

/-- A text is known by its bytes. -/
theorem utf8_inj {s t : Str} : utf8 s = utf8 t ↔ s = t := by
  constructor
  · intro h
    have hbytes : s.utf8Encode = t.utf8Encode := congrArg List.toByteArray h
    have hstring : String.ofList s = String.ofList t := by
      rw [← String.toByteArray_inj]
      exact hbytes
    rw [← String.toList_ofList (l := s), hstring, String.toList_ofList]
  · exact congrArg utf8

theorem utf8EncodeChar_length_pos (c : Char) : 0 < (String.utf8EncodeChar c).length :=
  List.length_pos_iff.2 String.utf8EncodeChar_ne_nil

/-- The characters of one byte. -/
theorem utf8EncodeChar_ofNat {b : UInt8} (h : b.toNat < 128) :
    String.utf8EncodeChar (Char.ofNat b.toNat) = [b] := by
  have hval : (Char.ofNat b.toNat).val.toNat = b.toNat := by
    have hvalid : b.toNat.isValidChar := Or.inl (by omega)
    rw [Char.ofNat, dif_pos hvalid]
    rfl
  rw [String.utf8EncodeChar, hval, if_pos (by omega), UInt8.ofNat_toNat]

/-! ## Hexadecimal digits -/

/-- The upper-case digit of a number below 16. -/
def hexDigit (n : Nat) : Char := "0123456789ABCDEF".toList.getD n '0'

/-- The value of a hexadecimal digit of either case. -/
def hexValue (c : Char) : Option Nat :=
  if '0' ≤ c ∧ c ≤ '9' then some (c.toNat - '0'.toNat)
  else if 'A' ≤ c ∧ c ≤ 'F' then some (c.toNat - 'A'.toNat + 10)
  else if 'a' ≤ c ∧ c ≤ 'f' then some (c.toNat - 'a'.toNat + 10)
  else none

/-- Digits are read back. -/
theorem hexValue_hexDigit {n : Nat} (h : n < 16) : hexValue (hexDigit n) = some n := by
  have hall : ∀ m : Fin 16, hexValue (hexDigit m) = some m.val := by decide
  exact hall ⟨n, h⟩

/-- A digit as an encoder writes it. -/
def IsUpperHex (c : Char) : Prop := ('0' ≤ c ∧ c ≤ '9') ∨ ('A' ≤ c ∧ c ≤ 'F')

instance (c : Char) : Decidable (IsUpperHex c) := inferInstanceAs (Decidable (_ ∨ _))

theorem isUpperHex_hexDigit {n : Nat} (h : n < 16) : IsUpperHex (hexDigit n) := by
  have hall : ∀ m : Fin 16, IsUpperHex (hexDigit m) := by decide
  exact hall ⟨n, h⟩

/-! ## Decoding -/

/-- The byte that three characters escape. -/
def escaped (c a b : Char) : Option UInt8 :=
  if c = '%' then
    match hexValue a, hexValue b with
    | some x, some y => some (UInt8.ofNat (16 * x + y))
    | _, _ => none
  else none

/-- Percent-decoding: escapes are bytes, other characters their encoding. -/
def decode : Str → List UInt8
  | [] => []
  | [c] => String.utf8EncodeChar c
  | [c, d] => String.utf8EncodeChar c ++ String.utf8EncodeChar d
  | c :: a :: b :: rest =>
      match escaped c a b with
      | some byte => byte :: decode rest
      | none => String.utf8EncodeChar c ++ decode (a :: b :: rest)

/-- Three characters of the text escape a byte. -/
def HasEscape (s : Str) : Prop := ∃ a b, (escaped '%' a b).isSome = true ∧ ['%', a, b] <:+: s

theorem escaped_of_ne {c : Char} (h : c ≠ '%') (a b : Char) : escaped c a b = none := if_neg h

/-- Any character but a percent sign stands for itself. -/
theorem decode_cons_of_ne {c : Char} (h : c ≠ '%') (s : Str) :
    decode (c :: s) = String.utf8EncodeChar c ++ decode s := by
  match s with
  | [] => rw [decode, decode, List.append_nil]
  | [d] => rfl
  | a :: b :: rest => rw [decode, escaped_of_ne h]

/-- What comes before the first percent sign is read as it is. -/
theorem decode_append {s : Str} (h : '%' ∉ s) (t : Str) : decode (s ++ t) = utf8 s ++ decode t := by
  induction s with
  | nil => rfl
  | cons c s ih =>
      rw [List.mem_cons, not_or] at h
      rw [List.cons_append, decode_cons_of_ne (Ne.symm h.1), ih h.2, utf8_cons, List.append_assoc]

/-- An escape has three characters. -/
theorem not_hasEscape_of_length {s : Str} (h : s.length < 3) : ¬ HasEscape s := by
  rintro ⟨a, b, -, hinfix⟩
  have hlen := hinfix.length_le
  simp only [List.length_cons, List.length_nil] at hlen
  omega

/-- An escape is at the beginning or later. -/
theorem hasEscape_cons_iff {c a b : Char} {rest : Str} :
    HasEscape (c :: a :: b :: rest) ↔
      (escaped c a b).isSome = true ∨ HasEscape (a :: b :: rest) := by
  constructor
  · rintro ⟨x, y, hescaped, hinfix⟩
    rcases List.infix_cons_iff.1 hinfix with hbegins | hlater
    · simp only [List.cons_prefix_cons, List.nil_prefix, and_true] at hbegins
      obtain ⟨rfl, rfl, rfl⟩ := hbegins
      exact Or.inl hescaped
    · exact Or.inr ⟨x, y, hescaped, hlater⟩
  · rintro (hescaped | ⟨x, y, hescaped, hinfix⟩)
    · have hc : c = '%' := by
        by_contra hne
        rw [escaped_of_ne hne] at hescaped
        cases hescaped
      subst hc
      exact ⟨a, b, hescaped, List.infix_cons_iff.2 (Or.inl ⟨rest, rfl⟩)⟩
    · exact ⟨x, y, hescaped, List.infix_cons_iff.2 (Or.inr hinfix)⟩

/-- A map that keeps every escape and makes none. -/
theorem hasEscape_map {f : Char → Char} (hf : ∀ c a b, escaped (f c) (f a) (f b) = escaped c a b)
    (s : Str) : HasEscape (s.map f) ↔ HasEscape s := by
  induction s with
  | nil => exact Iff.rfl
  | cons c s ih =>
      match s, ih with
      | [], _ =>
          exact iff_of_false (not_hasEscape_of_length (by simp))
            (not_hasEscape_of_length (by simp))
      | [d], _ =>
          exact iff_of_false (not_hasEscape_of_length (by simp))
            (not_hasEscape_of_length (by simp))
      | a :: b :: rest, ih =>
          simp only [List.map_cons] at ih ⊢
          rw [hasEscape_cons_iff, hasEscape_cons_iff, hf, ih]

/-- Each escape makes the reading two bytes shorter than the text. -/
theorem decode_length_le (s : Str) : (decode s).length ≤ (utf8 s).length := by
  induction s using decode.induct with
  | case1 => exact Nat.le_refl _
  | case2 c => simp [decode]
  | case3 c d => simp [decode]
  | case4 c a b rest byte hescaped ih =>
      have hc := utf8EncodeChar_length_pos c
      -- three characters of at least one byte each, read as one byte
      rw [decode, hescaped]
      simp only [utf8_cons, List.length_cons, List.length_append]
      omega
  | case5 c a b rest hescaped ih =>
      rw [decode, hescaped, utf8_cons, List.length_append, List.length_append]
      omega

/-- A text without escapes is read as it is. -/
theorem decode_eq_utf8 {s : Str} (h : ¬ HasEscape s) : decode s = utf8 s := by
  induction s using decode.induct with
  | case1 => rfl
  | case2 c => simp [decode]
  | case3 c d => simp [decode]
  | case4 c a b rest byte hescaped ih =>
      exact absurd (hasEscape_cons_iff.2 (Or.inl (by rw [hescaped]; rfl))) h
  | case5 c a b rest hescaped ih =>
      rw [decode, hescaped, utf8_cons, ih fun hlater => h (hasEscape_cons_iff.2 (Or.inr hlater))]

/-- Decoding shortens a text with an escape. -/
theorem decode_length_lt {s : Str} (h : HasEscape s) : (decode s).length < (utf8 s).length := by
  induction s using decode.induct with
  | case1 => exact absurd h (not_hasEscape_of_length (by decide))
  | case2 c => exact absurd h (not_hasEscape_of_length (by simp))
  | case3 c d => exact absurd h (not_hasEscape_of_length (by simp))
  | case4 c a b rest byte hescaped ih =>
      have hc := utf8EncodeChar_length_pos c
      have ha := utf8EncodeChar_length_pos a
      have hrest := decode_length_le rest
      rw [decode, hescaped]
      simp only [utf8_cons, List.length_cons, List.length_append]
      omega
  | case5 c a b rest hescaped ih =>
      rw [hasEscape_cons_iff, hescaped] at h
      have hlater := ih (h.resolve_left Bool.false_ne_true)
      rw [decode, hescaped, utf8_cons, List.length_append, List.length_append]
      omega

/-- **A text is its own reading** exactly when nothing in it is an escape. -/
theorem decode_eq_utf8_iff {s : Str} : decode s = utf8 s ↔ ¬ HasEscape s := by
  constructor
  · intro hsame hescape
    have hlt := decode_length_lt hescape
    rw [hsame] at hlt
    exact Nat.lt_irrefl _ hlt
  · exact decode_eq_utf8

/-! ## Encoding -/

/-- The bytes that are kept stand for themselves, the others are escaped. -/
def encode (keep : UInt8 → Bool) (bytes : List UInt8) : Str :=
  bytes.flatMap fun b =>
    if keep b then [Char.ofNat b.toNat]
    else ['%', hexDigit (b.toNat / 16), hexDigit (b.toNat % 16)]

/-- Plain characters, and escapes in upper case. -/
inductive Escaped (plain : Char → Prop) : Str → Prop
  | nil : Escaped plain []
  | plain {c : Char} {s : Str} (h : plain c) (rest : Escaped plain s) : Escaped plain (c :: s)
  | escape {a b : Char} {s : Str} (ha : IsUpperHex a) (hb : IsUpperHex b)
      (rest : Escaped plain s) : Escaped plain ('%' :: a :: b :: s)

section Encode

variable {keep : UInt8 → Bool}

theorem hexDigits_lt (b : UInt8) : b.toNat / 16 < 16 ∧ b.toNat % 16 < 16 := by
  have hb := b.toNat_lt
  omega

theorem encode_cons (b : UInt8) (bytes : List UInt8) :
    encode keep (b :: bytes) = (if keep b then [Char.ofNat b.toNat]
      else ['%', hexDigit (b.toNat / 16), hexDigit (b.toNat % 16)]) ++ encode keep bytes := rfl

/-- An escape is read back as its byte. -/
theorem decode_escape (b : UInt8) (s : Str) :
    decode ('%' :: hexDigit (b.toNat / 16) :: hexDigit (b.toNat % 16) :: s) = b :: decode s := by
  obtain ⟨hhigh, hlow⟩ := hexDigits_lt b
  have hbyte : escaped '%' (hexDigit (b.toNat / 16)) (hexDigit (b.toNat % 16)) = some b := by
    rw [escaped, if_pos rfl, hexValue_hexDigit hhigh, hexValue_hexDigit hlow]
    dsimp only
    rw [Nat.div_add_mod, UInt8.ofNat_toNat]
  rw [decode, hbyte]

/-- **An encoding is undone**, when `%` is escaped and only ASCII is kept. -/
theorem decode_encode (hascii : ∀ b, keep b = true → b.toNat < 128) (hpercent : keep 37 = false)
    (bytes : List UInt8) : decode (encode keep bytes) = bytes := by
  induction bytes with
  | nil => rfl
  | cons b bytes ih =>
      rw [encode_cons]
      split_ifs with hkeep
      · have hbyte := utf8EncodeChar_ofNat (hascii b hkeep)
        have hne : Char.ofNat b.toNat ≠ '%' := by
          intro hc
          rw [hc] at hbyte
          have hb : b = 37 := (List.cons.inj hbyte).1.symm
          rw [hb, hpercent] at hkeep
          cases hkeep
        rw [List.singleton_append, decode_cons_of_ne hne, hbyte, ih, List.singleton_append]
      · show decode ('%' :: _ :: _ :: encode keep bytes) = _
        rw [decode_escape, ih]

/-- What an encoding consists of. -/
theorem escaped_encode {plain : Char → Prop}
    (hplain : ∀ b, keep b = true → plain (Char.ofNat b.toNat)) (bytes : List UInt8) :
    Escaped plain (encode keep bytes) := by
  induction bytes with
  | nil => exact .nil
  | cons b bytes ih =>
      rw [encode_cons]
      split_ifs with hkeep
      · exact .plain (hplain b hkeep) ih
      · obtain ⟨hhigh, hlow⟩ := hexDigits_lt b
        exact .escape (isUpperHex_hexDigit hhigh) (isUpperHex_hexDigit hlow) ih

/-- What the characters of such a text are. -/
theorem Escaped.mem {plain : Char → Prop} {s : Str} (h : Escaped plain s) {c : Char} (hc : c ∈ s) :
    plain c ∨ c = '%' ∨ IsUpperHex c := by
  induction h with
  | nil => cases hc
  | plain hd rest ih =>
      rcases List.mem_cons.1 hc with rfl | hc
      · exact Or.inl hd
      · exact ih hc
  | escape ha hb rest ih =>
      simp only [List.mem_cons] at hc
      rcases hc with rfl | rfl | rfl | hc
      · exact Or.inr (Or.inl rfl)
      · exact Or.inr (Or.inr ha)
      · exact Or.inr (Or.inr hb)
      · exact ih hc

/-- A character that is neither plain nor part of an escape is not in the text. -/
theorem Escaped.not_mem {plain : Char → Prop} {s : Str} (h : Escaped plain s) {c : Char}
    (hplain : ¬ plain c) (hpercent : c ≠ '%') (hhex : ¬ IsUpperHex c) : c ∉ s := by
  intro hc
  rcases h.mem hc with hc | hc | hc
  · exact hplain hc
  · exact hpercent hc
  · exact hhex hc

end Encode

/-! ## Encoding a text -/

/-- The characters that are kept stand for themselves, of the others every byte is escaped. -/
def encodeText (keep : Char → Bool) (s : Str) : Str :=
  s.flatMap fun c => if keep c then [c] else encode (fun _ => false) (String.utf8EncodeChar c)

section EncodeText

variable {keep : Char → Bool}

theorem encodeText_cons (c : Char) (s : Str) :
    encodeText keep (c :: s) =
      (if keep c then [c] else encode (fun _ => false) (String.utf8EncodeChar c)) ++
        encodeText keep s := rfl

/-- Bytes that are all escaped are read back, whatever follows. -/
theorem decode_escaped_append (bytes : List UInt8) (s : Str) :
    decode (encode (fun _ => false) bytes ++ s) = bytes ++ decode s := by
  induction bytes with
  | nil => rfl
  | cons b bytes ih =>
      show decode ('%' :: hexDigit (b.toNat / 16) :: hexDigit (b.toNat % 16) ::
        (encode (fun _ => false) bytes ++ s)) = _
      rw [decode_escape, ih, List.cons_append]

/-- An encoding of a text is read as the text, when `%` is escaped. -/
theorem decode_encodeText (hpercent : keep '%' = false) (s : Str) :
    decode (encodeText keep s) = utf8 s := by
  induction s with
  | nil => rfl
  | cons c s ih =>
      rw [encodeText_cons, utf8_cons]
      split_ifs with hkeep
      · have hne : c ≠ '%' := by
          rintro rfl
          rw [hpercent] at hkeep
          cases hkeep
        rw [List.singleton_append, decode_cons_of_ne hne, ih]
      · rw [decode_escaped_append, ih]

theorem Escaped.append {plain : Char → Prop} {s t : Str} (hs : Escaped plain s)
    (ht : Escaped plain t) : Escaped plain (s ++ t) := by
  induction hs with
  | nil => exact ht
  | plain h rest ih => exact .plain h ih
  | escape ha hb rest ih => exact .escape ha hb ih

/-- An encoded text is made of escapes and kept characters. -/
theorem escaped_encodeText (s : Str) :
    Escaped (fun c => keep c = true) (encodeText keep s) := by
  induction s with
  | nil => exact .nil
  | cons c s ih =>
      rw [encodeText_cons]
      split_ifs with hkeep
      · exact .plain hkeep ih
      · exact (escaped_encode (fun _ h => by cases h) _).append ih

/-- A text of characters that are kept is its own encoding. -/
theorem encodeText_of_kept {s : Str} (h : ∀ c ∈ s, keep c = true) : encodeText keep s = s := by
  induction s with
  | nil => rfl
  | cons c s ih =>
      rw [List.forall_mem_cons] at h
      rw [encodeText_cons, if_pos h.1, ih h.2, List.singleton_append]

end EncodeText

/-! ## The components of a URL -/

/-- The components of a URL, by the generic syntax. -/
structure Url where
  scheme : Option Str
  authority : Option Str
  path : Str
  query : Option Str
  fragment : Option Str
  deriving DecidableEq

/-- The text before the first such character, and the text after it. -/
def cut (c : Char) (s : Str) : Str × Option Str :=
  (s.takeWhile (· != c), if c ∈ s then some (s.dropWhile (· != c)).tail else none)

/-- The scheme is what comes before a colon that no slash comes before. -/
def readScheme (s : Str) : Option Str × Str :=
  match cut ':' s with
  | (scheme, some rest) => if scheme ≠ [] ∧ '/' ∉ scheme then (some scheme, rest) else (none, s)
  | (_, none) => (none, s)

/-- The authority is what stands between two slashes and the next one. -/
def readAuthority : Str → Option Str × Str
  | '/' :: '/' :: rest => (some (rest.takeWhile (· != '/')), rest.dropWhile (· != '/'))
  | s => (none, s)

/-- Fragment, query, scheme, authority and path are cut off in this order. -/
def readUrl (s : Str) : Url :=
  let (s, fragment) := cut '#' s
  let (s, query) := cut '?' s
  let (scheme, s) := readScheme s
  let (authority, path) := readAuthority s
  ⟨scheme, authority, path, query, fragment⟩

section Cut

variable {c : Char} {s : Str}

theorem forall_ne_of_not_mem (h : c ∉ s) : ∀ d ∈ s, (d != c) = true := fun _ hd =>
  bne_iff_ne.2 fun hdc => h (hdc ▸ hd)

/-- The part before a mark goes on through a text without it. -/
theorem takeWhile_ne_append (h : c ∉ s) (t : Str) :
    (s ++ t).takeWhile (· != c) = s ++ t.takeWhile (· != c) :=
  List.takeWhile_append_of_pos (forall_ne_of_not_mem h)

/-- The part from a mark on begins after a text without it. -/
theorem dropWhile_ne_append (h : c ∉ s) (t : Str) :
    (s ++ t).dropWhile (· != c) = t.dropWhile (· != c) :=
  List.dropWhile_append_of_pos (forall_ne_of_not_mem h)

/-- What comes before the first such character stays before it. -/
theorem cut_append (h : c ∉ s) (t : Str) : cut c (s ++ t) = (s ++ (cut c t).1, (cut c t).2) := by
  rw [cut, takeWhile_ne_append h, dropWhile_ne_append h]
  simp only [cut, List.mem_append, h, false_or]

/-- A text without the mark is not cut. -/
theorem cut_of_not_mem (h : c ∉ s) : cut c s = (s, none) := by
  have hcut := cut_append h []
  rw [List.append_nil] at hcut
  simpa [cut] using hcut

theorem cut_cons_self (c : Char) (t : Str) : cut c (c :: t) = ([], some t) := by
  simp [cut]

theorem cut_snd_eq_none_iff : (cut c s).2 = none ↔ c ∉ s := by
  rw [cut]
  dsimp only
  split_ifs with h
  · simp [h]
  · simp [h]

end Cut

/-- A scheme is what stands before the two slashes. -/
theorem readScheme_append {scheme : Str} (hne : scheme ≠ []) (hcolon : ':' ∉ scheme)
    (hslash : '/' ∉ scheme) (t : Str) :
    readScheme (scheme ++ ("://".toList ++ t)) = (some scheme, '/' :: '/' :: t) := by
  have hcut : cut ':' (scheme ++ ("://".toList ++ t)) = (scheme, some ('/' :: '/' :: t)) := by
    rw [cut_append hcolon]
    show (scheme ++ (cut ':' (':' :: '/' :: '/' :: t)).1, _) = _
    rw [cut_cons_self, List.append_nil]
    exact congrArg (Prod.mk scheme) (congrArg Prod.snd (cut_cons_self ':' _))
  rw [readScheme, hcut]
  exact if_pos ⟨hne, hslash⟩

/-- An authority ends at the first slash. -/
theorem readAuthority_append {authority : Str} (h : '/' ∉ authority) (t : Str) :
    readAuthority ('/' :: '/' :: (authority ++ '/' :: t)) = (some authority, '/' :: t) := by
  rw [readAuthority, takeWhile_ne_append h, dropWhile_ne_append h]
  simp

/-- A URL of a scheme and an authority, and a path that begins with a slash. -/
theorem readUrl_append {scheme authority : Str} (hne : scheme ≠ [])
    (hscheme : ∀ c ∈ ['#', '?', ':', '/'], c ∉ scheme)
    (hauthority : ∀ c ∈ ['#', '?', '/'], c ∉ authority) (rest : Str) :
    readUrl (scheme ++ ("://".toList ++ (authority ++ '/' :: rest))) =
      { scheme := some scheme
        authority := some authority
        path := '/' :: (cut '?' (cut '#' rest).1).1
        query := (cut '?' (cut '#' rest).1).2
        fragment := (cut '#' rest).2 } := by
  simp only [List.forall_mem_cons] at hscheme hauthority
  obtain ⟨hhash, hquestion, hcolon, hslash, -⟩ := hscheme
  obtain ⟨hhash', hquestion', hslash', -⟩ := hauthority
  have hcut : ∀ c, c ∉ scheme → c ∉ "://".toList → c ∉ authority → c ≠ '/' → ∀ rest,
      cut c (scheme ++ ("://".toList ++ (authority ++ '/' :: rest))) =
        (scheme ++ ("://".toList ++ (authority ++ '/' :: (cut c rest).1)), (cut c rest).2) := by
    intro c hc hsep hc' hslash rest
    have hsingle : cut c ('/' :: rest) = ('/' :: (cut c rest).1, (cut c rest).2) :=
      cut_append (s := ['/']) (by simpa using hslash) rest
    rw [cut_append hc, cut_append hsep, cut_append hc', hsingle]
  rw [readUrl, hcut '#' hhash (by simp) hhash' (by simp)]
  dsimp only
  rw [hcut '?' hquestion (by simp) hquestion' (by simp)]
  dsimp only
  rw [readScheme_append hne hcolon hslash, readAuthority_append hslash']

/-- What comes after a query has begun belongs to it, up to the fragment. -/
theorem readUrl_append_query {s t q : Str} (hquery : (readUrl s).query = some q)
    (hs : '#' ∉ s) (ht : '#' ∉ t) :
    readUrl (s ++ t) = { readUrl s with query := some (q ++ t) } := by
  have hmark : '?' ∈ s := by
    by_contra h
    simp only [readUrl, cut_of_not_mem hs, cut_of_not_mem h] at hquery
    cases hquery
  obtain ⟨before, after, rfl, hbefore⟩ := List.eq_append_cons_of_mem hmark
  have hcut : ∀ after, cut '?' (before ++ '?' :: after) = (before, some after) := by
    intro after
    rw [cut_append hbefore, cut_cons_self, List.append_nil]
  have hst : '#' ∉ before ++ '?' :: (after ++ t) := by
    rw [← List.cons_append, ← List.append_assoc, List.mem_append, not_or]
    exact ⟨hs, ht⟩
  rw [List.append_assoc, List.cons_append]
  simp only [readUrl, cut_of_not_mem hs, cut_of_not_mem hst, hcut] at hquery ⊢
  rw [Option.some.inj hquery]

/-! ## Dot segments -/

/-- A segment that means the directory it stands in: a full stop, escaped or not. -/
def IsDot (segment : Str) : Prop := decode segment = utf8 ".".toList

/-- A segment that means the directory above. -/
def IsDotDot (segment : Str) : Prop := decode segment = utf8 "..".toList

instance (segment : Str) : Decidable (IsDot segment) := inferInstanceAs (Decidable (_ = _))

instance (segment : Str) : Decidable (IsDotDot segment) := inferInstanceAs (Decidable (_ = _))

/-- The segments that are left. After a dot segment at the end comes an empty one. -/
def removeDots (done : List Str) : List Str → List Str
  | [] => done
  | segment :: rest =>
      let last : List Str := if rest = [] then [[]] else []
      if IsDotDot segment then removeDots (done.dropLast ++ last) rest
      else if IsDot segment then removeDots (done ++ last) rest
      else removeDots (done ++ [segment]) rest

/-- The path of a request: its segments without the dot segments. -/
def resolvePath : Str → Str
  | '/' :: path => (removeDots [] (path.splitOn '/')).flatMap fun segment => '/' :: segment
  | path => path

example : resolvePath "/a/b/../c/%2E".toList = "/a/c/".toList := by decide

/-- The components that a client asks a server for. -/
def readRequest (s : Str) : Url := { readUrl s with path := resolvePath (readUrl s).path }

/-- A character that has its place in a URL of the web as it is: no reader of URLs strips it,
escapes it or takes it for a slash. -/
def IsUrlChar (c : Char) : Prop :=
  c.isAlphanum = true ∨ c ∈ [':', '/', '?', '=', '&', '@', '%', '.', '-', '_']

instance (c : Char) : Decidable (IsUrlChar c) := inferInstanceAs (Decidable (_ ∨ _))

/-- A text of such characters. -/
def UrlText (s : Str) : Prop := ∀ c ∈ s, IsUrlChar c

instance (s : Str) : Decidable (UrlText s) := List.decidableBAll IsUrlChar s

theorem UrlText.append {s t : Str} (hs : UrlText s) (ht : UrlText t) : UrlText (s ++ t) :=
  List.forall_mem_append.2 ⟨hs, ht⟩

theorem UrlText.hash_not_mem {s : Str} (hs : UrlText s) : '#' ∉ s := by
  intro h
  exact absurd (hs '#' h) (by decide)

/-- A segment that is no dot segment stays. -/
theorem removeDots_cons {segment : Str} (hdotdot : ¬ IsDotDot segment) (hdot : ¬ IsDot segment)
    (done rest : List Str) :
    removeDots done (segment :: rest) = removeDots (done ++ [segment]) rest := by
  rw [removeDots, if_neg hdotdot, if_neg hdot]

/-- A path with no dot segment but perhaps the last. -/
theorem removeDots_append {segments : List Str}
    (h : ∀ segment ∈ segments, ¬ IsDotDot segment ∧ ¬ IsDot segment) (done rest : List Str) :
    removeDots done (segments ++ rest) = removeDots (done ++ segments) rest := by
  induction segments generalizing done with
  | nil => rw [List.nil_append, List.append_nil]
  | cons segment segments ih =>
      rw [List.forall_mem_cons] at h
      rw [List.cons_append, removeDots_cons h.1.1 h.1.2, ih h.2, List.append_assoc,
        List.singleton_append]

/-- Parameters do not change the path. -/
theorem readRequest_append_query {s t q : Str} (hquery : (readRequest s).query = some q)
    (hs : '#' ∉ s) (ht : '#' ∉ t) :
    readRequest (s ++ t) = { readRequest s with query := some (q ++ t) } := by
  rw [readRequest, readUrl_append_query hquery hs ht]
  rfl

/-! ## Forms -/

/-- A part of a form, in which a plus sign is a space. -/
def readPart (s : Str) : List UInt8 := decode (s.map fun c => if c = '+' then ' ' else c)

/-- A name and a value, with the first `=` between them. -/
def readPair (s : Str) : List UInt8 × List UInt8 :=
  (readPart (cut '=' s).1, readPart ((cut '=' s).2.getD []))

/-- The pairs of a query that is read as a form. -/
def readForm (s : Str) : List (List UInt8 × List UInt8) :=
  ((s.splitOn '&').filter fun part => part ≠ []).map readPair

/-- A form is read pair by pair. -/
theorem readForm_append (s t : Str) : readForm (s ++ '&' :: t) = readForm s ++ readForm t := by
  rw [readForm, List.splitOn_append_cons_self, List.filter_append, List.map_append]
  rfl

/-- Without a plus sign a part is percent-decoded only. -/
theorem readPart_of_not_mem {s : Str} (h : '+' ∉ s) : readPart s = decode s := by
  have hmap : (s.map fun c => if c = '+' then ' ' else c) = s.map id := by
    refine List.map_congr_left fun c hc => if_neg ?_
    rintro rfl
    exact h hc
  rw [readPart, hmap, List.map_id]

/-- An escape begins with a percent sign. -/
theorem not_hasEscape_of_not_mem {s : Str} (h : '%' ∉ s) : ¬ HasEscape s := by
  rintro ⟨a, b, -, hpart⟩
  exact h (hpart.subset List.mem_cons_self)

/-- A pair is read back, when its name has no mark and its value none of a form. -/
theorem readForm_pair {name value : Str} (hname : ∀ c ∈ ['&', '=', '+', '%'], c ∉ name)
    (hvalue : ∀ c ∈ ['&', '+'], c ∉ value) :
    readForm (name ++ '=' :: value) = [(utf8 name, decode value)] := by
  simp only [List.forall_mem_cons] at hname hvalue
  obtain ⟨hamp, heq, hplus, hpercent, -⟩ := hname
  obtain ⟨hamp', hplus', -⟩ := hvalue
  have hsplit : (name ++ '=' :: value).splitOn '&' = [name ++ '=' :: value] :=
    List.splitOn_eq_singleton (by simp [hamp, hamp'])
  have hcut : cut '=' (name ++ '=' :: value) = (name, some value) := by
    rw [cut_append heq, cut_cons_self, List.append_nil]
  rw [readForm, hsplit]
  simp [readPair, hcut, readPart_of_not_mem hplus, readPart_of_not_mem hplus',
    decode_eq_utf8 (not_hasEscape_of_not_mem hpercent)]

end AnyPlayerSync.Foundation.Percent
