import AnyPlayerSync.Keys.BaseTitle

/-!
# Cleanup and identity matching

`sources/clean.rs`: what the sources cut off the texts they store, and when a title at a source
names the wanted song, album or artist.
-/

set_option autoImplicit false

namespace AnyPlayerSync.Sources

open AnyPlayerSync.Foundation
open AnyPlayerSync.Foundation.Text

/-! ## Cutting -/

/-- Section headings after which Wikipedia plain text is lists, credits or citations. -/
def trailingSections : List Str :=
  ["References", "Notes", "Footnotes", "Citations", "Sources", "External links", "See also",
    "Further reading", "Track listing", "Track listings", "Formats and track listings", "Personnel",
    "Credits and personnel", "Charts", "Weekly charts", "Year-end charts", "Certifications",
    "Certifications and sales", "Release history", "脚注", "出典", "注釈", "参考文献", "関連項目",
    "外部リンク", "収録曲", "参加ミュージシャン", "チャート", "각주", "외부 링크", "같이 보기",
    "참고 문헌", "트랙 목록", "차트"].map String.toList

/-- `text.split_inclusive('\n')`. -/
def splitInclusive : Str → List Str
  | [] => []
  | c :: s =>
      if c = '\n' then [c] :: splitInclusive s
      else
        match splitInclusive s with
        | [] => [[c]]
        | line :: lines => (c :: line) :: lines

/-- `s.trim_matches('=')`. -/
def trimEquals (s : Str) : Str := (s.dropWhile (· = '=')).rdropWhile (· = '=')

/-- The line is the heading of a section that is cut off. -/
def isTrailingHeading (line : Str) : Bool :=
  decide ("==".toList <+: trim line) && decide (trim (trimEquals (trim line)) ∈ trailingSections)

/-- The text up to the first such heading. -/
def stripWikiSections (text : Str) : Str :=
  trimEnd ((splitInclusive text).takeWhile fun line => !isTrailingHeading line).flatten

/-- `text.find(sub)`. -/
def findStr (sub : Str) : Str → Option Nat
  | [] => if sub = [] then some 0 else none
  | c :: s => if sub <+: c :: s then some 0 else (findStr sub s).map (· + 1)

/-- The text up to the first mark of Last.fm's own additions. -/
def stripLastfmSuffix (text : Str) : Str :=
  let markers := ["<a href", "Read more on Last.fm", "User-contributed text"].map String.toList
  let cut := ((markers.filterMap fun marker => findStr marker text).min?).getD text.length
  trim (text.take cut)

/-- `text.len()`: the length in UTF-8. -/
def byteLen : Str → Nat
  | [] => 0
  | c :: text => c.utf8Size + byteLen text

theorem byteLen_eq_len (s : Str) : byteLen s = len s := by
  induction s with
  | nil => rfl
  | cons c s ih => rw [byteLen, ih, len, len, Offsets.span_cons]

/-- The longest beginning of at most `max` bytes. -/
def bytePrefix : Nat → Str → Str
  | _, [] => []
  | max, c :: s => if c.utf8Size ≤ max then c :: bytePrefix (max - c.utf8Size) s else []

/-- The whole lines of the first `max` bytes. -/
def truncateBody (text : Str) (max : Nat) : Str :=
  if byteLen text ≤ max then text
  else
    match splitLast '\n' (bytePrefix max text) with
    | some (before, _) => trimEnd before
    | none => trimEnd (bytePrefix max text)

/-! ## Matching -/

variable (U : UnicodeTables)

/-- The key of a name or title. -/
def key (value : Str) : Str := Keys.matchKey U value

/-- A key names a wanted key: the same, or followed by a disambiguation in parentheses. -/
def keyNames (c w : Str) : Bool :=
  decide (c = w) || (decide (w ++ " (".toList <+: c) && decide (c.getLast? = some ')'))

/-- A source title names the wanted song, album or artist. -/
def titleMatches (candidate wanted : Str) : Bool :=
  keyNames (key U candidate) (key U (Keys.baseTitle U wanted))

/-- A source is searched for the base title, and its title then compared with that again. -/
theorem titleMatches_baseTitle (candidate wanted : Str) :
    titleMatches U candidate (Keys.baseTitle U wanted) = titleMatches U candidate wanted := by
  rw [titleMatches, Keys.baseTitle_baseTitle, titleMatches]

/-! ## A beginning that is kept -/

section Beginning

variable {w s : Str}

theorem ne_newline_of_word (hw : IsWord w) : ∀ c ∈ w, c ≠ '\n' := by
  rintro c hc rfl
  exact absurd (hw.2 _ hc) (by decide)

/-- Trimming the end keeps a word that a text begins with. -/
theorem prefix_trimEnd (hw : IsWord w) (h : w <+: s) : w <+: trimEnd s := by
  obtain ⟨t, rfl⟩ := h
  -- trimming from the end stops at the word at the latest
  have hlast : w.reverse.dropWhile isWhitespace = w.reverse := by
    cases hr : w.reverse with
    | nil => rfl
    | cons c r =>
        have hc : c ∈ w := List.mem_reverse.1 (hr ▸ List.mem_cons_self)
        exact List.dropWhile_cons_of_neg (by rw [hw.2 c hc]; exact Bool.false_ne_true)
  rw [trimEnd, List.rdropWhile, List.reverse_append, List.dropWhile_append]
  split_ifs
  · rw [hlast, List.reverse_reverse]
  · rw [List.reverse_append, List.reverse_reverse]
    exact List.prefix_append _ _

theorem prefix_trim (hw : IsWord w) (h : w <+: s) : w <+: trim s := by
  have hstart : trimStart s = s := by
    obtain ⟨t, rfl⟩ := h
    cases w with
    | nil => exact absurd rfl hw.1
    | cons c w =>
        exact List.dropWhile_cons_of_neg (by
          rw [hw.2 c List.mem_cons_self]; exact Bool.false_ne_true)
  rw [trim, hstart]
  exact prefix_trimEnd hw h

/-- The first line begins as the text does. -/
theorem splitInclusive_prefix (hw : ∀ c ∈ w, c ≠ '\n') (hne : w ≠ []) (s : Str) :
    ∃ line lines, splitInclusive (w ++ s) = line :: lines ∧ w <+: line := by
  induction w with
  | nil => exact absurd rfl hne
  | cons c w ih =>
      have hc : c ≠ '\n' := hw c List.mem_cons_self
      rw [List.cons_append, splitInclusive, if_neg hc]
      by_cases hnil : w = []
      · subst hnil
        rw [List.nil_append]
        cases splitInclusive s with
        | nil => exact ⟨[c], [], rfl, List.prefix_refl _⟩
        | cons line lines => exact ⟨c :: line, lines, rfl, line, rfl⟩
      · obtain ⟨line, lines, heq, hpre⟩ :=
          ih (fun d hd => hw d (List.mem_cons_of_mem c hd)) hnil
        rw [heq]
        exact ⟨c :: line, lines, rfl, (List.prefix_cons_inj c).2 hpre⟩

/-- A word that is no heading stays at the beginning of the text. -/
theorem prefix_stripWikiSections (hw : IsWord w) (hhead : w.head? ≠ some '=') (h : w <+: s) :
    w <+: stripWikiSections s := by
  obtain ⟨t, rfl⟩ := h
  obtain ⟨line, lines, heq, hpre⟩ := splitInclusive_prefix (ne_newline_of_word hw) hw.1 t
  have hheading : isTrailingHeading line = false := by
    rw [isTrailingHeading, Bool.and_eq_false_iff]
    refine Or.inl (decide_eq_false fun hequals => hhead ?_)
    obtain ⟨c, w, rfl⟩ := List.exists_cons_of_ne_nil hw.1
    obtain ⟨r, hr⟩ := prefix_trim hw hpre
    rw [← hr] at hequals
    exact congrArg some (List.cons_prefix_cons.1 hequals).1.symm
  rw [stripWikiSections, heq, List.takeWhile_cons_of_pos (by rw [hheading]; rfl),
    List.flatten_cons]
  exact prefix_trimEnd hw (hpre.trans (List.prefix_append _ _))

theorem prefix_bytePrefix : ∀ {max : Nat} {w : Str} (t : Str), byteLen w ≤ max →
    w <+: bytePrefix max (w ++ t)
  | _, [], _, _ => List.nil_prefix
  | max, c :: w, t, h => by
      rw [byteLen] at h
      rw [List.cons_append, bytePrefix, if_pos ((Nat.le_add_right _ _).trans h)]
      exact (List.prefix_cons_inj c).2 (prefix_bytePrefix t (Nat.le_sub_of_add_le' h))

/-- The cut at the last newline comes after a beginning that has none. -/
theorem prefix_splitLast {before after : Str} (hw : ∀ c ∈ w, c ≠ '\n') (hpre : w <+: s)
    (h : splitLast '\n' s = some (before, after)) : w <+: before := by
  rw [splitLast_eq h] at hpre
  rcases List.prefix_or_prefix_of_prefix hpre (List.prefix_append before _) with hle | ⟨t, rfl⟩
  · exact hle
  · cases t with
    | nil => rw [List.append_nil]
    | cons c t =>
        rw [List.prefix_append_right_inj] at hpre
        have hc : c = '\n' := (List.cons_prefix_cons.1 hpre).1
        exact absurd hc (hw c (List.mem_append_right _ List.mem_cons_self))

/-- A word that fits stays at the beginning of a body. -/
theorem prefix_truncateBody (hw : IsWord w) {max : Nat} (hfit : byteLen w ≤ max) (h : w <+: s) :
    w <+: truncateBody s max := by
  obtain ⟨t, rfl⟩ := h
  rw [truncateBody]
  split_ifs
  · exact List.prefix_append _ _
  · obtain ⟨r, hr⟩ := prefix_bytePrefix t hfit
    rw [← hr]
    cases hs : splitLast '\n' (w ++ r) with
    | none => exact prefix_trimEnd hw (List.prefix_append _ _)
    | some p =>
        exact prefix_trimEnd hw
          (prefix_splitLast (ne_newline_of_word hw) (List.prefix_append _ _) hs)

end Beginning

end AnyPlayerSync.Sources
