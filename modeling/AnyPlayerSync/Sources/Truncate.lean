import AnyPlayerSync.Foundation.Collapse
import AnyPlayerSync.Foundation.Offsets
import AnyPlayerSync.Sources.Clean

/-!
# Truncated bodies

`truncate_body` on a string as the program holds it: `truncateBody?` lowers the limit to a character
boundary and takes its slices at byte offsets. It gives `truncateBody` on every text
(`returns_truncateBody`), so the search ends and no slice fails.

A text that is too long should keep every whole line that fits (`KeepsWholeLines`). The code looks
for the last newline among the first `max` bytes. A newline right after them ends a line that fits
and is not among them, so that line is lost (`keepsWholeLines_iff`).
-/

set_option autoImplicit false

namespace AnyPlayerSync.Sources

open AnyPlayerSync.Foundation
open AnyPlayerSync.Foundation.Offsets
open AnyPlayerSync.Foundation.Text

/-! ## On bytes -/

/-- The text if it fits, else the whole lines of its first `max` bytes; `turns` bounds the search
for a character boundary. -/
def truncateBody? (turns : Nat) (text : Str) (max : Nat) : Option Str :=
  if len text ≤ max then some text
  else
    (lower? Char.utf8Size text turns max).bind fun stop =>
      (slice text 0 stop).bind fun front =>
        (slice text 0 ((rfind '\n' front).getD stop)).map trimEnd

/-- `truncate_body` returns: its search ends and its slices exist. -/
def Returns (text : Str) (max : Nat) (body : Str) : Prop :=
  ∀ turns, max < turns → truncateBody? turns text max = some body

/-- The beginning fits. -/
def Fits (max : Nat) (p : Str) : Prop := len p ≤ max

theorem longest_bytePrefix (max : Nat) (s : Str) : Longest (Fits max) s (bytePrefix max s) := by
  refine ⟨?_, ?_, ?_⟩
  · induction s generalizing max with
    | nil => exact List.nil_prefix
    | cons c s ih =>
        rw [bytePrefix]
        split_ifs
        · exact (List.prefix_cons_inj c).2 (ih _)
        · exact List.nil_prefix
  · induction s generalizing max with
    | nil => exact Nat.zero_le max
    | cons c s ih =>
        rw [bytePrefix, Fits]
        split_ifs with hc
        · have hrest : len (bytePrefix (max - c.utf8Size) s) ≤ max - c.utf8Size := ih _
          rw [len, span_cons, ← len]
          omega
        · exact Nat.zero_le max
  · rintro q ⟨t, rfl⟩ hq
    exact prefix_bytePrefix t ((byteLen_eq_len q).le.trans hq)

/-- **The search ends and no slice fails.** -/
theorem returns_truncateBody (text : Str) (max : Nat) : Returns text max (truncateBody text max) := by
  intro turns hturns
  rw [truncateBody?, truncateBody, byteLen_eq_len]
  split_ifs with hfits
  · rfl
  · have hfront := longest_bytePrefix max text
    have hstop := lower?_eq_some Char.utf8Size_pos turns hfront
      ((Nat.sub_le _ _).trans_lt hturns)
    have hslice := slice_begins hfront.begins
    rw [hstop, Option.bind_some]
    rw [len] at hslice
    rw [hslice, Option.bind_some]
    cases hsplit : splitLast '\n' (bytePrefix max text) with
    | none =>
        rw [rfind_of_not_mem (splitLast_eq_none_iff.1 hsplit), Option.getD_none, hslice]
        rfl
    | some halves =>
        obtain ⟨before, after⟩ := halves
        have hcut := splitLast_eq hsplit
        have hbefore : before <+: text := by
          apply List.IsPrefix.trans _ hfront.begins
          rw [hcut]
          exact List.prefix_append _ _
        have hrfind : rfind '\n' (bytePrefix max text) = some (len before) := by
          rw [hcut]
          exact rfind_append_cons (not_mem_of_splitLast hsplit) before
        rw [hrfind, Option.getD_some, slice_begins hbefore]
        rfl

/-! ## Whole lines -/

/-- The beginning fits and ends with a line, right before a newline. -/
def EndsLine (text : Str) (max : Nat) (p : Str) : Prop := Fits max p ∧ p ++ ['\n'] <+: text

/-- What is to be kept of a text that is too long: the longest beginning that fits and ends with a
line, or the longest that fits when no line ends in it. -/
def WholeLines (text : Str) (max : Nat) (kept : Str) : Prop :=
  Longest (EndsLine text max) text kept ∨
    (∀ p, ¬ EndsLine text max p) ∧ Longest (Fits max) text kept

/-- Every whole line that fits is kept. -/
structure KeepsWholeLines (text : Str) (max : Nat) : Prop where
  short : len text ≤ max → Returns text max text
  long : max < len text → ∃ kept, WholeLines text max kept ∧ Returns text max (trimEnd kept)

/-- A line that is not blank, and not the first of the text, ends right after `max` bytes. -/
def LineEndsAt (text : Str) (max : Nat) : Prop :=
  ∃ before line rest, text = before ++ '\n' :: (line ++ '\n' :: rest) ∧
    len (before ++ '\n' :: line) = max ∧ '\n' ∉ line ∧ ¬ Blank line

section Lines

variable {text p q : Str} {max : Nat}

theorem Returns.unique {body body' : Str} (h : Returns text max body)
    (h' : Returns text max body') : body = body' :=
  Option.some.inj ((h (max + 1) (Nat.lt_succ_self max)).symm.trans (h' _ (Nat.lt_succ_self max)))

/-- A beginning that fits exactly is the longest that fits. -/
theorem longest_of_len_eq (hp : p <+: text) (hlen : len p = max) : Longest (Fits max) text p := by
  refine ⟨hp, hlen.le, fun q hq hfits => ?_⟩
  rcases List.prefix_or_prefix_of_prefix hq hp with h | ⟨t, rfl⟩
  · exact h
  · have hle : len (p ++ t) ≤ max := hfits
    rw [len_append] at hle
    have hnil : t = [] := (len_eq_zero_iff t).1 (by omega)
    rw [hnil, List.append_nil]

theorem line_begins (p rest : Str) : p ++ ['\n'] <+: p ++ '\n' :: rest := by
  rw [List.prefix_append_right_inj, List.cons_prefix_cons]
  exact ⟨rfl, List.nil_prefix⟩

/-- A line ends where the longest beginning that fits does, or within it. -/
theorem endsLine_iff {c : Char} {rest : Str} (hp : Longest (Fits max) text p)
    (htext : text = p ++ c :: rest) :
    EndsLine text max q ↔ (q = p ∧ c = '\n') ∨ q ++ ['\n'] <+: p := by
  constructor
  · rintro ⟨hfits, hline⟩
    have hq : q <+: p := hp.longest q ((List.prefix_append _ _).trans hline) hfits
    obtain ⟨t, ht⟩ := hq
    cases t with
    | nil =>
        rw [List.append_nil] at ht
        rw [htext, ht, List.prefix_append_right_inj, List.cons_prefix_cons] at hline
        exact Or.inl ⟨ht, hline.1.symm⟩
    | cons d t =>
        rw [htext, ← ht, List.append_assoc, List.prefix_append_right_inj, List.cons_append,
          List.cons_prefix_cons] at hline
        right
        rw [← ht, ← hline.1]
        exact line_begins q t
  · rintro (⟨rfl, rfl⟩ | hline)
    · exact ⟨hp.holds, htext ▸ line_begins q rest⟩
    · refine ⟨?_, hline.trans hp.begins⟩
      have hle := span_le_of_prefix Char.utf8Size ((List.prefix_append q _).trans hline)
      exact hle.trans hp.holds

/-- The last line ends at the last newline. -/
theorem prefix_of_line_prefix {before line : Str} (hline : '\n' ∉ line)
    (h : q ++ ['\n'] <+: before ++ '\n' :: line) : q <+: before := by
  have hq : q <+: before ++ '\n' :: line := (List.prefix_append _ _).trans h
  rcases List.prefix_or_prefix_of_prefix hq (List.prefix_append before _) with hle | ⟨t, rfl⟩
  · exact hle
  · cases t with
    | nil => rw [List.append_nil]
    | cons d t =>
        rw [List.append_assoc, List.prefix_append_right_inj, List.cons_append,
          List.cons_prefix_cons] at h
        exact absurd (h.2.subset (List.mem_append_right t (List.mem_singleton_self _))) hline

theorem truncateBody_of_len_le (h : len text ≤ max) : truncateBody text max = text := by
  rw [truncateBody, byteLen_eq_len]
  exact if_pos h

theorem truncateBody_of_free (hlong : max < len text) (hp : Longest (Fits max) text p)
    (hfree : '\n' ∉ p) : truncateBody text max = trimEnd p := by
  rw [truncateBody, byteLen_eq_len, if_neg (Nat.not_le.2 hlong),
    (longest_bytePrefix max text).unique hp, splitLast_eq_none_iff.2 hfree]

theorem truncateBody_of_line {before line : Str} (hlong : max < len text)
    (hp : Longest (Fits max) text (before ++ '\n' :: line)) (hline : '\n' ∉ line) :
    truncateBody text max = trimEnd before := by
  rw [truncateBody, byteLen_eq_len, if_neg (Nat.not_le.2 hlong),
    (longest_bytePrefix max text).unique hp, splitLast_append_cons hline]

/-- The longest beginning that fits is kept when a newline follows it. -/
theorem longest_endsLine {rest : Str} (hp : Longest (Fits max) text p)
    (htext : text = p ++ '\n' :: rest) : Longest (EndsLine text max) text p :=
  ⟨hp.begins, (endsLine_iff hp htext).2 (Or.inl ⟨rfl, rfl⟩),
    fun q hq hends => hp.longest q hq hends.1⟩

/-- Without a newline in it, it is kept in any case. -/
theorem wholeLines_of_free {c : Char} {rest : Str} (hp : Longest (Fits max) text p)
    (htext : text = p ++ c :: rest) (hfree : '\n' ∉ p) : WholeLines text max p := by
  by_cases hc : c = '\n'
  · subst hc
    exact Or.inl (longest_endsLine hp htext)
  · refine Or.inr ⟨fun q hq => ?_, hp⟩
    rcases (endsLine_iff hp htext).1 hq with ⟨-, hnewline⟩ | hline
    · exact hc hnewline
    · exact hfree (hline.subset (List.mem_append_right q (List.mem_singleton_self _)))

/-- Else what stands before its last newline is, when no newline follows it. -/
theorem wholeLines_of_line {before line rest : Str} {c : Char}
    (hp : Longest (Fits max) text (before ++ '\n' :: line))
    (htext : text = (before ++ '\n' :: line) ++ c :: rest) (hline : '\n' ∉ line)
    (hc : c ≠ '\n') : WholeLines text max before := by
  refine Or.inl ⟨(List.prefix_append _ _).trans hp.begins,
    (endsLine_iff hp htext).2 (Or.inr (line_begins before line)), fun q _ hq => ?_⟩
  rcases (endsLine_iff hp htext).1 hq with ⟨-, hnewline⟩ | h
  · exact absurd hnewline hc
  · exact prefix_of_line_prefix hline h

/-- A newline that does not fit stands at the limit. -/
theorem len_eq_of_newline {rest : Str} (hp : Longest (Fits max) text p)
    (htext : text = p ++ '\n' :: rest) : len p = max := by
  have hle : len p ≤ max := hp.holds
  by_contra hne
  have hmore : p ++ ['\n'] <+: text := htext ▸ line_begins p rest
  have hbyte : len ['\n'] = 1 := rfl
  have hfits : Fits max (p ++ ['\n']) := by
    rw [Fits, len_append]
    omega
  have hlength := (hp.longest _ hmore hfits).length_le
  rw [List.length_append, List.length_singleton] at hlength
  omega

/-- The line that ends at the limit is lost. -/
theorem not_keepsWholeLines (h : LineEndsAt text max) : ¬ KeepsWholeLines text max := by
  obtain ⟨before, line, rest, htext, hlen, hline, hblank⟩ := h
  intro hkeeps
  have hcut : text = (before ++ '\n' :: line) ++ '\n' :: rest := by
    rw [htext, List.append_assoc, List.cons_append]
  have hlong : max < len text := by
    have hpos : 0 < len ('\n' :: rest) := span_pos Char.utf8Size_pos (List.cons_ne_nil _ _)
    rw [hcut, len_append, hlen]
    omega
  have hlongest : Longest (Fits max) text (before ++ '\n' :: line) :=
    longest_of_len_eq (hcut ▸ List.prefix_append _ _) hlen
  have hends := longest_endsLine hlongest hcut
  obtain ⟨kept, hkept, hreturns⟩ := hkeeps.long hlong
  -- the line is to be kept, and the code keeps what stands before it
  have hsame : kept = before ++ '\n' :: line := by
    rcases hkept with hkept | ⟨hnone, -⟩
    · exact hkept.unique hends
    · exact absurd hends.holds (hnone _)
  have hbody := hreturns.unique (returns_truncateBody text max)
  have hnot : ¬ Blank ('\n' :: line) := fun hb => hblank (blank_cons_iff.1 hb).2
  rw [truncateBody_of_line hlong hlongest hline, hsame, trimEnd_append hnot] at hbody
  have hle := (hbody ▸ trimEnd_begins before : before ++ trimEnd ('\n' :: line) <+: before).length_le
  rw [List.length_append] at hle
  exact hnot ((trimEnd_eq_nil_iff _).1 (List.eq_nil_of_length_eq_zero (by omega)))

/-- The lines that fit are kept when no line ends at the limit. -/
theorem keepsWholeLines_of_not (h : ¬ LineEndsAt text max) : KeepsWholeLines text max := by
  have hreturns := returns_truncateBody text max
  constructor
  · intro hfits
    rwa [truncateBody_of_len_le hfits] at hreturns
  · intro hlong
    have hp := longest_bytePrefix max text
    generalize bytePrefix max text = p at hp
    obtain ⟨rest, htext⟩ := hp.begins
    cases rest with
    | nil =>
        rw [List.append_nil] at htext
        subst htext
        exact absurd hp.holds (Nat.not_le.2 hlong)
    | cons c rest =>
        cases hsplit : splitLast '\n' p with
        | none =>
            have hfree := splitLast_eq_none_iff.1 hsplit
            rw [truncateBody_of_free hlong hp hfree] at hreturns
            exact ⟨p, wholeLines_of_free hp htext.symm hfree, hreturns⟩
        | some halves =>
            obtain ⟨before, line⟩ := halves
            have hline := not_mem_of_splitLast hsplit
            obtain rfl := splitLast_eq hsplit
            rw [truncateBody_of_line hlong hp hline] at hreturns
            by_cases hc : c = '\n'
            · -- the line that ends at the limit is blank, and trimmed off either way
              subst hc
              have hblank : Blank line := by
                by_contra hblank
                refine h ⟨before, line, rest, ?_, len_eq_of_newline hp htext.symm, hline, hblank⟩
                rw [← htext, List.append_assoc, List.cons_append]
              have hend : Blank ('\n' :: line) := blank_cons_iff.2 ⟨by decide, hblank⟩
              refine ⟨_, Or.inl (longest_endsLine hp htext.symm), ?_⟩
              rwa [trimEnd_append_blank before hend]
            · exact ⟨before, wholeLines_of_line hp htext.symm hline hc, hreturns⟩

end Lines

/-- **When every whole line that fits is kept**: a body is returned for every text, and it is the
one asked for exactly when no line of the text but the first, or a blank one, ends at the limit. -/
theorem keepsWholeLines_iff (text : Str) (max : Nat) :
    Returns text max (truncateBody text max) ∧
      (KeepsWholeLines text max ↔ ¬ LineEndsAt text max) :=
  ⟨returns_truncateBody text max, fun h hends => not_keepsWholeLines hends h,
    keepsWholeLines_of_not⟩

/-- Two lines of three letters fit in seven bytes, and one is kept. -/
theorem not_keepsWholeLines_seven : ¬ KeepsWholeLines "aaa\nbbb\nccc".toList 7 :=
  not_keepsWholeLines ⟨"aaa".toList, "bbb".toList, "ccc".toList, by decide, by decide, by decide,
    by decide⟩

end AnyPlayerSync.Sources
