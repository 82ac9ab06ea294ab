import AnyPlayerSync.Foundation.Collapse
import AnyPlayerSync.Keys.MatchKeys

/-!
# Keys by words

A match key is the keys of the words of a text, joined by single spaces (`matchKey_eq`). From this:
the key of a text is the key of the trimmed text, a word put before a text leaves the key of the
text in the key, and a disambiguation put after a text comes after its key.
-/

set_option autoImplicit false

namespace AnyPlayerSync.Keys

open AnyPlayerSync.Foundation
open AnyPlayerSync.Foundation.Text

variable (U : UnicodeTables)

/-! ## Joining -/

theorem join_words_cons (w : Str) {ws : List Str} (h : ws ≠ []) :
    join " ".toList (w :: ws) = w ++ ' ' :: join " ".toList ws := join_cons _ w h

theorem join_words_concat {ws : List Str} (h : ws ≠ []) (v : Str) :
    join " ".toList (ws ++ [v]) = join " ".toList ws ++ ' ' :: v := by
  rw [join_append _ h (List.cons_ne_nil v []), join_singleton]
  rfl

/-! ## The key of a word -/

/-- What a word contributes to a key. -/
def keyWord (w : Str) : Str := foldDashes (toLowercase U w)

theorem foldDashes_append (s t : Str) : foldDashes (s ++ t) = foldDashes s ++ foldDashes t :=
  List.map_append

/-- What is written in lower-case ASCII is its own key. -/
theorem keyWord_ascii {w : Str} (hw : ∀ c ∈ w, c.toNat < 128 ∧ c.toLower = c) :
    keyWord U w = w := by
  rw [keyWord, toLowercase_ascii U hw, foldDashes]
  refine (List.map_congr_left fun c hc => ?_).trans (List.map_id w)
  apply if_neg
  intro hdash
  have hascii := (hw c hc).1
  simp only [dashes, List.mem_cons, List.not_mem_nil, or_false] at hdash
  -- every dash of the list lies outside ASCII
  rcases hdash with rfl | rfl | rfl | rfl | rfl | rfl <;> exact absurd hascii (by decide)

theorem foldDashes_join (ws : List Str) :
    foldDashes (join " ".toList ws) = join " ".toList (ws.map foldDashes) :=
  apply_join rfl (fun s t => foldDashes_append s (' ' :: t)) ws

theorem keyWord_join (ws : List Str) :
    foldDashes (toLowercase U (join " ".toList ws)) = join " ".toList (ws.map (keyWord U)) := by
  rw [toLowercase_join, foldDashes_join, List.map_map]
  rfl

/-! ## The key of a text -/

/-- **Normal form** of a match key. -/
theorem matchKey_eq (s : Str) :
    matchKey U s = join " ".toList ((splitWhitespace s).map (keyWord U)) :=
  keyWord_join U (splitWhitespace s)

theorem matchKey_congr {s t : Str} (h : splitWhitespace s = splitWhitespace t) :
    matchKey U s = matchKey U t := by
  rw [matchKey_eq, matchKey_eq, h]

theorem matchKey_trim (s : Str) : matchKey U (trim s) = matchKey U s :=
  matchKey_congr U (splitWhitespace_trim s)

theorem matchKey_of_no_word {s : Str} (h : splitWhitespace s = []) : matchKey U s = [] := by
  rw [matchKey_eq, h]
  rfl

/-- The key of a text that begins with a word. -/
theorem matchKey_word_cons {w : Str} (hw : IsWord w) (s : Str) :
    matchKey U (w ++ ' ' :: s) =
      if splitWhitespace s = [] then keyWord U w else keyWord U w ++ ' ' :: matchKey U s := by
  rw [matchKey_eq, splitWhitespace_word_cons hw.1 hw.2 (by decide), List.map_cons]
  split_ifs with h
  · rw [h]
    exact join_singleton _ _
  · rw [join_words_cons _ (mt List.map_eq_nil_iff.1 h), ← matchKey_eq]

/-- A word put before a text leaves the key of the text in the key. -/
theorem matchKey_infix_word_cons {w : Str} (hw : IsWord w) (s : Str) :
    matchKey U s <:+: matchKey U (w ++ ' ' :: s) := by
  rw [matchKey_word_cons U hw]
  split_ifs with h
  · rw [matchKey_of_no_word U h]
    exact List.nil_infix
  · exact (List.suffix_cons _ _).isInfix.trans (List.suffix_append _ _).isInfix

theorem keyWord_prefix_word_cons {w : Str} (hw : IsWord w) (s : Str) :
    keyWord U w <+: matchKey U (w ++ ' ' :: s) := by
  rw [matchKey_word_cons U hw]
  split_ifs
  · exact List.prefix_refl _
  · exact List.prefix_append _ _

/-- A disambiguation in parentheses comes after the key. -/
theorem matchKey_parentheses {s : Str} (h : splitWhitespace s ≠ []) :
    matchKey U (s ++ " ()".toList) = matchKey U s ++ " ()".toList := by
  have hwords : splitWhitespace (s ++ ' ' :: "()".toList) = splitWhitespace s ++ ["()".toList] :=
    splitWhitespace_append_cons s _ (by decide)
  have hkey : keyWord U "()".toList = "()".toList := keyWord_ascii U (by simp)
  change matchKey U (s ++ ' ' :: "()".toList) = _
  rw [matchKey_eq, hwords, List.map_append, List.map_singleton,
    join_words_concat (mt List.map_eq_nil_iff.1 h), hkey, ← matchKey_eq]
  rfl

end AnyPlayerSync.Keys
