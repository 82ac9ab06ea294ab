import AnyPlayerSync.Foundation.TextParts
import AnyPlayerSync.Sources.Genius

/-!
# Lyrics in a Genius document

`song_body` looks for a fragment in each paragraph and each annotation on its own, and joins those
it keeps by a blank line. `songBody_fragment_free_iff`: the body contains no fragment exactly when
none stands across such a seam. A fragment of one line never does (`songBody_free_of_one_line`).
-/

set_option autoImplicit false

namespace AnyPlayerSync.Sources

open AnyPlayerSync.Foundation
open AnyPlayerSync.Foundation.Text

namespace Genius

/-! ## The texts that are kept -/

/-- The referents of a response. -/
def referentsOf (referents : Json) : List Json :=
  ((referents.pointer (["response", "referents"].map String.toList)).bind Json.asArray).getD []

/-- The non-empty fragments of the referents. -/
def fragments (referents : Json) : List Str :=
  ((referentsOf referents).filterMap fun r => (r.index "fragment".toList).asStr).filter fun f =>
    f ≠ []

/-- The paragraphs of the description that quote no fragment. -/
def keptParagraphs (song : Json) (fragments : List Str) : List Str :=
  (description ((song.index "response".toList).index "song".toList)).toList.flatMap fun text =>
    ((splitStr "\n\n".toList text).map trim).filter fun p => p ≠ [] ∧ quotes fragments p = false

/-- The annotations that quote no fragment. -/
def keptAnnotations (referents : Json) : List Str :=
  (referentsOf referents).flatMap fun r =>
    (r.index "annotations".toList).elements.filterMap fun a => annotation (fragments referents) a

/-- All that a body is made of. -/
def keptTexts (song referents : Json) : List Str :=
  keptParagraphs song (fragments referents) ++ keptAnnotations referents

/-- The body is the kept texts, with a blank line between them. -/
theorem songBody_eq (song referents : Json) :
    songBody song referents = join "\n\n".toList (keptTexts song referents) := by
  have hbody : songBody song referents = join "\n\n".toList
      (((description ((song.index "response".toList).index "song".toList)).bind fun text =>
        stripLyricParagraphs text (fragments referents)).toList ++ keptAnnotations referents) := rfl
  rw [hbody, keptTexts, keptParagraphs]
  cases description ((song.index "response".toList).index "song".toList) with
  | none => rfl
  | some text =>
      rw [Option.toList_some, List.flatMap_singleton, Option.bind_some, stripLyricParagraphs]
      split_ifs with hkept
      · rw [hkept]
        rfl
      · exact join_join _ hkept _

theorem not_infix_of_quotes {fragments : List Str} {text f : Str}
    (h : quotes fragments text = false) (hf : f ∈ fragments) : ¬ f <:+: text := by
  intro hin
  have hall := List.any_eq_false.1 h f hf
  exact hall (decide_eq_true hin)

/-- No kept text contains a fragment. -/
theorem keptTexts_free {song referents : Json} {f text : Str} (hf : f ∈ fragments referents)
    (ht : text ∈ keptTexts song referents) : ¬ f <:+: text := by
  rcases List.mem_append.1 ht with ht | ht
  · obtain ⟨description, -, ht⟩ := List.mem_flatMap.1 ht
    have hkept := of_decide_eq_true (List.mem_filter.1 ht).2
    exact not_infix_of_quotes hkept.2 hf
  · obtain ⟨referent, -, ht⟩ := List.mem_flatMap.1 ht
    obtain ⟨a, -, ha⟩ := List.mem_filterMap.1 ht
    unfold annotation at ha
    obtain ⟨body, -, ha⟩ := Option.bind_eq_some_iff.1 ha
    obtain ⟨plain, -, ha⟩ := Option.bind_eq_some_iff.1 ha
    split_ifs at ha with hclean
    cases ha
    exact not_infix_of_quotes hclean.2 hf

/-! ## What the body contains -/

/-- **The body contains no fragment** exactly when none stands across a seam of the kept texts. -/
theorem songBody_fragment_free_iff (song referents : Json) :
    (∀ f ∈ fragments referents, ¬ f <:+: songBody song referents) ↔
      ∀ f ∈ fragments referents, ∀ before text after,
        keptTexts song referents = before ++ text :: after → after ≠ [] →
          ¬ Crosses "\n\n".toList text (join "\n\n".toList after) f := by
  apply forall₂_congr
  intro f hf
  have hne : f ≠ [] := of_decide_eq_true (List.mem_filter.1 hf).2
  rw [songBody_eq, infix_join_iff hne]
  constructor
  · intro h before text after hsplit hafter hcross
    exact h (Or.inr ⟨before, text, after, hsplit, hafter, hcross⟩)
  · rintro h (⟨text, htext, hin⟩ | ⟨before, text, after, hsplit, hafter, hcross⟩)
    · exact keptTexts_free hf htext hin
    · exact h before text after hsplit hafter hcross

/-- A fragment of one line is never in the body. -/
theorem songBody_free_of_one_line {song referents : Json} {f : Str} (hf : f ∈ fragments referents)
    (hline : '\n' ∉ f) : ¬ f <:+: songBody song referents := by
  have hne : f ≠ [] := of_decide_eq_true (List.mem_filter.1 hf).2
  rw [songBody_eq, infix_join_iff hne]
  rintro (⟨text, htext, hin⟩ | ⟨before, text, after, -, -, hcross⟩)
  · exact keptTexts_free hf htext hin
  · obtain ⟨c, hsep, hc⟩ := Crosses.exists_mem (by decide) hne hcross
    have hnewline : ∀ d ∈ "\n\n".toList, d = '\n' := by simp
    exact hline (hnewline c hsep ▸ hc)

/-- Two paragraphs. -/
def stanzas : Str := "First line\n\nSecond line".toList

/-- A song whose description quotes two stanzas. -/
def stanzaSong : Json :=
  .obj [("response".toList, .obj [("song".toList, .obj [("description".toList,
    .obj [("plain".toList, .str stanzas)])])])]

/-- Referents with the two stanzas as one fragment. -/
def stanzaReferents : Json :=
  .obj [("response".toList, .obj [("referents".toList,
    .arr [.obj [("fragment".toList, .str stanzas), ("annotations".toList, .arr [])]])])]

/-- The body contains the two stanzas. -/
theorem songBody_stanzas : stanzas ∈ fragments stanzaReferents ∧ stanzas ≠ [] ∧
    stanzas <:+: songBody stanzaSong stanzaReferents := by
  decide +kernel

end Genius

end AnyPlayerSync.Sources
