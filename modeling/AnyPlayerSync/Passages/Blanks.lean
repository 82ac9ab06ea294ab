import AnyPlayerSync.Passages.Packing

/-!
# Blank chunks

`split_oversized` keeps the spaces between words in its buffer and puts out the trimmed buffer when
the next unit does not fit, so a buffer of white space alone comes out as an empty fragment. Most
such fragments end up beside text. `chunk_not_blank_iff`: no chunk is blank exactly when every turn
of the packing that leaves a buffer of empty fragments alone leaves it below the target and with
room for the next piece.
-/

set_option autoImplicit false

namespace AnyPlayerSync.Passages

open AnyPlayerSync.Foundation
open AnyPlayerSync.Foundation.Text

/-! ## A blank piece is empty -/

theorem trim_eq_nil_of_blank_trim {s : Str} (h : Blank (trim s)) : trim s = [] :=
  (trim_eq_nil_iff s).2 h.of_trim

theorem not_blank_of_mem_emitTrimmed {s t : Str} (ht : t ∈ emitTrimmed s) : ¬ Blank t := by
  rw [emitTrimmed] at ht
  split_ifs at ht with h
  · cases ht
  · rw [List.mem_singleton.1 ht]
    exact mt trim_eq_nil_of_blank_trim h

/-- A sentence is a trimmed text that is not blank. -/
theorem exists_of_mem_sentencesFrom (text : Str) : ∀ current, ∀ t ∈ sentencesFrom current text,
    ∃ s, t = trim s ∧ ¬ Blank t := by
  have hemit : ∀ s t : Str, t ∈ emitTrimmed s → ∃ s, t = trim s ∧ ¬ Blank t := by
    intro s t ht
    refine ⟨s, ?_, not_blank_of_mem_emitTrimmed ht⟩
    rw [emitTrimmed] at ht
    split_ifs at ht
    · cases ht
    · exact List.mem_singleton.1 ht
  induction text with
  | nil => exact fun current t ht => hemit current t ht
  | cons c rest ih =>
      intro current t ht
      rw [sentencesFrom] at ht
      split_ifs at ht
      · rcases List.mem_append.1 ht with ht | ht
        · exact hemit _ t ht
        · exact ih _ t ht
      · exact ih _ t ht

variable {count : Str → Nat}

/-- Every fragment put out so far is trimmed. -/
def Fragments.Trimmed (f : Fragments) : Prop := ∀ t ∈ f.out, ∃ s, t = trim s

theorem Fragments.Trimmed.concat {f : Fragments} (h : f.Trimmed) (text : Str) :
    (⟨f.out ++ [trim f.current], text⟩ : Fragments).Trimmed := by
  intro t ht
  rcases List.mem_append.1 ht with ht | ht
  · exact h t ht
  · exact ⟨f.current, List.mem_singleton.1 ht⟩

theorem Fragments.Trimmed.push {f : Fragments} (h : f.Trimmed) (text : Str) :
    (f.push count text).Trimmed := by
  rw [Fragments.push]
  split_ifs
  · exact h.concat text
  · exact h

theorem Fragments.Trimmed.addUnit {f : Fragments} (h : f.Trimmed) (unit : Str) :
    (f.addUnit count unit).Trimmed := by
  rw [Fragments.addUnit]
  split_ifs
  · refine List.foldlRecOn _ _ ?_ fun g hg text _ => hg.push text
    rw [Fragments.flush]
    split_ifs
    · exact h
    · exact h.concat []
  · exact h.push unit

theorem eq_nil_of_mem_splitOversized {sentence t : Str} (ht : t ∈ splitOversized count sentence)
    (hb : Blank t) : t = [] := by
  have htrimmed : ((units sentence).foldl (Fragments.addUnit count) ⟨[], []⟩).Trimmed := by
    refine List.foldlRecOn _ _ (fun t ht => ?_) fun g hg unit _ => hg.addUnit unit
    cases ht
  rcases List.mem_append.1 ht with ht | ht
  · obtain ⟨s, rfl⟩ := htrimmed t ht
    exact trim_eq_nil_of_blank_trim hb
  · exact absurd hb (not_blank_of_mem_emitTrimmed ht)

theorem eq_nil_of_mem_pieces {body t : Str} (ht : t ∈ pieces count body) (hb : Blank t) :
    t = [] := by
  obtain ⟨paragraph, -, ht⟩ := List.mem_flatMap.1 ht
  obtain ⟨sentence, hs, ht⟩ := List.mem_flatMap.1 ht
  split_ifs at ht
  · exact eq_nil_of_mem_splitOversized ht hb
  · obtain ⟨-, -, hnot⟩ := exists_of_mem_sentencesFrom _ _ _ hs
    exact absurd (List.mem_singleton.1 ht ▸ hb) hnot

/-! ## The last piece is not blank -/

/-- The list is empty or its last text is not blank. -/
def EndsSolid (l : List Str) : Prop := ∀ t ∈ l.getLast?, ¬ Blank t

theorem EndsSolid.flatMap {α : Type} {f : α → List Str} (l : List α)
    (h : ∀ a ∈ l, EndsSolid (f a)) : EndsSolid (l.flatMap f) := by
  induction l with
  | nil => exact fun t ht => (by cases ht)
  | cons a l ih =>
      intro t ht
      rw [List.flatMap_cons, List.getLast?_append, Option.mem_def, Option.or_eq_some_iff] at ht
      rcases ht with ht | ⟨-, ht⟩
      · exact ih (fun b hb => h b (List.mem_cons_of_mem a hb)) t ht
      · exact h a List.mem_cons_self t ht

/-- The fragments end in text, with at most white space begun after it. -/
def Fragments.Ends (f : Fragments) : Prop :=
  ¬ Blank f.current ∨ (Blank f.current ∧ EndsSolid f.out)

theorem Fragments.Ends.endsSolid {f : Fragments} (h : f.Ends) :
    EndsSolid (f.out ++ emitTrimmed f.current) := by
  intro t ht
  rcases h with hcurrent | ⟨hcurrent, hout⟩
  · rw [emitTrimmed, if_neg (mt (trim_eq_nil_iff _).1 hcurrent), List.getLast?_concat] at ht
    cases ht
    exact mt Blank.of_trim hcurrent
  · rw [emitTrimmed, if_pos ((trim_eq_nil_iff _).2 hcurrent), List.append_nil] at ht
    exact hout t ht

theorem Fragments.not_blank_push (f : Fragments) {text : Str} (h : ¬ Blank text) :
    ¬ Blank (f.push count text).current := by
  rw [Fragments.push]
  split_ifs
  · exact h
  · exact fun hb => h fun c hc => hb c (List.mem_append_right _ hc)

/-- White space after text: the text goes out, or it keeps the white space. -/
theorem Fragments.ends_push_blank {f : Fragments} (h : ¬ Blank f.current) {text : Str}
    (ht : Blank text) : (f.push count text).Ends := by
  rw [Fragments.push]
  split_ifs
  · refine Or.inr ⟨ht, fun t hmem => ?_⟩
    rw [List.getLast?_concat] at hmem
    cases hmem
    exact mt Blank.of_trim h
  · exact Or.inl (mt Blank.of_append_left h)

/-- A unit that is a word and a space, or a word alone. -/
theorem Fragments.ends_addUnit (f : Fragments) {w space : Str} (hw : IsWord w)
    (hspace : space = [] ∨ space = [' ']) : (f.addUnit count (w ++ space)).Ends := by
  have hne : ¬ Blank (w ++ space) := mt Blank.of_append_left hw.not_blank
  rw [Fragments.addUnit]
  split_ifs
  · -- by characters: after the last one of the word the fragment is not blank
    rw [List.map_append, List.foldl_append]
    have hcurrent : ¬ Blank ((w.map ([·])).foldl (Fragments.push count) f.flush).current := by
      have hlast : w = w.dropLast ++ [w.getLast hw.1] := (List.dropLast_append_getLast hw.1).symm
      have hsolid : ¬ Blank [w.getLast hw.1] := by
        intro hb
        have hwhite := hb _ (List.mem_singleton_self _)
        rw [hw.2 _ (List.getLast_mem hw.1)] at hwhite
        cases hwhite
      rw [hlast, List.map_append, List.foldl_append]
      exact Fragments.not_blank_push _ hsolid
    rcases hspace with rfl | rfl
    · exact Or.inl hcurrent
    · exact Fragments.ends_push_blank hcurrent (by decide)
  · exact Or.inl (f.not_blank_push hne)

theorem not_whitespace_getLast_trim {s : Str} (h : trim s ≠ []) :
    isWhitespace ((trim s).getLast h) = false :=
  Bool.not_eq_true _ ▸ List.rdropWhile_last_not isWhitespace (trimStart s) h

/-- The units of a sentence end in a word, with or without a space. -/
theorem exists_last_unit {s : Str} (h : ¬ Blank (trim s)) : ∃ us w space,
    units (trim s) = us ++ [w ++ space] ∧ IsWord w ∧ (space = [] ∨ space = [' ']) := by
  rw [units]
  split_ifs
  · obtain ⟨w, hw, -⟩ := exists_word h
    have hne : splitWhitespace (trim s) ≠ [] := List.ne_nil_of_mem hw
    refine ⟨(splitWhitespace (trim s)).dropLast.map (· ++ [' ']), (splitWhitespace (trim s)).getLast
      hne, [' '], ?_, isWord_of_mem_splitWhitespace (List.getLast_mem hne), Or.inr rfl⟩
    conv_lhs => rw [← List.dropLast_append_getLast hne, List.map_append]
    rfl
  · have hne : trim s ≠ [] := fun hnil => h (by rw [hnil]; intro c hc; cases hc)
    refine ⟨(trim s).dropLast.map ([·]), [(trim s).getLast hne], [], ?_, ⟨?_, ?_⟩, Or.inl rfl⟩
    · conv_lhs => rw [← List.dropLast_append_getLast hne, List.map_append]
      rfl
    · exact List.cons_ne_nil _ _
    · intro c hc
      rw [List.mem_singleton.1 hc]
      exact not_whitespace_getLast_trim hne

theorem endsSolid_pieces (body : Str) : EndsSolid (pieces count body) := by
  refine EndsSolid.flatMap _ fun paragraph _ => EndsSolid.flatMap _ fun sentence hsentence => ?_
  obtain ⟨s, rfl, hnot⟩ := exists_of_mem_sentencesFrom _ _ _ hsentence
  split_ifs
  · obtain ⟨us, w, space, hunits, hw, hspace⟩ := exists_last_unit hnot
    rw [splitOversized, hunits, List.foldl_append]
    exact (Fragments.ends_addUnit _ hw hspace).endsSolid
  · intro t ht
    cases ht
    exact hnot

/-! ## When a chunk is blank -/

theorem blank_join_iff (parts : List Str) : Blank (join [' '] parts) ↔ ∀ s ∈ parts, Blank s := by
  induction parts with
  | nil => exact iff_of_true (fun c hc => (by cases hc)) fun s hs => (by cases hs)
  | cons s parts ih =>
      rw [List.forall_mem_cons]
      by_cases hnil : parts = []
      · rw [hnil, join_singleton]
        exact (and_iff_left fun s hs => (by cases hs)).symm
      · rw [join_cons _ _ hnil, ← ih]
        constructor
        · intro h
          exact ⟨h.of_append_left, fun c hc => h c (by simp [hc])⟩
        · rintro ⟨hs, hparts⟩
          exact hs.append (Blank.append (by decide) hparts)

/-- Empty texts leave their separators. -/
theorem join_empty {buffer : List Str} (h : ∀ t ∈ buffer, t = []) (s : Str) :
    join [' '] (buffer ++ [s]) = List.replicate buffer.length ' ' ++ s := by
  induction buffer with
  | nil => exact join_singleton _ _
  | cons t buffer ih =>
      rw [h t List.mem_cons_self, List.cons_append,
        join_cons _ _ (List.append_ne_nil_of_right_ne_nil _ (List.cons_ne_nil s [])),
        ih fun t ht => h t (List.mem_cons_of_mem _ ht)]
      rfl

variable (count)

/-- The buffer that the loop of `chunk` adds a piece to, after these pieces. -/
def bufferFor (before : List Str) (piece : Str) : List Str :=
  (((before.foldl (Packing.add count) ⟨[], [], 0⟩).makeRoom count piece).dropOverlap
    count piece).current

theorem Packing.Holds.foldl (l : List Str) : ∀ (p : Packing) (b : Pack Str), p.Holds b →
    (l.foldl (Packing.add count) p).Holds
      (l.foldl (Pack.after (OverLimit count) (AtTarget count)) b) := by
  induction l with
  | nil => exact fun _ _ h => h
  | cons piece l ih => exact fun p b h => ih _ _ (h.add count piece).1

theorem opened_all (before : List Str) (piece : Str) :
    ((before.foldl (Pack.after (OverLimit count) (AtTarget count)) ⟨none, []⟩).opened
      (OverLimit count) piece).all = bufferFor count before piece ++ [piece] := by
  have hfold := Packing.Holds.foldl count before ⟨[], [], 0⟩ ⟨none, []⟩ ⟨rfl, rfl⟩
  have hopened := ((hfold.makeRoom count piece).1.append count piece).1.current
  rw [← Pack.opened_eq] at hopened
  exact hopened.symm

/-- A chunk is blank when its pieces are empty. -/
theorem chunks_not_blank_iff (body : Str) : (∀ t ∈ chunk count body, ¬ Blank t) ↔
    ∀ c ∈ layout count body, ¬ c.Only (· = []) := by
  rw [chunk_eq_layout, List.forall_mem_map]
  apply forall₂_congr
  intro c hc
  apply not_congr
  rw [packText, blank_join_iff]
  refine forall₂_congr fun s hs => ⟨eq_nil_of_mem_pieces (mem_of_mem_pack hc hs), ?_⟩
  rintro rfl d hd
  cases hd

variable {count} in
/-- What a turn does with a buffer of empty fragments. -/
theorem spares_empty_iff {buffer : List Str} (hempty : ∀ s ∈ buffer, s = []) (next : Str) :
    (¬ AtTarget count (buffer ++ [[]]) ∧ ¬ OverLimit count (buffer ++ [[]] ++ [next])) ↔
      count (List.replicate buffer.length ' ') < targetTokens ∧
        count (List.replicate (buffer.length + 1) ' ' ++ next) ≤ maxTokens := by
  have hempty' : ∀ s ∈ buffer ++ [[]], s = [] := by
    intro s hs
    rcases List.mem_append.1 hs with hs | hs
    · exact hempty s hs
    · exact List.mem_singleton.1 hs
  rw [AtTarget, OverLimit, join_empty hempty, join_empty hempty', List.append_nil,
    List.length_append, ge_iff_le, gt_iff_lt, Nat.not_le, Nat.not_lt]
  rfl

/-- **No chunk is blank**, exactly when a turn that takes an empty fragment into a buffer of `n`
empty ones leaves `n` spaces below the target, and `n + 1` spaces and the next piece within the
limit. -/
theorem chunk_not_blank_iff (body : Str) :
    (∀ t ∈ chunk count body, ¬ Blank t) ↔
    ∀ before next after, pieces count body = before ++ [] :: next :: after →
      (∀ s ∈ bufferFor count before [], s = []) →
        count (List.replicate (bufferFor count before []).length ' ') < targetTokens ∧
        count (List.replicate ((bufferFor count before []).length + 1) ' ' ++ next) ≤
          maxTokens := by
  have hlast : ∀ t ∈ (pieces count body).getLast?, ¬ t = [] := by
    rintro t ht rfl
    exact endsSolid_pieces body _ ht fun d hd => (by cases hd)
  rw [chunks_not_blank_iff, layout, forall_not_only_iff _ _ hlast fun _ hrun => absurd rfl hrun]
  constructor
  · rintro ⟨-, hspares⟩ before next after hpieces hempty
    have hspare := hspares before [] next after hpieces
    rw [opened_all] at hspare
    refine (spares_empty_iff hempty next).1 (hspare ?_)
    rw [Pack.Only, opened_all]
    intro s hs
    rcases List.mem_append.1 hs with hs | hs
    · exact hempty s hs
    · exact List.mem_singleton.1 hs
  · intro h
    refine ⟨fun hrun => absurd rfl hrun, fun before piece next after hpieces honly => ?_⟩
    rw [Pack.Only, opened_all] at honly
    obtain rfl : piece = [] := honly piece (List.mem_append_right _ (List.mem_singleton_self _))
    have hempty : ∀ s ∈ bufferFor count before [], s = [] := fun s hs =>
      honly s (List.mem_append_left _ hs)
    rw [opened_all]
    exact (spares_empty_iff hempty next).2 (h before next after hpieces hempty)

/-- Two words of as many characters as the limit. -/
def longWords : Str := List.replicate 250 'a' ++ ' ' :: List.replicate 250 'x'

/-- A tokenizer that counts characters makes a blank chunk of the space between them. -/
theorem chunk_longWords_blank :
    (∀ s t : Str, s <:+: t → s.length ≤ t.length) ∧ (∀ c : Char, [c].length ≤ maxTokens) ∧
    ∃ t ∈ chunk List.length longWords, Blank t := by
  refine ⟨fun s t h => h.length_le, fun c => ?_, [], ?_, fun c hc => (by cases hc)⟩
  · exact (by decide : 1 ≤ maxTokens)
  · decide +kernel

end AnyPlayerSync.Passages
