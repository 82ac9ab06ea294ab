import AnyPlayerSync.Foundation.Text

/-!
# Chunks

`passages/chunk.rs`: a body is cut into sentences, a sentence over the limit into fragments, and
these pieces are packed into chunks of roughly `targetTokens` to `maxTokens` tokens. A chunk after
the first opens with the last piece of the chunk before it, when that fits.

The tokenizer is a parameter. The loops are folds over a record of the variables they write.
`chunk_ne_nil`: whatever the tokenizer, a body that is not blank has a chunk.
-/

set_option autoImplicit false

namespace AnyPlayerSync.Passages

open AnyPlayerSync.Foundation
open AnyPlayerSync.Foundation.Text

/-- A chunk of this many tokens is complete. -/
def targetTokens : Nat := 150

/-- The bound on the tokens of a chunk. -/
def maxTokens : Nat := 250

/-! ## Sentences -/

/-- A text to emit, trimmed; nothing for a blank text. -/
def emitTrimmed (s : Str) : List Str := if trim s = [] then [] else [trim s]

/-- A character that ends a sentence, given what follows it. -/
def endsSentence (c : Char) (rest : Str) : Bool :=
  c ∈ ['。', '！', '？'] ||
    (c ∈ ['.', '!', '?'] && match rest with
      | [] => true
      | next :: _ => isWhitespace next)

/-- The loop of `sentences`; `current` is the text since the last end. -/
def sentencesFrom (current : Str) : Str → List Str
  | [] => emitTrimmed current
  | c :: rest =>
      if endsSentence c rest then emitTrimmed (current ++ [c]) ++ sentencesFrom [] rest
      else sentencesFrom (current ++ [c]) rest

/-- The sentences of a paragraph, without the blanks around them. -/
def sentences (paragraph : Str) : List Str := sentencesFrom [] paragraph

/-! ## Fragments of a long sentence -/

section Count

variable (count : Str → Nat)

/-- The variables of `split_oversized`. -/
structure Fragments where
  out : List Str
  current : Str

/-- The current fragment is complete. -/
def Fragments.flush (f : Fragments) : Fragments :=
  if f.current = [] then f else ⟨f.out ++ [trim f.current], []⟩

/-- Append a text to the current fragment, or begin the next fragment with it. -/
def Fragments.push (f : Fragments) (text : Str) : Fragments :=
  if f.current ≠ [] ∧ count (f.current ++ text) > maxTokens then ⟨f.out ++ [trim f.current], text⟩
  else { f with current := f.current ++ text }

/-- One unit; a unit over the limit is added by characters. -/
def Fragments.addUnit (f : Fragments) (unit : Str) : Fragments :=
  if count unit > maxTokens then (unit.map ([·])).foldl (Fragments.push count) f.flush
  else f.push count unit

/-- Words with a space after each, or the characters of an unspaced sentence. -/
def units (sentence : Str) : List Str :=
  if ' ' ∈ sentence then (splitWhitespace sentence).map (· ++ [' ']) else sentence.map ([·])

/-- The fragments of a sentence that is too long for a chunk. -/
def splitOversized (sentence : Str) : List Str :=
  let f := (units sentence).foldl (Fragments.addUnit count) ⟨[], []⟩
  f.out ++ emitTrimmed f.current

/-! ## Packing -/

/-- The pieces of a body, in order. -/
def pieces (body : Str) : List Str :=
  (((body.splitOn '\n').map trim).filter fun p => p ≠ []).flatMap fun paragraph =>
    (sentences paragraph).flatMap fun sentence =>
      if count sentence > maxTokens then splitOversized count sentence else [sentence]

/-- The parts and the next one, with blanks between them. -/
def joined (parts : List Str) (next : Str) : Str :=
  if parts = [] then next else join [' '] parts ++ ' ' :: next

/-- The variables of `chunk`: `added` counts the pieces since the last chunk, without the one it
repeats. -/
structure Packing where
  chunks : List Str
  current : List Str
  added : Nat

/-- The current chunk is complete; its last piece opens the next one. -/
def Packing.emit (p : Packing) : Packing :=
  ⟨p.chunks ++ [join [' '] p.current], p.current.getLast?.toList, 0⟩

/-- A piece that no longer fits ends the chunk. -/
def Packing.makeRoom (p : Packing) (piece : Str) : Packing :=
  if p.added > 0 ∧ count (joined p.current piece) > maxTokens then p.emit else p

/-- The repeated piece is dropped when it does not fit with the next one. -/
def Packing.dropOverlap (p : Packing) (piece : Str) : Packing :=
  if p.added = 0 ∧ count (joined p.current piece) > maxTokens then { p with current := [] } else p

/-- One more piece of the current chunk. -/
def Packing.append (p : Packing) (piece : Str) : Packing :=
  { p with current := p.current ++ [piece], added := p.added + 1 }

/-- A chunk that has reached the target is emitted. -/
def Packing.close (p : Packing) : Packing :=
  if count (join [' '] p.current) ≥ targetTokens then p.emit else p

/-- One turn of the loop of `chunk`. -/
def Packing.add (p : Packing) (piece : Str) : Packing :=
  ((((p.makeRoom count piece).dropOverlap count piece).append piece).close count)

/-- The chunks of a body. -/
def chunk (body : Str) : List Str :=
  let p := (pieces count body).foldl (Packing.add count) ⟨[], [], 0⟩
  if p.added > 0 then p.chunks ++ [join [' '] p.current] else p.chunks

end Count

/-! ## A body that is not blank has a chunk -/

theorem exists_emitTrimmed {s : Str} (h : ¬ Blank s) : ∃ t ∈ emitTrimmed s, ¬ Blank t := by
  refine ⟨trim s, ?_, mt Blank.of_trim h⟩
  rw [emitTrimmed, if_neg (mt (trim_eq_nil_iff s).1 h)]
  exact List.mem_singleton_self _

/-- Text that is not blank gives a sentence, whatever stands before it. -/
theorem exists_sentenceFrom (text : Str) :
    ∀ current, ¬ Blank (current ++ text) → ∃ t ∈ sentencesFrom current text, ¬ Blank t := by
  induction text with
  | nil =>
      intro current h
      rw [List.append_nil] at h
      exact exists_emitTrimmed h
  | cons c rest ih =>
      intro current h
      rw [List.append_cons] at h
      rw [sentencesFrom]
      split_ifs with hend
      · -- what is not blank stands before the sentence end or after it
        by_cases hb : Blank (current ++ [c])
        · obtain ⟨t, ht, hne⟩ := ih [] fun hr => h (hb.append hr)
          exact ⟨t, List.mem_append_right _ ht, hne⟩
        · obtain ⟨t, ht, hne⟩ := exists_emitTrimmed hb
          exact ⟨t, List.mem_append_left _ ht, hne⟩
      · exact ih _ h

variable {count : Str → Nat}

/-- A fragment was emitted or is begun. -/
def Fragments.Started (f : Fragments) : Prop := f.out ≠ [] ∨ ¬ Blank f.current

theorem Fragments.Started.push {f : Fragments} (h : f.Started) (text : Str) :
    (f.push count text).Started := by
  rw [Fragments.push]
  split_ifs
  · exact Or.inl (by simp)
  · exact h.imp_right (mt Blank.of_append_left)

theorem Fragments.started_push (f : Fragments) {text : Str} (h : ¬ Blank text) :
    (f.push count text).Started := by
  rw [Fragments.push]
  split_ifs
  · exact Or.inr h
  · exact Or.inr fun hb => h fun c hc => hb c (List.mem_append_right _ hc)

/-- A step that keeps a property and, on some element of the list, establishes it, leaves it. -/
theorem foldl_establishes {α β : Type} {P : β → Prop} {f : β → α → β} {p : α → Prop}
    (hkeep : ∀ b a, P b → P (f b a)) (hset : ∀ b a, p a → P (f b a)) :
    ∀ (l : List α) (b : β), (P b ∨ ∃ a ∈ l, p a) → P (l.foldl f b)
  | [], b, h => h.resolve_right fun ⟨_, ha, _⟩ => nomatch ha
  | a :: l, b, h => by
      apply foldl_establishes hkeep hset l (f b a)
      rcases h with h | ⟨x, hx, hp⟩
      · exact Or.inl (hkeep b a h)
      · rcases List.mem_cons.1 hx with rfl | hx
        · exact Or.inl (hset b x hp)
        · exact Or.inr ⟨x, hx, hp⟩

theorem exists_char_of_not_blank {s : Str} (h : ¬ Blank s) : ∃ t ∈ s.map ([·]), ¬ Blank t := by
  simp only [Blank, not_forall] at h
  obtain ⟨c, hc, hw⟩ := h
  exact ⟨[c], List.mem_map_of_mem hc, fun hb => hw (hb c (List.mem_singleton_self c))⟩

theorem Fragments.Started.addUnit {f : Fragments} (h : f.Started) (unit : Str) :
    (f.addUnit count unit).Started := by
  rw [Fragments.addUnit]
  split_ifs
  · refine foldl_establishes (p := fun _ => False) (fun _ _ h => h.push _) (fun _ _ h => h.elim) _ _
      (Or.inl ?_)
    rw [Fragments.flush]
    split_ifs
    · exact h
    · exact Or.inl (by simp)
  · exact h.push _

theorem Fragments.started_addUnit (f : Fragments) {unit : Str} (h : ¬ Blank unit) :
    (f.addUnit count unit).Started := by
  rw [Fragments.addUnit]
  split_ifs
  -- over the limit: one of the unit's characters is not blank, whatever was flushed before
  · exact foldl_establishes (p := fun t => ¬ Blank t) (fun _ _ h => h.push _)
      (fun g _ h => g.started_push h) _ _ (Or.inr (exists_char_of_not_blank h))
  · exact f.started_push h

theorem exists_unit {sentence : Str} (h : ¬ Blank sentence) : ∃ u ∈ units sentence, ¬ Blank u := by
  rw [units]
  split_ifs
  -- a sentence with spaces has a word that is not blank, one without is cut into characters
  · obtain ⟨w, hmem, hword⟩ := exists_word h
    exact ⟨w ++ [' '], List.mem_map_of_mem hmem, mt Blank.of_append_left hword.not_blank⟩
  · exact exists_char_of_not_blank h

theorem splitOversized_ne_nil {sentence : Str} (h : ¬ Blank sentence) :
    splitOversized count sentence ≠ [] := by
  have hstarted : ((units sentence).foldl (Fragments.addUnit count) ⟨[], []⟩).Started :=
    foldl_establishes (p := fun u => ¬ Blank u) (fun _ _ h => h.addUnit _)
      (fun f _ h => f.started_addUnit h) _ _ (Or.inr (exists_unit h))
  rcases hstarted with hout | hcurrent
  · exact List.append_ne_nil_of_left_ne_nil hout _
  · obtain ⟨t, ht, -⟩ := exists_emitTrimmed hcurrent
    exact List.append_ne_nil_of_right_ne_nil _ (List.ne_nil_of_mem ht)

theorem pieces_ne_nil {body : Str} (h : ¬ Blank body) : pieces count body ≠ [] := by
  simp only [Blank, not_forall] at h
  obtain ⟨c, hc, hw⟩ := h
  have hnl : (c == '\n') = false := by
    by_contra hb
    rw [Bool.not_eq_false, beq_iff_eq] at hb
    exact hw (hb ▸ rfl)
  -- the character that is not white space lies on some line, which becomes a paragraph
  obtain ⟨line, hline, hcl⟩ := exists_mem_splitOnP (p := (· == '\n')) hc hnl
  have hne : ¬ Blank line := fun hb => hw (hb c hcl)
  obtain ⟨sentence, hsentence, hs⟩ := exists_sentenceFrom (trim line) [] (mt Blank.of_trim hne)
  have hparagraph : trim line ∈ ((body.splitOn '\n').map trim).filter fun p => p ≠ [] := by
    have hpart : line ∈ body.splitOn '\n' := by rwa [List.splitOn_eq_splitOnP]
    have hsome : trim line ≠ [] := mt (trim_eq_nil_iff line).1 hne
    exact List.mem_filter.2 ⟨List.mem_map_of_mem hpart, decide_eq_true hsome⟩
  have hsub : ∀ piece ∈ (if count sentence > maxTokens then splitOversized count sentence
      else [sentence]), piece ∈ pieces count body := fun piece hpiece =>
    List.mem_flatMap.2 ⟨_, hparagraph, List.mem_flatMap.2 ⟨_, hsentence, hpiece⟩⟩
  split_ifs at hsub
  · obtain ⟨piece, hpiece⟩ := List.exists_mem_of_ne_nil _ (splitOversized_ne_nil hs)
    exact List.ne_nil_of_mem (hsub piece hpiece)
  · exact List.ne_nil_of_mem (hsub sentence (List.mem_singleton_self _))

/-- Something was packed. -/
def Packing.Started (p : Packing) : Prop := p.chunks ≠ [] ∨ 0 < p.added

theorem Packing.started_add (p : Packing) (piece : Str) : (p.add count piece).Started := by
  rw [Packing.add, Packing.close]
  split_ifs
  · exact Or.inl (by simp [Packing.emit])
  · exact Or.inr (Nat.succ_pos _)

/-- A body that is not blank has a chunk, whatever the tokenizer counts. -/
theorem chunk_ne_nil {body : Str} (h : ¬ Blank body) : chunk count body ≠ [] := by
  obtain ⟨piece, hpiece⟩ := List.exists_mem_of_ne_nil (pieces count body) (pieces_ne_nil h)
  have hstarted : ((pieces count body).foldl (Packing.add count) ⟨[], [], 0⟩).Started :=
    foldl_establishes (p := fun _ => True) (fun p a _ => p.started_add a)
      (fun p a _ => p.started_add a) _ _ (Or.inr ⟨piece, hpiece, trivial⟩)
  rw [chunk]
  split_ifs with hadded
  · exact List.append_ne_nil_of_right_ne_nil _ (List.cons_ne_nil _ _)
  · exact hstarted.resolve_right hadded

end AnyPlayerSync.Passages
