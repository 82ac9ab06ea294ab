import AnyPlayerSync.Foundation.Packs
import AnyPlayerSync.Foundation.TextParts
import AnyPlayerSync.Passages.Chunk

/-!
# Packing

What `chunk` makes of a body, whatever the tokenizer counts. The pieces of a body hold all its
characters but white space, once and in order (`solid_pieces`), and the loop of `chunk` is a greedy
packing with an overlap (`chunk_eq_layout`).

- `chunk_pieces`: nothing is lost and nothing doubled but the piece a chunk repeats.
- `chunk_count_le`: a chunk is within the limit.
- `chunk_packed`: when a chunk ends, and when the next one repeats its last piece.
-/

set_option autoImplicit false

namespace AnyPlayerSync.Passages

open AnyPlayerSync.Foundation
open AnyPlayerSync.Foundation.Text

/-! ## The pieces hold the body -/

/-- Trimming keeps the solid characters. -/
theorem solid_emitTrimmed (s : Str) : solid (emitTrimmed s).flatten = solid s := by
  rw [emitTrimmed]
  split_ifs with h
  · exact ((solid_eq_nil_iff s).2 ((trim_eq_nil_iff s).1 h)).symm
  · rw [List.flatten_singleton, solid_trim]

/-- Sentences keep them in order. -/
theorem solid_sentencesFrom (text : Str) :
    ∀ current, solid (sentencesFrom current text).flatten = solid (current ++ text) := by
  induction text with
  | nil =>
      intro current
      rw [sentencesFrom, solid_emitTrimmed, List.append_nil]
  | cons c rest ih =>
      intro current
      have hcurrent : current ++ c :: rest = current ++ [c] ++ rest := List.append_cons _ _ _
      rw [sentencesFrom, hcurrent]
      split_ifs
      · rw [List.flatten_append, solid_append, solid_emitTrimmed, ih, List.nil_append,
          ← solid_append]
      · exact ih _

variable {count : Str → Nat}

/-- What a splitting holds: the fragments it has put out and the one it has begun. -/
def Fragments.held (f : Fragments) : Str := solid (f.out.flatten ++ f.current)

theorem Fragments.held_flush (f : Fragments) : f.flush.held = f.held := by
  rw [flush]
  split_ifs
  · rfl
  · rw [held, held, List.flatten_concat, List.append_nil, solid_append, solid_append, solid_trim]

theorem Fragments.held_push (f : Fragments) (text : Str) :
    (f.push count text).held = f.held ++ solid text := by
  rw [push]
  split_ifs
  · rw [held, held, List.flatten_concat, solid_append, solid_append, solid_append, solid_trim]
  · rw [held, held, ← List.append_assoc, solid_append]

theorem Fragments.held_pushes (texts : List Str) : ∀ f : Fragments,
    (texts.foldl (Fragments.push count) f).held = f.held ++ solid texts.flatten := by
  induction texts with
  | nil =>
      intro f
      exact (List.append_nil _).symm
  | cons text texts ih =>
      intro f
      rw [List.foldl_cons, ih, held_push, List.flatten_cons, solid_append, List.append_assoc]

theorem flatten_chars (s : Str) : (s.map ([·])).flatten = s := by
  induction s with
  | nil => rfl
  | cons c s ih => rw [List.map_cons, List.flatten_cons, ih, List.singleton_append]

/-- A unit is added with all its solid characters. -/
theorem Fragments.held_addUnit (f : Fragments) (unit : Str) :
    (f.addUnit count unit).held = f.held ++ solid unit := by
  rw [addUnit]
  split_ifs
  · rw [held_pushes, held_flush, flatten_chars]
  · exact f.held_push unit

theorem Fragments.held_addUnits (count : Str → Nat) (us : List Str) : ∀ f : Fragments,
    (us.foldl (Fragments.addUnit count) f).held = f.held ++ solid us.flatten := by
  induction us with
  | nil =>
      intro f
      exact (List.append_nil _).symm
  | cons unit us ih =>
      intro f
      rw [List.foldl_cons, ih, held_addUnit, List.flatten_cons, solid_append, List.append_assoc]

theorem solid_units (sentence : Str) : solid (units sentence).flatten = solid sentence := by
  have hspace : ∀ w, solid (w ++ [' ']) = solid w := by
    intro w
    rw [solid_append]
    exact List.append_nil _
  rw [units]
  split_ifs
  · rw [solid_map hspace, solid_splitWhitespace]
  · rw [flatten_chars]

/-- So are all units of a long sentence. -/
theorem solid_splitOversized (sentence : Str) :
    solid (splitOversized count sentence).flatten = solid sentence := by
  have hheld := Fragments.held_addUnits count (units sentence) ⟨[], []⟩
  rw [solid_units] at hheld
  rw [splitOversized, List.flatten_append, solid_append, solid_emitTrimmed, ← solid_append]
  exact hheld

/-- The pieces of a body hold its characters, but for white space, once and in order. -/
theorem solid_pieces (body : Str) : solid (pieces count body).flatten = solid body := by
  have hsentence : ∀ sentence, solid (if count sentence > maxTokens then
      splitOversized count sentence else [sentence]).flatten = solid sentence := by
    intro sentence
    split_ifs
    · exact solid_splitOversized sentence
    · rw [List.flatten_singleton]
  have hparagraph : ∀ paragraph, solid ((sentences paragraph).flatMap fun sentence =>
      if count sentence > maxTokens then splitOversized count sentence else [sentence]).flatten =
        solid paragraph := by
    intro paragraph
    rw [solid_flatMap (g := id) hsentence, List.map_id, sentences, solid_sentencesFrom,
      List.nil_append]
  have hnewline : ∀ c : Char, (c == '\n') = true → isWhitespace c = true := by
    intro c hc
    rw [beq_iff_eq.1 hc]
    decide
  rw [pieces, solid_flatMap (g := id) hparagraph, List.map_id, List.flatten_filter_ne_nil,
    solid_map solid_trim, List.splitOn_eq_splitOnP, solid_splitOnP hnewline]

/-! ## The loop as a packing -/

section Layout

variable (count)

/-- The test of the loop on the pieces it would join. -/
def OverLimit (parts : List Str) : Prop := count (join [' '] parts) > maxTokens

/-- The pieces make a chunk that is complete. -/
def AtTarget (parts : List Str) : Prop := count (join [' '] parts) ≥ targetTokens

instance : DecidablePred (OverLimit count) := fun parts =>
  inferInstanceAs (Decidable (count (join [' '] parts) > maxTokens))

instance : DecidablePred (AtTarget count) := fun parts =>
  inferInstanceAs (Decidable (count (join [' '] parts) ≥ targetTokens))

/-- The pieces of a body as the chunks hold them. -/
def layout (body : Str) : List (Pack Str) :=
  pack (OverLimit count) (AtTarget count) ⟨none, []⟩ (pieces count body)

end Layout

/-- The chunk that holds these pieces. -/
def packText (b : Pack Str) : Str := join [' '] b.all

/-- The test joins the parts as the chunk does. -/
theorem joined_eq (parts : List Str) (next : Str) :
    joined parts next = join [' '] (parts ++ [next]) := by
  rw [joined]
  split_ifs with h
  · rw [h, List.nil_append, join_singleton]
  · rw [join_append _ h (List.cons_ne_nil next []), join_singleton]
    rfl

/-- The variables of `chunk` hold the open pack. -/
structure Packing.Holds (p : Packing) (b : Pack Str) : Prop where
  current : p.current = b.all
  added : p.added = b.run.length

namespace Packing

variable {p : Packing} {b : Pack Str}

theorem Holds.added_pos (h : p.Holds b) : p.added > 0 ↔ b.run ≠ [] := by
  rw [h.added, gt_iff_lt, List.length_pos_iff]

/-- The chunk is emitted, and its last piece opens the next pack. -/
theorem Holds.emit (h : p.Holds b) (hrun : b.run ≠ []) :
    p.emit.Holds b.next ∧ p.emit.chunks = p.chunks ++ [packText b] := by
  refine ⟨⟨?_, rfl⟩, ?_⟩
  · -- the last piece of the chunk is the last new one
    rw [Packing.emit, h.current, Pack.all, List.getLast?_append_of_ne_nil _ hrun, Pack.next,
      Pack.all, List.append_nil]
  · rw [Packing.emit, h.current, packText]

/-- Room is made when the abstract pack yields. -/
theorem Holds.makeRoom (h : p.Holds b) (count : Str → Nat) (piece : Str) :
    (p.makeRoom count piece).Holds (if b.Yields (OverLimit count) piece then b.next else b) ∧
      (p.makeRoom count piece).chunks =
        p.chunks ++ (if b.Yields (OverLimit count) piece then [b] else []).map packText := by
  have hiff : (p.added > 0 ∧ count (joined p.current piece) > maxTokens) ↔
      b.Yields (OverLimit count) piece := by
    rw [h.added_pos, joined_eq, h.current]
    rfl
  rw [Packing.makeRoom]
  by_cases hy : b.Yields (OverLimit count) piece
  · rw [if_pos (hiff.2 hy), if_pos hy, if_pos hy]
    exact h.emit hy.1
  · rw [if_neg (mt hiff.1 hy), if_neg hy, if_neg hy]
    exact ⟨h, (List.append_nil _).symm⟩

/-- The piece is added, with or without the repeated one. -/
theorem Holds.append (h : p.Holds b) (count : Str → Nat) (piece : Str) :
    ((p.dropOverlap count piece).append piece).Holds (b.add (OverLimit count) piece) ∧
      ((p.dropOverlap count piece).append piece).chunks = p.chunks := by
  have hiff : (p.added = 0 ∧ count (joined p.current piece) > maxTokens) ↔
      (b.run = [] ∧ OverLimit count (b.all ++ [piece])) := by
    rw [h.added, List.length_eq_zero_iff, joined_eq, h.current]
    rfl
  rw [Packing.dropOverlap, Pack.add]
  by_cases hdrop : b.run = [] ∧ OverLimit count (b.all ++ [piece])
  · rw [if_pos (hiff.2 hdrop), if_pos hdrop]
    refine ⟨⟨rfl, ?_⟩, rfl⟩
    rw [Packing.append, (hiff.2 hdrop).1]
    rfl
  · rw [if_neg (mt hiff.1 hdrop), if_neg hdrop]
    refine ⟨⟨?_, ?_⟩, rfl⟩
    · rw [Packing.append, h.current, Pack.all, Pack.all, List.append_assoc]
    · rw [Packing.append, h.added, List.length_append]
      rfl

/-- A pack at the target is emitted. -/
theorem Holds.close (h : p.Holds b) (count : Str → Nat) (hrun : b.run ≠ []) :
    (p.close count).Holds (if AtTarget count b.all then b.next else b) ∧
      (p.close count).chunks =
        p.chunks ++ (if AtTarget count b.all then [b] else []).map packText := by
  have hiff : count (join [' '] p.current) ≥ targetTokens ↔ AtTarget count b.all := by
    rw [h.current]
    rfl
  rw [Packing.close]
  by_cases hfull : AtTarget count b.all
  · rw [if_pos (hiff.2 hfull), if_pos hfull, if_pos hfull]
    exact h.emit hrun
  · rw [if_neg (mt hiff.1 hfull), if_neg hfull, if_neg hfull]
    exact ⟨h, (List.append_nil _).symm⟩

/-- One turn of the loop is one turn of the packing. -/
theorem Holds.add (h : p.Holds b) (count : Str → Nat) (piece : Str) :
    (p.add count piece).Holds (b.after (OverLimit count) (AtTarget count) piece) ∧
      (p.add count piece).chunks =
        p.chunks ++ (b.ended (OverLimit count) (AtTarget count) piece).map packText := by
  obtain ⟨hroom, hroomChunks⟩ := h.makeRoom count piece
  obtain ⟨happend, happendChunks⟩ := hroom.append count piece
  rw [← Pack.opened_eq] at happend
  obtain ⟨hclose, hcloseChunks⟩ := happend.close count (b.opened_run_ne_nil piece)
  refine ⟨hclose, ?_⟩
  rw [Packing.add, hcloseChunks, happendChunks, hroomChunks, Pack.ended, List.map_append,
    List.append_assoc]

end Packing

/-- The chunks the loop ends with, from any state. -/
theorem chunks_eq_pack (l : List Str) : ∀ (p : Packing) (b : Pack Str), p.Holds b →
    (if (l.foldl (Packing.add count) p).added > 0 then
      (l.foldl (Packing.add count) p).chunks ++
        [join [' '] (l.foldl (Packing.add count) p).current]
      else (l.foldl (Packing.add count) p).chunks) =
    p.chunks ++ (pack (OverLimit count) (AtTarget count) b l).map packText := by
  induction l with
  | nil =>
      intro p b h
      rw [List.foldl_nil, pack]
      by_cases hrun : b.run = []
      · rw [if_neg (mt h.added_pos.1 (not_not.2 hrun)), if_pos hrun]
        exact (List.append_nil _).symm
      · rw [if_pos (h.added_pos.2 hrun), if_neg hrun, h.current]
        rfl
  | cons piece l ih =>
      intro p b h
      obtain ⟨hadd, hchunks⟩ := h.add count piece
      rw [List.foldl_cons, ih _ _ hadd, hchunks, pack, List.map_append, List.append_assoc]

/-- **The loop refines the packing.** -/
theorem chunk_eq_layout (body : Str) : chunk count body = (layout count body).map packText :=
  chunks_eq_pack (pieces count body) ⟨[], [], 0⟩ ⟨none, []⟩ ⟨rfl, rfl⟩

/-! ## Nothing is lost and nothing doubled -/

variable (count)

/-- The chunks are the packs of the layout. -/
theorem getElem?_chunk (body : Str) (i : Nat) :
    (chunk count body)[i]? = ((layout count body)[i]?).map packText := by
  rw [chunk_eq_layout, List.getElem?_map]

/-- The body is cut into pieces and the pieces into runs, one a chunk; a chunk is its run, after at
most the last piece of the run before it. -/
theorem chunk_pieces (body : Str) : ∃ (ps : List Str) (runs : List (List Str)),
    solid ps.flatten = solid body ∧ runs.flatten = ps ∧ (∀ run ∈ runs, run ≠ []) ∧
    (chunk count body).length = runs.length ∧
    ∀ i run, runs[i]? = some run → ∃ overlap : Option Str,
      (chunk count body)[i]? = some (join [' '] (overlap.toList ++ run)) ∧
      ∀ q, overlap = some q →
        ∃ j previous, i = j + 1 ∧ runs[j]? = some previous ∧ previous.getLast? = some q := by
  refine ⟨pieces count body, (layout count body).map Pack.run, solid_pieces body, ?_, ?_, ?_, ?_⟩
  · rw [← List.flatMap_def]
    exact pack_run _ _
  · intro run hrun
    obtain ⟨b, hb, rfl⟩ := List.mem_map.1 hrun
    exact pack_run_ne_nil hb
  · rw [chunk_eq_layout, List.length_map, List.length_map]
  · intro i run hrun
    rw [List.getElem?_map, Option.map_eq_some_iff] at hrun
    obtain ⟨b, hb, rfl⟩ := hrun
    refine ⟨b.overlap, by rw [getElem?_chunk, hb]; rfl, fun q hq => ?_⟩
    obtain ⟨j, d, hij, hd, hlast⟩ := pack_overlap hb hq
    exact ⟨j, d.run, hij, by rw [List.getElem?_map]; exact congrArg (Option.map Pack.run) hd, hlast⟩

/-! ## When a chunk ends, and what it repeats -/

/-- A chunk that is not the last one has reached the target or has no room for the next piece, which
it would have had before its last piece; the next chunk repeats that last piece exactly when it fits
with the piece after it. -/
theorem chunk_packed (body : Str) :
    chunk count body = (layout count body).map packText ∧
    (layout count body).flatMap Pack.run = pieces count body ∧
    (∀ b ∈ layout count body, b.run ≠ [] ∧
      (2 ≤ b.run.length → count (join [' '] b.all.dropLast) < targetTokens)) ∧
    ∀ i a b, (layout count body)[i]? = some a → (layout count body)[i + 1]? = some b →
      ∃ q p, a.run.getLast? = some q ∧ b.run.head? = some p ∧
        (count (packText a) ≥ targetTokens ∨ count (packText a ++ ' ' :: p) > maxTokens) ∧
        (b.overlap = none ∨ b.overlap = some q) ∧
        (b.overlap = some q ↔ count (q ++ ' ' :: p) ≤ maxTokens) := by
  refine ⟨chunk_eq_layout body, pack_run _ _, ?_, ?_⟩
  · intro b hb
    refine ⟨pack_run_ne_nil hb, fun htwo => ?_⟩
    exact Nat.lt_of_not_le (pack_dropLast_not_full hb htwo)
  · intro i a b ha hb
    obtain ⟨q, p, hf⟩ := pack_follows_succ ha hb
    have htext : join [' '] (a.all ++ [p]) = packText a ++ ' ' :: p := by
      have hall : a.all ≠ [] :=
        List.append_ne_nil_of_right_ne_nil _ (pack_run_ne_nil (List.mem_of_getElem? ha))
      rw [join_append _ hall (List.cons_ne_nil p []), join_singleton]
      rfl
    have hpair : join [' '] [q, p] = q ++ ' ' :: p := by
      rw [join_cons _ _ (List.cons_ne_nil p []), join_singleton]
      rfl
    refine ⟨q, p, hf.last, hf.first, ?_, hf.overlap, ?_⟩
    · rw [← htext]
      exact hf.ended
    · rw [hf.repeats, OverLimit, hpair, gt_iff_lt, Nat.not_lt]

/-! ## The limit -/

section Limit

variable {count} (htrim : ∀ s, count (trim s) ≤ count s) (hchar : ∀ c, count [c] ≤ maxTokens)

include htrim

/-- What a splitting puts out and what it has begun are within the limit. -/
structure Fragments.Within (count : Str → Nat) (f : Fragments) : Prop where
  out : ∀ t ∈ f.out, count t ≤ maxTokens
  current : count f.current ≤ maxTokens

include hchar in
theorem count_nil_le : count [] ≤ maxTokens :=
  (htrim [' ']).trans (hchar ' ')

theorem Fragments.Within.concat {f : Fragments} (h : f.Within count) {text : Str}
    (ht : count text ≤ maxTokens) :
    (⟨f.out ++ [trim f.current], text⟩ : Fragments).Within count where
  out t hmem := by
    rcases List.mem_append.1 hmem with hmem | hmem
    · exact h.out t hmem
    · rw [List.mem_singleton.1 hmem]
      exact (htrim f.current).trans h.current
  current := ht

/-- A push keeps every fragment within the bound. -/
theorem Fragments.Within.push {f : Fragments} (h : f.Within count) {text : Str}
    (ht : count text ≤ maxTokens) : (f.push count text).Within count := by
  rw [Fragments.push]
  split_ifs with hflush
  · exact h.concat htrim ht
  · refine ⟨h.out, ?_⟩
    by_cases hnil : f.current = []
    · rwa [hnil]
    · exact Nat.le_of_not_lt fun hover => hflush ⟨hnil, hover⟩

include hchar

/-- So does a unit, which is cut up when it is too long itself. -/
theorem Fragments.Within.addUnit {f : Fragments} (h : f.Within count) (unit : Str) :
    (f.addUnit count unit).Within count := by
  rw [Fragments.addUnit]
  split_ifs with hover
  · have hflush : f.flush.Within count := by
      rw [Fragments.flush]
      split_ifs
      · exact h
      · exact h.concat htrim (count_nil_le htrim hchar)
    apply List.foldlRecOn _ _ hflush
    intro g hg text htext
    obtain ⟨c, -, rfl⟩ := List.mem_map.1 htext
    exact hg.push htrim (hchar c)
  · exact h.push htrim (Nat.le_of_not_lt hover)

/-- The fragments of a long sentence are within the bound. -/
theorem count_le_of_mem_splitOversized {sentence t : Str}
    (ht : t ∈ splitOversized count sentence) : count t ≤ maxTokens := by
  have hwithin : ((units sentence).foldl (Fragments.addUnit count) ⟨[], []⟩).Within count := by
    refine List.foldlRecOn _ _ ⟨fun t ht => ?_, count_nil_le htrim hchar⟩
      fun g hg unit _ => hg.addUnit htrim hchar unit
    cases ht
  rw [splitOversized, List.mem_append] at ht
  rcases ht with ht | ht
  · exact hwithin.out t ht
  · rw [emitTrimmed] at ht
    split_ifs at ht
    · cases ht
    · rw [List.mem_singleton.1 ht]
      exact (htrim _).trans hwithin.current

/-- And so is every piece. -/
theorem count_le_of_mem_pieces {body t : Str} (ht : t ∈ pieces count body) :
    count t ≤ maxTokens := by
  obtain ⟨paragraph, -, ht⟩ := List.mem_flatMap.1 ht
  obtain ⟨sentence, -, ht⟩ := List.mem_flatMap.1 ht
  split_ifs at ht with hover
  · exact count_le_of_mem_splitOversized htrim hchar ht
  · rw [List.mem_singleton.1 ht]
    exact Nat.le_of_not_lt hover

/-- **No chunk is over the limit**, for a tokenizer that counts no more in a trimmed text and no
character as more than the limit. -/
theorem chunk_count_le (body : Str) : ∀ t ∈ chunk count body, count t ≤ maxTokens := by
  intro t ht
  rw [chunk_eq_layout] at ht
  obtain ⟨b, hb, rfl⟩ := List.mem_map.1 ht
  refine Nat.le_of_not_lt (pack_not_over (fun piece hpiece => ?_) hb)
  rw [OverLimit, join_singleton]
  exact Nat.not_lt.2 (count_le_of_mem_pieces htrim hchar hpiece)

end Limit

/-- A body over the limit, for a tokenizer that counts characters. -/
theorem chunk_count_le_length :
    let body := List.replicate 300 'a' ++ " b.".toList
    maxTokens < body.length ∧ ∀ t ∈ chunk List.length body, t.length ≤ maxTokens := by
  refine ⟨?_, chunk_count_le (fun s => (trim_isInfix s).length_le)
    (fun _ => (by decide : 1 ≤ maxTokens)) _⟩
  show maxTokens < (List.replicate 300 'a' ++ " b.".toList).length
  rw [List.length_append, List.length_replicate]
  decide

end AnyPlayerSync.Passages
