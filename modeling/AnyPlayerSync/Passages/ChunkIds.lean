import AnyPlayerSync.Passages.Consistency

/-!
# Chunk ids

The ids of chunk rows come from a sequence that gives no number back, so in every state that a run
reaches the committed chunk rows have different ids, and the rows that open transactions have staged
have ids that no other row has (`ChunkIds`). A document that is written again has new chunk ids.
-/

set_option autoImplicit false

namespace AnyPlayerSync.Passages

open AnyPlayerSync.Foundation
open AnyPlayerSync.Sync (UserId)

variable {V : Type} {U : UnicodeTables} {hash : Str → Str} {E : Embedder V}

/-- Staged rows that may be committed: their ids are drawn, different, and not those of committed
rows. -/
structure StagedIds (T : Tables V) (st : Staged V) : Prop where
  nodup : (st.inserted.map ChunkRow.id).Nodup
  drawn : ∀ c ∈ st.inserted, c.id < T.chunkSeq
  fresh : ∀ c ∈ st.inserted, ∀ c' ∈ T.chunks, c'.id ≠ c.id

/-- The staged rows of two calls have no id in common. -/
def Staged.Apart (st st' : Staged V) : Prop :=
  ∀ c ∈ st.inserted, ∀ c' ∈ st'.inserted, c.id ≠ c'.id

/-- The ids of chunks, committed and staged, are drawn and different. -/
structure ChunkIds (s : TxnState V) : Prop where
  nodup : (s.tables.chunks.map ChunkRow.id).Nodup
  drawn : ∀ c ∈ s.tables.chunks, c.id < s.tables.chunkSeq
  staged : ∀ i st, s.Stages i st → StagedIds s.tables st
  apart : ∀ i j st st', i ≠ j → s.Stages i st → s.Stages j st' → st.Apart st'

theorem chunkIds_empty : ChunkIds (TxnState.empty (V := V)) where
  nodup := List.nodup_nil
  drawn _ h := nomatch h
  staged _ _ h := by
    obtain ⟨_, hc, _⟩ := h
    cases hc
  apart _ _ _ _ _ h := by
    obtain ⟨_, hc, _⟩ := h
    cases hc

theorem Staged.Apart.symm {st st' : Staged V} (h : st.Apart st') : st'.Apart st :=
  fun c hc c' hc' heq => h c' hc' c hc heq.symm

/-- The sequence may go on. -/
theorem StagedIds.later {T T' : Tables V} {st : Staged V} (h : StagedIds T st)
    (hseq : T.chunkSeq ≤ T'.chunkSeq) (hsub : ∀ c ∈ T'.chunks, c ∈ T.chunks) :
    StagedIds T' st where
  nodup := h.nodup
  drawn c hc := Nat.lt_of_lt_of_le (h.drawn c hc) hseq
  fresh c hc c' hc' := h.fresh c hc c' (hsub c' hc')

section Step

variable {s : TxnState V}

/-- **Move rule.** A step keeps the invariant when the tables it leaves do, with what the other
calls have staged and what its own call has. -/
theorem ChunkIds.move (h : ChunkIds s) {i : Nat} {c : StoreCall V} {T : Tables V}
    {locks : List (Str × Str)} {result : StoreResult}
    (hnodup : (T.chunks.map ChunkRow.id).Nodup) (hdrawn : ∀ c ∈ T.chunks, c.id < T.chunkSeq)
    (hothers : ∀ j st, j ≠ i → s.Stages j st → StagedIds T st)
    (hown : ∀ st, c.staged = some st → StagedIds T st ∧
      ∀ j st', j ≠ i → s.Stages j st' → st.Apart st') :
    ChunkIds (s.move i c T locks result).1 where
  nodup := hnodup
  drawn := hdrawn
  staged j st hst := by
    rcases stages_move hst with ⟨-, hst⟩ | ⟨hj, hst⟩
    · exact (hown st hst).1
    · exact hothers j st hj hst
  apart j k st st' hjk hst hst' := by
    rcases stages_move hst with ⟨hj, hst⟩ | ⟨hj, hst⟩
    · rcases stages_move hst' with ⟨hk, -⟩ | ⟨hk, hst'⟩
      · exact absurd (hj.trans hk.symm) hjk
      · exact (hown st hst).2 k st' hk hst'
    · rcases stages_move hst' with ⟨-, hst'⟩ | ⟨-, hst'⟩
      · exact ((hown st' hst').2 j st hj hst).symm
      · exact h.apart j k st st' hjk hst hst'

/-- A step that takes no number and commits no row. -/
theorem ChunkIds.shrink (h : ChunkIds s) {i : Nat} {c : StoreCall V} {T : Tables V}
    {locks : List (Str × Str)} {result : StoreResult}
    (hsub : List.Sublist T.chunks s.tables.chunks) (hseq : s.tables.chunkSeq = T.chunkSeq)
    (hown : ∀ st, c.staged = some st →
      st.inserted = [] ∨ ∃ st', s.Stages i st' ∧ st.inserted = st'.inserted) :
    ChunkIds (s.move i c T locks result).1 := by
  have hmem : ∀ c ∈ T.chunks, c ∈ s.tables.chunks := fun c hc => hsub.subset hc
  refine h.move (h.nodup.sublist (hsub.map _)) ?_ ?_ ?_
  · intro c hc
    rw [← hseq]
    exact h.drawn c (hmem c hc)
  · intro j st _ hst
    exact (h.staged j st hst).later hseq.le hmem
  · intro st hst
    rcases hown st hst with hnone | ⟨st', hst', heq⟩
    · refine ⟨⟨?_, ?_, ?_⟩, ?_⟩
      · simp [hnone]
      · simp [hnone]
      · simp [hnone]
      · intro j st' _ _
        simp [Staged.Apart, hnone]
    · obtain ⟨hnodup, hdrawn, hfresh⟩ := (h.staged i st' hst').later hseq.le hmem
      refine ⟨⟨heq ▸ hnodup, heq ▸ hdrawn, heq ▸ hfresh⟩, ?_⟩
      intro j st'' hj hst''
      rw [Staged.Apart, heq]
      exact h.apart i j st' st'' hj.symm hst' hst''

/-- The insert of a chunk row takes the next number. -/
theorem chunkIds_added (h : ChunkIds s) {i : Nat} {doc : NewDocument} {addedBy : Option UserId}
    {st : Staged V} {p : Passage V} {pending : List (Passage V)} {result : StoreResult}
    (held : s.calls i = some (.upsert doc addedBy (.adding st (p :: pending)))) :
    ChunkIds (s.move i (.upsert doc addedBy (.adding (s.tables.insertChunk st p).2 pending))
      (s.tables.insertChunk st p).1 s.locks result).1 := by
  have hst : s.Stages i st := ⟨_, held, rfl⟩
  obtain ⟨hnodup, hdrawn, hfresh⟩ := h.staged i st hst
  refine h.move h.nodup (fun c hc => Nat.lt_succ_of_lt (h.drawn c hc)) ?_ ?_
  · intro j st' _ hst'
    exact (h.staged j st' hst').later (Nat.le_succ _) fun _ hc => hc
  · intro st' hst'
    cases hst'
    refine ⟨⟨?_, ?_, ?_⟩, ?_⟩
    · apply Table.nodup_append hnodup
      intro c hc
      exact Nat.ne_of_lt (hdrawn c hc)
    · intro c hc
      rcases List.mem_append.1 hc with hc | hc
      · exact Nat.lt_succ_of_lt (hdrawn c hc)
      · rw [List.mem_singleton.1 hc]
        exact Nat.lt_succ_self _
    · intro c hc c' hc'
      rcases List.mem_append.1 hc with hc | hc
      · exact hfresh c hc c' hc'
      · rw [List.mem_singleton.1 hc]
        exact Nat.ne_of_lt (h.drawn c' hc')
    · intro j st' hj hst' c hc c' hc'
      rcases List.mem_append.1 hc with hc | hc
      · exact h.apart i j st st' hj.symm hst hst' c hc c' hc'
      · rw [List.mem_singleton.1 hc]
        exact (Nat.ne_of_lt ((h.staged j st' hst').drawn c' hc')).symm

theorem chunkIds_committed (h : ChunkIds s) {i : Nat} {doc : NewDocument}
    {addedBy : Option UserId} {st : Staged V} {result : StoreResult}
    (held : s.calls i = some (.upsert doc addedBy (.adding st []))) :
    ChunkIds (s.move i .ended (s.tables.commit st) (s.locks.filter (· ≠ st.row.key))
      result).1 := by
  have hst : s.Stages i st := ⟨_, held, rfl⟩
  obtain ⟨hnodup, hdrawn, hfresh⟩ := h.staged i st hst
  refine h.move ?_ ?_ ?_ fun _ hst => nomatch hst
  · rw [Tables.commit, List.map_append]
    refine List.nodup_append.2 ⟨h.nodup.sublist (List.filter_sublist.map _), hnodup, ?_⟩
    intro k hk k' hk'
    obtain ⟨c, hc, rfl⟩ := List.mem_map.1 hk
    obtain ⟨c', hc', rfl⟩ := List.mem_map.1 hk'
    exact hfresh c' hc' c (List.mem_filter.1 hc).1
  · intro c hc
    rcases List.mem_append.1 hc with hc | hc
    · exact h.drawn c (List.mem_filter.1 hc).1
    · exact hdrawn c hc
  · intro j st' hj hst'
    obtain ⟨hnodup', hdrawn', hfresh'⟩ := h.staged j st' hst'
    refine ⟨hnodup', hdrawn', ?_⟩
    intro c hc c' hc'
    rcases List.mem_append.1 hc' with hc' | hc'
    · exact hfresh' c hc c' (List.mem_filter.1 hc').1
    · exact h.apart i j st st' hj.symm hst hst' c' hc' c hc

theorem TxnEffect.chunkIds {p : TxnState V × StoreEvent V} (he : TxnEffect U hash E s p)
    (h : ChunkIds s) : ChunkIds p.1 := by
  cases he with
  | moved live before after ok closed =>
      refine h.shrink (List.Sublist.refl _) rfl fun st hst => ?_
      rw [after] at hst
      cases hst
  | touched now held => exact h.shrink (List.Sublist.refl _) rfl fun _ hst => nomatch hst
  | inserted now held free =>
      refine h.shrink (List.Sublist.refl _) rfl fun st hst => Or.inl ?_
      cases hst
      rfl
  | cleared held =>
      refine h.shrink (List.Sublist.refl _) rfl fun st' hst' => Or.inr ⟨_, ⟨_, held, rfl⟩, ?_⟩
      cases hst'
      rfl
  | added held => exact chunkIds_added h held
  | committed held => exact chunkIds_committed h held
  | deleted held free =>
      exact h.shrink List.filter_sublist rfl fun _ hst => nomatch hst
  | rolledBack held staged => exact h.shrink (List.Sublist.refl _) rfl fun _ hst => nomatch hst

end Step

end AnyPlayerSync.Passages
