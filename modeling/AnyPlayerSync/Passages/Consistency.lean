import AnyPlayerSync.Passages.Transactions

/-!
# Chunks belong to the stored body

In every state that a run reaches, each committed document row has the hash of its body, and its
chunk rows are the chunks of that body, numbered from 0 (`ChunksMatch`). A call that fails leaves
the rows of all tables as they were (`FailedKeeps`).

The invariant is about the staged rows of the open transactions (`TxnInv`). No two of them have a
key or an id in common, and each is kept by what the others write (`Keeps`), so that the chunk rows
which a `DELETE` found are still all chunk rows of its document when the transaction commits.
-/

set_option autoImplicit false

namespace AnyPlayerSync.Passages

open AnyPlayerSync.Foundation
open AnyPlayerSync.Sync (Time UserId)

variable {V : Type} {U : UnicodeTables} {hash : Str → Str} {E : Embedder V}

/-! ## The property -/

variable (hash E) in
/-- Every row has the hash of its body, its chunk rows are the chunks of the body in order, and no
chunk row is left without its document. -/
structure ChunksMatch (T : Tables V) : Prop where
  hashes : ∀ r ∈ T.docs, r.contentHash = hash r.body
  stored : ∀ r ∈ T.docs,
    Stored (T.chunks.filter fun c => c.documentId = r.id) r.id (chunk E.countTokens r.body)
  owned : ∀ c ∈ T.chunks, ∃ r ∈ T.docs, r.id = c.documentId

/-- Equal up to the sequences. -/
def Tables.SameRows (T T' : Tables V) : Prop :=
  T.docs = T'.docs ∧ T.chunks = T'.chunks ∧ T.plays = T'.plays

/-- No step of a call that failed changed a committed row. -/
def FailedKeeps (h : List (StoreEvent V)) : Prop :=
  ∀ e ∈ h, ∀ f ∈ h, f.call = e.call → f.result = .failed → e.before.SameRows e.after

/-! ## What a write keeps of a staged row -/

/-- What tables keep of a row that an open transaction has staged. -/
structure Keeps (T T' : Tables V) (row : DocumentRow) : Prop where
  placed : Placed T row → Placed T' row
  chunks : (T'.chunks.filter fun c => c.documentId = row.id) =
    T.chunks.filter fun c => c.documentId = row.id

theorem Keeps.refl (T : Tables V) (row : DocumentRow) : Keeps T T row := ⟨id, rfl⟩

/-- Sequences may go on. -/
theorem keeps_seq (T : Tables V) (n m : Nat) (row : DocumentRow) :
    Keeps T { T with docSeq := T.docSeq + n, chunkSeq := T.chunkSeq + m } row where
  placed h := ⟨Nat.lt_of_lt_of_le h.fresh (Nat.le_add_right _ _), h.unique⟩
  chunks := rfl

theorem keeps_touch (T : Tables V) (id : Nat) (now : Time) (row : DocumentRow) :
    Keeps T (T.touch id now) row where
  placed h := by
    refine ⟨h.fresh, h.unique.imp ?_ ?_⟩
    · rintro ⟨r, hr, hid, hkey⟩
      refine ⟨_, List.mem_map_of_mem hr, ?_⟩
      split_ifs
      · exact ⟨hid, hkey⟩
      · exact ⟨hid, hkey⟩
    · intro hnew r hr
      obtain ⟨old, hold, rfl⟩ := List.mem_map.1 hr
      split_ifs
      · exact hnew old hold
      · exact hnew old hold
  chunks := rfl

/-- A commit keeps the staged rows with another id and another key. -/
theorem keeps_commit {T : Tables V} {st : Staged V} {row : DocumentRow}
    (hi : ∀ c ∈ st.inserted, c.documentId = st.row.id)
    (hd : st.deleted = (T.chunks.filter fun c => c.documentId = st.row.id).map ChunkRow.id)
    (hid : row.id ≠ st.row.id) (hkey : row.key ≠ st.row.key) : Keeps T (T.commit st) row where
  placed h := by
    refine ⟨h.fresh, h.unique.imp ?_ ?_⟩
    · rintro ⟨r, hr, hrid, hrkey⟩
      exact ⟨r, Table.mem_put.2 (Or.inr ⟨hr, fun he => hid (hrid.symm.trans he)⟩), hrid, hrkey⟩
    · intro hnew r hr
      rcases Table.mem_put.1 hr with rfl | ⟨hr, -⟩
      · exact ⟨hid.symm, hkey.symm⟩
      · exact hnew r hr
  chunks := by
    rw [commit_chunks hd, List.filter_append, List.filter_filter]
    have hnone : (st.inserted.filter fun c => c.documentId = row.id) = [] := by
      refine List.filter_eq_nil_iff.2 fun c hc => ?_
      simpa [hi c hc] using hid.symm
    rw [hnone, List.append_nil]
    refine List.filter_congr fun c _ => ?_
    by_cases hc : c.documentId = row.id
    · simp [hc, hid]
    · simp [hc]

/-- Deleting an unlocked document keeps the staged rows, whose keys are locked. -/
theorem keeps_deleteDocument {s : TxnState V} {row : DocumentRow} {id : Nat}
    (hs : s.tables.Valid) (hp : Placed s.tables row) (hfree : ¬ s.IdLocked id)
    (hlock : row.key ∈ s.locks) : Keeps s.tables (s.tables.deleteDocument id).1 row := by
  have hnew : row.id = id → ∀ r ∈ s.tables.docs, r.id ≠ row.id := by
    intro hid r hr hrid
    rcases hp.unique with ⟨old, hold, holdid, holdkey⟩ | hnew
    · exact hfree ⟨old, hold, holdid.trans hid, holdkey ▸ hlock⟩
    · exact (hnew r hr).1 hrid
  constructor
  · intro h
    refine ⟨h.fresh, h.unique.imp ?_ ?_⟩
    · rintro ⟨r, hr, hrid, hrkey⟩
      refine ⟨r, List.mem_filter.2 ⟨hr, decide_eq_true fun he => ?_⟩, hrid, hrkey⟩
      exact hnew (hrid.symm.trans he) r hr hrid
    · intro hnew r hr
      exact hnew r (List.mem_filter.1 hr).1
  · rw [Tables.deleteDocument, List.filter_filter]
    refine List.filter_congr fun c hc => ?_
    by_cases hcid : c.documentId = row.id
    · have hne : row.id ≠ id := by
        intro hid
        obtain ⟨r, hr, hrid⟩ := hs.chunkOwner c hc
        exact hnew hid r hr (hrid.trans hcid)
      simp [hcid, hne]
    · simp [hcid]

/-! ## The invariant -/

/-- The call has staged a row. -/
def TxnState.Stages (s : TxnState V) (i : Nat) (st : Staged V) : Prop :=
  ∃ c, s.calls i = some c ∧ c.staged = some st

variable (U hash E) in
/-- What holds between any two statements of the calls. -/
structure TxnInv (s : TxnState V) : Prop where
  valid : s.tables.Valid
  hashes : ∀ r ∈ s.tables.docs, r.contentHash = hash r.body
  stored : ∀ r ∈ s.tables.docs,
    Stored (s.tables.chunks.filter fun c => c.documentId = r.id) r.id
      (chunk E.countTokens r.body)
  calls : ∀ i c, s.calls i = some c → c.Ok U hash E s.tables
  locked : ∀ i st, s.Stages i st → st.row.key ∈ s.locks
  apart : ∀ i j st st', i ≠ j → s.Stages i st → s.Stages j st' →
    st.row.id ≠ st'.row.id ∧ st.row.key ≠ st'.row.key

theorem txnInv_empty : TxnInv U hash E TxnState.empty where
  valid := Tables.valid_empty
  hashes _ h := nomatch h
  stored _ h := nomatch h
  calls _ _ h := nomatch h
  locked _ _ h := by
    obtain ⟨_, hc, _⟩ := h
    cases hc
  apart _ _ _ _ _ h := by
    obtain ⟨_, hc, _⟩ := h
    cases hc

/-- The staged row of a call may be put. -/
theorem StoreCall.Ok.placed {T : Tables V} {c : StoreCall V} {st : Staged V} (h : c.Ok U hash E T)
    (hst : c.staged = some st) : Placed T st.row := by
  cases c with
  | delete id => cases hst
  | ended => cases hst
  | upsert doc addedBy phase =>
      cases phase with
      | clearing st' passages => cases hst; exact h.2.1
      | adding st' pending => cases hst; exact h.2.1
      | reading => cases hst
      | touching id => cases hst
      | embedding => cases hst
      | inserting passages => cases hst

/-- What a call has promised stays true of tables that keep its staged row. -/
theorem StoreCall.Ok.keep {T T' : Tables V} {c : StoreCall V} (h : c.Ok U hash E T)
    (hk : ∀ st, c.staged = some st → Keeps T T' st.row) : c.Ok U hash E T' := by
  cases c with
  | delete id => trivial
  | ended => trivial
  | upsert doc addedBy phase =>
      cases phase with
      | clearing st passages =>
          obtain ⟨hi, hp, hrest⟩ := h
          exact ⟨hi, (hk st rfl).placed hp, hrest⟩
      | adding st pending =>
          obtain ⟨hi, hp, hd, hrest⟩ := h
          exact ⟨hi, (hk st rfl).placed hp, hd.trans (congrArg _ (hk st rfl).chunks.symm), hrest⟩
      | inserting passages => exact h
      | reading => trivial
      | touching id => trivial
      | embedding => trivial

section Step

variable {s : TxnState V}

theorem stages_move {i j : Nat} {c : StoreCall V} {T : Tables V} {locks : List (Str × Str)}
    {result : StoreResult} {st : Staged V} (h : (s.move i c T locks result).1.Stages j st) :
    (j = i ∧ c.staged = some st) ∨ (j ≠ i ∧ s.Stages j st) := by
  obtain ⟨c', hc', hst⟩ := h
  by_cases hj : j = i
  · subst hj
    rw [TxnState.move_calls_self] at hc'
    cases hc'
    exact Or.inl ⟨rfl, hst⟩
  · rw [TxnState.move_calls_of_ne s hj] at hc'
    exact Or.inr ⟨hj, c', hc', hst⟩

/-- **Move rule.** A step keeps the invariant when the tables it leaves do, its call's promise
holds of them, and they keep and lock what the other calls have staged. -/
theorem TxnInv.move (h : TxnInv U hash E s) {i : Nat} {c : StoreCall V} {T : Tables V}
    {locks : List (Str × Str)} {result : StoreResult} (hvalid : T.Valid)
    (hhashes : ∀ r ∈ T.docs, r.contentHash = hash r.body)
    (hstored : ∀ r ∈ T.docs,
      Stored (T.chunks.filter fun c => c.documentId = r.id) r.id (chunk E.countTokens r.body))
    (hok : c.Ok U hash E T)
    (hothers : ∀ j st, j ≠ i → s.Stages j st → Keeps s.tables T st.row ∧ st.row.key ∈ locks)
    (hown : ∀ st, c.staged = some st → st.row.key ∈ locks ∧ ∀ j st', j ≠ i → s.Stages j st' →
      st.row.id ≠ st'.row.id ∧ st.row.key ≠ st'.row.key) :
    TxnInv U hash E (s.move i c T locks result).1 where
  valid := hvalid
  hashes := hhashes
  stored := hstored
  -- the call that moved has its new promise, the others keep theirs
  calls j c' hc' := by
    by_cases hj : j = i
    · subst hj
      rw [TxnState.move_calls_self] at hc'
      cases hc'
      exact hok
    · rw [TxnState.move_calls_of_ne s hj] at hc'
      exact (h.calls j c' hc').keep fun st hst => (hothers j st hj ⟨c', hc', hst⟩).1
  locked j st hst := by
    rcases stages_move hst with ⟨-, hst⟩ | ⟨hj, hst⟩
    · exact (hown st hst).1
    · exact (hothers j st hj hst).2
  apart j k st st' hjk hst hst' := by
    rcases stages_move hst with ⟨hj, hst⟩ | ⟨hj, hst⟩
    · rcases stages_move hst' with ⟨hk, hst'⟩ | ⟨hk, hst'⟩
      · exact absurd (hj.trans hk.symm) hjk
      · exact (hown st hst).2 k st' hk hst'
    · rcases stages_move hst' with ⟨hk, hst'⟩ | ⟨hk, hst'⟩
      · obtain ⟨hid, hkey⟩ := (hown st' hst').2 j st hj hst
        exact ⟨hid.symm, hkey.symm⟩
      · exact h.apart j k st st' hjk hst hst'

/-! ### The statements -/

theorem deleteDocument_valid {T : Tables V} (hT : T.Valid) (id : Nat) :
    (T.deleteDocument id).1.Valid where
  docIds := hT.docIds.sublist (List.filter_sublist.map _)
  docKeys := hT.docKeys.sublist (List.filter_sublist.map _)
  docFresh r hr := hT.docFresh r (List.mem_filter.1 hr).1
  chunkOwner c hc := by
    obtain ⟨hc, hne⟩ := List.mem_filter.1 hc
    obtain ⟨r, hr, hid⟩ := hT.chunkOwner c hc
    exact ⟨r, List.mem_filter.2 ⟨hr, by simpa [hid] using hne⟩, hid⟩

variable (U hash) in
/-- The id that an `INSERT` returns is new, or the id of the row with the document's key. -/
theorem insertDocument_id (T : Tables V) (doc : NewDocument) (addedBy : Option UserId)
    (now : Time) :
    (T.insertDocument U hash doc addedBy now).2.row.id = T.docSeq ∨
      ∃ r ∈ T.docs, r.id = (T.insertDocument U hash doc addedBy now).2.row.id ∧
        r.key = doc.key := by
  rw [Tables.insertDocument]
  cases h : Table.row? DocumentRow.key doc.key T.docs with
  | none => exact Or.inl rfl
  | some r => exact Or.inr ⟨r, (Table.row?_spec h).1, rfl, (Table.row?_spec h).2⟩

/-- A row that may be put and has another key has another id than the row inserted. -/
theorem Placed.id_ne_inserted {T : Tables V} {row : DocumentRow} (hT : T.Valid)
    (hp : Placed T row) {doc : NewDocument} (hkey : row.key ≠ doc.key) (addedBy : Option UserId)
    (now : Time) : (T.insertDocument U hash doc addedBy now).2.row.id ≠ row.id := by
  rcases insertDocument_id U hash T doc addedBy now with hseq | ⟨r, hr, hid, hrkey⟩
  · rw [hseq]
    exact (Nat.ne_of_lt hp.fresh).symm
  · intro heq
    rcases hp.unique with ⟨old, hold, holdid, holdkey⟩ | hnew
    · have : old = r := Table.eq_of_key hT.docIds hold hr (holdid.trans (heq.symm.trans hid.symm))
      exact hkey (holdkey.symm.trans (this ▸ hrkey))
    · exact (hnew r hr).1 (hid.trans heq)

/-! ### The steps -/

theorem inv_touched (h : TxnInv U hash E s) {i id : Nat} {now : Time} {result : StoreResult} :
    TxnInv U hash E (s.move i .ended (s.tables.touch id now) s.locks result).1 := by
  refine h.move (touch_valid h.valid id now) ?_ ?_ trivial
    (fun j st _ hst => ⟨keeps_touch _ _ _ _, h.locked j st hst⟩) fun _ hst => nomatch hst
  · intro r hr
    obtain ⟨old, hold, -, -, hbody, hhash⟩ := mem_touch hr
    rw [← hbody, ← hhash]
    exact h.hashes old hold
  · intro r hr
    obtain ⟨old, hold, hid, -, hbody, -⟩ := mem_touch hr
    rw [← hid, ← hbody]
    exact h.stored old hold

theorem inv_inserted (h : TxnInv U hash E s) {i : Nat} {doc : NewDocument}
    {addedBy : Option UserId} {passages : List (Passage V)} {now : Time} {result : StoreResult}
    (held : s.calls i = some (.upsert doc addedBy (.inserting passages)))
    (free : doc.key ∉ s.locks) :
    TxnInv U hash E (s.move i
      (.upsert doc addedBy
        (.clearing (s.tables.insertDocument U hash doc addedBy now).2 passages))
      (s.tables.insertDocument U hash doc addedBy now).1 (doc.key :: s.locks) result).1 := by
  have hinserted := insertDocument_inserted U hash s.tables doc addedBy now
  have hkey : ∀ j st, s.Stages j st → st.row.key ≠ doc.key := fun j st hst heq =>
    free (heq ▸ h.locked j st hst)
  refine h.move h.valid.bump h.hashes h.stored
    ⟨hinserted, insertDocument_placed h.valid doc addedBy now, rfl, h.calls i _ held⟩ ?_ ?_
  · intro j st _ hst
    exact ⟨keeps_seq s.tables 1 0 st.row, List.mem_cons_of_mem _ (h.locked j st hst)⟩
  · intro st hst
    cases hst
    refine ⟨hinserted.key ▸ List.mem_cons_self, fun j st' _ hst' => ⟨?_, ?_⟩⟩
    · obtain ⟨c, hc, hcst⟩ := hst'
      exact ((h.calls j c hc).placed hcst).id_ne_inserted h.valid (hkey j st' ⟨c, hc, hcst⟩) _ _
    · rw [hinserted.key]
      exact (hkey j st' hst').symm

theorem inv_cleared (h : TxnInv U hash E s) {i : Nat} {doc : NewDocument}
    {addedBy : Option UserId} {st : Staged V} {passages : List (Passage V)} {result : StoreResult}
    (held : s.calls i = some (.upsert doc addedBy (.clearing st passages))) :
    TxnInv U hash E (s.move i
      (.upsert doc addedBy (.adding (s.tables.deleteChunks st) passages)) s.tables s.locks
      result).1 := by
  have hst : s.Stages i st := ⟨_, held, rfl⟩
  obtain ⟨hinserted, hplaced, hempty, htexts⟩ := h.calls i _ held
  refine h.move h.valid h.hashes h.stored ⟨hinserted, hplaced, rfl, [], ?_, htexts⟩
    (fun j st' _ hst' => ⟨.refl _ _, h.locked j st' hst'⟩) ?_
  -- the `DELETE` finds every chunk row of the document; nothing is inserted yet
  · rw [Tables.deleteChunks, hempty]
    exact Stored.nil _
  · intro st' hst'
    cases hst'
    exact ⟨h.locked i st hst, fun j st' hj hst' => h.apart i j st st' hj.symm hst hst'⟩

theorem inv_added (h : TxnInv U hash E s) {i : Nat} {doc : NewDocument} {addedBy : Option UserId}
    {st : Staged V} {p : Passage V} {pending : List (Passage V)} {result : StoreResult}
    (held : s.calls i = some (.upsert doc addedBy (.adding st (p :: pending)))) :
    TxnInv U hash E (s.move i (.upsert doc addedBy (.adding (s.tables.insertChunk st p).2 pending))
      (s.tables.insertChunk st p).1 s.locks result).1 := by
  have hst : s.Stages i st := ⟨_, held, rfl⟩
  obtain ⟨hinserted, hplaced, hdeleted, texts, hstored, htexts⟩ := h.calls i _ held
  refine h.move ⟨h.valid.docIds, h.valid.docKeys, h.valid.docFresh, h.valid.chunkOwner⟩ h.hashes
    h.stored ⟨hinserted, (keeps_seq s.tables 0 1 st.row).placed hplaced, hdeleted,
      texts ++ [p.text], hstored.insertChunk p, ?_⟩
    (fun j st' _ hst' => ⟨keeps_seq s.tables 0 1 st'.row, h.locked j st' hst'⟩) ?_
  · rw [List.append_assoc]
    exact htexts
  · intro st' hst'
    cases hst'
    exact ⟨h.locked i st hst, fun j st' hj hst' => h.apart i j st st' hj.symm hst hst'⟩

/-- The keys of the other open transactions stay locked when one ends. -/
theorem TxnInv.unlock (h : TxnInv U hash E s) {i j : Nat} {st st' : Staged V} (hj : j ≠ i)
    (hst : s.Stages i st) (hst' : s.Stages j st') :
    st'.row.key ∈ s.locks.filter (· ≠ st.row.key) :=
  List.mem_filter.2 ⟨h.locked j st' hst', decide_eq_true (h.apart j i st' st hj hst' hst).2⟩

theorem inv_committed (h : TxnInv U hash E s) {i : Nat} {doc : NewDocument}
    {addedBy : Option UserId} {st : Staged V} {result : StoreResult}
    (held : s.calls i = some (.upsert doc addedBy (.adding st []))) :
    TxnInv U hash E (s.move i .ended (s.tables.commit st) (s.locks.filter (· ≠ st.row.key))
      result).1 := by
  have hst : s.Stages i st := ⟨_, held, rfl⟩
  obtain ⟨hinserted, hplaced, hdeleted, texts, hstored, htexts⟩ := h.calls i _ held
  rw [List.map_nil, List.append_nil] at htexts
  subst htexts
  have howner : ∀ c ∈ st.inserted, c.documentId = st.row.id := fun c hc => hstored.documentId_eq hc
  refine h.move (commit_valid h.valid hplaced howner) ?_ ?_ trivial ?_ fun _ hst => nomatch hst
  · intro r hr
    rcases Table.mem_put.1 hr with rfl | ⟨hr, -⟩
    · rw [hinserted.contentHash, hinserted.carries.body]
    · exact h.hashes r hr
  · intro r hr
    rw [commit_chunks hdeleted, List.filter_append, List.filter_filter]
    rcases Table.mem_put.1 hr with rfl | ⟨hr, hne⟩
    · -- the new row: the old chunk rows are gone and the inserted ones are its own
      have hold : (s.tables.chunks.filter fun c =>
          decide (c.documentId = st.row.id) && decide (c.documentId ≠ st.row.id)) = [] :=
        List.filter_eq_nil_iff.2 fun c _ => by simp
      rw [hold, List.nil_append, List.filter_eq_self.2 fun c hc => decide_eq_true (howner c hc),
        hinserted.carries.body]
      exact hstored
    · -- another row: its chunk rows are untouched
      have hnew : (st.inserted.filter fun c => c.documentId = r.id) = [] :=
        List.filter_eq_nil_iff.2 fun c hc => by simpa [howner c hc] using Ne.symm hne
      rw [hnew, List.append_nil]
      refine (List.filter_congr fun c _ => ?_) ▸ h.stored r hr
      by_cases hc : c.documentId = r.id
      · simp [hc, hne]
      · simp [hc]
  · intro j st' hj hst'
    obtain ⟨hid, hkey⟩ := h.apart j i st' st hj hst' hst
    exact ⟨keeps_commit howner hdeleted hid hkey, h.unlock hj hst hst'⟩

theorem inv_deleted (h : TxnInv U hash E s) {i id : Nat} {result : StoreResult}
    (free : ¬ s.IdLocked id) :
    TxnInv U hash E (s.move i .ended (s.tables.deleteDocument id).1 s.locks result).1 := by
  refine h.move (deleteDocument_valid h.valid id) (fun r hr => h.hashes r (List.mem_filter.1 hr).1)
    ?_ trivial ?_ fun _ hst => nomatch hst
  · intro r hr
    obtain ⟨hr, hne⟩ := List.mem_filter.1 hr
    rw [Tables.deleteDocument, List.filter_filter]
    refine (List.filter_congr fun c _ => ?_) ▸ h.stored r hr
    by_cases hc : c.documentId = r.id
    · simpa [hc] using hne
    · simp [hc]
  · intro j st _ hst
    obtain ⟨c, hc, hcst⟩ := hst
    have hlock := h.locked j st ⟨c, hc, hcst⟩
    exact ⟨keeps_deleteDocument h.valid ((h.calls j c hc).placed hcst) free hlock, hlock⟩

/-- **Step lemma.** -/
theorem TxnEffect.inv {p : TxnState V × StoreEvent V} (he : TxnEffect U hash E s p)
    (h : TxnInv U hash E s) : TxnInv U hash E p.1 := by
  cases he with
  | moved live before after ok closed =>
      refine h.move h.valid h.hashes h.stored ok
        (fun j st _ hst => ⟨.refl _ _, h.locked j st hst⟩) ?_
      intro st hst
      rw [after] at hst
      cases hst
  | touched now held => exact inv_touched h
  | inserted now held free => exact inv_inserted h held free
  | cleared held => exact inv_cleared h held
  | added held => exact inv_added h held
  | committed held => exact inv_committed h held
  | deleted held free => exact inv_deleted h free
  | rolledBack held staged =>
      exact h.move h.valid h.hashes h.stored trivial
        (fun j st hj hst => ⟨.refl _ _, h.unlock hj ⟨_, held, staged⟩ hst⟩) fun _ hst => nomatch hst

end Step

theorem run_inv {h : List (StoreEvent V)} {s : TxnState V} (hr : (store U hash E).Run h s) :
    TxnInv U hash E s :=
  hr.invariant (I := fun _ s => TxnInv U hash E s) txnInv_empty
    fun _ _ _ _ _ _ hi hs _ => (storeStep_effect hs).inv hi

/-! ## Failing calls -/

/-- What the history says of the calls: one that has given its result is over, and one that is not
over has changed no committed row. -/
structure CallsSettled (h : List (StoreEvent V)) (s : TxnState V) : Prop where
  closed : ∀ e ∈ h, e.result ≠ .running → s.calls e.call = some .ended
  quiet : ∀ e ∈ h, s.calls e.call ≠ some .ended → e.before.SameRows e.after
  failed : FailedKeeps h

/-- What a step says of its own call. -/
structure StepFacts (s : TxnState V) (p : TxnState V × StoreEvent V) : Prop where
  live : s.calls p.2.call ≠ some .ended
  others : ∀ j, j ≠ p.2.call → p.1.calls j = s.calls j
  closed : p.2.result ≠ .running → p.1.calls p.2.call = some .ended
  quiet : (p.2.result = .running ∨ p.2.result = .failed) → p.2.before.SameRows p.2.after

theorem TxnEffect.facts {s : TxnState V} {p : TxnState V × StoreEvent V}
    (he : TxnEffect U hash E s p) : StepFacts s p := by
  have hheld : ∀ {i : Nat} {c : StoreCall V}, c ≠ .ended → s.calls i = some c →
      s.calls i ≠ some .ended := fun hne hc he => hne (Option.some.inj (hc.symm.trans he))
  have hothers : ∀ {i : Nat} {c : StoreCall V} {T : Tables V} {locks : List (Str × Str)}
      {result : StoreResult} (j : Nat), j ≠ i → (s.move i c T locks result).1.calls j = s.calls j :=
    fun j hj => s.move_calls_of_ne hj _ _ _ _
  have hends : ∀ {i : Nat} {T : Tables V} {locks : List (Str × Str)} {result : StoreResult},
      (s.move i .ended T locks result).1.calls i = some .ended := s.move_calls_self _ _ _ _ _
  cases he with
  | @moved i c result live before after ok closed =>
      refine ⟨live, hothers, fun hrun => ?_, fun _ => ⟨rfl, rfl, rfl⟩⟩
      rcases closed with hr | ⟨-, rfl⟩
      · exact absurd hr hrun
      · exact hends
  | touched now held =>
      exact ⟨hheld (fun h => by cases h) held, hothers, fun _ => hends,
        fun h => by rcases h with h | h <;> cases h⟩
  | inserted now held free =>
      exact ⟨hheld (fun h => by cases h) held, hothers, fun h => absurd rfl h,
        fun _ => ⟨rfl, rfl, rfl⟩⟩
  | cleared held =>
      exact ⟨hheld (fun h => by cases h) held, hothers, fun h => absurd rfl h,
        fun _ => ⟨rfl, rfl, rfl⟩⟩
  | added held =>
      exact ⟨hheld (fun h => by cases h) held, hothers, fun h => absurd rfl h,
        fun _ => ⟨rfl, rfl, rfl⟩⟩
  | committed held =>
      exact ⟨hheld (fun h => by cases h) held, hothers, fun _ => hends,
        fun h => by rcases h with h | h <;> cases h⟩
  | deleted held free =>
      exact ⟨hheld (fun h => by cases h) held, hothers, fun _ => hends,
        fun h => by rcases h with h | h <;> cases h⟩
  | rolledBack held staged =>
      refine ⟨hheld (fun h => ?_) held, hothers, fun _ => hends, fun _ => ⟨rfl, rfl, rfl⟩⟩
      subst h
      cases staged

theorem StepFacts.settled {s s' : TxnState V} {e : StoreEvent V} {h : List (StoreEvent V)}
    (hf : StepFacts s (s', e)) (hs : CallsSettled h s) : CallsSettled (e :: h) s' := by
  constructor
  · intro f hmem hrun
    rcases List.mem_cons.1 hmem with rfl | hmem
    · exact hf.closed hrun
    · have hclosed := hs.closed f hmem hrun
      rw [hf.others _ fun heq => hf.live (heq ▸ hclosed)]
      exact hclosed
  · intro f hmem hlive
    rcases List.mem_cons.1 hmem with rfl | hmem
    · exact hf.quiet (Or.inl (by_contra fun hrun => hlive (hf.closed hrun)))
    · refine hs.quiet f hmem fun hclosed => hlive ?_
      rw [hf.others _ fun heq => hf.live (heq ▸ hclosed)]
      exact hclosed
  · intro f hmem g hmem' hcall hfailed
    rcases List.mem_cons.1 hmem with rfl | hold
    · rcases List.mem_cons.1 hmem' with rfl | hold'
      · exact hf.quiet (Or.inr hfailed)
      · -- a call that failed before takes no further step
        have hclosed := hs.closed g hold' (hfailed ▸ fun h => by cases h)
        exact absurd (hcall ▸ hclosed) hf.live
    · rcases List.mem_cons.1 hmem' with rfl | hold'
      · exact hs.quiet f hold (hcall ▸ hf.live)
      · exact hs.failed f hold g hold' hcall hfailed

theorem run_settled {h : List (StoreEvent V)} {s : TxnState V} (hr : (store U hash E).Run h s) :
    CallsSettled h s :=
  hr.invariant (I := CallsSettled)
    ⟨fun _ h => (nomatch h), fun _ h => (nomatch h), fun _ h => (nomatch h)⟩
    fun _ _ _ _ _ _ hi hs _ => (storeStep_effect hs).facts.settled hi

/-- **Chunks belong to the stored body** in every committed state of every run, and calls that fail
change no row. -/
theorem chunks_match (U : UnicodeTables) (hash : Str → Str) (E : Embedder V)
    {h : List (StoreEvent V)} {s : TxnState V} (hr : (store U hash E).Run h s) :
    ChunksMatch hash E s.tables ∧ FailedKeeps h := by
  have hinv := run_inv hr
  exact ⟨⟨hinv.hashes, hinv.stored, hinv.valid.chunkOwner⟩, (run_settled hr).failed⟩

def otherText : Str := "Other text.".toList

/-- The SHA-256 texts of the two bodies. -/
def uploadHash (body : Str) : Str :=
  if body = otherText then "5a961b4e5b6bce6d6891b05b38ec4108adc6c2ee20ba884ed71fbc647bb6b1f8".toList
  else thrillerHash body

/-- Two uploads of one document overlap: both read before either writes. The first commits, the
second waits for its lock and rewrites the row; a third call fails after its `DELETE`. -/
def overlappingUploads : List StoreAction :=
  [.upsert 0 (thrillerPage .song none) none, .proceed 0 0, .proceed 0 0,
    .upsert 1 { thrillerPage .album none with body := otherText } none,
    .proceed 1 0, .proceed 1 0, .proceed 0 0, .proceed 1 0, .proceed 0 0, .proceed 0 0,
    .proceed 0 0, .proceed 1 0, .proceed 1 0, .proceed 1 0, .proceed 1 0,
    .upsert 2 (thrillerPage .song none) none, .proceed 2 0, .proceed 2 0, .proceed 2 0,
    .proceed 2 0, .fail 2]

/-- The history and the state after the uploads. -/
def uploaded : List (StoreEvent Nat) × TxnState Nat :=
  (store asciiTables uploadHash wordEmbedder).exec ([], TxnState.empty) overlappingUploads

theorem chunks_match_uploaded :
    uploaded.2.tables.chunks.map ChunkRow.text = [otherText] ∧
      ChunksMatch uploadHash wordEmbedder uploaded.2.tables ∧ FailedKeeps uploaded.1 :=
  ⟨by decide, chunks_match asciiTables uploadHash wordEmbedder (Machine.run_exec _)⟩

end AnyPlayerSync.Passages
