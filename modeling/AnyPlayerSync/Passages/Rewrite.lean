import AnyPlayerSync.Passages.Store

/-!
# What a write leaves

The full path of `upsert_document` leaves one row with the document's key, which carries the
document's columns (`Carries`), and as its chunk rows the chunks of the body in order (`Stored`).

The path for an unchanged hash only touches `fetched_at`. The two agree exactly when the row with
the same key and hash carries the document already (`upsert_agrees_iff`); the hash says nothing of
the other columns, so the page of a song that is fetched again as an album stays a song
(`same_page_other_subject`).
-/

set_option autoImplicit false

namespace AnyPlayerSync.Passages

open AnyPlayerSync.Foundation
open AnyPlayerSync.Sync (Time UserId)

variable {V : Type} {U : UnicodeTables} {hash : Str → Str} {E : Embedder V}

/-! ## Rows that carry a document -/

variable (U) in
/-- The row has the columns that are derived from the document. -/
structure Carries (doc : NewDocument) (r : DocumentRow) : Prop where
  sourceUrl : r.sourceUrl = doc.sourceUrl
  subject : r.subject = doc.subject
  songKey : r.songKey = doc.song.map fun s => Keys.matchKey U (Keys.baseTitle U s)
  albumKey : r.albumKey = doc.album.map fun a => Keys.matchKey U (Keys.baseTitle U a)
  artistKey : r.artistKey = Keys.matchKey U doc.artist
  title : r.title = doc.title
  lang : r.lang = doc.lang
  body : r.body = doc.body

instance (doc : NewDocument) (r : DocumentRow) : Decidable (Carries U doc r) :=
  decidable_of_iff
    (r.sourceUrl = doc.sourceUrl ∧ r.subject = doc.subject ∧
      r.songKey = (doc.song.map fun s => Keys.matchKey U (Keys.baseTitle U s)) ∧
      r.albumKey = (doc.album.map fun a => Keys.matchKey U (Keys.baseTitle U a)) ∧
      r.artistKey = Keys.matchKey U doc.artist ∧ r.title = doc.title ∧ r.lang = doc.lang ∧
      r.body = doc.body)
    ⟨fun ⟨h1, h2, h3, h4, h5, h6, h7, h8⟩ => ⟨h1, h2, h3, h4, h5, h6, h7, h8⟩,
      fun ⟨h1, h2, h3, h4, h5, h6, h7, h8⟩ => ⟨h1, h2, h3, h4, h5, h6, h7, h8⟩⟩

/-- Equal up to who added the document and when it was fetched. -/
def DocumentRow.Same (r r' : DocumentRow) : Prop :=
  { r with addedBy := r'.addedBy, fetchedAt := r'.fetchedAt } = r'

theorem Carries.same {doc : NewDocument} {r r' : DocumentRow} (h : Carries U doc r)
    (h' : Carries U doc r') (hid : r.id = r'.id) (hkey : r.key = r'.key)
    (hhash : r.contentHash = r'.contentHash) : r.Same r' := by
  obtain ⟨hsource, href⟩ := Prod.mk.inj hkey
  rw [DocumentRow.Same, hid, hsource, href, hhash, h.sourceUrl, h.subject, h.songKey, h.albumKey,
    h.artistKey, h.title, h.lang, h.body, ← h'.sourceUrl, ← h'.subject, ← h'.songKey,
    ← h'.albumKey, ← h'.artistKey, ← h'.title, ← h'.lang, ← h'.body]

/-- A row that may be put: its id and its key belong to one row, or to none. -/
structure Placed (T : Tables V) (row : DocumentRow) : Prop where
  fresh : row.id < T.docSeq
  unique : (∃ r ∈ T.docs, r.id = row.id ∧ r.key = row.key) ∨
    ∀ r ∈ T.docs, r.id ≠ row.id ∧ r.key ≠ row.key

/-- What the `INSERT` stages for a document. -/
structure Inserted (U : UnicodeTables) (hash : Str → Str) (doc : NewDocument) (row : DocumentRow) :
    Prop where
  key : row.key = doc.key
  carries : Carries U doc row
  contentHash : row.contentHash = hash doc.body

variable (U hash) in
theorem insertDocument_inserted (T : Tables V) (doc : NewDocument) (addedBy : Option UserId)
    (now : Time) : Inserted U hash doc (T.insertDocument U hash doc addedBy now).2.row := by
  rw [Tables.insertDocument]
  cases h : Table.row? DocumentRow.key doc.key T.docs with
  | none => exact ⟨rfl, ⟨rfl, rfl, rfl, rfl, rfl, rfl, rfl, rfl⟩, rfl⟩
  | some r =>
      exact ⟨(Table.row?_spec h).2, ⟨rfl, rfl, rfl, rfl, rfl, rfl, rfl, rfl⟩, rfl⟩

theorem insertDocument_placed {T : Tables V} (hT : T.Valid) (doc : NewDocument)
    (addedBy : Option UserId) (now : Time) :
    Placed (T.insertDocument U hash doc addedBy now).1
      (T.insertDocument U hash doc addedBy now).2.row := by
  rw [Tables.insertDocument]
  cases h : Table.row? DocumentRow.key doc.key T.docs with
  | none =>
      refine ⟨Nat.lt_succ_self _, Or.inr fun r hr => ⟨?_, Table.row?_eq_none_iff.1 h r hr⟩⟩
      exact Nat.ne_of_lt (hT.docFresh r hr)
  | some r =>
      obtain ⟨hr, hkey⟩ := Table.row?_spec h
      exact ⟨Nat.lt_succ_of_lt (hT.docFresh r hr), Or.inl ⟨r, hr, rfl, rfl⟩⟩

/-! ## Chunk rows that store texts -/

/-- The rows are the texts, numbered from 0, under one document. -/
def Stored (rows : List (ChunkRow V)) (documentId : Nat) (texts : List Str) : Prop :=
  rows.map (fun c => (c.documentId, c.text, c.ord)) =
    texts.zipIdx.map fun p => (documentId, p.1, p.2)

theorem Stored.nil (documentId : Nat) : Stored ([] : List (ChunkRow V)) documentId [] := rfl

theorem Stored.length_eq {rows : List (ChunkRow V)} {documentId : Nat} {texts : List Str}
    (h : Stored rows documentId texts) : rows.length = texts.length := by
  have hlen := congrArg List.length h
  simpa using hlen

theorem Stored.documentId_eq {rows : List (ChunkRow V)} {documentId : Nat} {texts : List Str}
    (h : Stored rows documentId texts) {c : ChunkRow V} (hc : c ∈ rows) :
    c.documentId = documentId := by
  have hmem : (c.documentId, c.text, c.ord) ∈ texts.zipIdx.map fun p => (documentId, p.1, p.2) :=
    h ▸ List.mem_map_of_mem (f := fun c : ChunkRow V => (c.documentId, c.text, c.ord)) hc
  obtain ⟨p, -, hp⟩ := List.mem_map.1 hmem
  exact (Prod.mk.inj hp).1.symm

theorem Stored.map_text {rows : List (ChunkRow V)} {documentId : Nat} {texts : List Str}
    (h : Stored rows documentId texts) : rows.map ChunkRow.text = texts := by
  have htext := congrArg (List.map fun p : Nat × Str × Nat => p.2.1) h
  simpa [Function.comp_def] using htext

/-- One more `INSERT` stores one more text. -/
theorem Stored.insertChunk {T : Tables V} {st : Staged V} {texts : List Str}
    (h : Stored st.inserted st.row.id texts) (p : Passage V) :
    Stored (T.insertChunk st p).2.inserted st.row.id (texts ++ [p.text]) := by
  rw [Stored, Tables.insertChunk, List.map_append, h, List.zipIdx_append, List.map_append,
    h.length_eq]
  simp

/-- The loop leaves the document alone, takes numbers from the chunk sequence and stores the texts
of its passages. -/
theorem insertChunks_spec (passages : List (Passage V)) :
    ∀ (T : Tables V) (st : Staged V) (texts : List Str), Stored st.inserted st.row.id texts →
      (insertChunks (T, st) passages).1 = { T with chunkSeq := T.chunkSeq + passages.length } ∧
        (insertChunks (T, st) passages).2.row = st.row ∧
        (insertChunks (T, st) passages).2.deleted = st.deleted ∧
        Stored (insertChunks (T, st) passages).2.inserted st.row.id
          (texts ++ passages.map Passage.text) := by
  induction passages with
  | nil =>
      intro T st texts h
      refine ⟨rfl, rfl, rfl, ?_⟩
      rw [List.map_nil, List.append_nil]
      exact h
  | cons p passages ih =>
      intro T st texts h
      -- the loop goes on from the tables and the staged rows after one `INSERT`
      obtain ⟨htables, hrow, hdeleted, hstored⟩ := ih (T.insertChunk st p).1
        (T.insertChunk st p).2 (texts ++ [p.text]) (h.insertChunk p)
      refine ⟨?_, hrow, hdeleted, ?_⟩
      · rw [insertChunks, htables]
        simp only [Tables.insertChunk, List.length_cons, Nat.add_assoc, Nat.add_comm 1]
      · rw [List.map_cons, List.append_cons]
        exact hstored

/-- The embedder's law: the zipped triples are the chunks of the body. -/
theorem passages_texts {body : Str} {passages : List (Passage V)}
    (h : E.passages body = .ok passages) :
    passages.map Passage.text = chunk E.countTokens body := by
  rw [Embedder.passages] at h
  cases hv : E.embed (chunk E.countTokens body) .passage with
  | error e => simp [hv, bind, Except.bind] at h
  | ok vectors =>
      have hlen := E.embed_length hv
      simp only [hv, bind, Except.bind, pure, Except.pure, Except.ok.injEq] at h
      rw [← h, List.map_map]
      have hcounts : ((chunk E.countTokens body).zip vectors).length =
          ((chunk E.countTokens body).map E.countTokens).length := by simp [hlen]
      have hpairs := List.map_fst_zip hcounts.le
      calc _ = ((((chunk E.countTokens body).zip vectors).zip
              ((chunk E.countTokens body).map E.countTokens)).map Prod.fst).map Prod.fst :=
            List.map_map.symm
        _ = ((chunk E.countTokens body).zip vectors).map Prod.fst := by rw [hpairs]
        _ = chunk E.countTokens body := List.map_fst_zip hlen.ge

/-! ## Commit -/

/-- A commit after a `DELETE` that found all chunk rows of its document replaces them. -/
theorem commit_chunks {T : Tables V} {st : Staged V}
    (h : st.deleted = (T.chunks.filter fun c => c.documentId = st.row.id).map ChunkRow.id) :
    (T.commit st).chunks = (T.chunks.filter fun c => c.documentId ≠ st.row.id) ++ st.inserted := by
  rw [Tables.commit]
  refine congrArg (· ++ st.inserted) (List.filter_congr fun c hc => ?_)
  have hmem : c.documentId = st.row.id → c.id ∈ st.deleted := fun hd =>
    h ▸ List.mem_map_of_mem (List.mem_filter.2 ⟨hc, decide_eq_true hd⟩)
  by_cases hd : c.documentId = st.row.id
  · simp [hd, hmem hd]
  · simp [hd]

theorem commit_valid {T : Tables V} {st : Staged V} (hT : T.Valid) (hp : Placed T st.row)
    (hi : ∀ c ∈ st.inserted, c.documentId = st.row.id) : (T.commit st).Valid where
  docIds := Table.nodup_put hT.docIds hT.docIds fun _ _ h => h
  docKeys := by
    refine Table.nodup_put hT.docKeys hT.docIds fun r hr hid hkey => ?_
    rcases hp.unique with ⟨old, hold, holdid, holdkey⟩ | hnew
    · have heq : r = old := Table.eq_of_key hT.docKeys hr hold (hkey.trans holdkey.symm)
      exact hid (heq ▸ holdid)
    · exact (hnew r hr).2 hkey
  docFresh r hr := by
    rcases Table.mem_put.1 hr with rfl | ⟨hr, -⟩
    · exact hp.fresh
    · exact hT.docFresh r hr
  chunkOwner c hc := by
    rcases List.mem_append.1 hc with hc | hc
    · obtain ⟨r, hr, hid⟩ := hT.chunkOwner c (List.mem_filter.1 hc).1
      by_cases hrow : r.id = st.row.id
      · exact ⟨st.row, Table.mem_put.2 (Or.inl rfl), hrow.symm.trans hid⟩
      · exact ⟨r, Table.mem_put.2 (Or.inr ⟨hr, hrow⟩), hid⟩
    · exact ⟨st.row, Table.mem_put.2 (Or.inl rfl), (hi c hc).symm⟩

/-- The statements from the `DELETE` on, for a document row `st.row` that may be put. -/
theorem written_spec {T : Tables V} {st : Staged V} (hT : T.Valid) (hp : Placed T st.row)
    (hempty : st.inserted = []) (passages : List (Passage V)) :
    ∃ T' st', insertChunks (T, T.deleteChunks st) passages = (T', st') ∧ st'.row = st.row ∧
      (T'.commit st').Valid ∧ (T'.commit st').docs = Table.put DocumentRow.id st.row T.docs ∧
      Stored st'.inserted st.row.id (passages.map Passage.text) ∧
      (T'.commit st').chunks =
        (T.chunks.filter fun c => c.documentId ≠ st.row.id) ++ st'.inserted := by
  obtain ⟨htables, hrow, hdeleted, hstored⟩ := insertChunks_spec passages T (T.deleteChunks st) []
    (by rw [Tables.deleteChunks, hempty]; exact Stored.nil _)
  cases hw : insertChunks (T, T.deleteChunks st) passages with
  | mk T' st' =>
  rw [hw] at htables hrow hdeleted hstored
  simp only [Tables.deleteChunks, List.nil_append] at htables hrow hdeleted hstored
  subst htables
  refine ⟨_, st', rfl, hrow, ?_, by rw [Tables.commit, hrow], hstored, ?_⟩
  · refine commit_valid ⟨hT.docIds, hT.docKeys, hT.docFresh, hT.chunkOwner⟩
      (hrow ▸ ⟨hp.fresh, hp.unique⟩) ?_
    intro c hc
    exact (hstored.documentId_eq hc).trans (congrArg _ hrow.symm)
  · rw [commit_chunks (by rw [hdeleted, hrow]), hrow]

/-! ## The functions -/

theorem Tables.Valid.bump {T : Tables V} (hT : T.Valid) :
    Tables.Valid { T with docSeq := T.docSeq + 1 } :=
  ⟨hT.docIds, hT.docKeys, fun r hr => Nat.lt_succ_of_lt (hT.docFresh r hr), hT.chunkOwner⟩

/-- What the full path leaves. -/
structure Rewritten (U : UnicodeTables) (hash : Str → Str) (E : Embedder V) (T : Tables V)
    (doc : NewDocument) (T' : Tables V) (id : Nat) : Prop where
  valid : T'.Valid
  docs : ∃ row, Inserted U hash doc row ∧ row.id = id ∧
    Placed { T with docSeq := T.docSeq + 1 } row ∧ T'.docs = Table.put DocumentRow.id row T.docs
  chunks : ∃ rows, Stored rows id (chunk E.countTokens doc.body) ∧
    T'.chunks = (T.chunks.filter fun c => c.documentId ≠ id) ++ rows

theorem rewriteDocument_rewritten {T T' : Tables V} (hT : T.Valid) {doc : NewDocument}
    {addedBy : Option UserId} {now : Time} {id : Nat}
    (h : rewriteDocument U hash E T doc addedBy now = .ok (T', id)) :
    Rewritten U hash E T doc T' id := by
  rw [rewriteDocument] at h
  cases hp : E.passages doc.body with
  | error e => simp [hp, bind, Except.bind] at h
  | ok passages =>
      obtain ⟨T₂, st₂, hwritten, hrow, hvalid, hdocs, hstored, hchunks⟩ :=
        written_spec (T := (T.insertDocument U hash doc addedBy now).1) hT.bump
          (insertDocument_placed hT doc addedBy now) rfl passages
      simp only [hp, bind, Except.bind, pure, Except.pure, hwritten, Except.ok.injEq,
        Prod.mk.injEq] at h
      obtain ⟨rfl, rfl⟩ := h
      rw [hrow]
      exact ⟨hvalid, ⟨_, insertDocument_inserted U hash T doc addedBy now, rfl,
        insertDocument_placed hT doc addedBy now, hdocs⟩, _, passages_texts hp ▸ hstored, hchunks⟩

/-- The full path leaves one row with the document's key. -/
theorem Rewritten.row {T T' : Tables V} {doc : NewDocument} {id : Nat}
    (h : Rewritten U hash E T doc T' id) :
    ∃ row, Table.row? DocumentRow.key doc.key T'.docs = some row ∧ Inserted U hash doc row ∧
      row.id = id := by
  obtain ⟨row, hinserted, hid, -, hdocs⟩ := h.docs
  refine ⟨row, ?_, hinserted, hid⟩
  have hmem : row ∈ T'.docs := hdocs ▸ Table.mem_put.2 (Or.inl rfl)
  exact hinserted.key ▸ Table.row?_of_mem h.valid.docKeys hmem

theorem row?_touch (T : Tables V) (id : Nat) (now : Time) (key : Str × Str) :
    Table.row? DocumentRow.key key (T.touch id now).docs =
      (Table.row? DocumentRow.key key T.docs).map fun r =>
        if r.id = id then { r with fetchedAt := now } else r :=
  Table.row?_map (fun r => by split_ifs <;> rfl) key T.docs

/-- A touched row is a row with another time. -/
theorem mem_touch {T : Tables V} {id : Nat} {now : Time} {r : DocumentRow}
    (hr : r ∈ (T.touch id now).docs) : ∃ old ∈ T.docs, old.id = r.id ∧ old.key = r.key ∧
      old.body = r.body ∧ old.contentHash = r.contentHash := by
  obtain ⟨old, hold, rfl⟩ := List.mem_map.1 hr
  refine ⟨old, hold, ?_⟩
  split_ifs
  · exact ⟨rfl, rfl, rfl, rfl⟩
  · exact ⟨rfl, rfl, rfl, rfl⟩

theorem touch_valid {T : Tables V} (hT : T.Valid) (id : Nat) (now : Time) :
    (T.touch id now).Valid := by
  have hmap : ∀ {β : Type} (f : DocumentRow → β),
      (∀ r : DocumentRow, f { r with fetchedAt := now } = f r) →
      (T.touch id now).docs.map f = T.docs.map f := by
    intro β f hf
    rw [Tables.touch, List.map_map]
    refine List.map_congr_left fun r _ => ?_
    rw [Function.comp_apply]
    split_ifs
    · exact hf r
    · rfl
  constructor
  · rw [hmap DocumentRow.id fun _ => rfl]
    exact hT.docIds
  · rw [hmap DocumentRow.key fun _ => rfl]
    exact hT.docKeys
  · intro r hr
    obtain ⟨old, hold, hid, -⟩ := mem_touch hr
    exact hid ▸ hT.docFresh old hold
  · intro c hc
    obtain ⟨r, hr, hid⟩ := hT.chunkOwner c hc
    refine ⟨_, List.mem_map_of_mem hr, ?_⟩
    split_ifs
    · exact hid
    · exact hid

variable (U hash E) in
/-- The two paths of `upsert_document`. -/
theorem upsertDocument_cases (T : Tables V) (doc : NewDocument) (addedBy : Option UserId)
    (now : Time) :
    (∃ r, Table.row? DocumentRow.key doc.key T.docs = some r ∧ r.contentHash = hash doc.body ∧
      upsertDocument U hash E T doc addedBy now = .ok (T.touch r.id now, r.id)) ∨
    ((∀ r, Table.row? DocumentRow.key doc.key T.docs = some r → r.contentHash ≠ hash doc.body) ∧
      upsertDocument U hash E T doc addedBy now =
        rewriteDocument U hash E T doc addedBy now) := by
  rw [upsertDocument, Tables.selectHash]
  cases h : Table.row? DocumentRow.key doc.key T.docs with
  | none => exact Or.inr ⟨fun _ hr => (nomatch hr), rfl⟩
  | some r =>
      by_cases hhash : r.contentHash = hash doc.body
      · exact Or.inl ⟨r, rfl, hhash, if_pos hhash⟩
      · exact Or.inr ⟨fun _ hr => Option.some.inj hr ▸ hhash, if_neg hhash⟩

theorem upsert_valid {T T' : Tables V} (hT : T.Valid) {doc : NewDocument}
    {addedBy : Option UserId} {now : Time} {id : Nat}
    (h : upsertDocument U hash E T doc addedBy now = .ok (T', id)) : T'.Valid := by
  rcases upsertDocument_cases U hash E T doc addedBy now with
    ⟨r, -, -, hshort⟩ | ⟨-, hfull⟩
  · rw [hshort] at h
    cases h
    exact touch_valid hT r.id now
  · rw [hfull] at h
    exact (rewriteDocument_rewritten hT h).valid

/-- Rows with another key stay. -/
theorem upsert_keeps {T T' : Tables V} (hT : T.Valid) {doc : NewDocument}
    {addedBy : Option UserId} {now : Time} {id : Nat}
    (h : upsertDocument U hash E T doc addedBy now = .ok (T', id)) {r : DocumentRow}
    (hr : r ∈ T.docs) (hkey : r.key ≠ doc.key) : r ∈ T'.docs := by
  rcases upsertDocument_cases U hash E T doc addedBy now with
    ⟨old, hold, -, hshort⟩ | ⟨-, hfull⟩
  · rw [hshort] at h
    cases h
    obtain ⟨hmem, holdkey⟩ := Table.row?_spec hold
    refine List.mem_map.2 ⟨r, hr, if_neg fun hid => hkey ?_⟩
    rw [Table.eq_of_key hT.docIds hr hmem hid]
    exact holdkey
  · rw [hfull] at h
    obtain ⟨row, hinserted, -, hplaced, hdocs⟩ := (rewriteDocument_rewritten hT h).docs
    rw [hdocs]
    refine Table.mem_put.2 (Or.inr ⟨hr, fun hid => hkey ?_⟩)
    -- the row put has the id of a row with its own key, or an id that no row has
    rw [← hinserted.key]
    rcases hplaced.unique with ⟨old, hold, holdid, holdkey⟩ | hnew
    · rw [← holdkey, Table.eq_of_key hT.docIds hr hold (hid.trans holdid.symm)]
    · exact absurd hid (hnew r hr).1

/-- No key is new but the document's. -/
theorem upsert_only {T T' : Tables V} (hT : T.Valid) {doc : NewDocument}
    {addedBy : Option UserId} {now : Time} {id : Nat}
    (h : upsertDocument U hash E T doc addedBy now = .ok (T', id)) {r : DocumentRow}
    (hr : r ∈ T'.docs) : r.key = doc.key ∨ ∃ old ∈ T.docs, old.key = r.key := by
  rcases upsertDocument_cases U hash E T doc addedBy now with
    ⟨_, -, -, hshort⟩ | ⟨-, hfull⟩
  · rw [hshort] at h
    cases h
    obtain ⟨old, hold, -, hkey, -⟩ := mem_touch hr
    exact Or.inr ⟨old, hold, hkey⟩
  · rw [hfull] at h
    obtain ⟨row, hinserted, -, -, hdocs⟩ := (rewriteDocument_rewritten hT h).docs
    rw [hdocs] at hr
    rcases Table.mem_put.1 hr with rfl | ⟨hr, -⟩
    · exact Or.inl hinserted.key
    · exact Or.inr ⟨r, hr, rfl⟩

/-- A document with a new key gets a row that carries it. -/
theorem upsert_new {T T' : Tables V} (hT : T.Valid) {doc : NewDocument}
    {addedBy : Option UserId} {now : Time} {id : Nat} (hnew : ∀ r ∈ T.docs, r.key ≠ doc.key)
    (h : upsertDocument U hash E T doc addedBy now = .ok (T', id)) :
    ∃ r ∈ T'.docs, Inserted U hash doc r := by
  rcases upsertDocument_cases U hash E T doc addedBy now with
    ⟨old, hold, -, -⟩ | ⟨-, hfull⟩
  · obtain ⟨hmem, hkey⟩ := Table.row?_spec hold
    exact absurd hkey (hnew old hmem)
  · rw [hfull] at h
    obtain ⟨row, hrow, hinserted, -⟩ := (rewriteDocument_rewritten hT h).row
    exact ⟨row, (Table.row?_spec hrow).1, hinserted⟩

/-- Documents with different keys that are not stored yet get a row each. -/
theorem storeAll_new {addedBy : Option UserId} {now : Time} (docs : List NewDocument) :
    ∀ {T T' : Tables V}, T.Valid → storeAll U hash E T addedBy now docs = .ok T' →
      (docs.map NewDocument.key).Nodup → (∀ r ∈ T.docs, ∀ d ∈ docs, r.key ≠ d.key) →
      T'.Valid ∧ (∀ d ∈ docs, ∃ r ∈ T'.docs, Inserted U hash d r) ∧
        ∀ r ∈ T.docs, r ∈ T'.docs := by
  induction docs with
  | nil =>
      intro T T' hT h _ _
      cases h
      exact ⟨hT, fun _ h => (nomatch h), fun _ hr => hr⟩
  | cons doc docs ih =>
      intro T T' hT h hnodup hnew
      rw [storeAll] at h
      cases hup : upsertDocument U hash E T doc addedBy now with
      | error e => simp [hup, bind, Except.bind] at h
      | ok p =>
          obtain ⟨T₁, id⟩ := p
          simp only [hup, bind, Except.bind] at h
          rw [List.map_cons, List.nodup_cons] at hnodup
          have hdoc : ∀ r ∈ T.docs, r.key ≠ doc.key := fun r hr => hnew r hr doc List.mem_cons_self
          have hne : ∀ d ∈ docs, doc.key ≠ d.key := fun d hd heq =>
            hnodup.1 (heq ▸ List.mem_map_of_mem hd)
          have hnew₁ : ∀ r ∈ T₁.docs, ∀ d ∈ docs, r.key ≠ d.key := by
            intro r hr d hd
            rcases upsert_only hT hup hr with hkey | ⟨old, hold, hkey⟩
            · exact hkey ▸ hne d hd
            · exact hkey ▸ hnew old hold d (List.mem_cons_of_mem _ hd)
          obtain ⟨hvalid, hstored, hkept⟩ := ih (upsert_valid hT hup) h hnodup.2 hnew₁
          refine ⟨hvalid, fun d hd => ?_, fun r hr => hkept r (upsert_keeps hT hup hr (hdoc r hr))⟩
          rcases List.mem_cons.1 hd with rfl | hd
          · obtain ⟨r, hr, hinserted⟩ := upsert_new hT hdoc hup
            exact ⟨r, hkept r hr, hinserted⟩
          · exact hstored d hd

/-- Storing keeps the constraints. -/
theorem storeAll_valid {addedBy : Option UserId} {now : Time} (docs : List NewDocument) :
    ∀ {T T' : Tables V}, T.Valid → storeAll U hash E T addedBy now docs = .ok T' → T'.Valid := by
  induction docs with
  | nil =>
      intro T T' hT h
      cases h
      exact hT
  | cons doc docs ih =>
      intro T T' hT h
      rw [storeAll] at h
      cases hup : upsertDocument U hash E T doc addedBy now with
      | error e => simp [hup, bind, Except.bind] at h
      | ok p =>
          simp only [hup, bind, Except.bind] at h
          exact ih (upsert_valid hT hup) h

variable (U hash) in
/-- With an embedder that never fails, storing succeeds. -/
theorem upsertDocument_ok (hE : ∀ texts kind, ∃ vectors, E.embed texts kind = .ok vectors)
    (T : Tables V) (doc : NewDocument) (addedBy : Option UserId) (now : Time) :
    ∃ p, upsertDocument U hash E T doc addedBy now = .ok p := by
  have hpassages : ∃ passages, E.passages doc.body = .ok passages := by
    obtain ⟨vectors, hv⟩ := hE (chunk E.countTokens doc.body) .passage
    rw [Embedder.passages, hv]
    exact ⟨_, rfl⟩
  rcases upsertDocument_cases U hash E T doc addedBy now with
    ⟨r, -, -, hshort⟩ | ⟨-, hfull⟩
  · exact ⟨_, hshort⟩
  · obtain ⟨passages, hp⟩ := hpassages
    rw [hfull, rewriteDocument, hp]
    exact ⟨_, rfl⟩

variable (U hash) in
theorem storeAll_ok (hE : ∀ texts kind, ∃ vectors, E.embed texts kind = .ok vectors)
    (addedBy : Option UserId) (now : Time) (docs : List NewDocument) :
    ∀ T : Tables V, ∃ T', storeAll U hash E T addedBy now docs = .ok T' := by
  induction docs with
  | nil =>
      intro T
      exact ⟨T, rfl⟩
  | cons doc docs ih =>
      intro T
      obtain ⟨p, hp⟩ := upsertDocument_ok U hash hE T doc addedBy now
      rw [storeAll, hp]
      exact ih p.1

/-! ## The unchanged hash -/

variable (U hash E) in
/-- Whenever `upsert_document` succeeds, the row with the document's key carries the document, and
it is the row that the full path leaves, up to who added it and when it was fetched. -/
structure UpsertAgrees (T : Tables V) (doc : NewDocument) (addedBy : Option UserId) : Prop where
  carries : ∀ now T' id, upsertDocument U hash E T doc addedBy now = .ok (T', id) →
    ∃ r, Table.row? DocumentRow.key doc.key T'.docs = some r ∧ r.id = id ∧ Carries U doc r
  same : ∀ now T' id T'' id', upsertDocument U hash E T doc addedBy now = .ok (T', id) →
    rewriteDocument U hash E T doc addedBy now = .ok (T'', id') →
    ∃ r r', Table.row? DocumentRow.key doc.key T'.docs = some r ∧
      Table.row? DocumentRow.key doc.key T''.docs = some r' ∧ r.Same r'

theorem Carries.touched {doc : NewDocument} {r : DocumentRow} (h : Carries U doc r) (now : Time) :
    Carries U doc { r with fetchedAt := now } :=
  ⟨h.sourceUrl, h.subject, h.songKey, h.albumKey, h.artistKey, h.title, h.lang, h.body⟩

theorem row?_touch_self {T : Tables V} {key : Str × Str} {r : DocumentRow}
    (h : Table.row? DocumentRow.key key T.docs = some r) (now : Time) :
    Table.row? DocumentRow.key key (T.touch r.id now).docs = some { r with fetchedAt := now } := by
  rw [row?_touch, h, Option.map_some, if_pos rfl]

/-- A stored row and the row that the full path puts in its place. -/
theorem Rewritten.same {T T' : Tables V} (hT : T.Valid) {doc : NewDocument} {id : Nat}
    (h : Rewritten U hash E T doc T' id) {r : DocumentRow} (hr : r ∈ T.docs)
    (hkey : r.key = doc.key) (hhash : r.contentHash = hash doc.body) (hc : Carries U doc r) :
    ∃ row, Table.row? DocumentRow.key doc.key T'.docs = some row ∧ r.Same row := by
  obtain ⟨row, hinserted, hid, hplaced, hdocs⟩ := h.docs
  refine ⟨row, ?_, hc.same hinserted.carries ?_ (hkey.trans hinserted.key.symm)
    (hhash.trans hinserted.contentHash.symm)⟩
  · exact hinserted.key ▸ Table.row?_of_mem h.valid.docKeys (hdocs ▸ Table.mem_put.2 (Or.inl rfl))
  · -- the key of the row put belongs to the stored row, so its id does too
    rcases hplaced.unique with ⟨old, hold, holdid, holdkey⟩ | hnew
    · have heq : old = r := Table.eq_of_key hT.docKeys hold hr
        (holdkey.trans (hinserted.key.trans hkey.symm))
      exact heq ▸ holdid
    · exact absurd (hkey.trans hinserted.key.symm) (hnew r hr).2

section Agrees

variable {T : Tables V} {doc : NewDocument} {addedBy : Option UserId}

/-- The shortcut leaves the columns of the row that has the hash, so they must be the document's. -/
theorem UpsertAgrees.carries_of_hash (hT : T.Valid) (h : UpsertAgrees U hash E T doc addedBy)
    {r : DocumentRow} (hr : r ∈ T.docs) (hkey : r.key = doc.key)
    (hhash : r.contentHash = hash doc.body) : Carries U doc r := by
  have hrow : Table.row? DocumentRow.key doc.key T.docs = some r :=
    hkey ▸ Table.row?_of_mem hT.docKeys hr
  have hok : upsertDocument U hash E T doc addedBy 0 = .ok (T.touch r.id 0, r.id) := by
    rw [upsertDocument, Tables.selectHash, hrow]
    exact if_pos hhash
  obtain ⟨r', hr', -, hc⟩ := h.carries 0 _ _ hok
  rw [row?_touch, hrow] at hr'
  cases hr'
  simp only [if_true] at hc
  exact ⟨hc.sourceUrl, hc.subject, hc.songKey, hc.albumKey, hc.artistKey, hc.title, hc.lang,
    hc.body⟩

/-- A row with the key and the hash that carries the document already makes both paths agree. -/
theorem upsertAgrees_of_carries (hT : T.Valid)
    (h : ∀ r ∈ T.docs, r.key = doc.key → r.contentHash = hash doc.body → Carries U doc r) :
    UpsertAgrees U hash E T doc addedBy := by
  constructor
  · intro now T' id hok
    rcases upsertDocument_cases U hash E T doc addedBy now with ⟨r, hr, hhash, hshort⟩ | ⟨-, hfull⟩
    · rw [hshort] at hok
      cases hok
      obtain ⟨hmem, hkey⟩ := Table.row?_spec hr
      exact ⟨_, row?_touch_self hr now, rfl, (h r hmem hkey hhash).touched now⟩
    · rw [hfull] at hok
      obtain ⟨row, hrow, hinserted, hid⟩ := (rewriteDocument_rewritten hT hok).row
      exact ⟨row, hrow, hid, hinserted.carries⟩
  · intro now T' id T'' id' hok hfull'
    have hrewritten := rewriteDocument_rewritten hT hfull'
    rcases upsertDocument_cases U hash E T doc addedBy now with ⟨r, hr, hhash, hshort⟩ | ⟨-, hfull⟩
    · rw [hshort] at hok
      cases hok
      obtain ⟨hmem, hkey⟩ := Table.row?_spec hr
      obtain ⟨row, hrow, hsame⟩ := hrewritten.same hT hmem hkey hhash (h r hmem hkey hhash)
      exact ⟨_, row, row?_touch_self hr now, hrow, hsame⟩
    · -- the hash differs, so the shortcut is not taken and both are the full path
      rw [hfull, hfull'] at hok
      cases hok
      obtain ⟨row, hrow, -⟩ := hrewritten.row
      exact ⟨row, row, hrow, hrow, rfl⟩

end Agrees

/-- **The shortcut agrees with the full path** exactly when no stored row with the document's key
has the hash of its body and other columns. -/
theorem upsert_agrees_iff (U : UnicodeTables) (hash : Str → Str) (E : Embedder V) (s : Store V)
    (doc : NewDocument) (addedBy : Option UserId) :
    UpsertAgrees U hash E s.tables doc addedBy ↔
      ∀ r ∈ s.tables.docs, r.key = doc.key → r.contentHash = hash doc.body → Carries U doc r := by
  constructor
  · intro h r hr hkey hhash
    exact h.carries_of_hash s.valid hr hkey hhash
  · intro h
    exact upsertAgrees_of_carries s.valid h

/-! ## One page under two subjects -/

/-- An embedder that counts words. -/
def wordEmbedder : Embedder Nat where
  countTokens text := (Text.splitWhitespace text).length
  embed texts _ := .ok (texts.map List.length)
  embed_length h := by
    cases h
    exact List.length_map _

/-- The page of an album that is also the page of its title song. -/
def thrillerPage (subject : Subject) (song : Option Str) : NewDocument where
  source := "wikipedia-en".toList
  sourceRef := "Thriller".toList
  sourceUrl := "https://en.wikipedia.org/wiki/Thriller".toList
  subject := subject
  song := song
  album := some "Thriller".toList
  artist := "Michael Jackson".toList
  title := "Thriller".toList
  lang := "en".toList
  body := "Thriller is the sixth album by Michael Jackson and its title song.".toList

/-- The SHA-256 text of the page's body. -/
def thrillerHash : Str → Str := fun _ =>
  "3aad135e5d28737b730476223815879b797a4c869e61cc0158e946e49df0e65f".toList

/-- The page is stored for the song. When it comes back for the album, the stored row stays a song
row, and no album lookup finds it. -/
theorem same_page_other_subject :
    ∃ T id, upsertDocument asciiTables thrillerHash wordEmbedder Tables.empty
        (thrillerPage .song (some "Thriller".toList)) none 0 = .ok (T, id) ∧
      ¬ UpsertAgrees asciiTables thrillerHash wordEmbedder T (thrillerPage .album none) none := by
  refine ⟨_, _, rfl, fun h => ?_⟩
  -- the second call finds the hash unchanged, so the row keeps the subject `song`
  obtain ⟨r, hr, -, hc⟩ := h.carries 1 _ _ rfl
  cases hr
  exact absurd hc.subject (by decide)

end AnyPlayerSync.Passages
