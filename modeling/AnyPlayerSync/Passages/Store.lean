import AnyPlayerSync.Foundation.Table
import AnyPlayerSync.Keys.MatchKeys
import AnyPlayerSync.Passages.Chunk
import AnyPlayerSync.Passages.Model

/-!
# The passage store

`passages/store.rs` on the tables `dj_documents`, `dj_chunks` and `dj_passage_plays`: one definition
for each SQL statement of `upsert_document`, `delete_document` and `candidates`. What a transaction
has written and not committed is a `Staged` value beside the tables. The sequences behind
`BIGSERIAL` belong to the tables but not to transactions: a rollback gives no number back.

The SHA-256 text of a body is a parameter. The casts of `ord` and `count` to `i32` are left out:
PostgreSQL refuses a body with 2^31 characters.
-/

set_option autoImplicit false

namespace AnyPlayerSync.Passages

open AnyPlayerSync.Foundation
open AnyPlayerSync.Sync (Time UserId)

/-! ## Tables -/

/-- A row of `dj_documents`. -/
structure DocumentRow where
  id : Nat
  source : Str
  sourceRef : Str
  sourceUrl : Str
  subject : Subject
  songKey : Option Str
  albumKey : Option Str
  artistKey : Str
  title : Str
  lang : Str
  body : Str
  contentHash : Str
  fetchedAt : Time
  addedBy : Option UserId
  deriving DecidableEq

/-- `UNIQUE (source, source_ref)`. -/
def DocumentRow.key (r : DocumentRow) : Str × Str := (r.source, r.sourceRef)

/-- The key under which a document is stored. -/
def NewDocument.key (doc : NewDocument) : Str × Str := (doc.source, doc.sourceRef)

/-- A row of `dj_chunks`; `V` is the type of embedding vectors. -/
structure ChunkRow (V : Type) where
  id : Nat
  documentId : Nat
  ord : Nat
  text : Str
  tokenCount : Nat
  embedding : V

/-- A row of `dj_passage_plays`. -/
structure PlayRow where
  userId : UserId
  eventId : Str
  chunkId : Nat
  playedAt : Time

/-- The three tables, with the next values of the two sequences. -/
structure Tables (V : Type) where
  docs : List DocumentRow
  chunks : List (ChunkRow V)
  plays : List PlayRow
  docSeq : Nat
  chunkSeq : Nat

/-- Tables without rows. -/
def Tables.empty {V : Type} : Tables V := ⟨[], [], [], 1, 1⟩

/-- The constraints of the schema. -/
structure Tables.Valid {V : Type} (T : Tables V) : Prop where
  docIds : (T.docs.map DocumentRow.id).Nodup
  docKeys : (T.docs.map DocumentRow.key).Nodup
  docFresh : ∀ r ∈ T.docs, r.id < T.docSeq
  chunkOwner : ∀ c ∈ T.chunks, ∃ r ∈ T.docs, r.id = c.documentId

theorem Tables.valid_empty {V : Type} : (Tables.empty (V := V)).Valid where
  docIds := List.nodup_nil
  docKeys := List.nodup_nil
  docFresh _ h := nomatch h
  chunkOwner _ h := nomatch h

/-- A store: tables that meet the constraints. -/
structure Store (V : Type) where
  tables : Tables V
  valid : tables.Valid

/-! ## The embedder -/

/-- Queries and passages are embedded differently. -/
inductive EmbedKind where
  | query
  | passage
  deriving DecidableEq

/-- The trait `Embed`: one vector per text. -/
structure Embedder (V : Type) where
  countTokens : Str → Nat
  embed : List Str → EmbedKind → Except Str (List V)
  embed_length : ∀ {texts kind vectors}, embed texts kind = .ok vectors →
    vectors.length = texts.length

/-- An embedder without vectors. -/
def unitEmbedder : Embedder Unit where
  countTokens _ := 0
  embed texts _ := .ok (texts.map fun _ => ())
  embed_length h := by
    cases h
    exact List.length_map _

theorem unitEmbedder_ok (texts : List Str) (kind : EmbedKind) :
    ∃ vectors, unitEmbedder.embed texts kind = .ok vectors := ⟨texts.map fun _ => (), rfl⟩

/-- A text of a document with its token count and its vector. -/
structure Passage (V : Type) where
  text : Str
  count : Nat
  vector : V

section Statements

variable {V : Type}

/-- The blocking task of `upsert_document`, and the triples that its loop zips. -/
def Embedder.passages (E : Embedder V) (body : Str) : Except Str (List (Passage V)) := do
  let texts := chunk E.countTokens body
  let counts := texts.map E.countTokens
  let vectors ← E.embed texts .passage
  return ((texts.zip vectors).zip counts).map fun p => ⟨p.1.1, p.2, p.1.2⟩

/-! ## The statements of `upsert_document` -/

/-- `SELECT id, content_hash`. -/
def Tables.selectHash (T : Tables V) (key : Str × Str) : Option (Nat × Str) :=
  (Table.row? DocumentRow.key key T.docs).map fun r => (r.id, r.contentHash)

/-- `UPDATE dj_documents SET fetched_at = NOW() WHERE id = $1`. -/
def Tables.touch (T : Tables V) (id : Nat) (now : Time) : Tables V :=
  { T with docs := T.docs.map fun r => if r.id = id then { r with fetchedAt := now } else r }

/-- What an open transaction has written: the document row, the chunk rows that its `DELETE` found
and the chunk rows that it inserted. -/
structure Staged (V : Type) where
  row : DocumentRow
  deleted : List Nat
  inserted : List (ChunkRow V)

section Row

variable (U : UnicodeTables) (hash : Str → Str)

/-- The row that the `VALUES` describe. -/
def documentRow (doc : NewDocument) (addedBy : Option UserId) (id : Nat) (now : Time) :
    DocumentRow where
  id := id
  source := doc.source
  sourceRef := doc.sourceRef
  sourceUrl := doc.sourceUrl
  subject := doc.subject
  songKey := doc.song.map fun s => Keys.matchKey U (Keys.baseTitle U s)
  albumKey := doc.album.map fun a => Keys.matchKey U (Keys.baseTitle U a)
  artistKey := Keys.matchKey U doc.artist
  title := doc.title
  lang := doc.lang
  body := doc.body
  contentHash := hash doc.body
  fetchedAt := now
  addedBy := addedBy

/-- `DO UPDATE SET ...`: an existing row keeps its id, its key and who added it. -/
def DocumentRow.overwritten (r excluded : DocumentRow) : DocumentRow :=
  { excluded with
    id := r.id, source := r.source, sourceRef := r.sourceRef, addedBy := r.addedBy }

/-- `INSERT ... ON CONFLICT (source, source_ref) DO UPDATE ... RETURNING id`. The number from the
sequence is used up also when the row exists. -/
def Tables.insertDocument (T : Tables V) (doc : NewDocument) (addedBy : Option UserId)
    (now : Time) : Tables V × Staged V :=
  let excluded := documentRow U hash doc addedBy T.docSeq now
  let row := match Table.row? DocumentRow.key doc.key T.docs with
    | some r => r.overwritten excluded
    | none => excluded
  ({ T with docSeq := T.docSeq + 1 }, ⟨row, [], []⟩)

end Row

/-- `DELETE FROM dj_chunks WHERE document_id = $1`. -/
def Tables.deleteChunks (T : Tables V) (st : Staged V) : Staged V :=
  { st with deleted := (T.chunks.filter fun c => c.documentId = st.row.id).map ChunkRow.id }

/-- `INSERT INTO dj_chunks`. -/
def Tables.insertChunk (T : Tables V) (st : Staged V) (p : Passage V) : Tables V × Staged V :=
  let row := ⟨T.chunkSeq, st.row.id, st.inserted.length, p.text, p.count, p.vector⟩
  ({ T with chunkSeq := T.chunkSeq + 1 }, { st with inserted := st.inserted ++ [row] })

/-- The loop over the passages. -/
def insertChunks : Tables V × Staged V → List (Passage V) → Tables V × Staged V
  | p, [] => p
  | p, passage :: passages => insertChunks (p.1.insertChunk p.2 passage) passages

/-- `COMMIT`; the plays of a deleted chunk go with it (`ON DELETE CASCADE`). -/
def Tables.commit (T : Tables V) (st : Staged V) : Tables V :=
  { T with
    docs := Table.put DocumentRow.id st.row T.docs
    chunks := (T.chunks.filter fun c => ¬ (c.documentId = st.row.id ∧ c.id ∈ st.deleted)) ++
      st.inserted
    plays := T.plays.filter fun p => p.chunkId ∉ st.deleted }

/-! ## The functions, with no other writer -/

section Functions

variable (U : UnicodeTables) (hash : Str → Str) (E : Embedder V)

/-- `upsert_document` from the embedding on. -/
def rewriteDocument (T : Tables V) (doc : NewDocument) (addedBy : Option UserId) (now : Time) :
    Except Str (Tables V × Nat) := do
  let passages ← E.passages doc.body
  let (T, st) := T.insertDocument U hash doc addedBy now
  let (T, st) := insertChunks (T, T.deleteChunks st) passages
  return (T.commit st, st.row.id)

/-- `upsert_document`: a row with the same hash is only touched. -/
def upsertDocument (T : Tables V) (doc : NewDocument) (addedBy : Option UserId) (now : Time) :
    Except Str (Tables V × Nat) :=
  match T.selectHash doc.key with
  | some (id, existing) =>
      -- the shortcut compares the body's hash and no other column
      if existing = hash doc.body then .ok (T.touch id now, id)
      else rewriteDocument U hash E T doc addedBy now
  | none => rewriteDocument U hash E T doc addedBy now

/-- The loop of `store_results`; the first error ends it. -/
def storeAll (T : Tables V) (addedBy : Option UserId) (now : Time) :
    List NewDocument → Except Str (Tables V)
  | [] => .ok T
  | doc :: docs => do
      let (T, _) ← upsertDocument U hash E T doc addedBy now
      storeAll T addedBy now docs

end Functions

/-- `delete_document`: the chunks of the document and their plays go with it (`ON DELETE
CASCADE`). -/
def Tables.deleteDocument (T : Tables V) (id : Nat) : Tables V × Bool :=
  let gone := (T.chunks.filter fun c => c.documentId = id).map ChunkRow.id
  ({ T with
      docs := T.docs.filter fun r => r.id ≠ id
      chunks := T.chunks.filter fun c => c.documentId ≠ id
      plays := T.plays.filter fun p => p.chunkId ∉ gone },
    T.docs.any fun r => r.id = id)

/-! ## Candidates -/

/-- A chunk that a lookup may serve, with what it needs of the document and its last play. -/
structure Candidate (V : Type) where
  chunkId : Nat
  documentId : Nat
  text : Str
  tokenCount : Nat
  embedding : V
  source : Str
  sourceUrl : Str
  title : Str
  subject : Subject
  lang : Str
  lastPlayed : Option Time

/-- The keys that a lookup binds. -/
structure LookupKeys where
  songKeys : List Str
  artistKeys : List Str
  albumKey : Option Str

/-- The `WHERE` clause; a comparison with `NULL` does not hold. -/
def LookupKeys.Match (keys : LookupKeys) (r : DocumentRow) : Prop :=
  (r.subject = .song ∧ (∃ k ∈ keys.songKeys, r.songKey = some k) ∧ r.artistKey ∈ keys.artistKeys) ∨
    (r.subject = .album ∧ keys.albumKey ≠ none ∧ r.albumKey = keys.albumKey ∧
      r.artistKey ∈ keys.artistKeys) ∨
    (r.subject = .artist ∧ r.artistKey ∈ keys.artistKeys)

instance (keys : LookupKeys) (r : DocumentRow) : Decidable (keys.Match r) :=
  inferInstanceAs (Decidable (_ ∨ _ ∨ _))

/-- `SELECT MAX(p.played_at) ...`. -/
def Tables.lastPlayed (T : Tables V) (user : UserId) (chunkId : Nat) : Option Time :=
  ((T.plays.filter fun p => p.userId = user ∧ p.chunkId = chunkId).map PlayRow.playedAt).max?

/-- The candidate that the query reads from a chunk and its document. -/
def Tables.candidate (T : Tables V) (user : UserId) (c : ChunkRow V) (r : DocumentRow) :
    Candidate V where
  chunkId := c.id
  documentId := c.documentId
  text := c.text
  tokenCount := c.tokenCount
  embedding := c.embedding
  source := r.source
  sourceUrl := r.sourceUrl
  title := r.title
  subject := r.subject
  lang := r.lang
  lastPlayed := T.lastPlayed user c.id

/-- `dj_chunks c JOIN dj_documents d ON d.id = c.document_id WHERE ...`. -/
def Tables.matching (T : Tables V) (keys : LookupKeys) (user : UserId) : List (Candidate V) :=
  T.chunks.flatMap fun c =>
    (T.docs.filter fun r => r.id = c.documentId ∧ keys.Match r).map (T.candidate user c)

/-- `LIMIT 3000`. -/
def candidateLimit : Nat := 3000

/-- `candidates`, in the order of the chunk ids. -/
def Tables.candidates (T : Tables V) (keys : LookupKeys) (user : UserId) : List (Candidate V) :=
  ((T.matching keys user).mergeSort fun a b => a.chunkId ≤ b.chunkId).take candidateLimit

end Statements

end AnyPlayerSync.Passages
