import AnyPlayerSync.Passages.Api
import AnyPlayerSync.Passages.ChunkIds

/-!
# Played passages

Lookups and `played` requests between the statements of any number of `upsert_document` and
`delete_document` calls and whatever the ingest queue does. A lookup and a `played` request are one
step each; a lookup's ranking uses the time at which it read the candidates. The insert of a play
waits for a transaction that has deleted its chunk, and fails when that commits; here it goes
through at any time, which adds runs and takes none away.

A play excludes its chunk by id. It excludes the chunk's text for 30 days as long as that text does
not come back under another id (`PlaysKept`): `played_excluded`. A document that is fetched again
with another body has new chunk ids, so a text that both bodies share is served again at once
(`rebuilt_passage_served`).
-/

set_option autoImplicit false

namespace AnyPlayerSync.Passages

open AnyPlayerSync.Foundation
open AnyPlayerSync.Sync (ApiError Time UserId)

/-! ## The machine -/

/-- The store with its open calls, and the queue with the clock. -/
structure PassageServer (V : Type) where
  txn : TxnState V
  queue : Queue

/-- A scheduling choice, or a request. -/
inductive PassageAction where
  | store (a : StoreAction)
  | queue (a : QueueAction)
  | lookup (user : UserId) (query : PassageQuery)
  | played (user : UserId) (input : PlayedRequest)

/-- A lookup's event shows the committed tables that it read. -/
inductive PassageEvent (V : Type) where
  | store (e : StoreEvent V)
  | queue (e : QueueEvent)
  | lookedUp (user : UserId) (now : Time) (tables : Tables V)
      (answer : Except ApiError PassageResponse)
  | played (user : UserId) (input : PlayedRequest) (answer : Except ApiError Unit)

section Machine

variable {V F : Type} [Inhabited V] (A : Arithmetic V F) (U : UnicodeTables) (hash : Str → Str)
  (E : Embedder V)

/-- The committed tables are these. -/
def PassageServer.setTables (s : PassageServer V) (T : Tables V) : PassageServer V :=
  { s with txn := { s.txn with tables := T } }

/-- One step of the store or the queue, or one request. -/
def passageStep (s : PassageServer V) : PassageAction → Option (PassageServer V × PassageEvent V)
  | .store a => (storeStep U hash E s.txn a).map fun p => ({ s with txn := p.1 }, .store p.2)
  | .queue a => (queueStep U s.queue a).map fun p => ({ s with queue := p.1 }, .queue p.2)
  | .lookup user query =>
      let p := lookup U A (some E) s.txn.tables s.queue user query
      some ({ s with queue := p.1 }, .lookedUp user s.queue.now s.txn.tables p.2)
  | .played user input =>
      let p := played (some E) s.txn.tables user input s.queue.now
      some (s.setTables p.1, .played user input p.2)

/-- The passage store and its readers, on empty tables. -/
def passages : Machine (PassageServer V) PassageAction (PassageEvent V) where
  init := ⟨TxnState.empty, Queue.empty⟩
  step := passageStep A U hash E

end Machine

/-! ## What was served and played -/

section History

variable {V : Type}

/-- A passage that was served: its chunk, the key of its document and its text. -/
structure Served where
  chunk : Nat
  key : Str × Str
  text : Str
  deriving DecidableEq

/-- The document of a chunk. -/
def Tables.documentsOf (T : Tables V) (chunkId : Nat) : List DocumentRow :=
  T.docs.filter fun r => T.chunks.any fun c => c.id = chunkId && c.documentId = r.id

/-- The passages of an answer, with the documents that they had when it was given. -/
def servedOf (T : Tables V) : Except ApiError PassageResponse → List Served
  | .error _ => []
  | .ok response => response.passages.flatMap fun p =>
      (T.documentsOf p.chunkId).map fun r => ⟨p.chunkId, r.key, p.text⟩

/-- What the lookups of a user have served. -/
def servedTo (user : UserId) : List (PassageEvent V) → List Served
  | [] => []
  | .lookedUp u _ T answer :: h =>
      if u = user then servedOf T answer ++ servedTo user h else servedTo user h
  | _ :: h => servedTo user h

/-- A passage that a user has played, with the time of the play. -/
structure Played where
  user : UserId
  passage : Served
  playedAt : Time

/-- What users have played of what they were served: a `played` request, answered 204, that named
the chunk. -/
def playedAll : List (PassageEvent V) → List Played
  | [] => []
  | .played user input (.ok ()) :: h =>
      (((servedTo user h).filter fun p => (p.chunk : Int) ∈ input.chunkIds).map fun p =>
        ⟨user, p, input.playedAt⟩) ++ playedAll h
  | _ :: h => playedAll h

/-- A lookup serves nothing that its user has played less than 30 days ago. -/
def Excludes (h : List (PassageEvent V)) : PassageEvent V → Prop
  | .lookedUp user now T answer => ∀ p ∈ playedAll h, p.user = user → now < p.playedAt + 30 * day →
      ∀ q ∈ servedOf T answer, q.key = p.passage.key → q.text ≠ p.passage.text
  | _ => True

/-- The chunk is one of a document with the key of the passage, and has its text. -/
def Tables.Holds (T : Tables V) (c : ChunkRow V) (p : Served) : Prop :=
  c.text = p.text ∧ ∃ r ∈ T.docs, r.id = c.documentId ∧ r.key = p.key

/-- The user has a play of the chunk that is not earlier. -/
def Tables.PlayedSince (T : Tables V) (user : UserId) (chunkId : Nat) (t : Time) : Prop :=
  ∃ p ∈ T.plays, p.userId = user ∧ p.chunkId = chunkId ∧ t ≤ p.playedAt

/-- The new body of a document has no chunk with a text that a user has played from the document
less than 30 days ago. -/
def NoPlayedText (E : Embedder V) (h : List (PassageEvent V)) (now : Time) (doc : NewDocument) :
    Prop :=
  ∀ p ∈ playedAll h, now < p.playedAt + 30 * day → p.passage.key = doc.key →
    p.passage.text ∉ chunk E.countTokens doc.body

/-- Each chunk that holds a passage which the request names, served to the user before, is named
itself under an event that has no play of it, or the user has a play of it that is not earlier. -/
def Recordable (h : List (PassageEvent V)) (T : Tables V) (now : Time) (user : UserId)
    (input : PlayedRequest) : Prop :=
  now < input.playedAt + 30 * day →
    ∀ p ∈ servedTo user h, (p.chunk : Int) ∈ input.chunkIds → ∀ c ∈ T.chunks, T.Holds c p →
      T.PlayedSince user c.id input.playedAt ∨
        ((c.id : Int) ∈ input.chunkIds ∧ ∀ r ∈ T.plays, r.key ≠ (user, input.eventId, c.id))

/-- The document that a step of the store has written. -/
def TxnState.written (s : TxnState V) (e : StoreEvent V) : Option NewDocument :=
  match s.calls e.call, e.result with
  | some (.upsert doc _ (.adding _ [])), .returned _ => some doc
  | _, _ => none

/-- What a step must not do: bring a played text back under a new chunk id, or leave a chunk that
holds a played text without the play. -/
def PlaysKept (E : Embedder V) (h : List (PassageEvent V)) (s : PassageServer V) :
    PassageEvent V → Prop
  | .store e => ∀ doc ∈ s.txn.written e, NoPlayedText E h s.queue.now doc
  | .played user input (.ok ()) => Recordable h s.txn.tables s.queue.now user input
  | _ => True

instance (h : List (PassageEvent V)) : (e : PassageEvent V) → Decidable (Excludes h e)
  | .lookedUp user now T answer => inferInstanceAs (Decidable
      (∀ p ∈ playedAll h, p.user = user → now < p.playedAt + 30 * day →
        ∀ q ∈ servedOf T answer, q.key = p.passage.key → q.text ≠ p.passage.text))
  | .store _ | .queue _ | .played _ _ _ => isTrue trivial

instance (T : Tables V) (c : ChunkRow V) (p : Served) : Decidable (T.Holds c p) :=
  inferInstanceAs (Decidable (_ ∧ ∃ r ∈ T.docs, _))

instance (T : Tables V) (user : UserId) (chunkId : Nat) (t : Time) :
    Decidable (T.PlayedSince user chunkId t) := inferInstanceAs (Decidable (∃ p ∈ T.plays, _))

instance (E : Embedder V) (h : List (PassageEvent V)) (now : Time) (doc : NewDocument) :
    Decidable (NoPlayedText E h now doc) := inferInstanceAs (Decidable (∀ p ∈ playedAll h, _))

instance (h : List (PassageEvent V)) (T : Tables V) (now : Time) (user : UserId)
    (input : PlayedRequest) : Decidable (Recordable h T now user input) :=
  inferInstanceAs (Decidable (_ → ∀ p ∈ servedTo user h, _))

instance (E : Embedder V) (h : List (PassageEvent V)) (s : PassageServer V) :
    (e : PassageEvent V) → Decidable (PlaysKept E h s e)
  | .store e => inferInstanceAs (Decidable (∀ doc ∈ s.txn.written e, NoPlayedText E h _ doc))
  | .played user input (.ok ()) => inferInstanceAs (Decidable (Recordable h _ _ user input))
  | .played _ _ (.error _) | .queue _ | .lookedUp _ _ _ _ => isTrue trivial

/-- What a `played` request adds to what was played. -/
theorem mem_playedAll_ok {user : UserId} {input : PlayedRequest} {h : List (PassageEvent V)}
    {p : Played} : p ∈ playedAll (.played user input (.ok ()) :: h) ↔
      (p.user = user ∧ p.passage ∈ servedTo user h ∧ (p.passage.chunk : Int) ∈ input.chunkIds ∧
        p.playedAt = input.playedAt) ∨ p ∈ playedAll h := by
  rw [playedAll, List.mem_append, List.mem_map]
  refine or_congr_left ⟨?_, ?_⟩
  · rintro ⟨q, hq, rfl⟩
    obtain ⟨hserved, hnamed⟩ := List.mem_filter.1 hq
    exact ⟨rfl, hserved, of_decide_eq_true hnamed, rfl⟩
  · rintro ⟨huser, hserved, hnamed, htime⟩
    obtain ⟨u, q, t⟩ := p
    cases huser
    cases htime
    exact ⟨q, List.mem_filter.2 ⟨hserved, decide_eq_true hnamed⟩, rfl⟩

end History

/-! ## What the store leaves of a chunk -/

section Store

variable {V : Type} {U : UnicodeTables} {hash : Str → Str} {E : Embedder V}

/-- A chunk row that was there before, under a document of the same key and with its plays. -/
structure KeptChunk (T T' : Tables V) (c : ChunkRow V) : Prop where
  was : c ∈ T.chunks
  document : ∀ r' ∈ T'.docs, r'.id = c.documentId → ∃ r ∈ T.docs, r.id = r'.id ∧ r.key = r'.key
  plays : ∀ p ∈ T.plays, p.chunkId = c.id → p ∈ T'.plays

/-- A chunk row of a document that was written just now. -/
structure WrittenChunk (E : Embedder V) (T' : Tables V) (doc : NewDocument) (c : ChunkRow V) :
    Prop where
  text : c.text ∈ chunk E.countTokens doc.body
  document : ∀ r' ∈ T'.docs, r'.id = c.documentId → r'.key = doc.key

/-- A step that leaves documents and plays keeps every chunk. -/
theorem KeptChunk.same {T T' : Tables V} {c : ChunkRow V} (hc : c ∈ T.chunks)
    (hdocs : T'.docs = T.docs) (hplays : T'.plays = T.plays) : KeptChunk T T' c where
  was := hc
  document r' hr' _ := ⟨r', hdocs ▸ hr', rfl, rfl⟩
  plays _ hp _ := hplays ▸ hp

theorem Stored.text_mem {rows : List (ChunkRow V)} {documentId : Nat} {texts : List Str}
    (h : Stored rows documentId texts) {c : ChunkRow V} (hc : c ∈ rows) : c.text ∈ texts := by
  rw [← h.map_text]
  exact List.mem_map_of_mem hc

section Commit

variable {s : TxnState V} {i : Nat} {doc : NewDocument} {addedBy : Option UserId} {st : Staged V}

theorem written_committed (held : s.calls i = some (.upsert doc addedBy (.adding st []))) (id : Nat)
    (T T' : Tables V) : s.written ⟨i, .returned id, T, T'⟩ = some doc := by
  simp [TxnState.written, held]

/-- What a commit has staged: the row of its document and the chunks of the body. -/
theorem staged_committed (hi : TxnInv U hash E s)
    (held : s.calls i = some (.upsert doc addedBy (.adding st []))) :
    Inserted U hash doc st.row ∧
      st.deleted = (s.tables.chunks.filter fun c => c.documentId = st.row.id).map ChunkRow.id ∧
      Stored st.inserted st.row.id (chunk E.countTokens doc.body) := by
  obtain ⟨hinserted, -, hdeleted, texts, hstored, htexts⟩ := hi.calls i _ held
  rw [List.map_nil, List.append_nil] at htexts
  exact ⟨hinserted, hdeleted, htexts ▸ hstored⟩

/-- A commit keeps the chunks of other documents and brings in those that were written. -/
theorem commit_kept (hi : TxnInv U hash E s) (hids : ChunkIds s)
    (held : s.calls i = some (.upsert doc addedBy (.adding st []))) {c : ChunkRow V}
    (hc : c ∈ (s.tables.commit st).chunks) :
    KeptChunk s.tables (s.tables.commit st) c ∨ WrittenChunk E (s.tables.commit st) doc c := by
  obtain ⟨hinserted, hdeleted, hstored⟩ := staged_committed hi held
  rw [commit_chunks hdeleted, List.mem_append] at hc
  rcases hc with hc | hc
  · obtain ⟨hc, hne⟩ := List.mem_filter.1 hc
    have hne : c.documentId ≠ st.row.id := of_decide_eq_true hne
    refine Or.inl ⟨hc, fun r' hr' hid => ?_, fun p hp hpc => List.mem_filter.2 ⟨hp, ?_⟩⟩
    · rcases Table.mem_put.1 hr' with rfl | ⟨hr', -⟩
      · exact absurd hid.symm hne
      · exact ⟨r', hr', rfl, rfl⟩
    · apply decide_eq_true
      rw [hpc, hdeleted]
      intro hgone
      obtain ⟨c', hc', hid⟩ := List.mem_map.1 hgone
      obtain ⟨hc', hown⟩ := List.mem_filter.1 hc'
      have heq := Table.eq_of_key hids.nodup hc' hc hid
      rw [heq] at hown
      exact hne (of_decide_eq_true hown)
  · refine Or.inr ⟨hstored.text_mem hc, fun r' hr' hid => ?_⟩
    rw [hstored.documentId_eq hc] at hid
    rcases Table.mem_put.1 hr' with rfl | ⟨-, hne⟩
    · exact hinserted.key
    · exact absurd hid hne

end Commit

/-- So does every step of a call. -/
theorem TxnEffect.chunks_kept {s : TxnState V} {p : TxnState V × StoreEvent V}
    (he : TxnEffect U hash E s p) (hi : TxnInv U hash E s) (hids : ChunkIds s) {c : ChunkRow V}
    (hc : c ∈ p.1.tables.chunks) :
    KeptChunk s.tables p.1.tables c ∨
      ∃ doc ∈ s.written p.2, WrittenChunk E p.1.tables doc c := by
  cases he with
  | moved | cleared | rolledBack | inserted | added => exact Or.inl (.same hc rfl rfl)
  | touched now held =>
      refine Or.inl ⟨hc, fun r' hr' _ => ?_, fun _ hp _ => hp⟩
      obtain ⟨old, hold, hid, hkey, -, -⟩ := mem_touch hr'
      exact ⟨old, hold, hid, hkey⟩
  | @committed i doc addedBy st held =>
      refine (commit_kept hi hids held hc).imp_right fun hnew => ?_
      exact ⟨doc, written_committed held _ _ _, hnew⟩
  | @deleted i id held free =>
      obtain ⟨hc, hne⟩ := List.mem_filter.1 hc
      refine Or.inl ⟨hc, fun r' hr' _ => ⟨r', (List.mem_filter.1 hr').1, rfl, rfl⟩, ?_⟩
      intro play hp hpc
      refine List.mem_filter.2 ⟨hp, decide_eq_true fun hgone => ?_⟩
      obtain ⟨c', hc', hid⟩ := List.mem_map.1 hgone
      obtain ⟨hc', hown⟩ := List.mem_filter.1 hc'
      rw [Table.eq_of_key hids.nodup hc' hc (hid.trans hpc)] at hown
      exact of_decide_eq_true hne (of_decide_eq_true hown)

end Store

/-! ## What a lookup serves -/

section Lookup

variable {V F : Type} {A : Arithmetic V F} {U : UnicodeTables} {E : Embedder V} {T : Tables V}
  {q : Queue} {user : UserId} {query : PassageQuery}

/-- What the automatic enqueue answers has no passages. -/
theorem autoQueue_answer {candidates : List (Candidate V)} {answer : Except ApiError PassageResponse}
    (h : (autoQueue U q user query candidates).2 = some answer) :
    (∃ error, answer = .error error) ∨ ∃ status, answer = .ok (empty status) := by
  simp only [autoQueue] at h
  split at h
  · cases h
  · split at h
    · exact Or.inr ⟨_, (Option.some.inj h).symm⟩
    · split at h
      · split at h
        · exact Or.inl ⟨_, (Option.some.inj h).symm⟩
        · split at h
          · exact Or.inr ⟨_, (Option.some.inj h).symm⟩
          · cases h
      · cases h

/-- A candidate is a chunk with its document, and the last play of it by the user. -/
theorem candidate_spec {keys : LookupKeys} {candidate : Candidate V}
    (h : candidate ∈ T.candidates keys user) :
    candidate.lastPlayed = T.lastPlayed user candidate.chunkId ∧
      ∃ c ∈ T.chunks, c.id = candidate.chunkId ∧ c.text = candidate.text := by
  obtain ⟨c, hc, r, -, -, -, rfl⟩ := mem_matching_iff.1 (mem_matching_of_mem_candidates h)
  exact ⟨rfl, c, hc, rfl, rfl⟩

variable [Inhabited V]

/-- What is served is a chunk of the tables that is not excluded. -/
theorem rankCandidates_passages {keys : LookupKeys} {now : Time} {response : PassageResponse}
    (h : rankCandidates U A E query (T.candidates keys user) now = .ok response)
    {p : ServedPassage} (hp : p ∈ response.passages) :
    (∃ c ∈ T.chunks, c.id = p.chunkId ∧ c.text = p.text) ∧
      recovery A (T.lastPlayed user p.chunkId) now ≠ none := by
  rw [rankCandidates] at h
  cases hembed : E.embed [queryText U query] .query with
  | error error => simp [hembed] at h
  | ok vectors =>
      simp only [hembed] at h
      cases hselect : select A U (T.candidates keys user) (vectors.getLast?.getD default)
          (Keys.matchKey U (Keys.baseTitle U query.song)) now budgetTokens with
      | empty =>
          simp only [hselect] at h
          rw [← Except.ok.inj h] at hp
          exact absurd hp List.not_mem_nil
      | allExcluded =>
          simp only [hselect] at h
          rw [← Except.ok.inj h] at hp
          exact absurd hp List.not_mem_nil
      | chosen ids =>
          simp only [hselect] at h
          rw [← Except.ok.inj h] at hp
          obtain ⟨candidate, hcandidate, rfl⟩ := List.mem_map.1 hp
          obtain ⟨id, hid, hfind⟩ := List.mem_filterMap.1 hcandidate
          obtain ⟨hmem, hchunk⟩ := find_spec hfind
          obtain ⟨chosen, hchosen, hsame, hrecovered⟩ := select_chosen hselect hid
          refine ⟨(candidate_spec hmem).2, ?_⟩
          rw [(candidate_spec hchosen).1, hsame, ← hchunk] at hrecovered
          exact hrecovered

/-- A lookup takes no time. -/
theorem lookup_now (engine : Option (Embedder V)) :
    (lookup U A engine T q user query).1.now = q.now := by
  rcases lookup_queue U A engine T q user query with heq | ⟨-, heq⟩
  · rw [heq]
  · rw [heq, Queue.enqueue]
    split <;> rfl

/-- A passage that a lookup returns is a chunk that its user has not played within 30 days. -/
theorem lookup_passages {response : PassageResponse}
    (h : (lookup U A (some E) T q user query).2 = .ok response) {p : ServedPassage}
    (hp : p ∈ response.passages) :
    (∃ c ∈ T.chunks, c.id = p.chunkId ∧ c.text = p.text) ∧
      recovery A (T.lastPlayed user p.chunkId) q.now ≠ none := by
  simp only [lookup] at h
  split_ifs at h
  split at h
  · rename_i after answer hauto
    have hanswer := autoQueue_answer (congrArg Prod.snd hauto)
    rcases hanswer with ⟨error, rfl⟩ | ⟨status, rfl⟩
    · cases h
    · cases h
      exact absurd hp List.not_mem_nil
  · exact rankCandidates_passages h hp

omit [Inhabited V] in
/-- A chunk that was played less than 30 days ago is excluded. -/
theorem not_recovered {chunkId : Nat} {t now : Time} (hplayed : T.PlayedSince user chunkId t)
    (hnow : now < t + 30 * day) : recovery A (T.lastPlayed user chunkId) now = none := by
  obtain ⟨p, hp, huser, hchunk, ht⟩ := hplayed
  have hmem : p.playedAt ∈ (T.plays.filter fun p => p.userId = user ∧ p.chunkId = chunkId).map
      PlayRow.playedAt :=
    List.mem_map_of_mem (List.mem_filter.2 ⟨hp, decide_eq_true ⟨huser, hchunk⟩⟩)
  cases hlast : T.lastPlayed user chunkId with
  | none =>
      rw [Tables.lastPlayed, List.max?_eq_none_iff] at hlast
      rw [hlast] at hmem
      exact absurd hmem List.not_mem_nil
  | some last =>
      have hle : p.playedAt ≤ last := (List.max?_le_iff hlast).1 (Int.le_refl _) _ hmem
      apply recovery_none
      exact Int.lt_of_lt_of_le hnow (Int.add_le_add_right (Int.le_trans ht hle) _)

/-- The plays of other users do not matter to a lookup. -/
theorem lookup_own_plays (plays : List PlayRow)
    (hplays : plays.filter (fun p => p.userId = user) =
      T.plays.filter fun p => p.userId = user) :
    lookup U A (some E) { T with plays := plays } q user query =
      lookup U A (some E) T q user query := by
  have hlast (chunkId : Nat) : Tables.lastPlayed { T with plays := plays } user chunkId =
      T.lastPlayed user chunkId := by
    have hfilter (l : List PlayRow) :
        (l.filter fun p => p.userId = user ∧ p.chunkId = chunkId) =
          (l.filter fun p => p.userId = user).filter fun p => p.chunkId = chunkId := by
      rw [List.filter_filter]
      apply List.filter_congr
      intro p _
      rw [Bool.decide_and, Bool.and_comm]
    rw [Tables.lastPlayed, Tables.lastPlayed, hfilter, hfilter, hplays]
  have hcandidate : Tables.candidate { T with plays := plays } user = T.candidate user := by
    funext c r
    rw [Tables.candidate, hlast]
    rfl
  have hmatching : Tables.matching { T with plays := plays } (lookupKeys U query) user =
      T.matching (lookupKeys U query) user := by
    simp only [Tables.matching, hcandidate]
  simp only [lookup, Tables.candidates, hmatching]

end Lookup

/-! ## Runs -/

section Runs

variable {V F : Type} {A : Arithmetic V F} {U : UnicodeTables} {hash : Str → Str} {E : Embedder V}

/-- Each chunk that holds a text played less than 30 days ago has a play that is not earlier. -/
structure PassageInv (U : UnicodeTables) (hash : Str → Str) (E : Embedder V)
    (h : List (PassageEvent V)) (s : PassageServer V) : Prop where
  txn : TxnInv U hash E s.txn
  ids : ChunkIds s.txn
  recorded : ∀ p ∈ playedAll h, s.queue.now < p.playedAt + 30 * day →
    ∀ c ∈ s.txn.tables.chunks, s.txn.tables.Holds c p.passage →
      s.txn.tables.PlayedSince p.user c.id p.playedAt

theorem passageInv_empty : PassageInv U hash E [] ⟨TxnState.empty, Queue.empty⟩ where
  txn := txnInv_empty
  ids := chunkIds_empty
  recorded _ hp := absurd hp List.not_mem_nil

variable {h : List (PassageEvent V)} {s : PassageServer V}

/-- A chunk that was there before held what it holds now. -/
theorem KeptChunk.holds {T T' : Tables V} {c : ChunkRow V} {p : Served} (hk : KeptChunk T T' c)
    (hc : T'.Holds c p) : T.Holds c p := by
  obtain ⟨htext, r', hr', hid, hkey⟩ := hc
  obtain ⟨r, hr, hrid, hrkey⟩ := hk.document r' hr' hid
  exact ⟨htext, r, hr, hrid.trans hid, hrkey.trans hkey⟩

theorem PassageInv.store (hi : PassageInv U hash E h s) {a : StoreAction}
    {p : TxnState V × StoreEvent V} (hs : storeStep U hash E s.txn a = some p)
    (hk : PlaysKept E h s (.store p.2)) :
    PassageInv U hash E (.store p.2 :: h) { s with txn := p.1 } := by
  have he := storeStep_effect hs
  refine ⟨he.inv hi.txn, he.chunkIds hi.ids, ?_⟩
  intro play hplay hnow c hc hholds
  rcases he.chunks_kept hi.txn hi.ids hc with hkept | ⟨doc, hdoc, hnew⟩
  · obtain ⟨row, hrow, huser, hchunk, htime⟩ :=
      hi.recorded play hplay hnow c hkept.was (hkept.holds hholds)
    exact ⟨row, hkept.plays row hrow hchunk, huser, hchunk, htime⟩
  · obtain ⟨htext, r, hr, hid, hkey⟩ := hholds
    have hnone := hk doc hdoc play hplay hnow (hkey.symm.trans (hnew.document r hr hid))
    rw [← htext] at hnone
    exact absurd hnew.text hnone

theorem PassageInv.queue (hi : PassageInv U hash E h s) {queue : Queue} {e : PassageEvent V}
    (hnow : s.queue.now ≤ queue.now) (hplayed : playedAll (e :: h) = playedAll h) :
    PassageInv U hash E (e :: h) { s with queue := queue } where
  txn := hi.txn
  ids := hi.ids
  recorded p hp hwithin := hi.recorded p (hplayed ▸ hp) (Int.lt_of_le_of_lt hnow hwithin)

/-- A request leaves a play of every chunk that holds a text it plays. -/
theorem recordPlays_playedSince {user : UserId} {input : PlayedRequest}
    (hk : Recordable h s.txn.tables s.queue.now user input)
    (hnow : s.queue.now < input.playedAt + 30 * day) {p : Served} (hp : p ∈ servedTo user h)
    (hnamed : (p.chunk : Int) ∈ input.chunkIds) {c : ChunkRow V} (hc : c ∈ s.txn.tables.chunks)
    (hholds : s.txn.tables.Holds c p) :
    (s.txn.tables.recordPlays user input).PlayedSince user c.id input.playedAt := by
  rcases hk hnow p hp hnamed c hc hholds with ⟨row, hrow, hplayed⟩ | ⟨hown, hnew⟩
  · exact ⟨row, List.mem_append_left _ hrow, hplayed⟩
  · refine ⟨⟨user, input.eventId, c.id, input.playedAt⟩, ?_, rfl, rfl, Int.le_refl _⟩
    refine List.mem_append_right _ (List.mem_filter.2 ⟨?_, ?_⟩)
    · exact List.mem_map.2 ⟨c, List.mem_filter.2 ⟨hc, decide_eq_true hown⟩, rfl⟩
    · rw [Bool.not_eq_true', List.any_eq_false]
      exact fun row hrow hkey => hnew row hrow (of_decide_eq_true hkey)

/-- The invariant of the calls says nothing of the plays. -/
theorem TxnInv.withPlays {t : TxnState V} (hi : TxnInv U hash E t) (plays : List PlayRow) :
    TxnInv U hash E { t with tables := { t.tables with plays := plays } } where
  valid := ⟨hi.valid.docIds, hi.valid.docKeys, hi.valid.docFresh, hi.valid.chunkOwner⟩
  hashes := hi.hashes
  stored := hi.stored
  calls i c hc := (hi.calls i c hc).keep fun _ _ => ⟨fun hp => ⟨hp.fresh, hp.unique⟩, rfl⟩
  locked := hi.locked
  apart := hi.apart

theorem ChunkIds.withPlays {t : TxnState V} (hi : ChunkIds t) (plays : List PlayRow) :
    ChunkIds { t with tables := { t.tables with plays := plays } } where
  nodup := hi.nodup
  drawn := hi.drawn
  staged i st hst := (hi.staged i st hst).later (Nat.le_refl _) fun _ hc => hc
  apart := hi.apart

theorem PassageInv.played (hi : PassageInv U hash E h s) {user : UserId} {input : PlayedRequest}
    (hk : Recordable h s.txn.tables s.queue.now user input) :
    PassageInv U hash E (.played user input (.ok ()) :: h)
      (s.setTables (s.txn.tables.recordPlays user input)) where
  txn := hi.txn.withPlays _
  ids := hi.ids.withPlays _
  recorded p hp hnow c hc hholds := by
    rcases mem_playedAll_ok.1 hp with ⟨huser, hserved, hnamed, htime⟩ | hp
    · rw [htime] at hnow ⊢
      rw [huser]
      exact recordPlays_playedSince hk hnow hserved hnamed hc hholds
    · obtain ⟨row, hrow, hplayed⟩ := hi.recorded p hp hnow c hc hholds
      exact ⟨row, List.mem_append_left _ hrow, hplayed⟩

/-- Each step keeps the invariant, when it keeps the plays. -/
theorem passageStep_inv [Inhabited V] (hi : PassageInv U hash E h s) {a : PassageAction}
    {s' : PassageServer V} {e : PassageEvent V} (hs : passageStep A U hash E s a = some (s', e))
    (hk : PlaysKept E h s e) : PassageInv U hash E (e :: h) s' := by
  cases a with
  | store a =>
      obtain ⟨p, hp, heq⟩ := Option.map_eq_some_iff.1 hs
      cases heq
      exact hi.store hp hk
  | queue a =>
      obtain ⟨p, hp, heq⟩ := Option.map_eq_some_iff.1 hs
      cases heq
      exact hi.queue (queueStep_effect hp).now_le rfl
  | lookup user query =>
      cases hs
      exact hi.queue (lookup_now _).ge rfl
  | played user input =>
      by_cases hvalid : input.valid s.queue.now = true
      · simp only [passageStep, played, hvalid, Bool.not_true, Bool.false_eq_true, if_false] at hs
        cases hs
        exact hi.played hk
      · simp only [passageStep, played, hvalid, Bool.not_false, if_true] at hs
        cases hs
        exact hi.queue (Int.le_refl _) rfl

theorem run_passageInv [Inhabited V]
    (hr : (passages A U hash E).RunIf (PlaysKept E) h s) : PassageInv U hash E h s :=
  hr.invariant (I := PassageInv U hash E) passageInv_empty
    fun _ _ _ _ _ _ hi hs hk => passageStep_inv hi hs hk

/-- A served passage is a chunk with its text, in a document with its key. -/
theorem served_holds {t : TxnState V} (hids : ChunkIds t) {response : PassageResponse} {q : Served}
    (hq : q ∈ servedOf t.tables (.ok response))
    (hchunks : ∀ p ∈ response.passages, ∃ c ∈ t.tables.chunks, c.id = p.chunkId ∧ c.text = p.text) :
    ∃ p ∈ response.passages, ∃ c ∈ t.tables.chunks, c.id = p.chunkId ∧ t.tables.Holds c q := by
  obtain ⟨p, hp, hq⟩ := List.mem_flatMap.1 hq
  obtain ⟨r, hr, rfl⟩ := List.mem_map.1 hq
  obtain ⟨hr, howner⟩ := List.mem_filter.1 hr
  obtain ⟨c, hc, howner⟩ := List.any_eq_true.1 howner
  simp only [Bool.and_eq_true, decide_eq_true_eq] at howner
  obtain ⟨c', hc', hid, htext⟩ := hchunks p hp
  -- the chunk that was read and the one that names the document have one id
  obtain rfl := Table.eq_of_key hids.nodup hc' hc (hid.trans howner.1.symm)
  exact ⟨p, hp, c', hc', hid, htext, r, hr, howner.2.symm, rfl⟩

/-- In a state of the invariant a lookup serves nothing that its user has just played. -/
theorem PassageInv.excludes [Inhabited V] (hi : PassageInv U hash E h s) (user : UserId)
    (query : PassageQuery) :
    Excludes h (.lookedUp user s.queue.now s.txn.tables
      (lookup U A (some E) s.txn.tables s.queue user query).2) := by
  intro play hplay huser hnow q hq hkey htext
  cases hanswer : (lookup U A (some E) s.txn.tables s.queue user query).2 with
  | error error =>
      rw [hanswer] at hq
      exact absurd hq List.not_mem_nil
  | ok response =>
      rw [hanswer] at hq
      have hpassages := fun p hp => lookup_passages hanswer (p := p) hp
      obtain ⟨p, hp, c, hc, hid, hctext, r, hr, hdoc, hrkey⟩ :=
        served_holds hi.ids hq fun p hp => (hpassages p hp).1
      have hplayed := hi.recorded play hplay hnow c hc
        ⟨hctext.trans htext, r, hr, hdoc, hrkey.trans hkey⟩
      rw [huser, hid] at hplayed
      exact (hpassages p hp).2 (not_recovered hplayed hnow)

/-- **A played passage is not served again** to its user for 30 days, in every run that brings no
played text back under a new chunk id and leaves no play out. The plays of other users change no
lookup. -/
theorem played_excluded [Inhabited V] (A : Arithmetic V F) (U : UnicodeTables) (hash : Str → Str)
    (E : Embedder V) (hr : (passages A U hash E).RunIf (PlaysKept E) h s) :
    (∀ later e earlier, h = later ++ e :: earlier → Excludes earlier e) ∧
      ∀ (T : Tables V) (q : Queue) (user : UserId) (query : PassageQuery) (plays : List PlayRow),
        plays.filter (fun p => p.userId = user) = (T.plays.filter fun p => p.userId = user) →
          lookup U A (some E) { T with plays := plays } q user query =
            lookup U A (some E) T q user query := by
  refine ⟨?_, fun T q user query plays hplays => lookup_own_plays plays hplays⟩
  refine hr.forall_steps fun h s a s' e hr hs _ => ?_
  have hi := run_passageInv hr
  cases a with
  | store a | queue a =>
      obtain ⟨p, -, heq⟩ := Option.map_eq_some_iff.1 hs
      cases heq
      exact trivial
  | lookup user query =>
      cases hs
      exact hi.excludes user query
  | played user input =>
      cases hs
      exact trivial

end Runs

/-! ## A page in two layouts -/

/-- Scores in hundredths, on vectors that are alike only when they are equal. -/
def hundredths : Arithmetic Nat Int where
  cosine a b := if a = b then 100 else 0
  add a b := a + b
  mul a b := a * b / 100
  zero := 0
  one := 100
  titleBoost := 5
  weight
    | .song => 100
    | .album => 85
    | .artist => 70
  recovered elapsed := if elapsed < 396 * day then 0 else 100
  compare a b := Ord.compare a b
  nearDuplicate x := decide (92 < x)

/-- Two sentences, in one paragraph or in two. Both layouts have the same chunk. -/
def storyPage (separator : Char) : NewDocument :=
  { thrillerPage .song (some "Thriller".toList) with
    body := "Rod Temperton wrote it.".toList ++ separator :: "Vincent Price speaks.".toList }

/-- The SHA-256 texts of the two layouts. -/
def storyHash (body : Str) : Str :=
  if body = (storyPage ' ').body then
    "444259464e957a360376c78fcbfe3244bbfb2e367bf40e417ded8fe4e0a51849".toList
  else "b1c80da4691aab2f8ff223331b7c2bd2a99ddd3813b2f6c9fc207ba6697c4be5".toList

def storePage (call : Nat) (separator : Char) : List PassageAction :=
  .store (.upsert call (storyPage separator) none) ::
    List.replicate 6 (.store (.proceed call 0))

def lookupThriller : PassageAction :=
  .lookup 7 ⟨"Thriller".toList, "Michael Jackson".toList, none⟩

def playStory : PassageAction :=
  .played 7 ⟨"12345678-1234-1234-1234-123456789abc".toList, 0, [1]⟩

/-- What a schedule does to the page and its listener. -/
def story (schedule : List PassageAction) : List (PassageEvent Nat) × PassageServer Nat :=
  (passages hundredths asciiTables storyHash wordEmbedder).exec
    ([], ⟨TxnState.empty, Queue.empty⟩) schedule

/-- The passage is served, played and looked up again. -/
def playedOnce : List PassageAction :=
  storePage 0 ' ' ++ [lookupThriller, playStory, lookupThriller]

theorem played_excluded_once :
    playedAll (story playedOnce).1 ≠ [] ∧
      ∀ later e earlier, (story playedOnce).1 = later ++ e :: earlier → Excludes earlier e :=
  ⟨by decide +kernel,
    (played_excluded hundredths asciiTables storyHash wordEmbedder
      (Machine.runIf_exec (by decide +kernel))).1⟩

/-- The page comes back in the other layout after the play, and with it the same chunk under a new
id. -/
def playedThenRebuilt : List PassageAction :=
  storePage 0 ' ' ++ [lookupThriller, playStory] ++ storePage 1 '\n' ++ [lookupThriller]

theorem rebuilt_passage_served :
    ∃ h s, (passages hundredths asciiTables storyHash wordEmbedder).Run h s ∧
      ∃ later e earlier, h = later ++ e :: earlier ∧ ¬ Excludes earlier e := by
  refine ⟨(story playedThenRebuilt).1, (story playedThenRebuilt).2, Machine.run_exec _, [],
    (story playedThenRebuilt).1.head (by decide +kernel), (story playedThenRebuilt).1.tail, ?_, ?_⟩
  · exact (List.cons_head_tail _).symm
  · decide +kernel

end AnyPlayerSync.Passages
