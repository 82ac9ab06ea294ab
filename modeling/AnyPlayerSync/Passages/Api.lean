import AnyPlayerSync.Facts.Model
import AnyPlayerSync.Passages.Linearize
import AnyPlayerSync.Passages.Lookup
import AnyPlayerSync.Passages.Quota
import AnyPlayerSync.Passages.Rank

/-!
# Passage handlers

The handlers of `passages/api.rs` that read or write passages and jobs, the user being known from
its token. `engine` is the embedder, when passages are configured. The reference of a note, which
`admin_create_document` draws at random, is an argument.
-/

set_option autoImplicit false

namespace AnyPlayerSync.Passages

open AnyPlayerSync.Foundation
open AnyPlayerSync.Facts (bounded validUuid)
open AnyPlayerSync.Sync (ApiError Time UserId)

/-! ## Requests and answers -/

/-- `PassageQuery`: the track that is looked up. -/
abbrev PassageQuery := TrackRequest

/-- `Passage`, as a lookup returns it. -/
structure ServedPassage where
  chunkId : Nat
  text : Str
  source : Str
  sourceUrl : Str
  title : Str
  subject : Subject
  lang : Str
  deriving DecidableEq

/-- The answer to a lookup: a word for how it went, and the passages. -/
structure PassageResponse where
  status : String
  passages : List ServedPassage
  deriving DecidableEq

/-- The body of a play: these chunks were heard at this time. -/
structure PlayedRequest where
  eventId : Str
  playedAt : Time
  chunkIds : List Int

/-- The tracks that an administrator wants fetched. -/
structure IngestRequest where
  tracks : List TrackRequest
  force : Bool

/-- How many of the tracks entered the queue, were in it already, or are recently done. -/
structure IngestResponse where
  queued : Nat
  alreadyQueued : Nat
  recentlyDone : Nat

/-- A document that an administrator writes. -/
structure NoteRequest where
  subject : Subject
  song : Option Str
  artist : Str
  album : Option Str
  title : Str
  body : Str

/-- The bound on each text of a request. -/
def maxParamBytes : Nat := 1000

/-- The bound on the chunks of a play. -/
def maxPlayedChunks : Nat := 16

/-- Not blank, within the bound, and free of control characters. -/
def valid (value : Str) : Bool := bounded value maxParamBytes

/-- The answer of a server without an embedder. -/
def notConfigured : ApiError := ApiError.serviceUnavailable "DJ passages are not configured"

/-- An answer without passages. -/
def empty (status : String) : PassageResponse := ⟨status, []⟩

/-- `enqueue` with no other writer, on the queue. -/
def Queue.enqueue (U : UnicodeTables) (q : Queue) (track : TrackRequest)
    (requestedBy : Option UserId) (auto force : Bool) : Queue × Option Enqueue :=
  match Passages.enqueue U q ⟨track, requestedBy, auto, force, .inserting⟩ with
  | some (rows, answer) => ({ q with rows := rows, nextId := q.nextId + 1 }, some answer)
  | none => ({ q with nextId := q.nextId + 1 }, none)

section Handlers

variable {V F : Type} (U : UnicodeTables)

/-! ## `lookup` -/

/-- The part of `lookup` that enqueues the track when there is no passage about the song; it may
answer already. -/
def autoQueue (q : Queue) (user : UserId) (query : PassageQuery) (candidates : List (Candidate V)) :
    Queue × Option (Except ApiError PassageResponse) :=
  if candidates.any fun c => c.subject = .song then (q, none)
  else
    let underQuota := autoCountToday q.rows user q.now < autoDailyLimit
    if candidates = [] ∧ ¬ underQuota then (q, some (.ok (empty "none")))
    else if underQuota then
      match q.enqueue U query (some user) true false with
      | (q, none) => (q, some (.error (ApiError.internal "ingest enqueue failed")))
      | (q, some outcome) =>
          if candidates = [] then
            (q, some (.ok (empty (if outcome = .recentlyDone then "none" else "queued"))))
          else (q, none)
    else (q, none)

/-- The automatic enqueue runs under the quota or not at all. -/
theorem autoQueue_queue (q : Queue) (user : UserId) (query : PassageQuery)
    (candidates : List (Candidate V)) :
    (autoQueue U q user query candidates).1 = q ∨
      autoCountToday q.rows user q.now < autoDailyLimit ∧
        (autoQueue U q user query candidates).1 = (q.enqueue U query (some user) true false).1 := by
  by_cases hsong : (candidates.any fun c => c.subject = .song) = true
  · exact Or.inl (by simp only [autoQueue, if_pos hsong])
  · by_cases hquota : autoCountToday q.rows user q.now < autoDailyLimit
    · refine Or.inr ⟨hquota, ?_⟩
      simp only [autoQueue, if_neg hsong, hquota, not_true, and_false, if_false, if_true]
      split <;> rename_i heq
      · rw [heq]
      · rw [heq]
        split_ifs <;> rfl
    · left
      simp only [autoQueue, if_neg hsong, hquota, if_false]
      split_ifs <;> rfl

/-- The text that is embedded for a lookup. -/
def queryText (query : PassageQuery) : Str :=
  "the story behind ".toList ++ Keys.baseTitle U query.song ++ " by ".toList ++ query.artist ++
    ": background, writing, recording, meaning, reception".toList

/-- A candidate as a lookup answers it. -/
def Candidate.served (c : Candidate V) : ServedPassage :=
  ⟨c.chunkId, c.text, c.source, c.sourceUrl, c.title, c.subject, c.lang⟩

variable [Inhabited V] (A : Arithmetic V F)

/-- The part of `lookup` that ranks the candidates. -/
def rankCandidates (E : Embedder V) (query : PassageQuery) (candidates : List (Candidate V))
    (now : Time) : Except ApiError PassageResponse :=
  match E.embed [queryText U query] .query with
  | .error _ => .error (ApiError.internal "embedding failed")
  | .ok vectors =>
      let vector := vectors.getLast?.getD default
      match select A U candidates vector (Keys.matchKey U (Keys.baseTitle U query.song)) now
        budgetTokens with
      | .empty => .ok (empty "none")
      | .allExcluded => .ok (empty "exhausted")
      | .chosen ids =>
          .ok ⟨"ok", (ids.filterMap fun id => candidates.find? fun c => c.chunkId = id).map
            Candidate.served⟩

/-- The passages of a track; without one about the song it is enqueued, within the quota. -/
def lookup (engine : Option (Embedder V)) (T : Tables V) (q : Queue) (user : UserId)
    (query : PassageQuery) : Queue × Except ApiError PassageResponse :=
  match engine with
  | none => (q, .error notConfigured)
  | some E =>
      if !valid query.song || !valid query.artist || query.album.any fun a => !valid a then
        (q, .error (ApiError.badRequest "invalid song, artist or album"))
      else
        let candidates := T.candidates (lookupKeys U query) user
        match autoQueue U q user query candidates with
        | (after, some answer) => (after, answer)
        | (after, none) => (after, rankCandidates U A E query candidates q.now)

/-- A lookup changes the queue by its automatic enqueue only. -/
theorem lookup_queue (engine : Option (Embedder V)) (T : Tables V) (q : Queue) (user : UserId)
    (query : PassageQuery) :
    (lookup U A engine T q user query).1 = q ∨
      autoCountToday q.rows user q.now < autoDailyLimit ∧
        (lookup U A engine T q user query).1 = (q.enqueue U query (some user) true false).1 := by
  cases engine with
  | none => exact Or.inl rfl
  | some E =>
      simp only [lookup]
      split_ifs
      · exact Or.inl rfl
      · have hqueue := autoQueue_queue U q user query (T.candidates (lookupKeys U query) user)
        split <;> rename_i heq <;> rw [heq] at hqueue <;> exact hqueue

omit [Inhabited V]

/-! ## `played` -/

/-- The primary key of `dj_passage_plays`. -/
def PlayRow.key (p : PlayRow) : UserId × Str × Nat := (p.userId, p.eventId, p.chunkId)

/-- `record_plays`: a row for each named chunk that exists, except where the event has one. -/
def Tables.recordPlays (T : Tables V) (user : UserId) (input : PlayedRequest) : Tables V :=
  let rows := (T.chunks.filter fun c => (c.id : Int) ∈ input.chunkIds).map fun c =>
    (⟨user, input.eventId, c.id, input.playedAt⟩ : PlayRow)
  { T with
    plays := T.plays ++ rows.filter fun row => !T.plays.any fun p => p.key = row.key }

/-- The check of `played`. -/
def PlayedRequest.valid (input : PlayedRequest) (now : Time) : Bool :=
  validUuid input.eventId && input.chunkIds ≠ [] && input.chunkIds.length ≤ maxPlayedChunks &&
    input.playedAt ≤ now + 5 * minute

/-- The chunks are recorded as heard, when the request is valid. -/
def played (engine : Option (Embedder V)) (T : Tables V) (user : UserId) (input : PlayedRequest)
    (now : Time) : Tables V × Except ApiError Unit :=
  match engine with
  | none => (T, .error notConfigured)
  | some _ =>
      if !input.valid now then (T, .error (ApiError.badRequest "invalid played event"))
      else (T.recordPlays user input, .ok ())

/-! ## Administration -/

/-- One more track with this outcome. -/
def IngestResponse.add (r : IngestResponse) : Enqueue → IngestResponse
  | .queued => { r with queued := r.queued + 1 }
  | .alreadyQueued => { r with alreadyQueued := r.alreadyQueued + 1 }
  | .recentlyDone => { r with recentlyDone := r.recentlyDone + 1 }

/-- The name that the subject of a note needs is there. -/
def NoteRequest.subjectNamed (input : NoteRequest) : Bool :=
  match input.subject with
  | .song => input.song.any valid
  | .album => input.album.any valid
  | .artist => true

/-- The document of a note, which is stored under a drawn reference. -/
def NoteRequest.document (input : NoteRequest) (reference : Str) : NewDocument where
  source := "admin-note".toList
  sourceRef := reference
  sourceUrl := "admin-note:".toList ++ reference
  subject := input.subject
  song := input.song
  album := input.album
  artist := input.artist
  title := input.title
  lang := "und".toList
  body := input.body

/-- The check of `admin_create_document`. -/
def NoteRequest.valid (input : NoteRequest) : Bool :=
  Text.trim input.body ≠ [] && Sources.byteLen input.body ≤ maxBodyBytes &&
    Passages.valid input.artist && Passages.valid input.title && input.subjectNamed

end Handlers

end AnyPlayerSync.Passages
