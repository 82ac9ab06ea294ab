import AnyPlayerSync.Keys.MatchKeys
import AnyPlayerSync.Passages.Jobs
import AnyPlayerSync.Sources.Clean
import Mathlib.Algebra.Order.Ring.Rat
import Mathlib.Data.List.MinMax
import Mathlib.Data.Prod.Lex

/-!
# Facts and their plays

The tables `dj_facts` and `dj_fact_plays` and the handlers of `dj_facts.rs`, the user being known
from its token. `played` is given by its two statements, which other requests may interleave.

Three things are parameters: the score of a recovered fact, which the query computes with `LN`; the
hash behind a fingerprint; and what `dj_fact_sources::verify` answered to a contribution.
-/

set_option autoImplicit false

namespace AnyPlayerSync.Facts

open AnyPlayerSync.Foundation
open AnyPlayerSync.Passages (day minute)
open AnyPlayerSync.Sync (ApiError Time UserId)

/-! ## Rows, requests and answers -/

/-- A row of `dj_facts`. -/
structure FactRow where
  id : Int
  songKey : Str
  artistKey : Str
  song : Str
  artist : Str
  claim : Str
  source : Str
  sourceId : Str
  sourceUrl : Str
  evidence : Str
  fingerprint : Str
  verifiedAt : Time
  deriving DecidableEq

/-- A row of `dj_fact_plays`. -/
structure FactPlay where
  userId : UserId
  eventId : Str
  factId : Int
  playedAt : Time
  deriving DecidableEq

/-- The primary key of `dj_fact_plays`. -/
def FactPlay.key (p : FactPlay) : UserId × Str := (p.userId, p.eventId)

/-- The tables `dj_facts` and `dj_fact_plays`, with the next value of the sequence of facts. -/
structure FactTables where
  facts : List FactRow
  plays : List FactPlay
  nextFact : Int

def FactTables.empty : FactTables := ⟨[], [], 1⟩

/-- The song and artist that a lookup asks about. -/
structure FactQuery where
  song : Str
  artist : Str

/-- The body of a contributed fact. -/
structure Contribution where
  song : Str
  artist : Str
  claim : Str
  source : Str
  sourceId : Str
  sourceUrl : Str
  evidence : Str

/-- A fact as a lookup answers it. -/
structure Fact where
  id : Int
  fingerprint : Str
  song : Str
  artist : Str
  claim : Str
  source : Str
  sourceId : Str
  sourceUrl : Str
  evidence : Str
  deriving DecidableEq

/-- The body of a play: a fact was heard at this time. -/
structure Played where
  eventId : Str
  playedAt : Time

/-- The columns that an answer shows. -/
def FactRow.fact (r : FactRow) : Fact :=
  ⟨r.id, r.fingerprint, r.song, r.artist, r.claim, r.source, r.sourceId, r.sourceUrl, r.evidence⟩

/-! ## Checks of the input -/

/-- `char::is_control`. -/
def isControl (c : Char) : Bool := c.toNat ≤ 0x1F || (0x7F ≤ c.toNat && c.toNat ≤ 0x9F)

/-- Not blank, at most `max` bytes, and free of control characters. -/
def bounded (value : Str) (max : Nat) : Bool :=
  Text.trim value ≠ [] && Sources.byteLen value ≤ max && !value.any isControl

/-- `char::is_ascii_hexdigit`. -/
def isAsciiHexdigit (c : Char) : Bool :=
  ('0' ≤ c && c ≤ '9') || ('a' ≤ c && c ≤ 'f') || ('A' ≤ c && c ≤ 'F')

/-- 36 bytes, with hyphens at four places and hexadecimal digits at the others. -/
def validUuid (value : Str) : Bool :=
  Sources.byteLen value == 36 && value.zipIdx.all fun (c, i) =>
    if i ∈ [8, 13, 18, 23] then c == '-' else isAsciiHexdigit c

/-! ## `lookup` -/

section Lookup

variable (U : UnicodeTables) (score : Time → ℚ)

/-- `f.song_key = ANY($1) AND f.artist_key = ANY($2)`. -/
def FactQuery.Matches (query : FactQuery) (f : FactRow) : Prop :=
  f.songKey ∈ Keys.songKeys U query.song ∧ f.artistKey ∈ Keys.artistKeys U query.artist

instance (query : FactQuery) (f : FactRow) : Decidable (query.Matches U f) :=
  inferInstanceAs (Decidable (_ ∧ _))

/-- The `WHERE` clause of the lateral join. -/
def FactPlay.Of (user : UserId) (factId : Int) (p : FactPlay) : Prop :=
  p.userId = user ∧ p.factId = factId

instance (user : UserId) (factId : Int) (p : FactPlay) : Decidable (p.Of user factId) :=
  inferInstanceAs (Decidable (_ ∧ _))

/-- `SELECT MAX(played_at) AS last_used_at`. -/
def FactTables.lastUsedAt (db : FactTables) (user : UserId) (factId : Int) : Option Time :=
  ((db.plays.filter fun p => p.Of user factId).map FactPlay.playedAt).max?

/-- `usage.last_used_at IS NULL OR usage.last_used_at <= NOW() - INTERVAL '30 days'`. -/
def FactTables.Recovered (db : FactTables) (user : UserId) (now : Time) (f : FactRow) : Prop :=
  ∀ t ∈ db.lastUsedAt user f.id, t ≤ now - 30 * day

instance (db : FactTables) (user : UserId) (now : Time) (f : FactRow) :
    Decidable (db.Recovered user now f) := by
  unfold FactTables.Recovered
  infer_instance

/-- The values of the `ORDER BY`. -/
abbrev Rank := Bool ×ₗ ℚ ×ₗ Int ×ₗ Int

-- the order is named, so that every import finds this one
instance : LinearOrder Rank :=
  @Prod.Lex.instLinearOrder Bool (ℚ ×ₗ Int ×ₗ Int) Bool.linearOrder
    (@Prod.Lex.instLinearOrder ℚ (Int ×ₗ Int) Rat.linearOrder
      (@Prod.Lex.instLinearOrder Int Int Int.instLinearOrder Int.instLinearOrder))

instance : Preorder Rank :=
  @PartialOrder.toPreorder Rank (@LinearOrder.toPartialOrder Rank instLinearOrderRank)

/-- The `ORDER BY`: facts without a play first, then the higher score, the later verification and
the lower id. -/
def FactTables.rank (db : FactTables) (user : UserId) (now : Time) (f : FactRow) : Rank :=
  let lastUsedAt := db.lastUsedAt user f.id
  -- `LEAST(1.0, NULL)` is `1.0`
  let recovery := (lastUsedAt.map fun t => score (now - t)).getD 1
  toLex (lastUsedAt.isSome, toLex (-recovery, toLex (-f.verifiedAt, f.id)))

/-- The facts that the query may return. -/
def FactTables.candidates (db : FactTables) (user : UserId) (query : FactQuery) (now : Time) :
    List FactRow :=
  db.facts.filter fun f => query.Matches U f ∧ db.Recovered user now f

/-- The query of `lookup`, with its `ORDER BY` and `LIMIT 1`. -/
def FactTables.selectFact (db : FactTables) (user : UserId) (query : FactQuery) (now : Time) :
    Option FactRow :=
  (db.candidates U user query now).argmin (db.rank score user now)

/-- The first of the track's facts that the user has not heard for 30 days, if there is one. -/
def lookup (db : FactTables) (user : UserId) (query : FactQuery) (now : Time) :
    Except ApiError (Option Fact) :=
  if !bounded query.song 200 || !bounded query.artist 200 then
    .error (ApiError.badRequest "invalid song or artist")
  else .ok ((db.selectFact U score user query now).map FactRow.fact)

end Lookup

/-! ## `contribute` -/

section Contribute

variable (U : UnicodeTables) (sha256 : Str → Str)

/-- What is hashed to the fingerprint. -/
def Contribution.normalized (input : Contribution) : Str :=
  Text.join "\n".toList
    [input.source, input.sourceId, Keys.identityKey U input.song, Keys.identityKey U input.artist,
      Keys.identityKey U input.claim, Keys.identityKey U input.evidence]

/-- `INSERT ... ON CONFLICT (fingerprint) DO UPDATE SET fingerprint = dj_facts.fingerprint
RETURNING ...`: the row that is there is returned as it is. -/
def FactTables.insertFact (db : FactTables) (row : FactRow) : FactTables × FactRow :=
  match db.facts.find? fun f => f.fingerprint = row.fingerprint with
  | some found => ({ db with nextFact := db.nextFact + 1 }, found)
  | none => ({ db with facts := db.facts ++ [row], nextFact := db.nextFact + 1 }, row)

/-- The row that a contribution inserts. -/
def Contribution.row (input : Contribution) (id : Int) (sourceUrl : Str) (now : Time) : FactRow where
  id := id
  songKey := Keys.matchKey U input.song
  artistKey := Keys.matchKey U input.artist
  song := input.song
  artist := input.artist
  claim := input.claim
  source := input.source
  sourceId := input.sourceId
  sourceUrl := sourceUrl
  evidence := input.evidence
  fingerprint := sha256 (input.normalized U)
  verifiedAt := now

/-- `contribute`, given what `verify` answered. -/
def contribute (db : FactTables) (input : Contribution) (verified : Except ApiError Str)
    (now : Time) : FactTables × Except ApiError Fact :=
  if !bounded input.song 200 || !bounded input.artist 200 || !bounded input.claim 500
      || !bounded input.evidence 1000 || !bounded input.sourceId 160
      || !bounded input.sourceUrl 300 then
    (db, .error (ApiError.badRequest "invalid fact fields"))
  else
    match verified with
    | .error error => (db, .error error)
    | .ok sourceUrl =>
        if input.sourceUrl ≠ sourceUrl then
          (db, .error (ApiError.badRequest "source URL does not match source identity"))
        else
          let (db, row) := db.insertFact (input.row U sha256 db.nextFact sourceUrl now)
          (db, .ok row.fact)

end Contribute

/-! ## `played` -/

/-- The check that comes before the statements of `played`. -/
def checkPlayed (factId : Int) (input : Played) (now : Time) : Except ApiError Unit :=
  if factId ≤ 0 || !validUuid input.eventId || now + 5 * minute < input.playedAt then
    .error (ApiError.badRequest "invalid played event")
  else .ok ()

/-- `INSERT INTO dj_fact_plays ... SELECT ... FROM dj_facts WHERE id = $3 ON CONFLICT (user_id,
event_id) DO NOTHING`: the tables after it, when a row was inserted. -/
def FactTables.insertPlay (db : FactTables) (play : FactPlay) : Option FactTables :=
  if (db.facts.any fun f => f.id = play.factId) && !db.plays.any fun p => p.key = play.key then
    some { db with plays := db.plays ++ [play] }
  else none

/-- `SELECT fact_id FROM dj_fact_plays WHERE user_id = $1 AND event_id = $2`. -/
def FactTables.existingFact (db : FactTables) (user : UserId) (eventId : Str) : Option Int :=
  (db.plays.find? fun p => p.key = (user, eventId)).map FactPlay.factId

/-- What `played` answers once it has read the row again. -/
def playedAnswer (existing : Option Int) (factId : Int) : Except ApiError Unit :=
  if existing ≠ some factId then
    .error (ApiError.notFound "fact not found or event ID used for another fact")
  else .ok ()

end AnyPlayerSync.Facts
