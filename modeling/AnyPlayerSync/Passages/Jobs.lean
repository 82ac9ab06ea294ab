import AnyPlayerSync.Keys.MatchKeys
import AnyPlayerSync.Passages.Model

/-!
# The ingest job table

`passages/jobs.rs` on the table `dj_ingest_jobs`, one definition for each SQL statement: the three
of `enqueue`, the one of `claim` and the one of `finish`. `NOW()` is a parameter of each.

A claim takes the eligible row that is first in the order of the statement among those that no
other transaction has locked (`FOR UPDATE SKIP LOCKED`), so the locked rows are a parameter too.
-/

set_option autoImplicit false

namespace AnyPlayerSync.Passages

open AnyPlayerSync.Foundation
open AnyPlayerSync.Sync (Time UserId)

/-- An attempt of this number is the last. -/
def maxAttempts : Int := 5

/-- Times are in microseconds. -/
def minute : Time := 60 * 1000000

def day : Time := 24 * 60 * minute

/-- A `running` job whose lease is older than this can be claimed again. -/
def staleLease : Time := 30 * minute

/-! ## Rows -/

/-- The column `status`. -/
inductive JobStatus where
  | queued
  | running
  | done
  | failed
  deriving DecidableEq

/-- `UNIQUE (song_key, artist_key, album_key)`. -/
structure JobKeys where
  songKey : Str
  artistKey : Str
  albumKey : Str
  deriving DecidableEq

/-- A row of `dj_ingest_jobs`. -/
structure JobRow where
  id : Nat
  track : TrackRequest
  keys : JobKeys
  requestedBy : Option UserId
  auto : Bool
  status : JobStatus
  attempts : Int
  nextAttemptAt : Time
  results : Json
  lastError : Option Str
  createdAt : Time
  updatedAt : Time

/-- What a claim hands to a worker. -/
structure Job where
  id : Nat
  track : TrackRequest
  attempts : Int
  results : StrMap Json

/-- The answer of `enqueue`. -/
inductive Enqueue where
  | queued
  | alreadyQueued
  | recentlyDone
  deriving DecidableEq

/-- The keys of a track; a track without an album has an empty third key. -/
def jobKeys (U : UnicodeTables) (track : TrackRequest) : JobKeys where
  songKey := Keys.matchKey U (Keys.baseTitle U track.song)
  artistKey := Keys.matchKey U track.artist
  albumKey := (track.album.map fun a => Keys.matchKey U (Keys.baseTitle U a)).getD []

/-- What a `WHERE` clause finds is a row that meets it. -/
theorem find_spec {α : Type} {p : α → Prop} [DecidablePred p] {l : List α} {a : α}
    (h : (l.find? fun x => p x) = some a) : a ∈ l ∧ p a :=
  ⟨List.mem_of_find?_eq_some h, by simpa using List.find?_some h⟩

/-! ## The statements of `enqueue` -/

/-- The row that the first statement inserts. -/
def newJob (id : Nat) (keys : JobKeys) (track : TrackRequest) (requestedBy : Option UserId)
    (auto : Bool) (now : Time) : JobRow where
  id := id
  track := track
  keys := keys
  requestedBy := requestedBy
  auto := auto
  status := .queued
  attempts := 0
  nextAttemptAt := now
  results := .obj []
  lastError := none
  createdAt := now
  updatedAt := now

/-- `INSERT ... ON CONFLICT DO NOTHING RETURNING id`. -/
def insertJob (rows : List JobRow) (row : JobRow) : Option (List JobRow) :=
  if rows.any fun r => r.keys = row.keys then none else some (rows ++ [row])

/-- The `WHERE` clause of the requeue: a finished job, when forced or after 30 days. -/
def Requeues (keys : JobKeys) (force : Bool) (now : Time) (r : JobRow) : Prop :=
  r.keys = keys ∧ (r.status = .done ∨ r.status = .failed) ∧
    (force = true ∨ r.updatedAt < now - 30 * day)

instance (keys : JobKeys) (force : Bool) (now : Time) (r : JobRow) :
    Decidable (Requeues keys force now r) := inferInstanceAs (Decidable (_ ∧ _))

/-- The `SET` clause of the requeue. -/
def JobRow.requeued (r : JobRow) (now : Time) : JobRow :=
  { r with
    status := .queued, attempts := 0, nextAttemptAt := now, results := .obj [], lastError := none,
    updatedAt := now }

/-- `UPDATE ... WHERE status IN ('done','failed') ... RETURNING id`: the rows after it and the
requeued id. -/
def requeueJob (rows : List JobRow) (keys : JobKeys) (force : Bool) (now : Time) :
    Option (List JobRow × Nat) :=
  (rows.find? fun r => Requeues keys force now r).map fun found =>
    (rows.map fun r => if Requeues keys force now r then r.requeued now else r, found.id)

/-- `SELECT status`. -/
def selectStatus (rows : List JobRow) (keys : JobKeys) : Option JobStatus :=
  (rows.find? fun r => r.keys = keys).map JobRow.status

/-- The answer for the status read last. -/
def enqueueAnswer : JobStatus → Enqueue
  | .done => .recentlyDone
  | .failed => .recentlyDone
  | .queued => .alreadyQueued
  | .running => .alreadyQueued

/-! ## `claim` -/

/-- The `WHERE` clause of the claim: a due job, or a running one whose lease is stale. -/
def Claimable (now : Time) (r : JobRow) : Prop :=
  (r.status = .queued ∧ r.nextAttemptAt ≤ now) ∨
    (r.status = .running ∧ r.updatedAt < now - staleLease)

instance (now : Time) (r : JobRow) : Decidable (Claimable now r) :=
  inferInstanceAs (Decidable (_ ∨ _))

/-- `ORDER BY next_attempt_at, id`. -/
def JobRow.Before (a b : JobRow) : Prop :=
  a.nextAttemptAt < b.nextAttemptAt ∨ (a.nextAttemptAt = b.nextAttemptAt ∧ a.id < b.id)

instance (a b : JobRow) : Decidable (a.Before b) := inferInstanceAs (Decidable (_ ∨ _))

/-- The first of some rows in the order of the claim. -/
def earliest : List JobRow → Option JobRow
  | [] => none
  | r :: rows =>
      match earliest rows with
      | none => some r
      -- on equal keys the earlier row of the list wins; ids are unique, so this does not happen
      | some best => if best.Before r then some best else some r

/-- The `SET` clause of the claim. -/
def JobRow.claimed (r : JobRow) (now : Time) : JobRow :=
  { r with status := .running, attempts := r.attempts + 1, updatedAt := now }

/-- The job that a claim returns, from the claimed row. -/
def JobRow.job (r : JobRow) : Job where
  id := r.id
  track := r.track
  attempts := r.attempts
  results := r.results.asObject.getD []

/-- `UPDATE ... WHERE id = (SELECT ... FOR UPDATE SKIP LOCKED LIMIT 1) RETURNING ...`. -/
def claim (rows : List JobRow) (locked : List Nat) (now : Time) : Option (List JobRow × Job) :=
  (earliest (rows.filter fun r => Claimable now r ∧ r.id ∉ locked)).map fun found =>
    (rows.map fun r => if r.id = found.id then r.claimed now else r, (found.claimed now).job)

/-! ## `finish` -/

/-- The state of an entry of the results. -/
def state (v : Json) : Str := ((v.get "state".toList).bind Json.asStr).getD []

/-- The state of a source that is tried again. -/
def stateError : Str := "error".toList

/-- `o.entry("at").or_insert(now)` on an object. -/
def stamp (now : Str) : Json → Json
  | .obj fields =>
      if StrMap.lookup "at".toList fields = none then
        .obj (StrMap.insert "at".toList (.str now) fields)
      else .obj fields
  | v => v

/-- The results with every entry stamped. -/
def stampResults (now : Str) (results : StrMap Json) : StrMap Json :=
  results.map fun p => (p.1, stamp now p.2)

/-- One line for each entry in state `error`. -/
def resultErrors (results : StrMap Json) : List Str :=
  (results.filter fun p => state p.2 = stateError).map fun p =>
    p.1 ++ ": ".toList ++ ((p.2.get "message".toList).bind Json.asStr).getD []

/-- There are entries and each is in state `error`. -/
def allError (results : StrMap Json) : Bool :=
  !results.isEmpty && results.all fun p => state p.2 = stateError

/-- The status and the delay in minutes that a finish sets. -/
def finishStatus (results : StrMap Json) (attempts : Int) : JobStatus × Nat :=
  -- retry after `2^attempts` minutes
  if resultErrors results ≠ [] ∧ attempts < maxAttempts then
    (.queued, Nat.pow 2 (min (max attempts 0) 10).toNat)
  else if allError results then (.failed, 0)
  else (.done, 0)

/-- The `SET` clause of the finish. -/
def JobRow.finished (r : JobRow) (results : StrMap Json) (attempts : Int) (now : Time) : JobRow :=
  { r with
    status := (finishStatus results attempts).1
    results := .obj results
    lastError :=
      if resultErrors results ≠ [] then some (Text.join "; ".toList (resultErrors results))
      else none
    updatedAt := now
    nextAttemptAt := now + (finishStatus results attempts).2 * minute }

/-- `UPDATE ... WHERE id=$1`: the claim's statement names the id and nothing of the lease. `clock`
is the text of the worker's clock, `now` the database's. -/
def finish (rows : List JobRow) (job : Job) (results : StrMap Json) (clock : Str) (now : Time) :
    List JobRow :=
  rows.map fun r =>
    if r.id = job.id then r.finished (stampResults clock results) job.attempts now else r

end AnyPlayerSync.Passages
