import AnyPlayerSync.Sync.Model
import Mathlib.Logic.Function.Basic

/-!
# The sync document table

`db.rs` on the table `user_sync_document`, one definition for each SQL statement and one for each
function, and the four handlers of `handlers.rs` that serve it one request at a time. A row is
found by its primary key `(user_id, id)`, and the server only ever uses `id = 1`. It is created
lazily, with version `0` and empty domains, by the first request that touches it.

`update_namespace` and `replace_snapshot` differ in the columns they set and in one error text.
Both are `writeDocument` applied to a `Put`; a `Put` carries the laws of its `SET` clause.

The domains are columns of type `JSONB`. The column takes every value that a request can carry but
one kind: a text or a member name with U+0000, which JSON allows and `JSONB` refuses
(`Put.storable`). Values are kept up to the spelling of their numbers.
-/

set_option autoImplicit false

namespace AnyPlayerSync.Sync

open AnyPlayerSync.Foundation

/-- The table `user_sync_document`, by primary key `(user_id, id)`. -/
abbrev Documents := UserId × Int → Option Snapshot

/-- The clock readings of one request: at the row's creation and at the write. -/
structure Clock where
  ensuredAt : Time
  writtenAt : Time

/-! ## Statements -/

/-- The row that `ensure_user_document` inserts. -/
def emptyDocument (now : Time) : Snapshot where
  version := 0
  updatedAt := now
  appState := .obj []
  playlists := .arr []
  providerConfiguration := .obj []
  settings := .obj []

/-- `INSERT ... ON CONFLICT (user_id, id) DO NOTHING`. -/
def ensureUserDocument (docs : Documents) (user : UserId) (now : Time) : Documents :=
  match docs (user, 1) with
  | some _ => docs
  | none => Function.update docs (user, 1) (some (emptyDocument now))

/-- `SELECT version ... WHERE user_id = $1 AND id = 1`. -/
def selectVersion (docs : Documents) (user : UserId) : Except ApiError Int :=
  match docs (user, 1) with
  | some row => .ok row.version
  | none => .error (ApiError.internal "failed to read current version")

/-- The optimistic check: an expected version, when sent, must be the version just read. -/
def checkVersion (expected : Option Int) (current : Int) : Except ApiError Unit :=
  match expected with
  | some expected =>
      if expected ≠ current then
        .error (ApiError.conflict
          s!"expected version {expected}, but current version is {current}")
      else .ok ()
  | none => .ok ()

theorem checkVersion_ok_iff {expected : Option Int} {current : Int} :
    checkVersion expected current = .ok () ↔ expected = none ∨ expected = some current := by
  cases expected with
  | none => simp [checkVersion]
  | some e => by_cases h : e = current <;> simp [checkVersion, h]

theorem checkVersion_conflict {expected : Option Int} {current : Int}
    (h : ¬ (expected = none ∨ expected = some current)) :
    ∃ message, checkVersion expected current = .error (ApiError.conflict message) := by
  cases expected with
  | none => simp at h
  | some e =>
      have he : e ≠ current := fun he => h (Or.inr (congrArg some he))
      exact ⟨_, if_pos he⟩

/-! ## Writes -/

/-- One kind of write: what it announces, what it expects, and its `SET` clause, given the new
version and the clock reading. `writes` lists the namespaces it covers, with their new data. -/
structure Put where
  ns : Namespace
  expectedVersion : Option Int
  clientId : Option String
  failure : String
  set : Int → Time → Snapshot → Snapshot
  writes : Namespace → Option Json
  set_version : ∀ v now row, (set v now row).version = v
  set_updatedAt : ∀ v now row, (set v now row).updatedAt = now
  set_data : ∀ v now row d, d ≠ .snapshot →
    namespaceData (set v now row) d = (writes d).getD (namespaceData row d)

/-- The four `UPDATE` variants of `update_namespace`; `Snapshot` is its `unreachable!()` arm. -/
def setNamespace : (ns : Namespace) → ns ≠ .snapshot → Json → Int → Time → Snapshot → Snapshot
  | .appState, _, data, v, now, row => { row with appState := data, version := v, updatedAt := now }
  | .playlists, _, data, v, now, row =>
      { row with playlists := data, version := v, updatedAt := now }
  | .providerConfiguration, _, data, v, now, row =>
      { row with providerConfiguration := data, version := v, updatedAt := now }
  | .settings, _, data, v, now, row => { row with settings := data, version := v, updatedAt := now }
  | .snapshot, h, _, _, _, _ => absurd rfl h

/-- The write of `update_namespace`. -/
def namespacePut (ns : Namespace) (hns : ns ≠ .snapshot) (payload : NamespacePayload) : Put where
  ns := ns
  expectedVersion := payload.expectedVersion
  clientId := payload.clientId
  failure := "failed to update snapshot"
  set := setNamespace ns hns payload.data
  writes d := if d = ns then some payload.data else none
  set_version v now row := by cases ns <;> first | rfl | exact absurd rfl hns
  set_updatedAt v now row := by cases ns <;> first | rfl | exact absurd rfl hns
  set_data v now row d hd := by
    cases ns <;> cases d <;> first | rfl | exact absurd rfl hns | exact absurd rfl hd

/-- The write of `replace_snapshot`. -/
def snapshotPut (payload : SnapshotPayload) : Put where
  ns := .snapshot
  expectedVersion := payload.expectedVersion
  clientId := payload.clientId
  failure := "failed to write snapshot"
  set v now _ :=
    { version := v, updatedAt := now, appState := payload.appState, playlists := payload.playlists,
      providerConfiguration := payload.providerConfiguration, settings := payload.settings }
  writes
    | .appState => some payload.appState
    | .playlists => some payload.playlists
    | .providerConfiguration => some payload.providerConfiguration
    | .settings => some payload.settings
    | .snapshot => none
  set_version _ _ _ := rfl
  set_updatedAt _ _ _ := rfl
  set_data v now row d hd := by cases d <;> first | rfl | exact absurd rfl hd

/-- `JSONB` takes all the data that a write binds: no text and no member name holds U+0000. Its
bound on the size of a value, 256 MB, is left to the limit on request bodies. -/
def Put.storable (p : Put) : Bool :=
  [Namespace.appState, .playlists, .providerConfiguration, .settings].all fun ns =>
    ((p.writes ns).map Json.nulFree).getD true

/-- `UPDATE ... SET ... WHERE user_id = $n AND id = 1 RETURNING ...`: the new table and row, or
nothing when `JSONB` refuses the data or no row matches. The statement names no version, so it
takes whatever row is there. -/
def updateRow (docs : Documents) (user : UserId) (p : Put) (newVersion : Int) (updatedAt : Time) :
    Option (Documents × Snapshot) :=
  -- a value with U+0000 is refused as a parameter, before any row is looked at
  if p.storable then
    (docs (user, 1)).map fun row =>
      (Function.update docs (user, 1) (some (p.set newVersion updatedAt row)),
        p.set newVersion updatedAt row)
  else none

/-- What a successful `UPDATE` has done. -/
theorem updateRow_some {docs docs' : Documents} {user : UserId} {p : Put} {newVersion : Int}
    {updatedAt : Time} {row : Snapshot}
    (h : updateRow docs user p newVersion updatedAt = some (docs', row)) :
    p.storable = true ∧ ∃ old, docs (user, 1) = some old ∧ row = p.set newVersion updatedAt old ∧
      docs' = Function.update docs (user, 1) (some row) := by
  rw [updateRow] at h
  split_ifs at h with hstorable
  obtain ⟨old, hold, heq⟩ := Option.map_eq_some_iff.1 h
  cases heq
  exact ⟨hstorable, old, hold, rfl, rfl⟩

/-- The event of a write at `newVersion`. -/
def Put.event (p : Put) (newVersion : Int) (updatedAt : Time) : UpdateEvent where
  eventType := "state_updated"
  ns := p.ns
  version := newVersion
  updatedAt := updatedAt
  sourceClientId := p.clientId

/-- The common body of `update_namespace` and `replace_snapshot`, run without interruption. -/
def writeDocument (docs : Documents) (user : UserId) (p : Put) (clock : Clock) :
    Documents × Except ApiError (Snapshot × UpdateEvent) :=
  let docs := ensureUserDocument docs user clock.ensuredAt
  match selectVersion docs user with
  | .error e => (docs, .error e)
  | .ok current =>
      -- a conflict and a refused `UPDATE` roll the transaction back; the ensured row stays
      match checkVersion p.expectedVersion current with
      | .error e => (docs, .error e)
      | .ok () =>
          let newVersion := current + 1
          match updateRow docs user p newVersion clock.writtenAt with
          | none => (docs, .error (ApiError.internal p.failure))
          | some (docs, row) => (docs, .ok (row, p.event newVersion clock.writtenAt))

/-- The write of one namespace. -/
def updateNamespace (docs : Documents) (user : UserId) (ns : Namespace) (hns : ns ≠ .snapshot)
    (payload : NamespacePayload) (clock : Clock) :
    Documents × Except ApiError (Snapshot × UpdateEvent) :=
  writeDocument docs user (namespacePut ns hns payload) clock

/-- The write of all four domains. -/
def replaceSnapshot (docs : Documents) (user : UserId) (payload : SnapshotPayload)
    (clock : Clock) : Documents × Except ApiError (Snapshot × UpdateEvent) :=
  writeDocument docs user (snapshotPut payload) clock

/-- The `SELECT` of `load_snapshot`. -/
def selectSnapshot (docs : Documents) (user : UserId) : Except ApiError Snapshot :=
  match docs (user, 1) with
  | some row => .ok row
  | none => .error (ApiError.internal "failed to read snapshot")

/-- The user's row, which is created when it is missing. -/
def loadSnapshot (docs : Documents) (user : UserId) (now : Time) :
    Documents × Except ApiError Snapshot :=
  let docs := ensureUserDocument docs user now
  (docs, selectSnapshot docs user)

/-! ## Handlers, one request at a time -/

/-- Answer of `get_snapshot` for the row it loaded. -/
def snapshotAnswer (sinceVersion : Option Int) (snapshot : Snapshot) : Response :=
  match sinceVersion with
  | some since => if snapshot.version ≤ since then .notModified else .snapshot snapshot
  | none => .snapshot snapshot

/-- Answer of `get_namespace` and of a successful `put_namespace`. -/
def namespaceAnswer (ns : Namespace) (snapshot : Snapshot) : Response :=
  .update ⟨snapshot.version, snapshot.updatedAt, ns, namespaceData snapshot ns⟩

/-- The refusal of the path segment `snapshot`, had it parsed. -/
def snapshotRefused : ApiError :=
  ApiError.badRequest "snapshot is only available via /v1/snapshot"

/-- `GET /v1/snapshot`. -/
def getSnapshot (docs : Documents) (user : UserId) (sinceVersion : Option Int) (clock : Clock) :
    Documents × Response :=
  match loadSnapshot docs user clock.ensuredAt with
  | (docs, .error e) => (docs, .error e)
  | (docs, .ok snapshot) => (docs, snapshotAnswer sinceVersion snapshot)

/-- `GET` of a namespace. -/
def getNamespace (docs : Documents) (user : UserId) (path : String) (clock : Clock) :
    Documents × Response :=
  match Namespace.parse path with
  | .error e => (docs, .error e)
  | .ok ns =>
      -- refused before any statement, so no row is created
      if ns = .snapshot then (docs, .error snapshotRefused)
      else
        match loadSnapshot docs user clock.ensuredAt with
        | (docs, .error e) => (docs, .error e)
        | (docs, .ok snapshot) => (docs, namespaceAnswer ns snapshot)

/-- The answer and the event of a `PUT` whose write has returned. -/
def answerPut (answer : Snapshot → Response) :
    Documents × Except ApiError (Snapshot × UpdateEvent) →
      Documents × Response × Option UpdateEvent
  | (docs, .error e) => (docs, .error e, none)
  | (docs, .ok (snapshot, event)) => (docs, answer snapshot, some event)

/-- `PUT /v1/snapshot`. -/
def putSnapshot (docs : Documents) (user : UserId) (payload : SnapshotPayload) (clock : Clock) :
    Documents × Response × Option UpdateEvent :=
  answerPut .snapshot (replaceSnapshot docs user payload clock)

/-- `PUT` of a namespace. -/
def putNamespace (docs : Documents) (user : UserId) (path : String) (payload : NamespacePayload)
    (clock : Clock) : Documents × Response × Option UpdateEvent :=
  match Namespace.parse path with
  | .error e => (docs, .error e, none)
  | .ok ns =>
      if h : ns = .snapshot then (docs, .error snapshotRefused, none)
      else answerPut (namespaceAnswer ns) (updateNamespace docs user ns h payload clock)

/-- Serve one request to its end: the new table, the answer and the event sent. -/
def serve (user : UserId) (docs : Documents) : Request × Clock →
    Documents × Response × Option UpdateEvent
  | (.getSnapshot since, clock) =>
      let (docs, response) := getSnapshot docs user since clock
      (docs, response, none)
  | (.putSnapshot payload, clock) => putSnapshot docs user payload clock
  | (.getNamespace path, clock) =>
      let (docs, response) := getNamespace docs user path clock
      (docs, response, none)
  | (.putNamespace path payload, clock) => putNamespace docs user path payload clock

end AnyPlayerSync.Sync
