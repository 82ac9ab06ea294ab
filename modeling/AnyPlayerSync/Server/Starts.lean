import AnyPlayerSync.Foundation.Locks

/-!
# Replicas that start at once

What `main` does to the database before it serves: `ensure_schema`, the bootstrap of the admin and
`passages::schema::ensure`, in any number of replicas at the same time and on whatever earlier
versions have left. Each schema is created in one transaction under its own advisory lock, so no two
replicas create one name, and nothing is used before it is there (`starts_safe`).

A table comes with its sequence and the indexes of its constraints. The only locks here are the two
advisory ones. The locks that statements take on tables and rows are left out, and two replicas may
collide at `CREATE EXTENSION`, which runs under no lock and whose failure is ignored.
-/

set_option autoImplicit false

namespace AnyPlayerSync.Server

open AnyPlayerSync.Foundation
open AnyPlayerSync.Foundation.Locks (Closed Create Locked Statement)

/-! ## The statements -/

/-- What the schemas create, and the extension that the passages need. -/
inductive SchemaName where
  | users
  | authTokens
  | idxAuthTokensUserId
  | userSyncDocument
  | djFacts
  | idxDjFactsIdentity
  | djFactPlays
  | idxDjFactPlaysReuse
  | vector
  | djDocuments
  | idxDjDocumentsSong
  | idxDjDocumentsAlbum
  | idxDjDocumentsArtist
  | djChunks
  | idxDjChunksDocument
  | djPassagePlays
  | idxDjPassagePlaysReuse
  | djIngestJobs
  | idxDjIngestJobsClaim
  | idxDjIngestJobsAuto
  deriving DecidableEq

/-- `BASE_SCHEMA_LOCK`. -/
def baseSchemaLock : Int := 0x41505342

/-- `DJ_PASSAGE_SCHEMA_LOCK`. -/
def djPassageSchemaLock : Int := 0x444a5041

/-- `ensure_schema` of `db.rs`. -/
def ensureSchemaStatements : List (Statement Int SchemaName) :=
  [.start, .lock baseSchemaLock,
    .create ⟨.users, []⟩,
    .create ⟨.authTokens, [.users]⟩,
    .create ⟨.idxAuthTokensUserId, [.authTokens]⟩,
    .create ⟨.userSyncDocument, [.users]⟩,
    .create ⟨.djFacts, []⟩,
    .create ⟨.idxDjFactsIdentity, [.djFacts]⟩,
    -- the keys of older rows
    .use [.djFacts],
    .create ⟨.djFactPlays, [.users, .djFacts]⟩,
    .create ⟨.idxDjFactPlaysReuse, [.djFactPlays]⟩,
    -- the legacy documents, where there are any
    .use [], .use [.users], .use [.users, .userSyncDocument],
    .commit]

/-- `ensure_bootstrap_admin`, with a token. -/
def bootstrapStatements : List (Statement Int SchemaName) :=
  [.start, .use [.users], .use [.authTokens], .commit]

/-- `SCHEMA` of `passages/schema.rs`. -/
def passageSchema : List (Create SchemaName) :=
  [⟨.djDocuments, [.users]⟩,
    ⟨.idxDjDocumentsSong, [.djDocuments]⟩,
    ⟨.idxDjDocumentsAlbum, [.djDocuments]⟩,
    ⟨.idxDjDocumentsArtist, [.djDocuments]⟩,
    ⟨.djChunks, [.djDocuments, .vector]⟩,
    ⟨.idxDjChunksDocument, [.djChunks]⟩,
    ⟨.djPassagePlays, [.users, .djChunks]⟩,
    ⟨.idxDjPassagePlaysReuse, [.djPassagePlays]⟩,
    ⟨.djIngestJobs, [.users]⟩,
    ⟨.idxDjIngestJobsClaim, [.djIngestJobs]⟩,
    ⟨.idxDjIngestJobsAuto, [.djIngestJobs]⟩]

/-- `passages::schema::ensure`, which leaves the passages out where the extension is missing. -/
def ensureStatements : List (Statement Int SchemaName) :=
  [.attempt .vector, .require .vector, .start, .lock djPassageSchemaLock] ++
    passageSchema.map .create ++ [.commit]

/-- What `main` runs before it serves. -/
def startStatements : List (Statement Int SchemaName) :=
  ensureSchemaStatements ++ bootstrapStatements ++ ensureStatements

/-! ## Discipline -/

/-- The lock under which a name is created. -/
def schemaLock : SchemaName → Int
  | .users | .authTokens | .idxAuthTokensUserId | .userSyncDocument | .djFacts
  | .idxDjFactsIdentity | .djFactPlays | .idxDjFactPlaysReuse => baseSchemaLock
  | _ => djPassageSchemaLock

theorem startStatements_locked : Locked schemaLock none startStatements := by
  repeat constructor

theorem startStatements_closed (there : SchemaName → Prop) : Closed there startStatements := by
  simp [startStatements, ensureSchemaStatements, bootstrapStatements, ensureStatements,
    passageSchema, Closed]

/-- Everything but the extension is created. -/
theorem mem_created {name : SchemaName} (h : name ≠ .vector) :
    name ∈ Locks.created startStatements := by
  cases name with
  | vector => exact absurd rfl h
  | _ => decide

/-- The base schema stands before the `require`. -/
theorem base_before_require {ran todo : List (Statement Int SchemaName)} {name : SchemaName}
    (h : startStatements = ran ++ .require name :: todo) :
    ∃ between, ran = ensureSchemaStatements ++ between := by
  rw [startStatements, List.append_assoc] at h
  rcases List.append_eq_append_iff.1 h with ⟨between, hran, -⟩ | ⟨between, hbase, htodo⟩
  · exact ⟨between, hran⟩
  · cases between with
    | nil => exact ⟨[], by rw [hbase, List.append_nil, List.append_nil]⟩
    | cons first between =>
        obtain ⟨rfl, -⟩ := List.cons.inj htodo
        have hrequire : .require name ∈ ensureSchemaStatements := by
          rw [hbase]
          exact List.mem_append_right _ List.mem_cons_self
        simp [ensureSchemaStatements] at hrequire

/-! ## Replicas -/

/-- Replicas that start, on a database with some of the names. -/
def replicas (catalog : List SchemaName) :
    Machine (Locks.State Nat Int SchemaName) (Locks.Action Nat) (Locks.Event Nat SchemaName) :=
  Locks.sessions (fun _ => startStatements) catalog

/-- **Replicas may start at once.** However many do, however their statements are interleaved and
whichever of them fail: no `CREATE` collides with another replica's, and no statement misses a table
or an extension; a replica that gets through finds everything created, and one without the extension
the base schema; and as long as a replica has not, some replica can run its next statement, as far
as the advisory locks go. -/
theorem starts_safe {catalog : List SchemaName} {h : List (Locks.Event Nat SchemaName)}
    {s : Locks.State Nat Int SchemaName} (hr : (replicas catalog).Run h s) :
    (∀ e ∈ h, ¬ e.IsError) ∧
      (∀ i, s.sessions i = .running [] → ∀ name, name ≠ .vector → name ∈ s.catalog) ∧
      (∀ i, s.sessions i = .stopped →
        ∀ name ∈ Locks.created ensureSchemaStatements, name ∈ s.catalog) ∧
      ∀ i statement rest, s.sessions i = .running (statement :: rest) →
        ∃ j, (Locks.step s (.proceed j true)).isSome = true := by
  have hlocked : ∀ _ : Nat, Locked schemaLock none startStatements :=
    fun _ => startStatements_locked
  have hclosed : ∀ _ : Nat, Closed (fun n => n ∈ catalog) startStatements :=
    fun _ => startStatements_closed _
  have hd := Locks.run_disciplined hlocked hclosed hr
  refine ⟨Locks.run_no_error hlocked hclosed hr, ?_, ?_, fun i _ _ h => hd.exists_enabled h⟩
  · exact fun i hdone name hname => hd.made hdone name (mem_created hname)
  · intro i hstopped name hname
    obtain ⟨ran, _, todo, hsplit, hmade⟩ := hd.made_before hstopped
    obtain ⟨between, rfl⟩ := base_before_require hsplit
    apply hmade
    rw [Locks.created, List.filterMap_append]
    exact List.mem_append_left _ hname

/-- Two replicas, of which one takes the lock while the other waits for it. -/
def twoReplicas : List (Locks.Action Nat) :=
  [.proceed 0 true, .proceed 1 true, .proceed 0 true, .proceed 1 true, .proceed 0 true, .fail 0,
    .proceed 1 true, .proceed 1 true]

theorem starts_safe_two :
    (¬ ∃ e ∈ ((replicas []).exec ([], (replicas []).init) twoReplicas).1, e.IsError) ∧
      ∃ j, (Locks.step ((replicas []).exec ([], (replicas []).init) twoReplicas).2
        (.proceed j true)).isSome = true := by
  obtain ⟨hsafe, -, -, hgoes⟩ := starts_safe (Machine.run_exec twoReplicas)
  constructor
  · rintro ⟨e, he, herror⟩
    exact hsafe e he herror
  · exact hgoes 1 _ _ rfl

/-- Without the lock the same statements collide. -/
example : ((Locks.sessions (fun _ : Nat => [.start, .create ⟨SchemaName.users, []⟩, .commit])
      ([] : List SchemaName) : Machine (Locks.State Nat Int SchemaName) _ _).exec
      ([], ⟨[], [], [], fun _ => .running [.start, .create ⟨.users, []⟩, .commit]⟩)
      [.proceed 0 true, .proceed 1 true, .proceed 0 true, .proceed 1 true]).1.any
    (fun | .collided _ _ => true | _ => false) = true := by
  decide

end AnyPlayerSync.Server
