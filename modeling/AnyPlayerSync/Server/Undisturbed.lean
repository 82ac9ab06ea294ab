import AnyPlayerSync.Server.Handlers

/-!
# Undisturbed requests

When no statement fails and no time passes, a handler's program does what the model of its module
says the handler does in one step: `AccountTables.authenticate`, `Sync.serve`, `Facts.lookup` and
`Facts.contribute`, `Passages.lookup` and `Passages.played`.
-/

set_option autoImplicit false

namespace AnyPlayerSync.Server

open AnyPlayerSync.Accounts (AccountTables AuthenticatedUser TokenRow UserRow)
open AnyPlayerSync.Facts (Contribution FactQuery)
open AnyPlayerSync.Foundation
open AnyPlayerSync.Foundation.Program
open AnyPlayerSync.Passages (Candidate Enqueue PassageQuery PassageResponse PlayedRequest Queue
  TrackRequest insertJob jobKeys newJob requeueJob selectStatus)
open AnyPlayerSync.Sync (ApiError Put Snapshot Time UpdateEvent UserId)

variable {V F : Type} (X : Externals V F) (state : AppContext V)

/-! ## Authentication -/

/-- What `authenticate` has answered, on the whole database: who passes has used the token. -/
def authOutcome (db : Database V) (now : Time) :
    Except ApiError (AuthenticatedUser × Int) → Database V × Except ApiError AuthenticatedUser
  | .ok (user, tokenId) =>
      ({ db with accounts := db.accounts.touchToken tokenId now }, .ok user)
  | .error e => (db, .error e)

/-- The answer of `authenticate` for the row that its `SELECT` found. -/
def grantAnswer : Option (UserRow × TokenRow) → Except ApiError (AuthenticatedUser × Int)
  | none => .error (ApiError.unauthorized "invalid bearer token")
  | some (user, row) =>
      if user.disabledAt.isSome then .error (ApiError.forbidden "user account is disabled")
      else .ok (⟨user.id, user.name, user.isAdmin⟩, row.id)

theorem authenticate_eq (db : AccountTables) (hash : Str → Str) (token : Str) :
    db.authenticate hash token =
      if Text.trim token = [] then .error (ApiError.unauthorized "missing bearer token")
      else grantAnswer (db.selectGrant (hash (Text.trim token))) := by
  rw [AccountTables.authenticate]
  cases db.selectGrant (hash (Text.trim token)) <;> rfl

theorem does_authenticateToken (token : Str) : Does (authenticateToken (V := V) X token)
    fun now db => authOutcome db now (db.accounts.authenticate X.sha256 token) := by
  refine (does_ite (does_fail _) (does_bind (does_query _ _)
    (g := fun row now db => authOutcome db now (grantAnswer row)) fun row => ?_)).congr ?_
  · cases row with
    | none => exact does_fail _
    | some p =>
        refine (does_ite (does_fail _) (does_bind (does_attempt (does_statement _ _)) fun _ =>
          does_pure _)).congr ?_
        intro now db
        rw [grantAnswer]
        split <;> rfl
  · intro now db
    rw [authenticate_eq]
    by_cases hblank : Text.trim token = []
    · simp only [if_pos hblank, authOutcome]
    · simp only [if_neg hblank]

/-! ## Sync -/

/-- What `Sync.serve` has answered, on the whole database. -/
def syncOutcome (db : Database V) (outcome : Sync.Documents × Sync.Response × Option UpdateEvent) :
    Database V × Except ApiError Reply :=
  ({ db with documents := outcome.1 }, match outcome.2 with
    | (.error e, _) => .error e
    | (response, event) => .ok (.sync response event))

theorem does_loadSnapshot (user : UserId) : Does (loadSnapshot (V := V) user) fun now db =>
    ({ db with documents := (Sync.loadSnapshot db.documents user now).1 },
      (Sync.loadSnapshot db.documents user now).2) :=
  does_bind (does_statement _ _) fun _ => does_query _ _

theorem does_writeDocument (user : UserId) (p : Put) :
    Does (writeDocument (V := V) user p) fun now db =>
      ({ db with documents := (Sync.writeDocument db.documents user p ⟨now, now⟩).1 },
        (Sync.writeDocument db.documents user p ⟨now, now⟩).2) := by
  refine Does.congr (does_bind (does_statement _ _) fun _ => does_transaction _ _
    (does_bind (does_query _ _) fun current => does_bind (does_check _) fun _ =>
      does_bind does_clock fun updatedAt => does_bind (does_statement _ _) fun row =>
        does_pure _)) ?_
  intro now db
  simp only [Sync.writeDocument]
  cases Sync.selectVersion (Sync.ensureUserDocument db.documents user now) user with
  | error e => rfl
  | ok current =>
      simp only
      cases Sync.checkVersion p.expectedVersion current with
      | error e => rfl
      | ok _ =>
          simp only
          cases Sync.updateRow (Sync.ensureUserDocument db.documents user now) user p (current + 1)
              now with
          | none => rfl
          | some q => rfl

/-- Reading a snapshot and answering from it. -/
theorem does_answer (user : UserId) {answer : Snapshot → Sync.Response}
    (hanswer : ∀ snapshot e, answer snapshot ≠ .error e) :
    Does (do let snapshot ← loadSnapshot (V := V) user; pure (Reply.sync (answer snapshot) none))
      fun now db =>
        let loaded := Sync.loadSnapshot db.documents user now
        syncOutcome db (loaded.1, match loaded.2 with
          | .error e => (.error e, none)
          | .ok snapshot => (answer snapshot, none)) := by
  refine Does.congr (does_bind (does_loadSnapshot user) fun _ => does_pure _) ?_
  intro now db
  simp only [syncOutcome]
  cases (Sync.loadSnapshot db.documents user now).2 with
  | error e => rfl
  | ok snapshot =>
      simp only
      cases h : answer snapshot with
      | error e => exact absurd h (hanswer snapshot e)
      | snapshot | update | notModified => rfl

/-- Writing and answering from the row written. -/
theorem does_put (user : UserId) (p : Put) {answer : Snapshot → Sync.Response}
    (hanswer : ∀ snapshot e, answer snapshot ≠ .error e) :
    Does (do
        let (snapshot, event) ← writeDocument (V := V) user p
        pure (Reply.sync (answer snapshot) (some event))) fun now db =>
      syncOutcome db
        (Sync.answerPut answer (Sync.writeDocument db.documents user p ⟨now, now⟩)) := by
  refine Does.congr (does_bind (does_writeDocument user p) fun _ => does_pure _) ?_
  intro now db
  cases hwrite : Sync.writeDocument db.documents user p ⟨now, now⟩ with
  | mk documents r =>
      cases r with
      | error e => rfl
      | ok q =>
          obtain ⟨snapshot, event⟩ := q
          simp only [syncOutcome, Sync.answerPut]
          cases h : answer snapshot with
          | error e => exact absurd h (hanswer snapshot e)
          | snapshot | update | notModified => rfl

theorem snapshotAnswer_ne_error (since : Option Int) (snapshot : Snapshot) (e : ApiError) :
    Sync.snapshotAnswer since snapshot ≠ .error e := by
  cases since with
  | none => exact Sync.Response.noConfusion
  | some since =>
      rw [Sync.snapshotAnswer]
      split_ifs <;> exact Sync.Response.noConfusion

/-- **Sync requests** do what `Sync.serve` does. -/
theorem does_sync (user : UserId) (request : Sync.Request) :
    Does (sync (V := V) user request) fun now db =>
      syncOutcome db (Sync.serve user db.documents (request, ⟨now, now⟩)) := by
  cases request with
  | getSnapshot since =>
      refine Does.congr (does_answer user (snapshotAnswer_ne_error since)) ?_
      intro now db
      simp only [Sync.serve, Sync.getSnapshot]
      cases Sync.loadSnapshot db.documents user now with
      | mk documents r => cases r <;> rfl
  | putSnapshot payload => exact does_put user _ fun _ _ => Sync.Response.noConfusion
  | getNamespace path =>
      simp only [sync, getNamespace, Sync.serve, Sync.getNamespace]
      cases Sync.Namespace.parse path with
      | error e => exact does_fail e
      | ok ns =>
          by_cases hns : ns = .snapshot
          · simp only [if_pos hns]
            exact does_fail _
          · simp only [if_neg hns]
            refine Does.congr (does_answer user fun _ _ => Sync.Response.noConfusion) ?_
            intro now db
            cases Sync.loadSnapshot db.documents user now with
            | mk documents r => cases r <;> rfl
  | putNamespace path payload =>
      simp only [sync, putNamespace, Sync.serve, Sync.putNamespace]
      cases Sync.Namespace.parse path with
      | error e => exact does_fail e
      | ok ns =>
          by_cases hns : ns = .snapshot
          · simp only [dif_pos hns]
            exact does_fail _
          · simp only [dif_neg hns]
            exact does_put user _ fun _ _ => Sync.Response.noConfusion

/-! ## Facts -/

theorem does_factLookup (user : UserId) (q : FactQuery) :
    Does (factLookup (V := V) X user q) fun now db =>
      (db, (Facts.lookup X.unicode X.score db.facts user q now).map Reply.fact) := by
  refine (does_ite (does_fail _) (does_bind (does_query _ _) fun _ => does_pure _)).congr ?_
  intro now db
  rw [Facts.lookup]
  split_ifs <;> rfl

theorem does_factContribute (input : Contribution) (verified : Except ApiError Str) :
    Does (factContribute (V := V) X input verified) fun now db =>
      let outcome := Facts.contribute X.unicode X.sha256 db.facts input verified now
      ({ db with facts := outcome.1 }, outcome.2.map Reply.factCreated) := by
  refine (does_ite (does_fail _) (does_bind (does_check verified) fun _ =>
    does_ite (does_fail _) (does_bind (does_statement _ _) fun _ => does_pure _))).congr ?_
  intro now db
  rw [Facts.contribute.eq_def]
  split_ifs
  · rfl
  · cases verified with
    | error e => rfl
    | ok sourceUrl =>
        simp only
        split_ifs <;> rfl

/-! ## Passages -/

/-- The job table as the queue of the passage handlers. -/
def Database.queue (db : Database V) (now : Time) : Queue :=
  { Queue.empty with now := now, rows := db.jobs, nextId := db.nextJob }

/-- The job table is that of the queue. -/
def Database.withQueue (db : Database V) (q : Queue) : Database V :=
  { db with jobs := q.rows, nextJob := q.nextId }

/-- What `Queue.enqueue` has done, on the whole database. -/
def enqueueOutcome (db : Database V) (outcome : Queue × Option Enqueue) :
    Database V × Except ApiError Enqueue :=
  (db.withQueue outcome.1, match outcome.2 with
    | some answer => .ok answer
    | none => .error (ApiError.internal "ingest enqueue failed"))

theorem does_enqueue (track : TrackRequest) (requestedBy : Option UserId) (auto force : Bool) :
    Does (enqueue (V := V) X track requestedBy auto force) fun now db =>
      enqueueOutcome db ((db.queue now).enqueue X.unicode track requestedBy auto force) := by
  refine (does_bind (does_statement _ _) fun _ => does_ite (does_pure _) (does_bind
    (does_statement _ _) fun _ => does_ite (does_pure _) (does_bind (does_query _ _) fun _ =>
      does_pure _))).congr ?_
  intro now db
  simp only [Queue.enqueue, Passages.enqueue, Database.queue]
  cases insertJob db.jobs
      (newJob db.nextJob (jobKeys X.unicode track) track requestedBy auto now) with
  | some rows => rfl
  | none =>
      simp only [Bool.false_eq_true, if_false]
      cases requeueJob db.jobs (jobKeys X.unicode track) force now with
      | some found => rfl
      | none =>
          simp only [Bool.false_eq_true, if_false]
          cases selectStatus db.jobs (jobKeys X.unicode track) <;> rfl

theorem does_engine : Does (engine state) fun _ db => (db, match state.passages with
    | some E => .ok E
    | none => .error Passages.notConfigured) := by
  rw [engine]
  cases state.passages with
  | none => exact does_fail _
  | some E => exact does_pure E

theorem does_passagePlayed (user : UserId) (input : PlayedRequest) :
    Does (passagePlayed state user input) fun now db =>
      let outcome := Passages.played state.passages db.tables user input now
      ({ db with tables := outcome.1 }, outcome.2.map fun _ => Reply.noContent) := by
  refine (does_bind (does_engine state) fun _ => does_bind does_clock fun _ =>
    does_ite (does_fail _) (does_bind (does_statement _ _) fun _ => does_pure _)).congr ?_
  intro now db
  rw [Passages.played.eq_def]
  cases state.passages with
  | none => rfl
  | some E =>
      simp only
      split_ifs <;> rfl

/-- What `Passages.autoQueue` has done, on the whole database. -/
def autoQueueOutcome (db : Database V)
    (outcome : Queue × Option (Except ApiError PassageResponse)) :
    Database V × Except ApiError (Option PassageResponse) :=
  (db.withQueue outcome.1, match outcome.2 with
    | some (.ok response) => .ok (some response)
    | some (.error e) => .error e
    | none => .ok none)

theorem does_autoQueue (user : UserId) (q : PassageQuery) (candidates : List (Candidate V)) :
    Does (autoQueue X user q candidates) fun now db =>
      autoQueueOutcome db
        (Passages.autoQueue X.unicode (db.queue now) user q candidates) := by
  refine (does_ite (does_pure _) (does_bind (does_query _ _) fun _ => does_ite (does_pure _)
    (does_ite (does_bind (does_enqueue X q (some user) true false) fun _ =>
      does_ite (does_pure _) (does_pure _)) (does_pure _)))).congr ?_
  intro now db
  have hrows : (db.queue now).rows = db.jobs := rfl
  have hnow : (db.queue now).now = now := rfl
  have hself : db.withQueue (db.queue now) = db := rfl
  simp only [Passages.autoQueue, autoQueueOutcome, hrows, hnow]
  by_cases hsong : (candidates.any fun c => c.subject = .song) = true
  · simp only [if_pos hsong, hself]
  · simp only [if_neg hsong]
    by_cases hquota : Passages.autoCountToday db.jobs user now < Passages.autoDailyLimit
    · simp only [hquota, not_true, and_false, if_false, if_true]
      cases henqueue : (db.queue now).enqueue X.unicode q (some user) true false with
      | mk after answer =>
          cases answer with
          | none => rfl
          | some outcome =>
              simp only [enqueueOutcome]
              split <;> rfl
    · simp only [hquota, not_false_eq_true, and_true, if_false]
      split <;> rfl

/-- What a lookup answers after `autoQueue`. -/
def rankOutcome [Inhabited V] (E : Passages.Embedder V) (q : PassageQuery)
    (candidates : List (Candidate V)) (now : Time) (db : Database V) :
    Option PassageResponse → Database V × Except ApiError Reply
  | some response => (db, .ok (.passages response))
  | none => (db, (Passages.rankCandidates X.unicode X.arithmetic E q candidates now).map
      Reply.passages)

/-- **Lookups of passages** do what `Passages.lookup` does. -/
theorem does_passageLookup [Inhabited V] (user : UserId) (q : PassageQuery) :
    Does (passageLookup X state user q) fun now db =>
      let outcome := Passages.lookup X.unicode X.arithmetic state.passages db.tables (db.queue now)
        user q
      (db.withQueue outcome.1, outcome.2.map Reply.passages) := by
  refine (does_bind (does_engine state) fun E => does_ite (does_fail _) (does_bind (does_query _ _)
    fun candidates => does_bind (does_autoQueue X user q candidates)
      (g := fun answer now db => rankOutcome X E q candidates now db answer) ?_)).congr ?_
  · intro answer
    cases answer with
    | some response => exact does_pure _
    | none =>
        refine (does_bind does_clock fun now => does_bind (does_check _) fun _ =>
          does_pure _).congr ?_
        intro now db
        simp only [rankOutcome]
        cases Passages.rankCandidates X.unicode X.arithmetic E q candidates now <;> rfl
  · intro now db
    simp only [Passages.lookup.eq_def]
    cases state.passages with
    | none => rfl
    | some E =>
        simp only
        split
        · rfl
        · cases hauto : Passages.autoQueue X.unicode (db.queue now) user q
              (db.tables.candidates (Passages.lookupKeys X.unicode q) user) with
          | mk after answer =>
              cases answer with
              | none => rfl
              | some r => cases r <;> rfl

end AnyPlayerSync.Server
