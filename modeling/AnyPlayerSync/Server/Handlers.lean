import AnyPlayerSync.Foundation.Join
import AnyPlayerSync.Server.Model

/-!
# Handlers

`build_router` and its handlers as programs of statements. What a request without admin rights can
reach is written statement by statement, with the error of each statement. An operation behind
`require_admin` is one statement here, `list_users` apart; where the order of its statements matters
it has a module of its own.
-/

set_option autoImplicit false

namespace AnyPlayerSync.Server

open AnyPlayerSync.Accounts (AccountTables AuthenticatedUser TokenRow UserRow)
open AnyPlayerSync.Facts (Contribution FactQuery bounded checkPlayed playedAnswer)
open AnyPlayerSync.Foundation
open AnyPlayerSync.Foundation.Program
open AnyPlayerSync.Passages (Candidate Embedder Enqueue IngestRequest IngestResponse JobRow
  NoteRequest PassageQuery PassageResponse PlayedRequest TrackRequest autoCountToday autoDailyLimit
  enqueueAnswer insertJob jobKeys lookupKeys newJob notConfigured rankCandidates requeueJob
  selectStatus valid)
open AnyPlayerSync.Sync (ApiError Namespace Put Snapshot UpdateEvent UserId namespaceAnswer
  namespacePut snapshotAnswer snapshotPut snapshotRefused)

section Handlers

variable {V F : Type} (X : Externals V F) (state : AppContext V)

/-! ## Authentication -/

/-- `authenticate_token`. The `UPDATE` of `last_used_at` is spawned, and its failure goes unseen. -/
def authenticateToken (token : Str) : Handler V AuthenticatedUser :=
  let trimmed := Text.trim token
  if trimmed = [] then fail (ApiError.unauthorized "missing bearer token")
  else do
    let row ← query (ApiError.internal "failed to validate token") fun _ db =>
      .ok (db.accounts.selectGrant (X.sha256 trimmed))
    match row with
    | none => fail (ApiError.unauthorized "invalid bearer token")
    | some (user, row) =>
        if user.disabledAt.isSome then fail (ApiError.forbidden "user account is disabled")
        else do
          attempt (statement (ApiError.internal "") fun now db =>
            ({ db with accounts := db.accounts.touchToken row.id now }, .ok ()))
          pure ⟨user.id, user.name, user.isAdmin⟩

/-- The user of the header's token. -/
def authenticateWithHeaders (authorization : Option Str) : Handler V AuthenticatedUser :=
  match bearerToken authorization with
  | some token => authenticateToken X token
  | none => fail (ApiError.unauthorized "missing Authorization: Bearer token")

/-- The user of the header's token, or without one of the token in the query. -/
def authenticateWithHeadersOrQueryToken (authorization queryToken : Option Str) :
    Handler V AuthenticatedUser :=
  match bearerToken authorization, queryToken with
  | some token, _ => authenticateToken X token
  | none, some token => authenticateToken X token
  | none, none => fail (ApiError.unauthorized
      "missing bearer token (Authorization header or token query parameter)")

/-- The user is an administrator, or the answer is a 403. -/
def requireAdmin (user : AuthenticatedUser) : Except ApiError Unit :=
  if user.isAdmin then .ok () else .error (ApiError.forbidden "admin privileges are required")

/-- `admin`: who passes both checks. -/
def admin (authorization : Option Str) : Handler V AuthenticatedUser := do
  let user ← authenticateWithHeaders X authorization
  check (requireAdmin user)
  pure user

/-! ## Sync -/

/-- The user's row is there. -/
def ensureUserDocument (user : UserId) : Handler V Unit :=
  statement (ApiError.internal "failed to ensure user snapshot row") fun now db =>
    ({ db with documents := Sync.ensureUserDocument db.documents user now }, .ok ())

/-- The user's row, which is created when it is missing. -/
def loadSnapshot (user : UserId) : Handler V Snapshot := do
  ensureUserDocument user
  query (ApiError.internal "failed to read snapshot") fun _ db =>
    Sync.selectSnapshot db.documents user

/-- The transaction of `update_namespace` and `replace_snapshot`. -/
def writeTransaction (user : UserId) (p : Put) : Handler V (Snapshot × UpdateEvent) := do
  let current ← query (ApiError.internal "failed to read current version") fun _ db =>
    Sync.selectVersion db.documents user
  check (Sync.checkVersion p.expectedVersion current)
  let updatedAt ← clock
  let row ← statement (ApiError.internal p.failure) fun _ db =>
    match Sync.updateRow db.documents user p (current + 1) updatedAt with
    | some (documents, row) => ({ db with documents := documents }, .ok row)
    | none => (db, .error (ApiError.internal p.failure))
  -- the event repeats the version and the time of the row
  pure (row, p.event (current + 1) updatedAt)

/-- `update_namespace` and `replace_snapshot`. -/
def writeDocument (user : UserId) (p : Put) : Handler V (Snapshot × UpdateEvent) := do
  ensureUserDocument user
  transaction (ApiError.internal "failed to start transaction")
    (ApiError.internal "failed to commit update") (writeTransaction user p)

/-- The snapshot, or a 304 when the client has its version. -/
def getSnapshot (user : UserId) (sinceVersion : Option Int) : Handler V Reply := do
  let snapshot ← loadSnapshot user
  pure (.sync (snapshotAnswer sinceVersion snapshot) none)

/-- The snapshot is replaced, and the answer shows the new one. -/
def putSnapshot (user : UserId) (payload : Sync.SnapshotPayload) : Handler V Reply := do
  let (snapshot, event) ← writeDocument user (snapshotPut payload)
  pure (.sync (.snapshot snapshot) (some event))

/-- The data of one namespace. -/
def getNamespace (user : UserId) (path : String) : Handler V Reply :=
  match Namespace.parse path with
  | .error e => fail e
  | .ok ns =>
      if ns = .snapshot then fail snapshotRefused
      else do
        let snapshot ← loadSnapshot user
        pure (.sync (namespaceAnswer ns snapshot) none)

/-- The data of one namespace is replaced, and the answer shows the new row. -/
def putNamespace (user : UserId) (path : String) (payload : Sync.NamespacePayload) :
    Handler V Reply :=
  match Namespace.parse path with
  | .error e => fail e
  | .ok ns =>
      if h : ns = .snapshot then fail snapshotRefused
      else do
        let (snapshot, event) ← writeDocument user (namespacePut ns h payload)
        pure (.sync (namespaceAnswer ns snapshot) (some event))

/-- The four handlers of the sync API. -/
def sync (user : UserId) : Sync.Request → Handler V Reply
  | .getSnapshot since => getSnapshot user since
  | .putSnapshot payload => putSnapshot user payload
  | .getNamespace path => getNamespace user path
  | .putNamespace path payload => putNamespace user path payload

/-! ## Models and voices -/

/-- The message of a missing model. -/
def djModelNotConfigured : String := "AI DJ model is not configured on this server"

/-- The message of a missing voice. -/
def djVoiceNotConfigured : String := "AI DJ voice model is not configured on this server"

/-- `dj_catalog_entry_info_response`. -/
def djCatalogEntryInfo (entry : Option DjCatalogEntry) (notConfiguredMessage : String) :
    Except ApiError Reply :=
  match entry with
  | none => .error (ApiError.notFound notConfiguredMessage)
  | some entry =>
      .ok (.modelInfo
        ⟨entry.descriptor.version, entry.descriptor.sizeBytes, entry.descriptor.sha256⟩)

/-- `dj_catalog_download_response`: the file that is served. -/
def djCatalogDownload (catalog : DjCatalog) (id : Str) (notConfiguredMessage : String) :
    Except ApiError Reply :=
  match catalog.find id with
  | none => .error (ApiError.notFound notConfiguredMessage)
  | some entry => .ok (.file entry.path)

/-- The list of models, each with the extension of its file. -/
def djModels : Reply :=
  .models state.djModelCatalog.defaultId
    (state.djModelCatalog.entries.map fun entry => (entry.descriptor, entry.format))

/-- The list of voices. -/
def djVoiceModels : Reply :=
  .voices state.djVoiceCatalog.defaultId (state.djVoiceCatalog.entries.map (·.descriptor))

/-! ## Facts -/

/-- `lookup` of `dj_facts.rs`. -/
def factLookup (user : UserId) (q : FactQuery) : Handler V Reply :=
  if !bounded q.song 200 || !bounded q.artist 200 then
    fail (ApiError.badRequest "invalid song or artist")
  else do
    let row ← query (ApiError.internal "fact lookup failed") fun now db =>
      .ok (db.facts.selectFact X.unicode X.score user q now)
    pure (.fact (row.map Facts.FactRow.fact))

/-- `contribute`, given what `verify` answered. -/
def factContribute (input : Contribution) (verified : Except ApiError Str) : Handler V Reply :=
  if !bounded input.song 200 || !bounded input.artist 200 || !bounded input.claim 500
      || !bounded input.evidence 1000 || !bounded input.sourceId 160
      || !bounded input.sourceUrl 300 then
    fail (ApiError.badRequest "invalid fact fields")
  else do
    let sourceUrl ← check verified
    if input.sourceUrl ≠ sourceUrl then
      fail (ApiError.badRequest "source URL does not match source identity")
    else do
      let row ← statement (ApiError.internal "fact insert failed") fun now db =>
        let (facts, row) := db.facts.insertFact
          (input.row X.unicode X.sha256 db.facts.nextFact sourceUrl now)
        ({ db with facts := facts }, .ok row)
      pure (.factCreated row.fact)

/-- `played` of `dj_facts.rs`: an insert, and a second statement for a repeated event. -/
def factPlayed (user : UserId) (id : Int) (input : Facts.Played) : Handler V Reply := do
  let now ← clock
  check (checkPlayed id input now)
  let inserted ← statement (ApiError.internal "played event failed") fun _ db =>
    match db.facts.insertPlay ⟨user, input.eventId, id, input.playedAt⟩ with
    | some facts => ({ db with facts := facts }, .ok true)
    -- `ON CONFLICT DO NOTHING`
    | none => (db, .ok false)
  if inserted then pure .noContent
  -- a repeated event has to name the fact of the first one
  else do
    let existing ← query (ApiError.internal "played event lookup failed") fun _ db =>
      .ok (db.facts.existingFact user input.eventId)
    check (playedAnswer existing id)
    pure .noContent

/-! ## Passages -/

/-- The embedder, or the answer of a server without one. -/
def engine : Handler V (Embedder V) :=
  match state.passages with
  | some E => pure E
  | none => fail notConfigured

/-- The first statement of `enqueue`: whether it inserted a row. -/
def insertStatement (track : TrackRequest) (requestedBy : Option UserId) (auto : Bool) :
    Handler V Bool :=
  statement (ApiError.internal "ingest enqueue failed") fun now db =>
    let row := newJob db.nextJob (jobKeys X.unicode track) track requestedBy auto now
    match insertJob db.jobs row with
    | some jobs => ({ db with jobs := jobs, nextJob := db.nextJob + 1 }, .ok true)
    -- the sequence moves on although the row conflicts
    | none => ({ db with nextJob := db.nextJob + 1 }, .ok false)

/-- The second statement of `enqueue`: whether it requeued a row. -/
def requeueStatement (track : TrackRequest) (force : Bool) : Handler V Bool :=
  statement (ApiError.internal "ingest enqueue failed") fun now db =>
    match requeueJob db.jobs (jobKeys X.unicode track) force now with
    | some (jobs, _) => ({ db with jobs := jobs }, .ok true)
    | none => (db, .ok false)

/-- `enqueue`, with other requests between its statements or not. -/
def enqueue (track : TrackRequest) (requestedBy : Option UserId) (auto force : Bool) :
    Handler V Enqueue := do
  let inserted ← insertStatement X track requestedBy auto
  if inserted then pure .queued
  else do
    let requeued ← requeueStatement X track force
    if requeued then pure .queued
    else do
      -- the job is queued or running, or it was done or failed not long ago
      let status ← query (ApiError.internal "ingest enqueue failed") fun _ db =>
        match selectStatus db.jobs (jobKeys X.unicode track) with
        | some status => .ok status
        | none => .error (ApiError.internal "ingest enqueue failed")
      pure (enqueueAnswer status)

/-- The part of `lookup` that enqueues the track; it may answer already. -/
def autoQueue (user : UserId) (q : PassageQuery) (candidates : List (Candidate V)) :
    Handler V (Option PassageResponse) :=
  -- passages about the song are there: nothing has to be fetched
  if candidates.any fun c => c.subject = .song then pure none
  else do
    let count ← query (ApiError.internal "ingest quota failed") fun now db =>
      .ok (autoCountToday db.jobs user now)
    if candidates = [] ∧ ¬ count < autoDailyLimit then pure (some (Passages.empty "none"))
    else if count < autoDailyLimit then do
      let outcome ← enqueue X q (some user) true false
      if candidates = [] then
        pure (some (Passages.empty (if outcome = .recentlyDone then "none" else "queued")))
      -- passages about the artist or the album are ranked meanwhile
      else pure none
    else pure none

/-- `lookup` of `passages/api.rs`. -/
def passageLookup [Inhabited V] (user : UserId) (q : PassageQuery) : Handler V Reply := do
  let E ← engine state
  if !valid q.song || !valid q.artist || q.album.any fun a => !valid a then
    fail (ApiError.badRequest "invalid song, artist or album")
  else do
    let candidates ← query (ApiError.internal "passage lookup failed") fun _ db =>
      .ok (db.tables.candidates (lookupKeys X.unicode q) user)
    let answer ← autoQueue X user q candidates
    match answer with
    | some response => pure (.passages response)
    | none => do
        let now ← clock
        let response ← check (rankCandidates X.unicode X.arithmetic E q candidates now)
        pure (.passages response)

/-- `played` of `passages/api.rs`. -/
def passagePlayed (user : UserId) (input : PlayedRequest) : Handler V Reply := do
  let _ ← engine state
  let now ← clock
  if !input.valid now then fail (ApiError.badRequest "invalid played event")
  else do
    statement (ApiError.internal "played event failed") fun _ db =>
      ({ db with tables := db.tables.recordPlays user input }, .ok ())
    pure .noContent

/-! ## Administration -/

/-- A token as the list shows it, without its hash. -/
def tokenInfo (r : TokenRow) : TokenInfo :=
  ⟨r.id, r.label, r.tokenPrefix, r.createdAt, r.lastUsedAt, r.revokedAt⟩

/-- A user as the list shows them, with their tokens. -/
def userSummary (p : UserRow × List TokenRow) : UserSummary :=
  ⟨p.1.id, p.1.name, p.1.isAdmin, p.1.createdAt, p.1.disabledAt, p.2.map tokenInfo⟩

/-- `SELECT ... FROM users ORDER BY name ASC`. -/
def selectUsers (users : List UserRow) : List UserRow :=
  users.mergeSort fun a b => X.collate a.name b.name

/-- `SELECT ... FROM auth_tokens ORDER BY created_at DESC`. -/
def selectTokens (tokens : List TokenRow) : List TokenRow :=
  tokens.mergeSort fun a b => b.createdAt ≤ a.createdAt

/-- `list_users`, from what its two reads found. -/
def listUsersFrom (users : List UserRow) (tokens : List TokenRow) : List UserSummary :=
  (Join.join UserRow.id (Join.groups TokenRow.userId (selectTokens tokens))
    (selectUsers X users)).map userSummary

/-- `list_users`. -/
def listUsers : Handler V (List UserSummary) := do
  let users ← query (ApiError.internal "failed to list users") fun _ db => .ok db.accounts.users
  -- accounts may change between the two reads
  let tokens ← query (ApiError.internal "failed to list tokens") fun _ db => .ok db.accounts.tokens
  pure (listUsersFrom X users tokens)

/-- The checks of `admin_create_user`. -/
def checkUserName (name : Str) : Except ApiError Str :=
  let name := Text.trim name
  if name = [] then .error (ApiError.badRequest "username must not be empty")
  else if 255 < Sources.byteLen name then
    .error (ApiError.badRequest "username must not exceed 255 characters")
  else .ok name

/-- `list`. -/
def listJobs (rows : List JobRow) (limit : Int) (beforeId : Option Int) : List JobSummary :=
  let rows := rows.filter fun r => beforeId.all fun before => (r.id : Int) < before
  -- `ORDER BY id DESC`, with the limit clamped
  ((rows.mergeSort fun a b => b.id ≤ a.id).take (min (max limit 1) 500).toNat).map fun r =>
    ⟨r.id, r.track, r.status, r.attempts, r.results, r.lastError, r.updatedAt⟩

/-- `misses`. -/
def misses (rows : List JobRow) : List TrackRequest :=
  let rows := rows.filter fun r => (r.status = .done || r.status = .failed) &&
    !(r.results.asObject.getD []).any fun p => Passages.state p.2 = "found".toList
  let before (a b : TrackRequest) : Bool :=
    if a.artist = b.artist then X.collate a.song b.song else X.collate a.artist b.artist
  (rows.map JobRow.track).mergeSort before

/-- The loop of `admin_ingest`. -/
def ingestAll (user : UserId) (force : Bool) :
    IngestResponse → List TrackRequest → Handler V IngestResponse
  | out, [] => pure out
  | out, track :: tracks => do
      let outcome ← enqueue X track (some user) false force
      ingestAll user force (out.add outcome) tracks

/-- Each valid track is enqueued, in the name of the administrator. -/
def adminIngest (user : UserId) (input : IngestRequest) : Handler V Reply := do
  let _ ← engine state
  let out ← ingestAll X user input.force ⟨0, 0, 0⟩
    (input.tracks.filter fun t => valid t.song && valid t.artist)
  pure (.ingested out)

/-- A note is stored under a reference that the server draws. -/
def adminCreateDocument (user : UserId) (input : NoteRequest) (drawn : Str) : Handler V Reply := do
  let E ← engine state
  if !input.valid then fail (ApiError.badRequest "invalid document")
  else do
    let id ← statement (ApiError.internal "document store failed") fun now db =>
      match Passages.upsertDocument X.unicode X.sha256 E db.tables (input.document drawn)
        (some user) now with
      | .ok (tables, id) => ({ db with tables := tables }, .ok id)
      | .error _ => (db, .error (ApiError.internal "document store failed"))
    pure (.created id)

/-- A document is deleted, or the answer is a 404. -/
def adminDeleteDocument (id : Int) : Handler V Reply := do
  let existed ← statement (ApiError.internal "document delete failed") fun _ db =>
    if id < 0 then (db, .ok false)
    else
      let (tables, existed) := db.tables.deleteDocument id.toNat
      ({ db with tables := tables }, .ok existed)
  if existed then pure .noContent else fail (ApiError.notFound "document not found")

/-- A token is drawn for a user. -/
def adminCreateToken (userId : UserId) (label : Option Str) (drawn : Str) : Handler V Reply :=
  if label.any fun label => 512 < Sources.byteLen label then
    fail (ApiError.badRequest "token label must not exceed 512 characters")
  else do
    let created ← statement (ApiError.internal "failed to create token") fun now db =>
      let (accounts, created) := db.accounts.createToken X.sha256 userId label drawn now
      ({ db with accounts := accounts }, created)
    pure (.tokenCreated userId created)

/-- The handlers of the routes under `/v1/admin`, after the checks of `admin`. -/
def adminCall (user : AuthenticatedUser) : AdminCall → Handler V Reply
  | .listUsers => do
      let users ← listUsers X
      pure (.users users)
  | .createUser name isAdmin => do
      let name ← check (checkUserName name)
      let created ← statement (ApiError.internal "failed to create user") fun now db =>
        let (accounts, created) := db.accounts.createUser name isAdmin now
        ({ db with accounts := accounts }, created)
      pure (.userCreated created)
  | .createToken userId label drawn => adminCreateToken X userId label drawn
  | .setUserDisabled userId disabled => do
      statement (ApiError.internal "failed to update user") fun now db =>
        let (accounts, answer) := db.accounts.setUserDisabled userId disabled now
        ({ db with accounts := accounts }, answer)
      pure .ok
  | .revokeToken tokenId => do
      statement (ApiError.internal "failed to revoke token") fun now db =>
        let (accounts, answer) := db.accounts.revokeToken tokenId now
        ({ db with accounts := accounts }, answer)
      pure .ok
  | .listJobs limit beforeId => do
      let jobs ← query (ApiError.internal "job list failed") fun _ db =>
        .ok (listJobs db.jobs (limit.getD 100) beforeId)
      pure (.jobs jobs)
  | .ingest input => adminIngest X state user.id input
  | .misses => do
      let tracks ← query (ApiError.internal "misses failed") fun _ db => .ok (misses X db.jobs)
      pure (.tracks tracks)
  | .createDocument input drawn => adminCreateDocument X state user.id input drawn
  | .deleteDocument id => adminDeleteDocument id

/-! ## The router -/

/-- The handlers of the routes that any user may call, after authentication. -/
def userCall [Inhabited V] (user : UserId) : UserCall → Handler V Reply
  | .sync request => sync user request
  | .djModelInfo =>
      check (djCatalogEntryInfo state.djModelCatalog.defaultModel djModelNotConfigured)
  | .djModelDownload =>
      check (djCatalogDownload state.djModelCatalog (state.djModelCatalog.defaultId.getD [])
        djModelNotConfigured)
  | .djModels => pure (djModels state)
  | .djModelDownloadById modelId =>
      check (djCatalogDownload state.djModelCatalog modelId djModelNotConfigured)
  | .djVoiceModelInfo =>
      check (djCatalogEntryInfo state.djVoiceCatalog.defaultModel djVoiceNotConfigured)
  | .djVoiceModelDownload =>
      check (djCatalogDownload state.djVoiceCatalog (state.djVoiceCatalog.defaultId.getD [])
        djVoiceNotConfigured)
  | .djVoiceModels => pure (djVoiceModels state)
  | .djVoiceModelDownloadById voiceId =>
      check (djCatalogDownload state.djVoiceCatalog voiceId djVoiceNotConfigured)
  | .factLookup q => factLookup X user q
  | .factContribute input verified => factContribute X input verified
  | .factPlayed id input => factPlayed user id input
  | .passageLookup q => passageLookup X state user q
  | .passagePlayed input => passagePlayed state user input

/-- The handler of a request. -/
def handle [Inhabited V] (request : HttpRequest) : Handler V Reply :=
  match request.call with
  | .health => do
      let now ← clock
      pure (.health now)
  | .adminLogin => pure .adminLoginPage
  | .adminIndex => pure .adminPage
  | .wsUpdates token => do
      let user ← authenticateWithHeadersOrQueryToken X request.authorization token
      pure (.subscribed user.id)
  | .admin call => do
      let user ← admin X request.authorization
      adminCall X state user call
  | .user call => do
      let user ← authenticateWithHeaders X request.authorization
      userCall X state user.id call

end Handlers

end AnyPlayerSync.Server
