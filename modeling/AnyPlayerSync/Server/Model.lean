import AnyPlayerSync.Accounts.Model
import AnyPlayerSync.Facts.Model
import AnyPlayerSync.Foundation.Programs
import AnyPlayerSync.Passages.Api
import AnyPlayerSync.Sync.Documents

/-!
# Requests and the database

All tables of the server, the calls that the routes of `build_router` lead to and what they answer.
A call comes with its extracted inputs; a request whose inputs do not parse is refused before its
handler runs. What a handler draws at random, and what the sources answered to a contribution, are
inputs too.
-/

set_option autoImplicit false

namespace AnyPlayerSync.Server

open AnyPlayerSync.Accounts (AccountTables TokenCreated UserCreatedResponse)
open AnyPlayerSync.Facts (Contribution Fact FactQuery FactTables)
open AnyPlayerSync.Foundation
open AnyPlayerSync.Passages (Arithmetic Embedder IngestRequest IngestResponse JobRow JobStatus
  NoteRequest PassageQuery PassageResponse PlayedRequest Tables TrackRequest)
open AnyPlayerSync.Sync (ApiError Documents Time UpdateEvent UserId)

/-! ## State -/

/-- The tables: `users` and `auth_tokens`, `user_sync_document`, `dj_facts` and `dj_fact_plays`,
`dj_documents`, `dj_chunks` and `dj_passage_plays`, and `dj_ingest_jobs` with its sequence. -/
structure Database (V : Type) where
  accounts : AccountTables
  documents : Documents
  facts : FactTables
  tables : Tables V
  jobs : List JobRow
  nextJob : Nat

/-- What clients are told of a model or a voice. -/
structure DjCatalogDescriptor where
  id : Str
  name : Str
  version : Str
  sizeBytes : Nat
  sha256 : Str

/-- A model or a voice, with its file. -/
structure DjCatalogEntry where
  descriptor : DjCatalogDescriptor
  path : Str

/-- The models or the voices of the server. -/
structure DjCatalog where
  defaultId : Option Str
  entries : List DjCatalogEntry

/-- `Path::file_name`: the last component, unless it is `..`; a separator or a component `.` at the
end of the path does not count. -/
def fileName (path : Str) : Option Str :=
  match ((path.splitOnP fun c => c = '/').filter fun part => part ≠ [] ∧ part ≠ ['.']).getLast? with
  | some name => if name = "..".toList then none else some name
  | none => none

/-- `Path::extension`. -/
def extension (path : Str) : Option Str := do
  let name ← fileName path
  match Text.splitLast '.' name with
  | some (stem, extension) => if stem = [] then none else some extension
  | none => none

/-- The extension of the file. -/
def DjCatalogEntry.format (entry : DjCatalogEntry) : Str := (extension entry.path).getD []

/-- The entry of an id. -/
def DjCatalog.find (catalog : DjCatalog) (id : Str) : Option DjCatalogEntry :=
  catalog.entries.find? fun entry => entry.descriptor.id = id

/-- The entry that is offered when no id is asked for. -/
def DjCatalog.defaultModel (catalog : DjCatalog) : Option DjCatalogEntry :=
  catalog.defaultId.bind catalog.find

/-- What the server was started with. -/
structure AppContext (V : Type) where
  djModelCatalog : DjCatalog
  djVoiceCatalog : DjCatalog
  passages : Option (Embedder V)

/-- What the code takes from elsewhere: the tables of Unicode, SHA-256 as hexadecimal text, the
score of a fact that was played, the arithmetic of the ranking, and the order of texts in the
database. -/
structure Externals (V F : Type) where
  unicode : UnicodeTables
  sha256 : Str → Str
  score : Time → ℚ
  arithmetic : Arithmetic V F
  collate : Str → Str → Bool

/-! ## Requests -/

/-- The routes under `/v1/admin`. -/
inductive AdminCall where
  | listUsers
  | createUser (name : Str) (isAdmin : Bool)
  | createToken (userId : UserId) (label : Option Str) (drawn : Str)
  | setUserDisabled (userId : UserId) (disabled : Bool)
  | revokeToken (tokenId : Int)
  | listJobs (limit beforeId : Option Int)
  | ingest (input : IngestRequest)
  | misses
  | createDocument (input : NoteRequest) (drawn : Str)
  | deleteDocument (id : Int)

/-- The routes that any user may call; `sync` stands for the two on `/v1/snapshot` and the two on
`/v1/state/{namespace}`. -/
inductive UserCall where
  | sync (request : Sync.Request)
  | djModelInfo
  | djModelDownload
  | djModels
  | djModelDownloadById (modelId : Str)
  | djVoiceModelInfo
  | djVoiceModelDownload
  | djVoiceModels
  | djVoiceModelDownloadById (voiceId : Str)
  | factLookup (query : FactQuery)
  | factContribute (input : Contribution) (verified : Except ApiError Str)
  | factPlayed (id : Int) (input : Facts.Played)
  | passageLookup (query : PassageQuery)
  | passagePlayed (input : PlayedRequest)

/-- All routes, each with the inputs of its handler. -/
inductive Call where
  | health
  | adminLogin
  | adminIndex
  | wsUpdates (token : Option Str)
  | admin (call : AdminCall)
  | user (call : UserCall)

/-- A request: the value of its `Authorization` header, and its call. -/
structure HttpRequest where
  authorization : Option Str
  call : Call

/-- `value.split_once(' ')`. -/
def splitOnce (value : Str) : Option (Str × Str) :=
  match value.span fun c => c ≠ ' ' with
  | (before, _ :: after) => some (before, after)
  | (_, []) => none

/-- `bearer_token_from_headers`. `authorization` is what `to_str` yields of the header, so it is
missing too when the header has a byte that is not visible ASCII. -/
def bearerToken (authorization : Option Str) : Option Str := do
  let value ← authorization
  let (scheme, rest) ← splitOnce (Text.trim value)
  -- `eq_ignore_ascii_case`
  guard (scheme.map Char.toLower = "bearer".toList)
  let token := Text.trim rest
  guard (token ≠ [])
  return token

/-- The token that a request presents; only `ws_updates` takes one from the query. -/
def HttpRequest.token (request : HttpRequest) : Option Str :=
  match bearerToken request.authorization, request.call with
  | some token, _ => some token
  | none, .wsUpdates token => token
  | none, _ => none

/-! ## Answers -/

/-- A token as administrators see it. -/
structure TokenInfo where
  id : Int
  label : Str
  tokenPrefix : Str
  createdAt : Time
  lastUsedAt : Option Time
  revokedAt : Option Time

/-- A user as administrators see them. -/
structure UserSummary where
  id : UserId
  name : Str
  isAdmin : Bool
  createdAt : Time
  disabledAt : Option Time
  tokens : List TokenInfo

/-- What the older routes tell of the default model. -/
structure DjModelInfoResponse where
  version : Str
  sizeBytes : Nat
  sha256 : Str

/-- A job as administrators see it. -/
structure JobSummary where
  id : Nat
  track : TrackRequest
  status : JobStatus
  attempts : Int
  results : Json
  lastError : Option Str
  updatedAt : Time

/-- What a handler answers. -/
inductive Reply where
  | health (timestamp : Time)
  | adminLoginPage
  | adminPage
  | sync (response : Sync.Response) (event : Option UpdateEvent)
  | modelInfo (info : DjModelInfoResponse)
  | file (path : Str)
  | models (defaultId : Option Str) (models : List (DjCatalogDescriptor × Str))
  | voices (defaultId : Option Str) (voices : List DjCatalogDescriptor)
  | fact (fact : Option Fact)
  | factCreated (fact : Fact)
  | passages (response : PassageResponse)
  | noContent
  | subscribed (user : UserId)
  | users (users : List UserSummary)
  | userCreated (user : UserCreatedResponse)
  | tokenCreated (user : UserId) (token : TokenCreated)
  | ok
  | jobs (jobs : List JobSummary)
  | ingested (response : IngestResponse)
  | tracks (tracks : List TrackRequest)
  | created (id : Nat)

/-- A handler, or a part of one. -/
abbrev Handler (V α : Type) := Program (Database V) ApiError α

end AnyPlayerSync.Server
