import AnyPlayerSync.Foundation.Json

/-!
# Data of the sync API

The values that the sync endpoints receive, store and answer: `errors.rs` and the sync part of
`models.rs`. A `Namespace` names one of the four stored domains, or the whole snapshot; the path of
a request only ever parses to a domain (`parse_ne_snapshot`), which is what makes the
`unreachable!()` arm of `update_namespace` unreachable.
-/

set_option autoImplicit false

namespace AnyPlayerSync.Sync

open AnyPlayerSync.Foundation

/-- A user's id, `BIGINT`. -/
abbrev UserId := Int

/-- A point in time, in microseconds (the resolution of `TIMESTAMPTZ`). -/
abbrev Time := Int

/-! ## Errors -/

/-- An error answer: status, code and message of the JSON body. -/
structure ApiError where
  status : Nat
  code : String
  message : String
  deriving DecidableEq

namespace ApiError

def unauthorized (message : String) : ApiError := ⟨401, "unauthorized", message⟩
def forbidden (message : String) : ApiError := ⟨403, "forbidden", message⟩
def notFound (message : String) : ApiError := ⟨404, "not_found", message⟩
def badRequest (message : String) : ApiError := ⟨400, "bad_request", message⟩
def conflict (message : String) : ApiError := ⟨409, "version_conflict", message⟩
def internal (message : String) : ApiError := ⟨500, "internal_error", message⟩
def serviceUnavailable (message : String) : ApiError := ⟨503, "service_unavailable", message⟩

end ApiError

/-! ## Namespaces and snapshots -/

/-- What an event or an update is about; only the first four are stored. -/
inductive Namespace where
  | appState
  | playlists
  | providerConfiguration
  | settings
  | snapshot
  deriving DecidableEq

/-- The four domains of a user's document and their common version. -/
structure Snapshot where
  version : Int
  updatedAt : Time
  appState : Json
  playlists : Json
  providerConfiguration : Json
  settings : Json

/-- The namespace of a request path. -/
def Namespace.parse (value : String) : Except ApiError Namespace :=
  match value with
  | "app-state" => .ok .appState
  | "playlists" => .ok .playlists
  | "provider-configuration" => .ok .providerConfiguration
  | "settings" => .ok .settings
  | _ => .error (ApiError.badRequest
      s!"unsupported namespace '{value}'. Supported: app-state, playlists, provider-configuration, settings")

/-- A request path never names the whole snapshot. -/
theorem Namespace.parse_ne_snapshot {value : String} {ns : Namespace}
    (h : Namespace.parse value = .ok ns) : ns ≠ .snapshot := by
  unfold Namespace.parse at h
  split at h <;> cases h <;> exact Namespace.noConfusion

/-- The data that a namespace selects from a snapshot. -/
def namespaceData (snapshot : Snapshot) : Namespace → Json
  | .appState => snapshot.appState
  | .playlists => snapshot.playlists
  | .providerConfiguration => snapshot.providerConfiguration
  | .settings => snapshot.settings
  | .snapshot => .obj
      [("app_state".toList, snapshot.appState), ("playlists".toList, snapshot.playlists),
        ("provider_configuration".toList, snapshot.providerConfiguration),
        ("settings".toList, snapshot.settings)]

/-- Two snapshots hold the same data when they agree on the four domains. -/
def SameData (s t : Snapshot) : Prop :=
  s.appState = t.appState ∧ s.playlists = t.playlists ∧
    s.providerConfiguration = t.providerConfiguration ∧ s.settings = t.settings

/-! ## Payloads, answers and events -/

/-- Body of `PUT /v1/state/{namespace}`. -/
structure NamespacePayload where
  expectedVersion : Option Int
  clientId : Option String
  data : Json

/-- Body of `PUT /v1/snapshot`. -/
structure SnapshotPayload where
  expectedVersion : Option Int
  clientId : Option String
  appState : Json
  playlists : Json
  providerConfiguration : Json
  settings : Json

/-- The answer to a namespace request. -/
structure UpdateResponse where
  version : Int
  updatedAt : Time
  ns : Namespace
  data : Json

/-- The event pushed to the user's WebSocket connections after a write. It names what changed and
carries no data; clients fetch the snapshot. -/
structure UpdateEvent where
  eventType : String
  ns : Namespace
  version : Int
  updatedAt : Time
  sourceClientId : Option String
  deriving DecidableEq

/-- A sync request, the user being known from its token. -/
inductive Request where
  | getSnapshot (sinceVersion : Option Int)
  | putSnapshot (payload : SnapshotPayload)
  | getNamespace (path : String)
  | putNamespace (path : String) (payload : NamespacePayload)

/-- The answer to a sync request. -/
inductive Response where
  | snapshot (body : Snapshot)
  | update (body : UpdateResponse)
  | notModified
  | error (error : ApiError)

/-- The version that an answer tells the client. -/
def Response.version? : Response → Option Int
  | .snapshot body => some body.version
  | .update body => some body.version
  | .notModified => none
  | .error _ => none

end AnyPlayerSync.Sync
