import AnyPlayerSync.Foundation.Machine
import AnyPlayerSync.Sync.Documents
import AnyPlayerSync.Sync.Hub

/-!
# The sync server under concurrency

Any number of sync requests of any number of users, interleaved at the statements they issue. A
request first creates the user's row if it is missing, then reads it. A `GET` answers from that
read. A `PUT` checks the version it read, then runs its `UPDATE` and commits as one step: under
`READ COMMITTED` the `UPDATE` waits for the row lock and then sees the latest committed row, so no
other write of the row falls between them, but any number may fall between the read and the
`UPDATE`. After the commit the event is sent and, when nobody received it, the channel is cleaned
up. Any statement may fail, and a request that is never advanced again is one whose connection
went away.

Requests are named by their user and a number, so an action belongs to one user.
-/

set_option autoImplicit false

namespace AnyPlayerSync.Sync

open AnyPlayerSync.Foundation

/-! ## Requests in flight -/

/-- How a request answers from the row it loaded or wrote; an answer that tells a version tells
the row's. -/
structure Answer where
  respond : Snapshot → Response
  tells : ∀ {row v}, (respond row).version? = some v → v = row.version

/-- Answer of `get_snapshot`. -/
def Answer.since (sinceVersion : Option Int) : Answer where
  respond := snapshotAnswer sinceVersion
  tells {row v} h := by
    cases sinceVersion with
    | none => exact (Option.some.inj h).symm
    | some since =>
        by_cases hle : row.version ≤ since
        · simp [snapshotAnswer, hle, Response.version?] at h
        · simp only [snapshotAnswer, hle, if_false, Response.version?, Option.some.injEq] at h
          exact h.symm

/-- Answer of a successful `put_snapshot`. -/
def Answer.whole : Answer where
  respond := .snapshot
  tells h := (Option.some.inj h).symm

/-- Answer of `get_namespace` and of a successful `put_namespace`. -/
def Answer.domain (ns : Namespace) : Answer where
  respond := namespaceAnswer ns
  tells h := (Option.some.inj h).symm

/-- What a request does once its path has parsed. -/
inductive Plan where
  | load (answer : Answer)
  | write (p : Put) (answer : Answer)

/-- Path parsing, before any statement. -/
def Request.plan : Request → Except ApiError Plan
  | .getSnapshot since => .ok (.load (Answer.since since))
  | .putSnapshot payload => .ok (.write (snapshotPut payload) Answer.whole)
  | .getNamespace path =>
      match Namespace.parse path with
      | .error e => .error e
      | .ok ns =>
          if ns = .snapshot then .error snapshotRefused else .ok (.load (Answer.domain ns))
  | .putNamespace path payload =>
      match Namespace.parse path with
      | .error e => .error e
      | .ok ns =>
          if h : ns = .snapshot then .error snapshotRefused
          else .ok (.write (namespacePut ns h payload) (Answer.domain ns))

/-- The next statement of a request. `writing` holds the version that the request has read. -/
inductive Phase where
  | ensuring (plan : Plan)
  | reading (plan : Plan)
  | writing (p : Put) (answer : Answer) (current : Int)
  | sending (event : UpdateEvent) (response : Response)
  | cleaning (response : Response)
  | answering (response : Response)
  | finished

/-- A request and its next statement. -/
structure InFlight where
  request : Request
  phase : Phase

/-- The table, the channels, and the requests by user and number. -/
structure State where
  docs : Documents
  hub : Hub
  requests : UserId × Nat → Option InFlight

/-- No row, no channel, no request. -/
def State.initial : State where
  docs _ := none
  hub := Hub.empty
  requests _ := none

/-! ## Actions and events -/

/-- `now` is the clock reading of the statement. `fail id k` makes the next statement of a request
return its `k`-th error (`Phase.failures`). -/
inductive Op where
  | receive (id : Nat) (request : Request)
  | advance (id : Nat) (now : Time)
  | fail (id k : Nat)
  | subscribe
  | drop (receiver : Nat)

/-- A scheduling choice, in the name of a user. -/
structure Action where
  user : UserId
  op : Op

/-- What one step of a request did. -/
inductive Progress where
  | received
  | refused (e : ApiError)
  | ensured (inserted : Option Snapshot)
  | loaded (row : Snapshot) (response : Response)
  | checked (current : Int)
  | failed (e : ApiError)
  | committed (expected : Option Int) (overwritten written : Snapshot)
  | sent (event : UpdateEvent) (stale : Bool)
  | cleaned
  | answered (response : Response)

/-- What a step tells. -/
inductive EventKind where
  | request (id : Nat) (request : Request) (progress : Progress)
  | subscribed
  | dropped (receiver : Nat)

/-- What a step tells, and of which user. -/
structure Event where
  user : UserId
  kind : EventKind

/-! ## The machine -/

/-- The errors that the next statement of a request can end with when the database refuses it. -/
def Phase.failures : Phase → List ApiError
  | .ensuring _ => [ApiError.internal "failed to ensure user snapshot row"]
  | .reading (.load _) => [ApiError.internal "failed to read snapshot"]
  | .reading (.write _ _) =>
      [ApiError.internal "failed to start transaction",
        ApiError.internal "failed to read current version"]
  | .writing p _ _ => [ApiError.internal p.failure, ApiError.internal "failed to commit update"]
  | _ => []

/-- The next statement of a request of `user` in a phase: the documents and the channels after it,
the next phase and what it did. -/
def advance (docs : Documents) (hub : Hub) (user : UserId) (now : Time) :
    Phase → Option (Documents × Hub × Phase × Progress)
  | .ensuring plan =>
      let inserted := if (docs (user, 1)).isNone then some (emptyDocument now) else none
      some (ensureUserDocument docs user now, hub, .reading plan, .ensured inserted)
  | .reading (.load answer) =>
      match selectSnapshot docs user with
      | .error e => some (docs, hub, .finished, .failed e)
      | .ok row => some (docs, hub, .finished, .loaded row (answer.respond row))
  | .reading (.write p answer) =>
      match selectVersion docs user with
      | .error e => some (docs, hub, .finished, .failed e)
      | .ok current =>
          match checkVersion p.expectedVersion current with
          | .error e => some (docs, hub, .finished, .failed e)
          | .ok () => some (docs, hub, .writing p answer current, .checked current)
  -- the `UPDATE` takes the row that is stored now, `current` is the version read before
  | .writing p answer current =>
      match docs (user, 1), updateRow docs user p (current + 1) now with
      | some old, some (docs, row) =>
          some (docs, hub, .sending (p.event (current + 1) now) (answer.respond row),
            .committed p.expectedVersion old row)
      | _, _ => some (docs, hub, .finished, .failed (ApiError.internal p.failure))
  | .sending event response =>
      let (hub, stale) := hub.sendUserEvent user event
      some (docs, hub, if stale then .cleaning response else .answering response,
        .sent event stale)
  | .cleaning response => some (docs, hub.cleanupUser user, .answering response, .cleaned)
  | .answering response => some (docs, hub, .finished, .answered response)
  | .finished => none

/-- Replace a request's record. -/
def State.setRequest (s : State) (user : UserId) (id : Nat) (r : InFlight) : State :=
  { s with requests := Function.update s.requests (user, id) (some r) }

/-- One step of the server. -/
def step (s : State) (a : Action) : Option (State × Event) :=
  match a.op with
  | .receive id request =>
      -- a request number is used once; path parsing may refuse before any statement
      match s.requests (a.user, id), request.plan with
      | some _, _ => none
      | none, .error e =>
          some (s.setRequest a.user id ⟨request, .finished⟩,
            ⟨a.user, .request id request (.refused e)⟩)
      | none, .ok plan =>
          some (s.setRequest a.user id ⟨request, .ensuring plan⟩,
            ⟨a.user, .request id request .received⟩)
  | .advance id now =>
      match s.requests (a.user, id) with
      | none => none
      | some r =>
          match advance s.docs s.hub a.user now r.phase with
          | none => none
          | some (docs, hub, phase, progress) =>
              some ({ s with docs := docs, hub := hub }.setRequest a.user id ⟨r.request, phase⟩,
                ⟨a.user, .request id r.request progress⟩)
  | .fail id k =>
      match s.requests (a.user, id) with
      | none => none
      | some r =>
          match r.phase.failures[k]? with
          | none => none
          | some e =>
              some (s.setRequest a.user id ⟨r.request, .finished⟩,
                ⟨a.user, .request id r.request (.failed e)⟩)
  | .subscribe => some ({ s with hub := s.hub.subscribeUser a.user }, ⟨a.user, .subscribed⟩)
  | .drop receiver =>
      some ({ s with hub := s.hub.dropReceiver a.user receiver }, ⟨a.user, .dropped receiver⟩)

/-- The sync server, started on an empty table. -/
def server : Machine State Action Event where
  init := State.initial
  step := step

/-! ## What a step can do -/

/-- What the next statement of a request can do to the documents, the channels and its phase. -/
inductive Statement (docs : Documents) (hub : Hub) (user : UserId) :
    Phase → Documents → Hub → Phase → Progress → Prop
  | ensured (plan : Plan) (now : Time) :
      Statement docs hub user (.ensuring plan) (ensureUserDocument docs user now) hub
        (.reading plan)
        (.ensured (if (docs (user, 1)).isNone then some (emptyDocument now) else none))
  | loaded (answer : Answer) {row : Snapshot} (stored : docs (user, 1) = some row) :
      Statement docs hub user (.reading (.load answer)) docs hub .finished
        (.loaded row (answer.respond row))
  | checked (p : Put) (answer : Answer) {row : Snapshot} (stored : docs (user, 1) = some row)
      (accepted : checkVersion p.expectedVersion row.version = .ok ()) :
      Statement docs hub user (.reading (.write p answer)) docs hub
        (.writing p answer row.version) (.checked row.version)
  | committed (p : Put) (answer : Answer) (current : Int) (now : Time) {old : Snapshot}
      (stored : docs (user, 1) = some old) :
      Statement docs hub user (.writing p answer current)
        (Function.update docs (user, 1) (some (p.set (current + 1) now old))) hub
        (.sending (p.event (current + 1) now) (answer.respond (p.set (current + 1) now old)))
        (.committed p.expectedVersion old (p.set (current + 1) now old))
  | failed (phase : Phase) (e : ApiError) :
      Statement docs hub user phase docs hub .finished (.failed e)
  | sent (event : UpdateEvent) (response : Response) :
      Statement docs hub user (.sending event response) docs (hub.sendUserEvent user event).1
        (if (hub.sendUserEvent user event).2 then .cleaning response else .answering response)
        (.sent event (hub.sendUserEvent user event).2)
  | cleaned (response : Response) :
      Statement docs hub user (.cleaning response) docs (hub.cleanupUser user)
        (.answering response) .cleaned
  | answered (response : Response) :
      Statement docs hub user (.answering response) docs hub .finished (.answered response)

theorem advance_statement {docs docs' : Documents} {hub hub' : Hub} {user : UserId} {now : Time}
    {phase phase' : Phase} {progress : Progress}
    (h : advance docs hub user now phase = some (docs', hub', phase', progress)) :
    Statement docs hub user phase docs' hub' phase' progress := by
  cases phase with
  | ensuring plan => cases h; exact .ensured plan now
  | reading plan =>
      cases hrow : docs (user, 1) with
      | none =>
          cases plan <;> simp only [advance, selectSnapshot, selectVersion, hrow] at h <;>
            cases h <;> exact .failed _ _
      | some row =>
          cases plan with
          | load answer =>
              simp only [advance, selectSnapshot, hrow] at h
              cases h
              exact .loaded answer hrow
          | write p answer =>
              simp only [advance, selectVersion, hrow] at h
              cases hcheck : checkVersion p.expectedVersion row.version <;> rw [hcheck] at h <;>
                cases h
              · exact .failed _ _
              · exact .checked p answer hrow hcheck
  | writing p answer current =>
      cases hrow : docs (user, 1) with
      | none =>
          simp only [advance, hrow] at h
          cases h
          exact .failed _ _
      | some old =>
          cases hupdate : updateRow docs user p (current + 1) now with
          | none =>
              simp only [advance, hrow, hupdate] at h
              cases h
              exact .failed _ _
          | some q =>
              obtain ⟨docs₁, row⟩ := q
              obtain ⟨-, old', hold, hset, hdocs⟩ := updateRow_some hupdate
              simp only [advance, hrow, hupdate] at h
              cases h
              cases hrow.symm.trans hold
              subst hset
              rw [hdocs]
              exact .committed p answer current now hrow
  | sending event response => cases h; exact .sent event response
  | cleaning response => cases h; exact .cleaned response
  | answering response => cases h; exact .answered response
  | finished => cases h

/-- What a step of a user can do. -/
inductive Effect (s : State) (user : UserId) : State → EventKind → Prop
  | received {id : Nat} {request : Request} (kind : Progress) (phase : Phase)
      (fresh : s.requests (user, id) = none)
      (planned : (∃ e, phase = .finished ∧ kind = .refused e) ∨
        ∃ plan, request.plan = .ok plan ∧ phase = .ensuring plan ∧ kind = .received) :
      Effect s user (s.setRequest user id ⟨request, phase⟩) (.request id request kind)
  | moved {id : Nat} {request : Request} {phase phase' : Phase} {docs : Documents} {hub : Hub}
      {progress : Progress} (inFlight : s.requests (user, id) = some ⟨request, phase⟩)
      (statement : Statement s.docs s.hub user phase docs hub phase' progress) :
      Effect s user
        (State.setRequest { s with docs := docs, hub := hub } user id ⟨request, phase'⟩)
        (.request id request progress)
  | subscribed : Effect s user { s with hub := s.hub.subscribeUser user } .subscribed
  | dropped (receiver : Nat) :
      Effect s user { s with hub := s.hub.dropReceiver user receiver } (.dropped receiver)

theorem step_effect {s s' : State} {a : Action} {e : Event} (h : step s a = some (s', e)) :
    e.user = a.user ∧ Effect s a.user s' e.kind := by
  obtain ⟨user, op⟩ := a
  cases op with
  | receive id request =>
      cases hr : s.requests (user, id) with
      | some r => simp only [step, hr] at h; cases h
      | none =>
          cases hp : request.plan <;> simp only [step, hr, hp] at h <;> cases h
          · exact ⟨rfl, .received _ _ hr (Or.inl ⟨_, rfl, rfl⟩)⟩
          · exact ⟨rfl, .received _ _ hr (Or.inr ⟨_, hp, rfl, rfl⟩)⟩
  | advance id now =>
      cases hr : s.requests (user, id) with
      | none => simp only [step, hr] at h; cases h
      | some r =>
          cases hadv : advance s.docs s.hub user now r.phase with
          | none => simp only [step, hr, hadv] at h; cases h
          | some q =>
              simp only [step, hr, hadv] at h
              cases h
              exact ⟨rfl, .moved hr (advance_statement hadv)⟩
  | fail id k =>
      cases hr : s.requests (user, id) with
      | none => simp only [step, hr] at h; cases h
      | some r =>
          cases hk : r.phase.failures[k]? <;> simp only [step, hr, hk] at h <;> cases h
          exact ⟨rfl, .moved hr (.failed _ _)⟩
  | subscribe => cases h; exact ⟨rfl, .subscribed⟩
  | drop receiver => cases h; exact ⟨rfl, .dropped receiver⟩

end AnyPlayerSync.Sync
