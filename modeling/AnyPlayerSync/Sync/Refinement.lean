import AnyPlayerSync.Foundation.Registers
import AnyPlayerSync.Sync.Documents

/-!
# Served one at a time, the store is four registers

The abstract store has four last-writer-wins registers, one for each domain, and one counter. The
concrete store represents it (`Represents`): a row shows the registers, and a missing row shows the
counter at zero and the empty domains, since the row is created by the first request.

`Served.Meets` says what one request owes: when it succeeds, what it answers and announces, and
what it leaves alone. Each request meets it (`serve_meets`) and moves the abstract store by its own
write or not at all (`serve_represents`); the induction over request sequences is
`refines_registers`.
-/

set_option autoImplicit false

namespace AnyPlayerSync.Sync

open AnyPlayerSync.Foundation

/-! ## The abstract store -/

/-- The stored domains. -/
inductive Domain where
  | appState
  | playlists
  | providerConfiguration
  | settings
  deriving DecidableEq

/-- The namespace under which a domain is asked for. -/
def Domain.ns : Domain → Namespace
  | .appState => .appState
  | .playlists => .playlists
  | .providerConfiguration => .providerConfiguration
  | .settings => .settings

theorem Domain.ns_ne_snapshot (d : Domain) : d.ns ≠ .snapshot := by
  cases d <;> exact Namespace.noConfusion

theorem Domain.ns_injective {d d' : Domain} (h : d.ns = d'.ns) : d = d' := by
  cases d <;> cases d' <;> first | rfl | cases h

/-- Every parsed namespace is a domain. -/
theorem Domain.exists_of_ne_snapshot {ns : Namespace} (h : ns ≠ .snapshot) :
    ∃ d : Domain, d.ns = ns := by
  cases ns with
  | appState => exact ⟨.appState, rfl⟩
  | playlists => exact ⟨.playlists, rfl⟩
  | providerConfiguration => exact ⟨.providerConfiguration, rfl⟩
  | settings => exact ⟨.settings, rfl⟩
  | snapshot => exact absurd rfl h

/-- The empty value of a domain. -/
def initialData : Domain → Json
  | .playlists => .arr []
  | _ => .obj []

/-- No write has been made. -/
def initialRegisters : Registers Domain Json := ⟨0, initialData⟩

/-- A user's version; a missing row counts as version `0`. -/
def currentVersion (docs : Documents) (user : UserId) : Int :=
  match docs (user, 1) with
  | some row => row.version
  | none => 0

/-- A user's domain; a missing row counts as empty. -/
def currentData (docs : Documents) (user : UserId) (d : Domain) : Json :=
  match docs (user, 1) with
  | some row => namespaceData row d.ns
  | none => initialData d

/-- The user's document shows the abstract registers. -/
def Represents (docs : Documents) (user : UserId) (r : Registers Domain Json) : Prop :=
  currentVersion docs user = r.version ∧ ∀ d, currentData docs user d = r.value d

/-! ## What a request owes -/

/-- The data that a `PUT` covers. -/
def Request.writes : Request → Domain → Option Json
  | .putSnapshot payload, d =>
      some (match d with
        | .appState => payload.appState
        | .playlists => payload.playlists
        | .providerConfiguration => payload.providerConfiguration
        | .settings => payload.settings)
  | .putNamespace path payload, d =>
      if Namespace.parse path = .ok d.ns then some payload.data else none
  | _, _ => none

/-- The answer is a success. -/
def Response.ok : Response → Bool
  | .snapshot _ => true
  | .update _ => true
  | _ => false

/-- The data of a domain in an answer. -/
def Response.data? : Response → Domain → Option Json
  | .snapshot body, d => some (namespaceData body d.ns)
  | .update body, d => if body.ns = d.ns then some body.data else none
  | _, _ => none

/-- One served request: the table before and after it, its answer and the event it sent. -/
structure Served where
  before : Documents
  request : Request
  response : Response
  event : Option UpdateEvent
  after : Documents

/-- A successful `PUT`. -/
def Served.wrote (x : Served) : Bool :=
  match x.request with
  | .putSnapshot _ => x.response.ok
  | .putNamespace _ _ => x.response.ok
  | _ => false

/-- Neither the version nor a domain changed. -/
def Served.Unchanged (user : UserId) (x : Served) : Prop :=
  currentVersion x.after user = currentVersion x.before user ∧
    ∀ d, currentData x.after user d = currentData x.before user d

/-- The column type takes all the data that a request covers. -/
def Request.Storable (request : Request) : Prop :=
  ∀ d v, request.writes d = some v → v.nulFree = true

/-- The expected version, if any, is the current one. -/
def Served.Current (user : UserId) (x : Served) (expected : Option Int) : Prop :=
  expected = none ∨ expected = some (currentVersion x.before user)

/-- A `PUT` on the namespace `ns`: it succeeds exactly when the namespace is supported, the expected
version, if any, is the current one, and the column takes the data; a success answers the next
version with the data written and announces the version. Otherwise nothing changes and the answer
is a 400, a 409 or a 500, for the first of the three that fails. -/
structure Served.MeetsPut (user : UserId) (x : Served) (supported : Prop) (ns : Namespace)
    (expected : Option Int) : Prop where
  succeeds_iff : x.response.ok = true ↔
    supported ∧ x.Current user expected ∧ x.request.Storable
  answers : x.response.ok = true →
    x.response.version? = some (currentVersion x.before user + 1) ∧
      ∀ d v, x.request.writes d = some v → x.response.data? d = some v
  announces : x.response.ok = true →
    ∃ e, x.event = some e ∧ e.version = currentVersion x.before user + 1 ∧ e.ns = ns
  rejects : x.response.ok = false →
    x.Unchanged user ∧ x.event = none ∧
      ∃ e, x.response = .error e ∧
        ((¬ supported ∧ e.status = 400) ∨
          (supported ∧ ¬ x.Current user expected ∧ e.status = 409) ∨
          (supported ∧ x.Current user expected ∧ ¬ x.request.Storable ∧ e.status = 500))

/-- What a request owes in the state it was served in. -/
def Served.Meets (user : UserId) (x : Served) : Prop :=
  match x.request with
  | .getSnapshot since =>
      x.Unchanged user ∧ x.event = none ∧
        (x.response = .notModified ↔
          ∃ v, since = some v ∧ currentVersion x.before user ≤ v) ∧
        (x.response ≠ .notModified →
          x.response.version? = some (currentVersion x.before user) ∧
            ∀ d, x.response.data? d = some (currentData x.before user d))
  | .getNamespace path =>
      x.Unchanged user ∧ x.event = none ∧
        (∀ d : Domain, Namespace.parse path = .ok d.ns →
          x.response.version? = some (currentVersion x.before user) ∧
            x.response.data? d = some (currentData x.before user d)) ∧
        ((∀ d : Domain, Namespace.parse path ≠ .ok d.ns) →
          ∃ e, x.response = .error e ∧ e.status = 400)
  | .putSnapshot payload => x.MeetsPut user True .snapshot payload.expectedVersion
  | .putNamespace path payload =>
      x.MeetsPut user (∃ ns, Namespace.parse path = .ok ns)
        ((Namespace.parse path).toOption.getD .snapshot) payload.expectedVersion

/-! ## Sequences of requests -/

/-- The record of one request. -/
def serveOne (user : UserId) (docs : Documents) (r : Request × Clock) : Served where
  before := docs
  request := r.1
  response := (serve user docs r).2.1
  event := (serve user docs r).2.2
  after := (serve user docs r).1

/-- The table after a sequence of requests of one user. -/
def tableAfter (user : UserId) (docs : Documents) (rs : List (Request × Clock)) : Documents :=
  rs.foldl (fun docs r => (serve user docs r).1) docs

/-- The records of a sequence of requests of one user, oldest first. -/
def serveAll (user : UserId) : Documents → List (Request × Clock) → List Served
  | _, [] => []
  | docs, r :: rs => serveOne user docs r :: serveAll user (serve user docs r).1 rs

/-- The successful writes among the served requests, oldest first. -/
def writesOf (log : List Served) : List (Domain → Option Json) :=
  (log.filter Served.wrote).map fun x => x.request.writes

theorem tableAfter_concat (user : UserId) (docs : Documents) (rs : List (Request × Clock))
    (r : Request × Clock) :
    tableAfter user docs (rs ++ [r]) = (serve user (tableAfter user docs rs) r).1 := by
  simp [tableAfter]

theorem serveAll_concat (user : UserId) (r : Request × Clock) :
    ∀ (rs : List (Request × Clock)) (docs : Documents),
      serveAll user docs (rs ++ [r]) =
        serveAll user docs rs ++ [serveOne user (tableAfter user docs rs) r]
  | [], _ => rfl
  | q :: rs, docs => by
      rw [List.cons_append, serveAll, serveAll, serveAll_concat user r rs, List.cons_append]
      rfl

/-! ## The statements on the represented store -/

section Statements

variable {docs : Documents} {user : UserId}

/-- The row after `ensure_user_document`. -/
def ensuredRow (docs : Documents) (user : UserId) (now : Time) : Snapshot :=
  (docs (user, 1)).getD (emptyDocument now)

variable (docs user) in
theorem ensureUserDocument_row (now : Time) :
    ensureUserDocument docs user now (user, 1) = some (ensuredRow docs user now) := by
  rw [ensureUserDocument, ensuredRow]
  cases hrow : docs (user, 1) <;> simp [hrow]

theorem ensuredRow_version (now : Time) :
    (ensuredRow docs user now).version = currentVersion docs user := by
  rw [ensuredRow, currentVersion]
  cases docs (user, 1) <;> rfl

theorem ensuredRow_data (now : Time) (d : Domain) :
    namespaceData (ensuredRow docs user now) d.ns = currentData docs user d := by
  rw [ensuredRow, currentData]
  cases docs (user, 1) with
  | none => cases d <;> rfl
  | some row => rfl

/-- The version and the domains shown by a table that has the row `row`. -/
theorem current_of_row {row : Snapshot} (h : docs (user, 1) = some row) :
    currentVersion docs user = row.version ∧
      ∀ d, currentData docs user d = namespaceData row d.ns := by
  simp [currentVersion, currentData, h]

variable (docs user) in
theorem ensureUserDocument_current (now : Time) :
    currentVersion (ensureUserDocument docs user now) user = currentVersion docs user ∧
      ∀ d, currentData (ensureUserDocument docs user now) user d = currentData docs user d := by
  obtain ⟨hv, hd⟩ := current_of_row (ensureUserDocument_row docs user now)
  exact ⟨hv.trans (ensuredRow_version now), fun d => (hd d).trans (ensuredRow_data now d)⟩

/-- An accepted write sets the row to the next version of the ensured row. -/
theorem writeDocument_accepted {p : Put} (clock : Clock)
    (h : p.expectedVersion = none ∨ p.expectedVersion = some (currentVersion docs user))
    (hs : p.storable = true) :
    writeDocument docs user p clock =
      (Function.update (ensureUserDocument docs user clock.ensuredAt) (user, 1)
          (some (p.set (currentVersion docs user + 1) clock.writtenAt
            (ensuredRow docs user clock.ensuredAt))),
        .ok (p.set (currentVersion docs user + 1) clock.writtenAt
            (ensuredRow docs user clock.ensuredAt),
          p.event (currentVersion docs user + 1) clock.writtenAt)) := by
  simp only [writeDocument, selectVersion, updateRow, hs, if_true, ensureUserDocument_row,
    Option.map_some, ensuredRow_version, checkVersion_ok_iff.2 h]

/-- A write whose `UPDATE` is refused only ensures the row. -/
theorem writeDocument_unstorable {p : Put} (clock : Clock)
    (h : p.expectedVersion = none ∨ p.expectedVersion = some (currentVersion docs user))
    (hs : ¬ p.storable = true) :
    writeDocument docs user p clock =
      (ensureUserDocument docs user clock.ensuredAt, .error (ApiError.internal p.failure)) := by
  simp only [writeDocument, selectVersion, updateRow, hs, ensureUserDocument_row,
    ensuredRow_version, checkVersion_ok_iff.2 h]
  rfl

/-- A write at another version only ensures the row. -/
theorem writeDocument_refused {p : Put} (clock : Clock)
    (h : ¬ (p.expectedVersion = none ∨ p.expectedVersion = some (currentVersion docs user))) :
    ∃ message, writeDocument docs user p clock =
      (ensureUserDocument docs user clock.ensuredAt, .error (ApiError.conflict message)) := by
  obtain ⟨message, hm⟩ := checkVersion_conflict h
  refine ⟨message, ?_⟩
  simp only [writeDocument, selectVersion, ensureUserDocument_row, ensuredRow_version, hm]

/-- An answer that shows the row it is given, as far as the request's own data goes. -/
structure Shows (request : Request) (answer : Snapshot → Response) : Prop where
  ok : ∀ row, (answer row).ok = true
  version : ∀ row, (answer row).version? = some row.version
  data : ∀ row d v, request.writes d = some v → namespaceData row d.ns = v →
    (answer row).data? d = some v

variable {p : Put} {request : Request} {answer : Snapshot → Response}

/-- A write covers what its request covers, so the column takes both or neither. -/
theorem storable_iff (hw : ∀ d, request.writes d = p.writes d.ns) :
    request.Storable ↔ p.storable = true := by
  have hdomain : ∀ d, (∀ v, request.writes d = some v → v.nulFree = true) ↔
      ((p.writes d.ns).map Json.nulFree).getD true = true := by
    intro d
    rw [hw d]
    cases p.writes d.ns <;> simp
  simp only [Request.Storable, hdomain, Put.storable, List.all_cons, List.all_nil, Bool.and_true,
    Bool.and_eq_true]
  constructor
  · intro h
    exact ⟨h .appState, h .playlists, h .providerConfiguration, h .settings⟩
  · rintro ⟨happ, hplaylists, hprovider, hsettings⟩ d
    cases d with
    | appState => exact happ
    | playlists => exact hplaylists
    | providerConfiguration => exact hprovider
    | settings => exact hsettings

variable (docs user) in
/-- A write meets its contract. -/
theorem writeDocument_meets (clock : Clock) (ha : Shows request answer)
    (hw : ∀ d, request.writes d = p.writes d.ns) :
    (Served.mk docs request (answerPut answer (writeDocument docs user p clock)).2.1
      (answerPut answer (writeDocument docs user p clock)).2.2
      (answerPut answer (writeDocument docs user p clock)).1).MeetsPut user True p.ns
        p.expectedVersion := by
  by_cases h : p.expectedVersion = none ∨ p.expectedVersion = some (currentVersion docs user)
  · by_cases hs : p.storable = true
    -- accepted: the row gets the next version and the new data, and the event names both
    · rw [writeDocument_accepted clock h hs]
      refine ⟨?_, ?_, ?_, ?_⟩
      · simp [answerPut, ha.ok, Served.Current, h, storable_iff hw, hs]
      · intro _
        refine ⟨by simp [answerPut, ha.version, p.set_version], fun d v hv => ?_⟩
        apply ha.data _ d v hv
        rw [p.set_data _ _ _ _ d.ns_ne_snapshot, ← hw d, hv, Option.getD_some]
      · intro _
        exact ⟨_, rfl, rfl, rfl⟩
      · intro hf
        simp [answerPut, ha.ok] at hf
    -- the column refuses the data: a 500
    · rw [writeDocument_unstorable clock h hs]
      refine ⟨?_, ?_, ?_, ?_⟩
      · simp [answerPut, Response.ok, storable_iff hw, hs]
      · intro hf
        simp [answerPut, Response.ok] at hf
      · intro hf
        simp [answerPut, Response.ok] at hf
      · intro _
        refine ⟨ensureUserDocument_current docs user _, rfl, _, rfl, Or.inr (Or.inr ?_)⟩
        exact ⟨trivial, h, fun hr => hs ((storable_iff hw).1 hr), rfl⟩
  -- another version: a 409, and the ensured row shows what the table showed before
  · obtain ⟨message, hm⟩ := writeDocument_refused clock h
    rw [hm]
    refine ⟨?_, ?_, ?_, ?_⟩
    · simp [answerPut, Response.ok, Served.Current, h]
    · intro hf
      simp [answerPut, Response.ok] at hf
    · intro hf
      simp [answerPut, Response.ok] at hf
    · intro _
      exact ⟨ensureUserDocument_current docs user _, rfl, _, rfl, Or.inr (Or.inl ⟨trivial, h, rfl⟩)⟩

/-- A write moves the abstract store by its own data, a refused write leaves it. -/
theorem writeDocument_represents (clock : Clock) (ha : Shows request answer)
    (hw : ∀ d, request.writes d = p.writes d.ns) {r : Registers Domain Json}
    (hr : Represents docs user r) :
    Represents (answerPut answer (writeDocument docs user p clock)).1 user
      (if (answerPut answer (writeDocument docs user p clock)).2.1.ok then r.write request.writes
        else r) := by
  obtain ⟨hv, hd⟩ := hr
  have hensured : Represents (ensureUserDocument docs user clock.ensuredAt) user r := by
    obtain ⟨hev, hed⟩ := ensureUserDocument_current docs user clock.ensuredAt
    exact ⟨hev.trans hv, fun d => (hed d).trans (hd d)⟩
  by_cases h : p.expectedVersion = none ∨ p.expectedVersion = some (currentVersion docs user)
  · by_cases hs : p.storable = true
    · rw [writeDocument_accepted clock h hs]
      simp only [answerPut, ha.ok, if_true]
      have hrow := Function.update_self (user, 1)
        (some (p.set (currentVersion docs user + 1) clock.writtenAt
          (ensuredRow docs user clock.ensuredAt))) (ensureUserDocument docs user clock.ensuredAt)
      obtain ⟨hcv, hcd⟩ := current_of_row hrow
      refine ⟨?_, fun d => ?_⟩
      · rw [hcv, p.set_version, hv, Registers.version_write, Int.natCast_add, Int.natCast_one]
      · rw [hcd, p.set_data _ _ _ _ d.ns_ne_snapshot, ensuredRow_data, hd, Registers.value_write,
          hw]
    · rw [writeDocument_unstorable clock h hs]
      exact hensured
  · obtain ⟨message, hm⟩ := writeDocument_refused clock h
    rw [hm]
    exact hensured

/-! ## One request -/

theorem shows_snapshot (payload : SnapshotPayload) :
    Shows (.putSnapshot payload) .snapshot where
  ok _ := rfl
  version _ := rfl
  data _ _ _ _ hrow := congrArg some hrow

theorem shows_namespace (path : String) {ns : Namespace} (hpath : Namespace.parse path = .ok ns)
    (payload : NamespacePayload) : Shows (.putNamespace path payload) (namespaceAnswer ns) where
  ok _ := rfl
  version _ := rfl
  data row d v hv hrow := by
    simp only [Request.writes, hpath, Except.ok.injEq] at hv
    split_ifs at hv with hns
    subst hns
    simpa [namespaceAnswer, Response.data?] using hrow

theorem snapshotPut_writes (payload : SnapshotPayload) (d : Domain) :
    (Request.putSnapshot payload).writes d = (snapshotPut payload).writes d.ns := by
  cases d <;> rfl

theorem namespacePut_writes (path : String) {ns : Namespace} (hns : ns ≠ .snapshot)
    (hpath : Namespace.parse path = .ok ns) (payload : NamespacePayload) (d : Domain) :
    (Request.putNamespace path payload).writes d = (namespacePut ns hns payload).writes d.ns := by
  simp only [Request.writes, hpath, namespacePut, Except.ok.injEq, eq_comm]

/-- A `PUT` on a supported namespace is a write of the document. -/
theorem putNamespace_of_parse (path : String) {ns : Namespace} (hns : ns ≠ .snapshot)
    (hpath : Namespace.parse path = .ok ns) (payload : NamespacePayload) (clock : Clock) :
    putNamespace docs user path payload clock =
      answerPut (namespaceAnswer ns)
        (writeDocument docs user (namespacePut ns hns payload) clock) := by
  simp only [putNamespace, hpath, dif_neg hns, updateNamespace]

/-- An unsupported path is the only error of the parser, and a 400. -/
theorem Namespace.parse_error {path : String} {e : ApiError} (h : Namespace.parse path = .error e) :
    e.status = 400 := by
  unfold Namespace.parse at h
  split at h <;> cases h
  rfl

/-- The row that a `GET` loads. -/
theorem loadSnapshot_eq (now : Time) :
    loadSnapshot docs user now =
      (ensureUserDocument docs user now, .ok (ensuredRow docs user now)) := by
  simp only [loadSnapshot, selectSnapshot, ensureUserDocument_row]

variable (docs user) in
theorem getSnapshot_meets (since : Option Int) (clock : Clock) :
    (serveOne user docs (.getSnapshot since, clock)).Meets user := by
  simp only [Served.Meets, serveOne, serve, getSnapshot, loadSnapshot_eq, Served.Unchanged]
  refine ⟨ensureUserDocument_current docs user _, trivial, ?_⟩
  rw [snapshotAnswer.eq_def, ensuredRow_version]
  cases since with
  | none => simp [Response.version?, Response.data?, ensuredRow_version, ensuredRow_data]
  | some v =>
      by_cases h : currentVersion docs user ≤ v <;>
        simp [h, Response.version?, Response.data?, ensuredRow_version, ensuredRow_data]

variable (docs user) in
theorem getNamespace_meets (path : String) (clock : Clock) :
    (serveOne user docs (.getNamespace path, clock)).Meets user := by
  simp only [Served.Meets, serveOne, serve, getNamespace, Served.Unchanged]
  cases hpath : Namespace.parse path with
  | error e =>
      refine ⟨⟨rfl, fun _ => rfl⟩, trivial, fun d hd => ?_, fun _ => ⟨e, rfl, ?_⟩⟩
      · cases hd
      · exact Namespace.parse_error hpath
  | ok ns =>
      -- the guard against `snapshot` never fires, since no path parses to it
      obtain ⟨d, rfl⟩ := Domain.exists_of_ne_snapshot (Namespace.parse_ne_snapshot hpath)
      simp only [if_neg d.ns_ne_snapshot, loadSnapshot_eq]
      refine ⟨ensureUserDocument_current docs user _, trivial, ?_, fun h => absurd rfl (h d)⟩
      intro d' hd'
      cases Domain.ns_injective (Except.ok.inj hd')
      exact ⟨congrArg some (ensuredRow_version _),
        (if_pos rfl).trans (congrArg some (ensuredRow_data _ d))⟩

/-- A `PUT` on an unsupported namespace is rejected with a 400. -/
theorem putNamespace_unsupported (path : String) {e : ApiError}
    (hpath : Namespace.parse path = .error e) (payload : NamespacePayload) (clock : Clock) :
    putNamespace docs user path payload clock = (docs, .error e, none) := by
  simp only [putNamespace, hpath]

theorem putNamespace_meets (path : String) (payload : NamespacePayload) (clock : Clock) :
    (serveOne user docs (.putNamespace path payload, clock)).Meets user := by
  simp only [Served.Meets, serveOne, serve]
  cases hpath : Namespace.parse path with
  | error e =>
      rw [putNamespace_unsupported path hpath]
      refine ⟨?_, ?_, ?_, ?_⟩
      · simp [Response.ok]
      · intro h; cases h
      · intro h; cases h
      · intro _
        refine ⟨⟨rfl, fun _ => rfl⟩, rfl, e, rfl, Or.inl ⟨?_, Namespace.parse_error hpath⟩⟩
        rintro ⟨ns, hns⟩
        cases hns
  | ok ns =>
      have hns := Namespace.parse_ne_snapshot hpath
      rw [putNamespace_of_parse path hns hpath]
      have h := writeDocument_meets docs user clock
        (shows_namespace path hpath payload) (namespacePut_writes path hns hpath payload)
      have hsupported : (∃ ns', Except.ok (ε := ApiError) ns = .ok ns') = True := by simp
      rw [hsupported]
      exact h

/-- **One request.** Each served request meets its contract, in every state of the table. -/
theorem serve_meets (r : Request × Clock) : (serveOne user docs r).Meets user := by
  obtain ⟨request, clock⟩ := r
  cases request with
  | getSnapshot since => exact getSnapshot_meets docs user since clock
  | putSnapshot payload =>
      exact writeDocument_meets docs user clock (shows_snapshot payload)
        (snapshotPut_writes payload)
  | getNamespace path => exact getNamespace_meets docs user path clock
  | putNamespace path payload => exact putNamespace_meets path payload clock

/-- **One step of the refinement.** A successful `PUT` moves the abstract store by its own data;
every other request leaves it. -/
theorem serve_represents (q : Request × Clock) {r : Registers Domain Json}
    (hr : Represents docs user r) :
    Represents (serve user docs q).1 user
      (if (serveOne user docs q).wrote then r.write q.1.writes else r) := by
  obtain ⟨request, clock⟩ := q
  cases request with
  | getSnapshot since =>
      obtain ⟨⟨hv, hd⟩, -⟩ := getSnapshot_meets docs user since clock
      exact ⟨hv.trans hr.1, fun d => (hd d).trans (hr.2 d)⟩
  | getNamespace path =>
      obtain ⟨⟨hv, hd⟩, -⟩ := getNamespace_meets docs user path clock
      exact ⟨hv.trans hr.1, fun d => (hd d).trans (hr.2 d)⟩
  | putSnapshot payload =>
      exact writeDocument_represents clock (shows_snapshot payload) (snapshotPut_writes payload) hr
  | putNamespace path payload =>
      change Represents (putNamespace docs user path payload clock).1 user
        (if (putNamespace docs user path payload clock).2.1.ok then _ else r)
      cases hpath : Namespace.parse path with
      | error e =>
          rw [putNamespace_unsupported path hpath]
          exact hr
      | ok ns =>
          have hns := Namespace.parse_ne_snapshot hpath
          rw [putNamespace_of_parse path hns hpath]
          exact writeDocument_represents clock (shows_namespace path hpath payload)
            (namespacePut_writes path hns hpath payload) hr

/-! ## All sequences -/

theorem represents_initial (h : docs (user, 1) = none) :
    Represents docs user initialRegisters := by
  simp [Represents, currentVersion, currentData, initialRegisters, h]

/-- The simulation: after any sequence the table represents the writes that succeeded. -/
theorem tableAfter_represents {r : Registers Domain Json} (hr : Represents docs user r)
    (rs : List (Request × Clock)) :
    Represents (tableAfter user docs rs) user (r.writeAll (writesOf (serveAll user docs rs))) := by
  -- by induction on the last request, since the registers are written from the left
  induction rs using List.reverseRecOn with
  | nil => exact hr
  | append_singleton rs q ih =>
      have hstep := serve_represents q ih
      rw [tableAfter_concat, serveAll_concat, writesOf, List.filter_append, List.map_append]
      cases hw : (serveOne user (tableAfter user docs rs) q).wrote with
      | false => simpa [hw, writesOf] using hstep
      | true =>
          have hlast : [serveOne user (tableAfter user docs rs) q].filter Served.wrote =
              [serveOne user (tableAfter user docs rs) q] := by simp [hw]
          rw [hlast, List.map_singleton, Registers.writeAll_concat]
          simp only [hw, if_true] at hstep
          exact hstep

/-- Every record of a sequence meets its contract. -/
theorem serveAll_meets :
    ∀ (rs : List (Request × Clock)) (docs : Documents), ∀ x ∈ serveAll user docs rs, x.Meets user
  | [], _ => fun _ hx => nomatch hx
  | q :: rs, docs => fun x hx => by
      rcases List.mem_cons.1 hx with rfl | hx
      · exact serve_meets q
      · exact serveAll_meets rs _ x hx

/-- The data of a domain after a sequence: the last successful write that covers it decides. -/
def lastWritten (log : List Served) (d : Domain) : Json :=
  ((writesOf log).filterMap fun w => w d).getLast?.getD (initialData d)

end Statements

/-- **Refinement.** Served one request at a time from a missing row: the version counts the
successful `PUT`s, each domain holds what the last successful `PUT` covering it wrote or its empty
value, and every request of the sequence meets its contract. -/
theorem refines_registers (user : UserId) (docs : Documents) (hrow : docs (user, 1) = none)
    (rs : List (Request × Clock)) :
    currentVersion (tableAfter user docs rs) user =
        ((serveAll user docs rs).filter Served.wrote).length ∧
      (∀ d, currentData (tableAfter user docs rs) user d =
        lastWritten (serveAll user docs rs) d) ∧
      ∀ x ∈ serveAll user docs rs, x.Meets user := by
  obtain ⟨hv, hd⟩ := tableAfter_represents (represents_initial hrow) rs
  refine ⟨?_, fun d => ?_, serveAll_meets rs docs⟩
  · rw [hv, Registers.version_writeAll, writesOf, List.length_map]
    simp [initialRegisters]
  · rw [hd, Registers.value_writeAll]
    rfl

/-- An accepted `PUT`, one at an old version, one on an unknown path, one with U+0000 in its data
and a conditional `GET`. -/
def mixedRequests : List (Request × Clock) :=
  [(.putNamespace "playlists" ⟨some 0, none, .arr [.null]⟩, ⟨0, 1⟩),
    (.putNamespace "settings" ⟨some 0, none, .null⟩, ⟨2, 3⟩),
    (.putNamespace "unknown" ⟨none, none, .null⟩, ⟨4, 5⟩),
    (.putNamespace "settings" ⟨some 1, none, .str [Char.ofNat 0]⟩, ⟨6, 7⟩),
    (.getSnapshot (some 1), ⟨8, 9⟩)]

/-- Of these requests the first alone writes, and the version afterwards is `1`. -/
theorem refines_registers_example :
    (fun _ => none : Documents) (7, 1) = none ∧
      (serveAll 7 (fun _ => none) mixedRequests).map Served.wrote =
        [true, false, false, false, false] ∧
      currentVersion (tableAfter 7 (fun _ => none) mixedRequests) 7 =
        ((serveAll 7 (fun _ => none) mixedRequests).filter Served.wrote).length :=
  ⟨rfl, rfl, (refines_registers 7 (fun _ => none) rfl mixedRequests).1⟩

/-- The event does not carry the data: two writes of different data announce the same event. And a
`PUT` on a supported namespace that expects no version can fail, since `JSONB` refuses U+0000. -/
theorem event_without_data :
    (¬ ∃ dataOf : UpdateEvent → Json, ∀ (payload : NamespacePayload) (clock : Clock)
      (e : UpdateEvent),
      (putNamespace (fun _ => none) 7 "settings" payload clock).2.2 = some e →
        dataOf e = payload.data) ∧
      (putNamespace (fun _ => none) 7 "settings" ⟨none, none, .str [Char.ofNat 0]⟩ ⟨0, 0⟩).2.1 =
        .error (ApiError.internal "failed to update snapshot") := by
  refine ⟨?_, rfl⟩
  rintro ⟨dataOf, h⟩
  -- one clock, two contents: the events are equal, so `dataOf` would have to be both
  have h1 := h ⟨none, none, .int 1⟩ ⟨0, 0⟩ _ rfl
  have h2 := h ⟨none, none, .int 2⟩ ⟨0, 0⟩ _ rfl
  cases h1.symm.trans h2

end AnyPlayerSync.Sync
