import AnyPlayerSync.Accounts.Bootstrap
import AnyPlayerSync.Server.UserCalls

/-!
# What all routes keep

`KeptByRoutes` lists every statement that a handler may run. `I` is what a request finds and leaves,
`J user` what it may rely on once a token has said who sends it. When each statement keeps `J`,
every request keeps `I` (`KeptByRoutes.handle`), whichever of its statements fail or lose their
answers.
-/

set_option autoImplicit false

namespace AnyPlayerSync.Server

open AnyPlayerSync.Accounts (AccountAction AccountEvent AccountOp AccountTables AuthenticatedUser
  TokenRow UserRow accountStep runOp)
open AnyPlayerSync.Foundation
open AnyPlayerSync.Foundation.Program
open AnyPlayerSync.Passages (Candidate Embedder IngestResponse JobKeys JobRow NewDocument
  PassageQuery Tables TrackRequest insertJob jobKeys newJob requeueJob upsertDocument)
open AnyPlayerSync.Sync (ApiError Time UserId)

variable {V F : Type}

/-- `J user` outlives the statements of all routes, for the user that the token names. -/
structure KeptByRoutes (X : Externals V F) (state : AppContext V) (I : Database V → Prop)
    (J : UserId → Database V → Prop) : Prop where
  anyone : ∀ {s : Database V} {user : UserId}, J user s → I s
  granted : ∀ {s : Database V} {k : Str} {u : UserRow} {r : TokenRow}, I s →
    s.accounts.selectGrant k = some (u, r) → J u.id s
  calls : ∀ user, KeptByCalls X user (J user)
  accounts : ∀ {s : Database V} {user : UserId} {a : AccountAction} {after : AccountTables}
    {e : AccountEvent}, J user s → accountStep X.sha256 s.accounts a = some (after, e) →
    J user { s with accounts := after }
  inserted : ∀ {s : Database V} {user : UserId} {jobs : List JobRow} (track : TrackRequest)
    (auto : Bool) (now : Time), J user s →
    insertJob s.jobs (newJob s.nextJob (jobKeys X.unicode track) track (some user) auto now) =
      some jobs →
    J user { s with jobs := jobs, nextJob := s.nextJob + 1 }
  skipped : ∀ {s : Database V} {user : UserId}, J user s →
    J user { s with nextJob := s.nextJob + 1 }
  requeued : ∀ {s : Database V} {user : UserId} {jobs : List JobRow} {job : Nat} {keys : JobKeys}
    {force : Bool} {now : Time}, J user s → requeueJob s.jobs keys force now = some (jobs, job) →
    J user { s with jobs := jobs }
  upserted : ∀ {s : Database V} {user : UserId} {E : Embedder V} {doc : NewDocument}
    {tables : Tables V} {id : Nat} {now : Time}, J user s → state.passages = some E →
    upsertDocument X.unicode X.sha256 E s.tables doc (some user) now = .ok (tables, id) →
    J user { s with tables := tables }
  deleted : ∀ {s : Database V} {user : UserId} (id : Nat), J user s →
    J user { s with tables := (s.tables.deleteDocument id).1 }

/-! ## The tables after an operation on the accounts -/

section Accounts

variable {hash : Str → Str} (db : AccountTables) (now : Time)

theorem runOp_createUser (name : Str) (isAdmin : Bool) :
    (runOp hash db now (.createUser name isAdmin)).1 = (db.createUser name isAdmin now).1 := by
  rw [runOp]
  split <;> rename_i h <;> rw [h]

theorem runOp_createToken (userId : UserId) (label : Option Str) (token : Str) :
    (runOp hash db now (.createToken userId label token)).1 =
      (db.createToken hash userId label token now).1 := by
  rw [runOp]
  split <;> rename_i h <;> rw [h]

theorem runOp_revokeToken (tokenId : Int) :
    (runOp hash db now (.revokeToken tokenId)).1 = (db.revokeToken tokenId now).1 := by
  rw [runOp]
  split <;> rename_i h <;> rw [h]

theorem runOp_setUserDisabled (userId : UserId) (disabled : Bool) :
    (runOp hash db now (.setUserDisabled userId disabled)).1 =
      (db.setUserDisabled userId disabled now).1 := by
  rw [runOp]
  split <;> rename_i h <;> rw [h]

theorem runOp_ensureBootstrapAdmin (adminName : Str) (adminToken : Option Str) :
    (runOp hash db now (.ensureBootstrapAdmin adminName adminToken)).1 =
      (db.ensureBootstrapAdmin hash adminName adminToken now).1 := by
  cases adminToken with
  | none => rfl
  | some token =>
      cases hcall : db.ensureBootstrapAdmin hash adminName (some token) now with
      | mk after r =>
          simp only [runOp, hcall]
          cases r with
          | error _ => rfl
          | ok answer =>
              cases answer
              simp only
              cases Table.row? TokenRow.tokenHash (hash token) after.tokens <;> rfl

end Accounts

/-! ## The handlers -/

section Handlers

variable {c : Course} {X : Externals V F} {state : AppContext V} {I : Database V → Prop}
  {J : UserId → Database V → Prop} {user : UserId}

theorem KeptByRoutes.op (h : KeptByRoutes X state I J) {s : Database V} (hs : J user s)
    (now : Time) (op : AccountOp) :
    J user { s with accounts := (runOp X.sha256 s.accounts now op).1 } :=
  h.accounts (a := .run op now) hs rfl

/-- After authentication the request may rely on what holds for its user. -/
theorem KeptByRoutes.authenticateToken (h : KeptByRoutes X state I J) (token : Str) :
    Triple c (fun _ s => I s) (authenticateToken (V := V) X token)
      fun r _ s => I s ∧ ∀ user, r = .ok user → J user.id s := by
  have hfail : ∀ {e : ApiError} {s : Database V}, I s →
      I s ∧ ∀ user, (.error e : Except ApiError AuthenticatedUser) = .ok user → J user.id s :=
    fun hs => ⟨hs, fun _ hr => by cases hr⟩
  rw [Server.authenticateToken]
  split_ifs
  · exact triple_fail fun _ _ hs => hfail hs
  · refine triple_bind (R := fun r _ s => I s ∧ ∀ row, r = .ok row →
      s.accounts.selectGrant (X.sha256 (Text.trim token)) = row) (triple_query ?_) ?_
      fun _ _ _ hs => hfail hs.1
    · exact fun _ _ s hs _ => ⟨⟨hs, fun row hr => Except.ok.inj hr⟩, hs, fun _ hr => by cases hr⟩
    · intro row
      cases row with
      | none => exact triple_fail fun _ _ hs => hfail hs.1
      | some grant =>
          obtain ⟨u, r⟩ := grant
          simp only
          split_ifs
          · exact triple_fail fun _ _ hs => hfail hs.1
          · -- the `UPDATE` of `last_used_at` keeps what the row has granted
            have htouch : Triple c (fun _ s => J u.id s)
                (attempt (statement (σ := Database V) (ApiError.internal "") fun now db =>
                  ({ db with accounts := db.accounts.touchToken r.id now }, .ok ())))
                fun _ _ s => J u.id s :=
              triple_attempt (stays_statement fun now s hs =>
                h.accounts (a := .touch r.id now) hs rfl)
            refine Triple.pre (P := fun _ s => J u.id s) ?_ fun _ s hs =>
              h.granted hs.1 (hs.2 _ rfl)
            refine triple_bind htouch (fun _ => ?_) fun _ _ _ hs => hfail (h.anyone hs)
            apply triple_pure
            intro _ s hs
            refine ⟨h.anyone hs, fun user hr => ?_⟩
            rw [← Except.ok.inj hr]
            exact hs

theorem KeptByRoutes.authenticateWithHeaders (h : KeptByRoutes X state I J)
    (authorization : Option Str) :
    Triple c (fun _ s => I s) (authenticateWithHeaders (V := V) X authorization)
      fun r _ s => I s ∧ ∀ user, r = .ok user → J user.id s := by
  rw [Server.authenticateWithHeaders]
  split
  · exact h.authenticateToken _
  · exact triple_fail fun _ _ hs => ⟨hs, fun _ hr => by cases hr⟩

theorem KeptByRoutes.admin (h : KeptByRoutes X state I J) (authorization : Option Str) :
    Triple c (fun _ s => I s) (admin (V := V) X authorization)
      fun r _ s => I s ∧ ∀ user, r = .ok user → J user.id s := by
  have hfail : ∀ {e : ApiError} {s : Database V}, I s →
      I s ∧ ∀ user, (.error e : Except ApiError AuthenticatedUser) = .ok user → J user.id s :=
    fun hs => ⟨hs, fun _ hr => by cases hr⟩
  refine triple_bind (h.authenticateWithHeaders authorization) (fun user => ?_)
    fun _ _ _ hs => hfail hs.1
  refine triple_bind (R := fun _ _ s => I s ∧ J user.id s)
    (triple_check fun _ _ hs => ⟨hs.1, hs.2 _ rfl⟩) (fun _ => ?_) fun _ _ _ hs => hfail hs.1
  apply triple_pure
  intro _ s hs
  refine ⟨hs.1, fun user' hr => ?_⟩
  rw [← Except.ok.inj hr]
  exact hs.2

theorem KeptByRoutes.enqueue (h : KeptByRoutes X state I J) (track : TrackRequest)
    (auto force : Bool) :
    Stays c (J user) (enqueue (V := V) X track (some user) auto force) := by
  apply stays_bind
  · apply stays_statement
    intro now s hs
    simp only
    cases hinsert : insertJob s.jobs
        (newJob s.nextJob (jobKeys X.unicode track) track (some user) auto now) with
    | none => exact h.skipped hs
    | some jobs => exact h.inserted track auto now hs hinsert
  · intro inserted
    split_ifs
    · exact stays_pure _
    · apply stays_bind
      · apply stays_statement
        intro now s hs
        cases hrequeue : requeueJob s.jobs (jobKeys X.unicode track) force now with
        | none => exact hs
        | some found => exact h.requeued hs hrequeue
      · intro requeued
        split_ifs
        · exact stays_pure _
        · exact stays_bind stays_query fun _ => stays_pure _

theorem KeptByRoutes.autoQueue (h : KeptByRoutes X state I J) (q : PassageQuery)
    (candidates : List (Candidate V)) : Stays c (J user) (autoQueue X user q candidates) := by
  rw [Server.autoQueue]
  split
  · exact stays_pure _
  · apply stays_bind stays_query
    intro count
    split
    · exact stays_pure _
    · split
      · apply stays_bind (h.enqueue q true false)
        intro outcome
        split <;> exact stays_pure _
      · exact stays_pure _

theorem KeptByRoutes.passageLookup [Inhabited V] (h : KeptByRoutes X state I J)
    (q : PassageQuery) : Stays c (J user) (passageLookup X state user q) := by
  apply stays_bind (stays_engine state)
  intro E
  split_ifs
  · exact stays_fail _
  · apply stays_bind stays_query
    intro candidates
    apply stays_bind (h.autoQueue q candidates)
    intro answer
    cases answer with
    | some response => exact stays_pure _
    | none =>
        apply stays_bind stays_clock
        intro now
        apply stays_bind (stays_check _)
        exact fun _ => stays_pure _

theorem KeptByRoutes.ingestAll (h : KeptByRoutes X state I J) (force : Bool)
    (tracks : List TrackRequest) : ∀ out : IngestResponse,
      Stays c (J user) (ingestAll (V := V) X user force out tracks) := by
  induction tracks with
  | nil => exact fun out => stays_pure out
  | cons track tracks ih =>
      intro out
      apply stays_bind (h.enqueue track false force)
      exact fun outcome => ih (out.add outcome)

/-- The engine is the one that the server was started with. -/
theorem triple_engine {P : Database V → Prop} :
    Triple c (fun _ s => P s) (engine state) fun r _ s =>
      P s ∧ ∀ E, r = .ok E → state.passages = some E := by
  rw [engine]
  cases state.passages with
  | none => exact triple_fail fun _ _ hs => ⟨hs, fun _ hr => by cases hr⟩
  | some E => exact triple_pure fun _ _ hs => ⟨hs, fun _ hr => by cases hr; rfl⟩

theorem KeptByRoutes.adminCreateDocument (h : KeptByRoutes X state I J)
    (input : Passages.NoteRequest) (drawn : Str) :
    Stays c (J user) (adminCreateDocument X state user input drawn) := by
  refine triple_bind triple_engine (fun E => ?_) fun _ _ _ hs => hs.1
  refine Triple.pre (P := fun _ s => J user s ∧ state.passages = some E)
    (triple_known fun hstate => ?_) fun _ _ hs => ⟨hs.1, hs.2 E rfl⟩
  split_ifs
  · exact stays_fail _
  · refine stays_bind (stays_statement fun now s hs => ?_) fun _ => stays_pure _
    cases hupsert : upsertDocument X.unicode X.sha256 E s.tables (input.document drawn)
        (some user) now with
    | error _ => exact hs
    | ok p => exact h.upserted hs hstate hupsert

/-- One case for each route under `/v1/admin`. -/
theorem KeptByRoutes.adminCall (h : KeptByRoutes X state I J) (admin : AuthenticatedUser)
    (call : AdminCall) : Stays c (J admin.id) (adminCall X state admin call) := by
  cases call with
  | listUsers =>
      apply stays_bind (stays_bind stays_query fun _ => stays_bind stays_query fun _ => stays_pure _)
      exact fun _ => stays_pure _
  | createUser name isAdmin =>
      apply stays_bind (stays_check _)
      intro name
      refine stays_bind (stays_statement fun now s hs => ?_) fun _ => stays_pure _
      have hop := h.op hs now (.createUser name isAdmin)
      rwa [runOp_createUser] at hop
  | createToken userId label drawn =>
      rw [Server.adminCall, adminCreateToken]
      split_ifs
      · exact stays_fail _
      · refine stays_bind (stays_statement fun now s hs => ?_) fun _ => stays_pure _
        have hop := h.op hs now (.createToken userId label drawn)
        rwa [runOp_createToken] at hop
  | setUserDisabled userId disabled =>
      refine stays_bind (stays_statement fun now s hs => ?_) fun _ => stays_pure _
      have hop := h.op hs now (.setUserDisabled userId disabled)
      rwa [runOp_setUserDisabled] at hop
  | revokeToken tokenId =>
      refine stays_bind (stays_statement fun now s hs => ?_) fun _ => stays_pure _
      have hop := h.op hs now (.revokeToken tokenId)
      rwa [runOp_revokeToken] at hop
  | listJobs limit beforeId => exact stays_bind stays_query fun _ => stays_pure _
  | ingest input =>
      apply stays_bind (stays_engine state)
      intro _
      exact stays_bind (h.ingestAll input.force _ _) fun _ => stays_pure _
  | misses => exact stays_bind stays_query fun _ => stays_pure _
  | createDocument input drawn => exact h.adminCreateDocument input drawn
  | deleteDocument id =>
      refine stays_bind (stays_statement fun _ s hs => ?_) fun existed => ?_
      · -- no row has a negative id
        split_ifs
        · exact hs
        · exact h.deleted id.toNat hs
      · split_ifs
        · exact stays_pure _
        · exact stays_fail _

/-- **Every request keeps `I`**, whatever fails on its way. -/
theorem KeptByRoutes.handle [Inhabited V] (h : KeptByRoutes X state I J)
    (request : HttpRequest) : Stays c I (handle X state request) := by
  rw [Server.handle]
  cases request.call with
  | health => exact stays_bind stays_clock fun _ => stays_pure _
  | adminLogin => exact stays_pure _
  | adminIndex => exact stays_pure _
  | wsUpdates token =>
      apply stays_bind
      · rw [authenticateWithHeadersOrQueryToken.eq_def]
        split
        · exact (h.authenticateToken _).mono (fun _ _ hs => hs) fun _ _ _ hs => hs.1
        · exact (h.authenticateToken _).mono (fun _ _ hs => hs) fun _ _ _ hs => hs.1
        · exact stays_fail _
      · exact fun _ => stays_pure _
  | admin call =>
      refine triple_bind (h.admin request.authorization) (fun user => ?_) fun _ _ _ hs => hs.1
      exact (h.adminCall user call).mono (fun _ _ hs => hs.2 user rfl) fun _ _ _ hs => h.anyone hs
  | user call =>
      refine triple_bind (h.authenticateWithHeaders request.authorization) (fun user => ?_)
        fun _ _ _ hs => hs.1
      have hcall : Stays c (J user.id) (userCall X state user.id call) :=
        (h.calls user.id).userCall state call fun query _ => h.passageLookup query
      exact hcall.mono (fun _ _ hs => hs.2 user rfl) fun _ _ _ hs => h.anyone hs

end Handlers

end AnyPlayerSync.Server
