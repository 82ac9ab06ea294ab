import AnyPlayerSync.Facts.Fetch
import AnyPlayerSync.Server.Frame
import AnyPlayerSync.Server.Undisturbed

/-!
# Who is served

A request that nobody may make, or not the user of its token, gets `401` or `403` and changes
nothing but `last_used_at`; one that is admitted never gets either (`access_controlled`), whichever
statements fail. For the second part every handler is followed for the errors it can end with, and
so is `verify`.
-/

set_option autoImplicit false

namespace AnyPlayerSync.Server

open AnyPlayerSync.Accounts (AccountTables AuthenticatedUser TokenRow UserRow)
open AnyPlayerSync.Foundation
open AnyPlayerSync.Foundation.Program
open AnyPlayerSync.Passages (Candidate IngestResponse PassageQuery TrackRequest)
open AnyPlayerSync.Sync (ApiError Put UserId)

variable {V F : Type}

/-! ## Admission -/

/-- The routes without authentication. -/
def HttpRequest.Public (request : HttpRequest) : Prop :=
  request.call = .health ∨ request.call = .adminLogin ∨ request.call = .adminIndex

/-- The token, if any, authenticates the user. -/
def Authenticates (hash : Str → Str) (accounts : AccountTables) (token : Option Str)
    (user : AuthenticatedUser) : Prop :=
  ∃ t tokenId, token = some t ∧ accounts.authenticate hash t = .ok (user, tokenId)

/-- Whose requests are served: everyone's, those of the token's user, or those of an admin. -/
def Admitted (hash : Str → Str) (accounts : AccountTables) (request : HttpRequest) : Prop :=
  request.Public ∨ ∃ user, Authenticates hash accounts request.token user ∧
    ∀ call, request.call = .admin call → user.isAdmin = true

/-- `401` and `403`. -/
def IsRefusal (e : ApiError) : Prop := e.status = 401 ∨ e.status = 403

@[simp] theorem isRefusal_unauthorized (message : String) :
    IsRefusal (ApiError.unauthorized message) := Or.inl rfl

@[simp] theorem isRefusal_forbidden (message : String) :
    IsRefusal (ApiError.forbidden message) := Or.inr rfl

@[simp] theorem not_isRefusal_notFound (message : String) :
    ¬ IsRefusal (ApiError.notFound message) := by
  simp [IsRefusal, ApiError.notFound]

@[simp] theorem not_isRefusal_badRequest (message : String) :
    ¬ IsRefusal (ApiError.badRequest message) := by
  simp [IsRefusal, ApiError.badRequest]

@[simp] theorem not_isRefusal_conflict (message : String) :
    ¬ IsRefusal (ApiError.conflict message) := by
  simp [IsRefusal, ApiError.conflict]

@[simp] theorem not_isRefusal_internal (message : String) :
    ¬ IsRefusal (ApiError.internal message) := by
  simp [IsRefusal, ApiError.internal]

@[simp] theorem not_isRefusal_serviceUnavailable (message : String) :
    ¬ IsRefusal (ApiError.serviceUnavailable message) := by
  simp [IsRefusal, ApiError.serviceUnavailable]

/-- The error when the `SELECT` of the token fails. -/
def validationFailed : ApiError := ApiError.internal "failed to validate token"

/-- Nothing was written, but for `last_used_at` of the token when it authenticates a user. -/
def OnlyTouched (hash : Str → Str) (token : Option Str) (db db' : Database V) : Prop :=
  db' = db ∨ ∃ t user tokenId now, token = some t ∧
    db.accounts.authenticate hash t = .ok (user, tokenId) ∧
      db' = { db with accounts := db.accounts.touchToken tokenId now }

/-- The request ends with a refusal, or with the error of a `SELECT` that failed. -/
def TurnedAway {α : Type} (r : Except ApiError α) : Prop :=
  ∃ e, r = .error e ∧ (IsRefusal e ∨ e = validationFailed)

/-! ## Authentication -/

/-- What comes of checking a token, where the route asks for `rights`. -/
inductive TokenChecked (hash : Str → Str) (token : Option Str) (rights : AuthenticatedUser → Prop)
    (db : Database V) (r : Except ApiError AuthenticatedUser) : Prop
  | passed {user : AuthenticatedUser} (granted : Authenticates hash db.accounts token user)
      (allowed : rights user) (answer : r = .ok user)
  | failed (answer : r = .error validationFailed)
  | refused {e : ApiError}
      (unknown : ∀ user, Authenticates hash db.accounts token user → ¬ rights user)
      (answer : r = .error e) (refusal : IsRefusal e)

section Authentication

variable {c : Course} {db : Database V} (X : Externals V F)

/-- Who is refused has no rights, whatever the route asks for. -/
theorem checked_of_error {hash : Str → Str} {t : Str} {e : ApiError}
    (h : db.accounts.authenticate hash t = .error e) (hrefusal : IsRefusal e)
    (rights : AuthenticatedUser → Prop) :
    TokenChecked hash (some t) rights db (.error e : Except ApiError AuthenticatedUser) := by
  refine .refused ?_ rfl hrefusal
  rintro user ⟨t', tokenId, ht, hok⟩ -
  cases ht
  rw [h] at hok
  cases hok

/-- The token is checked, and at most its own `last_used_at` is written. -/
theorem triple_authenticate (token : Str) :
    Triple c (fun _ s => s = db) (authenticateToken X token) fun r _ s =>
      TokenChecked X.sha256 (some token) (fun _ => True) db r ∧
        OnlyTouched X.sha256 (some token) db s := by
  have hauth := authenticate_eq db.accounts X.sha256 token
  rw [authenticateToken]
  by_cases hblank : Text.trim token = []
  · rw [if_pos hblank] at hauth ⊢
    exact triple_fail fun _ _ hs =>
      ⟨checked_of_error hauth (isRefusal_unauthorized _) _, Or.inl hs⟩
  · rw [if_neg hblank] at hauth ⊢
    refine triple_bind (R := fun r _ s => s = db ∧
      (r = .ok (db.accounts.selectGrant (X.sha256 (Text.trim token))) ∨
        r = .error validationFailed)) (triple_query ?_) ?_ ?_
    · rintro _ _ s rfl _
      exact ⟨⟨rfl, Or.inl rfl⟩, rfl, Or.inr rfl⟩
    · intro row
      refine Triple.pre (P := fun _ s => s = db ∧
        row = db.accounts.selectGrant (X.sha256 (Text.trim token))) (triple_known fun hrow => ?_)
        fun _ s hs => ⟨hs.1, hs.2.elim Except.ok.inj fun h => by cases h⟩
      rw [← hrow] at hauth
      cases row with
      | none =>
          exact triple_fail fun _ _ hs =>
            ⟨checked_of_error hauth (isRefusal_unauthorized _) _, Or.inl hs⟩
      | some found =>
          obtain ⟨user, row⟩ := found
          simp only [grantAnswer] at hauth ⊢
          split_ifs at hauth ⊢
          · exact triple_fail fun _ _ hs =>
              ⟨checked_of_error hauth (isRefusal_forbidden _) _, Or.inl hs⟩
          · refine triple_bind (R := fun r _ s => OnlyTouched X.sha256 (some token) db s ∧
              r = .ok ()) (triple_attempt (triple_statement ?_))
              (fun _ => triple_pure fun _ _ hs => ?_) ?_
            · rintro _ now s rfl _
              have htouched : OnlyTouched X.sha256 (some token) s
                  { s with accounts := s.accounts.touchToken row.id now } :=
                Or.inr ⟨token, _, _, now, rfl, hauth, rfl⟩
              exact ⟨⟨htouched, rfl⟩, ⟨Or.inl rfl, rfl⟩, htouched, rfl⟩
            · exact ⟨.passed ⟨token, _, rfl, hauth⟩ trivial rfl, hs.1⟩
            · rintro e _ _ ⟨-, he⟩
              cases he
    · rintro e _ _ ⟨hs, h | h⟩
      · cases h
      · exact ⟨.failed (by rw [Except.error.inj h]), Or.inl hs⟩

/-- Authentication by a token that may be missing. -/
def authenticateFound (missing : String) : Option Str → Handler V AuthenticatedUser
  | some token => authenticateToken X token
  | none => fail (ApiError.unauthorized missing)

/-- The header decides, with its own message when it is missing. -/
theorem authenticateWithHeaders_eq (authorization : Option Str) :
    authenticateWithHeaders (V := V) X authorization =
      authenticateFound X "missing Authorization: Bearer token" (bearerToken authorization) := by
  rw [authenticateWithHeaders]
  cases bearerToken authorization <;> rfl

/-- The header comes before the query. -/
theorem authenticateWithHeadersOrQueryToken_eq (authorization queryToken : Option Str) :
    authenticateWithHeadersOrQueryToken (V := V) X authorization queryToken =
      authenticateFound X
        "missing bearer token (Authorization header or token query parameter)"
        (HttpRequest.token ⟨authorization, .wsUpdates queryToken⟩) := by
  rw [authenticateWithHeadersOrQueryToken.eq_def, HttpRequest.token]
  cases bearerToken authorization <;> cases queryToken <;> rfl

theorem triple_authenticateFound (missing : String) (token : Option Str) :
    Triple c (fun _ s => s = db) (authenticateFound X missing token) fun r _ s =>
      TokenChecked X.sha256 token (fun _ => True) db r ∧ OnlyTouched X.sha256 token db s := by
  cases token with
  | some token => exact triple_authenticate X token
  | none =>
      refine triple_fail fun _ _ hs => ⟨.refused ?_ rfl (isRefusal_unauthorized _), Or.inl hs⟩
      rintro user ⟨t, tokenId, ht, -⟩
      cases ht

/-- `require_admin` refuses a user without the rights of an admin. -/
theorem triple_adminChecked (authorization : Option Str) :
    Triple c (fun _ s => s = db) (admin X authorization) fun r _ s =>
      TokenChecked X.sha256 (bearerToken authorization) (fun user => user.isAdmin = true) db r ∧
        OnlyTouched X.sha256 (bearerToken authorization) db s := by
  rw [admin, authenticateWithHeaders_eq]
  refine triple_bind (triple_authenticateFound X _ _) (fun user => ?_) ?_
  · refine triple_bind (R := fun r _ s => OnlyTouched X.sha256 (bearerToken authorization) db s ∧
      Authenticates X.sha256 db.accounts (bearerToken authorization) user ∧
        r = requireAdmin user) (triple_check ?_) (fun _ => triple_pure ?_) ?_
    · rintro _ s ⟨hchecked, htouched⟩
      cases hchecked with
      | passed granted allowed answer =>
          cases answer
          exact ⟨htouched, granted, rfl⟩
      | failed answer => cases answer
      | refused unknown answer refusal => cases answer
    · rintro _ s ⟨htouched, hgranted, hadmin⟩
      rw [requireAdmin] at hadmin
      split_ifs at hadmin with hrights
      exact ⟨.passed hgranted hrights rfl, htouched⟩
    · rintro e _ s ⟨htouched, ⟨t, tokenId, ht, hok⟩, hadmin⟩
      rw [requireAdmin] at hadmin
      split_ifs at hadmin with hrights
      refine ⟨.refused ?_ rfl (Except.error.inj hadmin ▸ isRefusal_forbidden _), htouched⟩
      rintro other ⟨t', tokenId', ht', hok'⟩
      rw [ht] at ht'
      cases ht'
      rw [hok] at hok'
      cases hok'
      exact hrights
  · rintro e _ s ⟨hchecked, htouched⟩
    refine ⟨?_, htouched⟩
    cases hchecked with
    | passed granted allowed answer => cases answer
    | failed answer =>
        cases answer
        exact .failed rfl
    | refused unknown answer refusal =>
        cases answer
        exact .refused (fun user h _ => unknown user h trivial) rfl refusal

end Authentication

/-! ## The errors of the handlers -/

section Errors

variable {c : Course} {user : UserId} (X : Externals V F) (state : AppContext V)

/-- The handler never refuses the user. -/
abbrev Serves {α : Type} (c : Course) (p : Handler V α) : Prop :=
  Fails c (fun e => ¬ IsRefusal e) p

/-- A statement that fails with a message of its own and always answers. -/
theorem serves_statement {α : Type} {message : String} {f : Int → Database V → Database V × α} :
    Serves c (statement (ApiError.internal message) fun now db =>
      ((f now db).1, (.ok (f now db).2 : Except ApiError α))) :=
  fails_statement (not_isRefusal_internal _) fun _ _ _ he => by cases he

/-- A read is never refused for the user. -/
theorem serves_read {α : Type} {message : String} {f : Int → Database V → α} :
    Serves c (query (ApiError.internal message) fun now db =>
      (.ok (f now db) : Except ApiError α)) :=
  fails_query (not_isRefusal_internal _) fun _ _ _ he => by cases he

theorem serves_engine : Serves c (engine state) := by
  rw [engine]
  split
  · exact fails_pure _
  · exact fails_fail (not_isRefusal_serviceUnavailable _)

theorem serves_loadSnapshot : Serves c (loadSnapshot (V := V) user) := by
  refine fails_bind (serves_statement (f := fun now db => (_, ()))) fun _ => ?_
  refine fails_query (not_isRefusal_internal _) fun _ db e he => ?_
  rw [Sync.selectSnapshot] at he
  split at he <;> cases he
  exact not_isRefusal_internal _

/-- A write fails with a 409 or a 500. -/
theorem serves_writeDocument (p : Put) : Serves c (writeDocument (V := V) user p) := by
  refine fails_bind (serves_statement (f := fun now db => (_, ()))) fun _ => ?_
  refine fails_transaction (not_isRefusal_internal _) (not_isRefusal_internal _) ?_
  refine fails_bind (fails_query (not_isRefusal_internal _) fun _ db e he => ?_) fun current => ?_
  · rw [Sync.selectVersion] at he
    split at he <;> cases he
    exact not_isRefusal_internal _
  · refine fails_bind (fails_check fun e he => ?_) fun _ => fails_bind fails_clock fun now =>
      fails_bind (fails_statement (not_isRefusal_internal _) fun _ db e he => ?_)
        fun _ => fails_pure _
    · simp only [Sync.checkVersion] at he
      split at he
      · split_ifs at he
        cases he
        exact not_isRefusal_conflict _
      · cases he
    · split at he <;> cases he
      exact not_isRefusal_internal _

theorem serves_sync (request : Sync.Request) : Serves c (sync (V := V) user request) := by
  -- a path is parsed before any statement
  have hparse : ∀ {path : String} {e : ApiError},
      Sync.Namespace.parse path = .error e → ¬ IsRefusal e := by
    intro path e he
    rw [Sync.Namespace.parse.eq_def] at he
    split at he <;> cases he
    exact not_isRefusal_badRequest _
  cases request with
  | getSnapshot since => exact fails_bind serves_loadSnapshot fun _ => fails_pure _
  | putSnapshot payload => exact fails_bind (serves_writeDocument _) fun _ => fails_pure _
  | getNamespace path =>
      rw [Server.sync, getNamespace]
      split
      · rename_i he
        exact fails_fail (hparse he)
      · split_ifs
        · exact fails_fail (not_isRefusal_badRequest _)
        · exact fails_bind serves_loadSnapshot fun _ => fails_pure _
  | putNamespace path payload =>
      rw [Server.sync, putNamespace]
      split
      · rename_i he
        exact fails_fail (hparse he)
      · split_ifs
        · exact fails_fail (not_isRefusal_badRequest _)
        · exact fails_bind (serves_writeDocument _) fun _ => fails_pure _

theorem serves_factLookup (q : Facts.FactQuery) : Serves c (factLookup (V := V) X user q) := by
  rw [factLookup]
  split_ifs
  · exact fails_fail (not_isRefusal_badRequest _)
  · exact fails_bind serves_read fun _ => fails_pure _

theorem serves_factContribute (input : Facts.Contribution) {verified : Except ApiError Str}
    (h : ∀ e, verified = .error e → ¬ IsRefusal e) :
    Serves c (factContribute (V := V) X input verified) := by
  rw [factContribute]
  split_ifs
  · exact fails_fail (not_isRefusal_badRequest _)
  · refine fails_bind (fails_check h) fun sourceUrl => ?_
    split_ifs
    · exact fails_fail (not_isRefusal_badRequest _)
    · exact fails_bind (serves_statement (f := fun now db => (_, _))) fun _ => fails_pure _

theorem serves_factPlayed (id : Int) (input : Facts.Played) :
    Serves c (factPlayed (V := V) user id input) := by
  refine fails_bind fails_clock fun now => fails_bind (fails_check fun e he => ?_) fun _ =>
    fails_bind (fails_statement (not_isRefusal_internal _) fun _ db e he => ?_) fun inserted => ?_
  · rw [Facts.checkPlayed] at he
    split_ifs at he
    cases he
    exact not_isRefusal_badRequest _
  · split at he <;> cases he
  · split_ifs
    · exact fails_pure _
    · refine fails_bind serves_read fun existing => fails_bind (fails_check fun e he => ?_)
        fun _ => fails_pure _
      rw [Facts.playedAnswer] at he
      split_ifs at he
      cases he
      exact not_isRefusal_notFound _

/-- `enqueue` fails with a 500. -/
theorem serves_enqueue (track : TrackRequest) (requestedBy : Option UserId) (auto force : Bool) :
    Serves c (enqueue (V := V) X track requestedBy auto force) := by
  refine fails_bind (fails_statement (not_isRefusal_internal _) fun _ db e he => ?_)
    fun inserted => ?_
  · simp only at he
    split at he <;> cases he
  · split_ifs
    · exact fails_pure _
    · refine fails_bind (fails_statement (not_isRefusal_internal _) fun _ db e he => ?_)
        fun requeued => ?_
      · split at he <;> cases he
      · split_ifs
        · exact fails_pure _
        · refine fails_bind (fails_query (not_isRefusal_internal _) fun _ db e he => ?_)
            fun _ => fails_pure _
          split at he <;> cases he
          exact not_isRefusal_internal _

theorem serves_passageLookup [Inhabited V] (q : PassageQuery) :
    Serves c (passageLookup X state user q) := by
  refine fails_bind (serves_engine state) fun E => ?_
  split_ifs
  · exact fails_fail (not_isRefusal_badRequest _)
  · refine fails_bind serves_read fun candidates => fails_bind ?_ fun answer => ?_
    · rw [autoQueue]
      split
      · exact fails_pure _
      · refine fails_bind serves_read fun count => ?_
        split
        · exact fails_pure _
        · split
          · refine fails_bind (serves_enqueue X q (some user) true false) fun outcome => ?_
            split <;> exact fails_pure _
          · exact fails_pure _
    · cases answer with
      | some response => exact fails_pure _
      | none =>
          refine fails_bind fails_clock fun now => fails_bind (fails_check fun e he => ?_)
            fun _ => fails_pure _
          rw [Passages.rankCandidates] at he
          split at he
          · cases he
            exact not_isRefusal_internal _
          · simp only at he
            split at he <;> cases he

theorem serves_passagePlayed (input : Passages.PlayedRequest) :
    Serves c (passagePlayed state user input) := by
  refine fails_bind (serves_engine state) fun E => fails_bind fails_clock fun now => ?_
  split_ifs
  · exact fails_fail (not_isRefusal_badRequest _)
  · exact fails_bind (serves_statement (f := fun now db => (_, ()))) fun _ => fails_pure _

/-- One case for each route that any user may call. -/
theorem serves_userCall [Inhabited V] (call : UserCall)
    (h : ∀ input e, call = .factContribute input (.error e) → ¬ IsRefusal e) :
    Serves c (userCall X state user call) := by
  have hinfo : ∀ (entry : Option DjCatalogEntry) {message : String} {e : ApiError},
      djCatalogEntryInfo entry message = .error e → ¬ IsRefusal e := by
    intro entry message e he
    cases entry <;> cases he
    exact not_isRefusal_notFound _
  have hdownload : ∀ (catalog : DjCatalog) (id : Str) {message : String} {e : ApiError},
      djCatalogDownload catalog id message = .error e → ¬ IsRefusal e := by
    intro catalog id message e he
    rw [djCatalogDownload] at he
    split at he <;> cases he
    exact not_isRefusal_notFound _
  cases call with
  | sync request => exact serves_sync request
  | djModels | djVoiceModels => exact fails_pure _
  | djModelInfo | djVoiceModelInfo => exact fails_check fun _ => hinfo _
  | djModelDownload | djVoiceModelDownload => exact fails_check fun _ => hdownload _ _
  | djModelDownloadById id => exact fails_check fun _ => hdownload _ _
  | djVoiceModelDownloadById id => exact fails_check fun _ => hdownload _ _
  | factLookup q => exact serves_factLookup X q
  | factContribute input verified =>
      refine serves_factContribute X input fun e he => ?_
      subst he
      exact h input e rfl
  | factPlayed id input => exact serves_factPlayed id input
  | passageLookup q => exact serves_passageLookup X state q
  | passagePlayed input => exact serves_passagePlayed state input

/-- By induction on the tracks. -/
theorem serves_ingestAll (force : Bool) (tracks : List TrackRequest) : ∀ out : IngestResponse,
    Serves c (ingestAll (V := V) X user force out tracks) := by
  induction tracks with
  | nil => exact fun out => fails_pure out
  | cons track tracks ih =>
      exact fun out => fails_bind (serves_enqueue X track (some user) false force)
        fun outcome => ih (out.add outcome)

/-- One case for each route under `/v1/admin`. -/
theorem serves_adminCall (admin : AuthenticatedUser) (call : AdminCall) :
    Serves c (adminCall X state admin call) := by
  cases call with
  | listUsers =>
      apply fails_bind (fails_bind serves_read fun _ => fails_bind serves_read fun _ => fails_pure _)
      exact fun _ => fails_pure _
  | createUser name isAdmin =>
      refine fails_bind (fails_check fun e he => ?_) fun name =>
        fails_bind (fails_statement (not_isRefusal_internal _) fun now db e he => ?_)
          fun _ => fails_pure _
      · simp only [checkUserName] at he
        split_ifs at he <;> cases he <;> exact not_isRefusal_badRequest _
      · simp only [AccountTables.createUser] at he
        split_ifs at he <;> cases he
        · exact not_isRefusal_badRequest _
        · exact not_isRefusal_conflict _
  | createToken userId label drawn =>
      rw [adminCall, adminCreateToken]
      split_ifs
      · exact fails_fail (not_isRefusal_badRequest _)
      · refine fails_bind (fails_statement (not_isRefusal_internal _) fun now db e he => ?_)
          fun _ => fails_pure _
        simp only [AccountTables.createToken] at he
        split_ifs at he <;> cases he
        · exact not_isRefusal_internal _
        · exact not_isRefusal_notFound _
  | setUserDisabled userId disabled =>
      refine fails_bind (fails_statement (not_isRefusal_internal _) fun now db e he => ?_)
        fun _ => fails_pure _
      simp only [AccountTables.setUserDisabled] at he
      split at he <;> cases he
      exact not_isRefusal_notFound _
  | revokeToken tokenId =>
      refine fails_bind (fails_statement (not_isRefusal_internal _) fun now db e he => ?_)
        fun _ => fails_pure _
      simp only [AccountTables.revokeToken] at he
      split at he <;> cases he
      exact not_isRefusal_notFound _
  | listJobs limit beforeId => exact fails_bind serves_read fun _ => fails_pure _
  | ingest input =>
      exact fails_bind (serves_engine state) fun _ =>
        fails_bind (serves_ingestAll X input.force _ _) fun _ => fails_pure _
  | misses => exact fails_bind serves_read fun _ => fails_pure _
  | createDocument input drawn =>
      refine fails_bind (serves_engine state) fun E => ?_
      split_ifs
      · exact fails_fail (not_isRefusal_badRequest _)
      · refine fails_bind (fails_statement (not_isRefusal_internal _) fun now db e he => ?_)
          fun _ => fails_pure _
        split at he <;> cases he
        exact not_isRefusal_internal _
  | deleteDocument id =>
      refine fails_bind (fails_statement (not_isRefusal_internal _) fun now db e he => ?_)
        fun existed => ?_
      · split_ifs at he
      · split_ifs
        · exact fails_pure _
        · exact fails_fail (not_isRefusal_notFound _)

end Errors

/-! ## Requests -/

section Requests

variable {c : Course} {db : Database V} (X : Externals V F) (state : AppContext V)

/-- Who is not admitted is turned away and changes nothing; who is admitted is not refused. -/
structure Controlled {α : Type} (hash : Str → Str) (db : Database V) (request : HttpRequest)
    (r : Except ApiError α) (s : Database V) : Prop where
  turnedAway : ¬ Admitted hash db.accounts request →
    TurnedAway r ∧ OnlyTouched hash request.token db s
  served : Admitted hash db.accounts request → ∀ e, r = .error e → ¬ IsRefusal e

/-- A request that is admitted is controlled by its handler's errors. -/
theorem Controlled.of_admitted {α : Type} {hash : Str → Str} {request : HttpRequest}
    {r : Except ApiError α} {s : Database V} (h : Admitted hash db.accounts request)
    (hserved : ∀ e, r = .error e → ¬ IsRefusal e) : Controlled hash db request r s :=
  ⟨fun hnot => absurd h hnot, fun _ => hserved⟩

/-- After the token is checked only the handler of a user with the rights runs. -/
theorem triple_checked {α : Type} {request : HttpRequest} {rights : AuthenticatedUser → Prop}
    {p : Handler V AuthenticatedUser} {f : AuthenticatedUser → Handler V α}
    (hrights : ∀ user, rights user ↔ ∀ call, request.call = .admin call → user.isAdmin = true)
    (hpublic : ¬ request.Public)
    (hp : Triple c (fun _ s => s = db) p fun r _ s =>
      TokenChecked X.sha256 request.token rights db r ∧ OnlyTouched X.sha256 request.token db s)
    (hf : ∀ user, Serves c (f user)) :
    Triple c (fun _ s => s = db) (p >>= f) fun r _ s => Controlled X.sha256 db request r s := by
  refine triple_bind hp (fun user => ?_) ?_
  · intro m hm
    cases hm.1 with
    | passed granted allowed answer =>
        cases answer
        exact .of_admitted (Or.inr ⟨user, granted, (hrights user).1 allowed⟩)
          (hf user m trivial)
    | failed answer => cases answer
    | refused unknown answer refusal => cases answer
  · rintro e _ s ⟨hchecked, htouched⟩
    cases hchecked with
    | passed granted allowed answer => cases answer
    | failed answer =>
        cases answer
        refine ⟨fun _ => ⟨⟨_, rfl, Or.inr rfl⟩, htouched⟩, ?_⟩
        rintro _ _ ⟨rfl⟩
        exact not_isRefusal_internal _
    | refused unknown answer refusal =>
        cases answer
        refine ⟨fun _ => ⟨⟨_, rfl, Or.inl refusal⟩, htouched⟩, ?_⟩
        rintro (hopen | ⟨user, granted, hadmin⟩)
        · exact absurd hopen hpublic
        · exact absurd ((hrights user).2 hadmin) (unknown user granted)

/-- One case for each kind of route. -/
theorem triple_controlled [Inhabited V] (request : HttpRequest)
    (hverified : ∀ input e,
      request.call = .user (.factContribute input (.error e)) → ¬ IsRefusal e) :
    Triple c (fun _ s => s = db) (handle X state request)
      fun r _ s => Controlled X.sha256 db request r s := by
  obtain ⟨authorization, call⟩ := request
  rw [handle]
  cases call with
  | health =>
      exact (fails_bind fails_clock fun _ => fails_pure _).mono (fun _ _ _ => trivial)
        fun _ _ _ hserved => .of_admitted (Or.inl (Or.inl rfl)) hserved
  | adminLogin =>
      exact (fails_pure _).mono (fun _ _ _ => trivial)
        fun _ _ _ hserved => .of_admitted (Or.inl (Or.inr (Or.inl rfl))) hserved
  | adminIndex =>
      exact (fails_pure _).mono (fun _ _ _ => trivial)
        fun _ _ _ hserved => .of_admitted (Or.inl (Or.inr (Or.inr rfl))) hserved
  | wsUpdates queryToken =>
      simp only [authenticateWithHeadersOrQueryToken_eq]
      refine triple_checked X (fun user => ⟨fun _ _ h => (by cases h), fun _ => trivial⟩) ?_
        (triple_authenticateFound X _ _) fun user => fails_pure _
      rintro (h | h | h) <;> cases h
  | admin call =>
      have htoken : HttpRequest.token ⟨authorization, .admin call⟩ = bearerToken authorization :=
        token_eq_bearer fun _ => Call.noConfusion
      have hp := @triple_adminChecked V F c db X authorization
      rw [← htoken] at hp
      refine triple_checked X (fun user => ⟨fun h _ _ => h, fun h => h call rfl⟩) ?_ hp
        fun user => serves_adminCall X state user call
      rintro (h | h | h) <;> cases h
  | user call =>
      have htoken : HttpRequest.token ⟨authorization, .user call⟩ = bearerToken authorization :=
        token_eq_bearer fun _ => Call.noConfusion
      have hp := @triple_authenticateFound V F c db X
        "missing Authorization: Bearer token" (bearerToken authorization)
      rw [← authenticateWithHeaders_eq, ← htoken] at hp
      refine triple_checked X (fun user => ⟨fun _ _ h => (by cases h), fun _ => trivial⟩) ?_ hp
        fun user => serves_userCall X state call fun input e h => hverified input e (h ▸ rfl)
      rintro (h | h | h) <;> cases h

/-- What a contribution brings of the sources is what `verify` made of their responses. -/
def Verified (U : UnicodeTables) (request : HttpRequest) : Prop :=
  ∀ input verified, request.call = .user (.factContribute input verified) →
    ∃ L web, verified = Facts.FactSources.verify U (Facts.FactSources.pages L web) input.source
      input.sourceId input.song input.artist input.evidence input.claim

/-- The errors of `verify` are 400s and 500s. -/
theorem Verified.not_isRefusal {U : UnicodeTables} {request : HttpRequest}
    (h : Verified U request) {input : Facts.Contribution} {e : ApiError}
    (hcall : request.call = .user (.factContribute input (.error e))) : ¬ IsRefusal e := by
  obtain ⟨L, web, hverify⟩ := h input _ hcall
  have hstatus := Facts.FactSources.verify_interrupted hverify.symm
  rw [IsRefusal]
  omega

/-- **Who is served.** Whichever statements fail: a request that is not admitted ends with `401` or
`403`, or with the error of the `SELECT` that failed, and writes nothing but `last_used_at` of its
own token; one that is admitted never ends with `401` or `403`. -/
theorem access_controlled [Inhabited V] (request : HttpRequest) (c : Course)
    (m : Moment (Database V)) (hverified : Verified X.unicode request) :
    Controlled X.sha256 m.db request (handle X state request c m).1
      (handle X state request c m).2.db :=
  triple_controlled X state request (fun _ _ => hverified.not_isRefusal) m rfl

end Requests

/-- The user `kim`, who is no admin, asks for the users. -/
def kimAdminRequest : HttpRequest where
  authorization := some ("Bearer ".toList ++ Accounts.sampleToken)
  call := .admin .listUsers

/-- A user who is no administrator asks an administrator's route. -/
theorem access_controlled_kim :
    ¬ Admitted kimExternals.sha256 kimDatabase.accounts kimAdminRequest ∧
      Controlled kimExternals.sha256 kimDatabase kimAdminRequest
        (handle kimExternals kimContext kimAdminRequest Course.still ⟨kimDatabase, 2, 0⟩).1
        (handle kimExternals kimContext kimAdminRequest Course.still ⟨kimDatabase, 2, 0⟩).2.db := by
  refine ⟨?_, access_controlled kimExternals kimContext kimAdminRequest Course.still
    ⟨kimDatabase, 2, 0⟩ fun _ _ h => (by cases h)⟩
  have hauth : kimDatabase.accounts.authenticate Accounts.sampleHash Accounts.sampleToken =
      .ok (⟨1, "kim".toList, false⟩, 1) := by decide +kernel
  have htoken : kimAdminRequest.token = some Accounts.sampleToken := by decide +kernel
  rintro ((h | h | h) | ⟨user, ⟨token, tokenId, ht, hok⟩, hadmin⟩)
  · cases h
  · cases h
  · cases h
  · cases htoken.symm.trans ht
    cases hauth.symm.trans hok
    cases hadmin _ rfl

end AnyPlayerSync.Server
