import AnyPlayerSync.Facts.Plays
import AnyPlayerSync.Passages.Sound
import AnyPlayerSync.Server.Frame
import AnyPlayerSync.Server.Routes

/-!
# The integrity of the database

All tables together: unique keys, references to rows that exist, chunks that are those of the stored
bodies (`Database.Sound`). There is one lemma for each kind of write; with these every route keeps
the database sound, whichever of its statements fail or lose their answers (`sound_routes`), and so
do the statements of the ingest workers and the bootstrap (`database_sound`).
-/

set_option autoImplicit false

namespace AnyPlayerSync.Server

open AnyPlayerSync.Accounts (AccountAction AccountEffect AccountEvent AccountTables TokenRow
  UniqueColumns UserRow UsersChange accountStep accountStep_change accountStep_effect
  accountStep_unique upsertAdmin_tokens upsertToken_users)
open AnyPlayerSync.Facts (Contribution FactPlay FactRow FactTables)
open AnyPlayerSync.Foundation
open AnyPlayerSync.Foundation.Program
open AnyPlayerSync.Passages (Embedder Job JobRow NewDocument PlayedRequest Queue Tables
  UniqueRows claim finish insertJob jobKeys newJob requeueJob sound_deleteDocument
  sound_recordPlays sound_upsertDocument upsertDocument usersAre_deleteDocument
  usersAre_recordPlays usersAre_upsertDocument)
open AnyPlayerSync.Sync (ApiError Documents Time UserId)

variable {V F : Type}

/-! ## The invariant -/

/-- The user exists. -/
def HasUser (accounts : AccountTables) (user : UserId) : Prop := ∃ u ∈ accounts.users, u.id = user

/-- The columns of the account tables are unique, and each token has its user. -/
structure AccountsSound (accounts : AccountTables) : Prop where
  columns : UniqueColumns accounts
  owners : ∀ r ∈ accounts.tokens, HasUser accounts r.userId

/-- The job table, as the queue has it. -/
def jobTable (jobs : List JobRow) (nextJob : Nat) : Queue :=
  { Queue.empty with rows := jobs, nextId := nextJob }

variable (hash : Str → Str) (E : Embedder V) in
/-- The rows of each table are sound, and they refer to users that exist. -/
structure Database.Sound (db : Database V) : Prop where
  accounts : AccountsSound db.accounts
  facts : db.facts.WellFormed
  fingerprints : (db.facts.facts.map FactRow.fingerprint).Nodup
  tables : db.tables.Sound hash E
  jobs : UniqueRows (jobTable db.jobs db.nextJob)
  documentUsers : ∀ key row, db.documents key = some row → HasUser db.accounts key.1
  factUsers : ∀ p ∈ db.facts.plays, HasUser db.accounts p.userId
  passageUsers : db.tables.UsersAre (HasUser db.accounts)
  jobUsers : ∀ r ∈ db.jobs, ∀ user, r.requestedBy = some user → HasUser db.accounts user

/-- No rows, and sequences at their start. -/
def Database.empty : Database V where
  accounts := AccountTables.empty
  documents _ := none
  facts := FactTables.empty
  tables := Tables.empty
  jobs := []
  nextJob := 1

theorem sound_empty (hash : Str → Str) (E : Embedder V) : (Database.empty).Sound hash E where
  accounts := ⟨Accounts.uniqueColumns_empty, fun _ h => absurd h List.not_mem_nil⟩
  facts := Facts.wellFormed_empty
  fingerprints := List.nodup_nil
  tables := Passages.sound_empty
  jobs := ⟨List.nodup_nil, fun _ h => absurd h List.not_mem_nil, List.nodup_nil⟩
  documentUsers _ _ h := by cases h
  factUsers _ h := absurd h List.not_mem_nil
  passageUsers := ⟨fun _ h => absurd h List.not_mem_nil, fun _ h => absurd h List.not_mem_nil⟩
  jobUsers _ h := absurd h List.not_mem_nil

/-! ## Writes to the accounts -/

section Accounts

variable {hash : Str → Str} {accounts accounts' : AccountTables} {e : AccountEvent}

theorem hasUser_of_change (h : UsersChange accounts accounts') {user : UserId}
    (huser : HasUser accounts user) : HasUser accounts' user := by
  obtain ⟨u, hu, hid⟩ := huser
  cases h with
  | updated f ids names users next =>
      rw [HasUser, users]
      exact ⟨f u, List.mem_map_of_mem hu, (ids u).trans hid⟩
  | added row number fresh users next =>
      rw [HasUser, users]
      exact ⟨u, List.mem_append_left _ hu, hid⟩

/-- The bootstrap admin is in the table. -/
theorem hasUser_upsertAdmin (accounts : AccountTables) (name : Str) (now : Time) :
    HasUser (accounts.upsertAdmin name now).1 (accounts.upsertAdmin name now).2 := by
  cases hfound : accounts.users.find? fun u => u.name = name with
  | none =>
      simp only [AccountTables.upsertAdmin, hfound]
      exact ⟨_, List.mem_append_right _ List.mem_cons_self, rfl⟩
  | some found =>
      simp only [AccountTables.upsertAdmin, hfound]
      exact ⟨_, List.mem_map_of_mem (List.mem_of_find?_eq_some hfound), by split_ifs <;> rfl⟩

/-- A row after the bootstrap's upsert of the token is its owner's, or was there before. -/
theorem upsertToken_owner {userId : UserId} {k p : Str} {now : Time} {r : TokenRow}
    (h : r ∈ (accounts.upsertToken userId k p now).tokens) :
    r.userId = userId ∨ ∃ old ∈ accounts.tokens, old.userId = r.userId := by
  rw [AccountTables.upsertToken] at h
  split_ifs at h
  · obtain ⟨old, hold, rfl⟩ := List.mem_map.1 h
    split_ifs
    · exact Or.inl rfl
    · exact Or.inr ⟨old, hold, rfl⟩
  · rcases List.mem_append.1 h with h | h
    · exact Or.inr ⟨r, h, rfl⟩
    · rw [List.mem_singleton.1 h]
      exact Or.inl rfl

/-- A token is given to a user that is there. -/
theorem owners_of_effect (he : AccountEffect hash accounts accounts' e)
    (hc : UsersChange accounts accounts') (h : ∀ r ∈ accounts.tokens, HasUser accounts r.userId) :
    ∀ r ∈ accounts'.tokens, HasUser accounts' r.userId := by
  have hold : ∀ r ∈ accounts.tokens, HasUser accounts' r.userId :=
    fun r hr => hasUser_of_change hc (h r hr)
  cases he with
  | idle | created | disabledSet => exact hold
  | touched tokenId now =>
      intro r hr
      obtain ⟨old, hmem, rfl⟩ := List.mem_map.1 hr
      split_ifs <;> exact hold old hmem
  | issued owner fresh hashed open_ number =>
      intro r hr
      rcases List.mem_append.1 hr with hr | hr
      · exact hold r hr
      · rw [List.mem_singleton.1 hr]
        exact owner
  | revoked tokenId now =>
      intro r hr
      obtain ⟨old, hmem, rfl⟩ := List.mem_map.1 hr
      split_ifs <;> exact hold old hmem
  | bootstrapped name token now after holds owned open_ =>
      intro r hr
      subst after
      rcases upsertToken_owner hr with howner | ⟨old, hmem, howner⟩
      · rw [howner, HasUser, (upsertToken_users _ _ _ _).1]
        exact hasUser_upsertAdmin accounts name now
      · rw [upsertAdmin_tokens] at hmem
        rw [← howner]
        exact hold old hmem

/-- **A step on the accounts** keeps them sound, and removes no user. -/
theorem accountStep_sound {a : AccountAction} (h : AccountsSound accounts)
    (hs : accountStep hash accounts a = some (accounts', e)) :
    AccountsSound accounts' ∧ ∀ user, HasUser accounts user → HasUser accounts' user := by
  have hchange := accountStep_change hs
  exact ⟨⟨accountStep_unique hs h.columns, owners_of_effect (accountStep_effect hs) hchange h.owners⟩,
    fun _ huser => hasUser_of_change hchange huser⟩

end Accounts

/-! ## Writes to the database -/

section Writes

variable {hash : Str → Str} {E : Embedder V} {db : Database V}

/-- Users stay: what refers to one goes on to. -/
theorem Database.Sound.writeAccounts (h : db.Sound hash E) {a : AccountAction}
    {accounts : AccountTables} {e : AccountEvent}
    (hs : accountStep hash db.accounts a = some (accounts, e)) :
    Database.Sound hash E { db with accounts := accounts } := by
  obtain ⟨haccounts, hstay⟩ := accountStep_sound h.accounts hs
  exact
    { h with
      accounts := haccounts
      documentUsers := fun key row hrow => hstay _ (h.documentUsers key row hrow)
      factUsers := fun p hp => hstay _ (h.factUsers p hp)
      passageUsers := ⟨fun r hr user huser => hstay _ (h.passageUsers.documents r hr user huser),
        fun p hp => hstay _ (h.passageUsers.plays p hp)⟩
      jobUsers := fun r hr user huser => hstay _ (h.jobUsers r hr user huser) }

theorem Database.Sound.writeDocuments (h : db.Sound hash E) {user : UserId}
    (huser : HasUser db.accounts user) {documents : Documents}
    (hother : ∀ key : UserId × Int, key.1 ≠ user → documents key = db.documents key) :
    Database.Sound hash E { db with documents := documents } :=
  { h with
    documentUsers := fun key row hrow => by
      by_cases hkey : key.1 = user
      · rw [hkey]
        exact huser
      · exact h.documentUsers key row ((hother key hkey).symm.trans hrow) }

/-- The next number is above all ids, and a fingerprint that is there is not inserted again. -/
theorem Database.Sound.insertFact (h : db.Sound hash E) {row : FactRow}
    (hid : row.id = db.facts.nextFact) :
    Database.Sound hash E { db with facts := (db.facts.insertFact row).1 } := by
  rw [FactTables.insertFact]
  cases hfound : db.facts.facts.find? fun f => f.fingerprint = row.fingerprint with
  | some found => exact { h with facts := h.facts.used 1 }
  | none =>
      exact
        { h with
          facts := h.facts.insertFact hid
          fingerprints := Table.nodup_append h.fingerprints (Table.row?_eq_none_iff.1 hfound) }

theorem Database.Sound.insertPlay (h : db.Sound hash E) {play : FactPlay} {facts : FactTables}
    (huser : HasUser db.accounts play.userId) (hplay : db.facts.insertPlay play = some facts) :
    Database.Sound hash E { db with facts := facts } := by
  rw [FactTables.insertPlay] at hplay
  split_ifs at hplay with hcond
  obtain rfl := Option.some.inj hplay
  obtain ⟨hfact, hfresh⟩ := Bool.and_eq_true_iff.1 hcond
  rw [Bool.not_eq_true', ← Bool.not_eq_true] at hfresh
  have hknown : ∃ f ∈ db.facts.facts, f.id = play.factId := by
    obtain ⟨f, hf, hid⟩ := List.any_eq_true.1 hfact
    exact ⟨f, hf, of_decide_eq_true hid⟩
  exact
    { h with
      facts := h.facts.insertPlay hknown (Table.fresh_of_not_any hfresh)
      factUsers := fun p hp => by
        rcases List.mem_append.1 hp with hp | hp
        · exact h.factUsers p hp
        · rw [List.mem_singleton.1 hp]
          exact huser }

/-- `INSERT` of a job, under the next number of the sequence and keys that no row has. -/
theorem Database.Sound.insertJob (h : db.Sound hash E) {row : JobRow} {jobs : List JobRow}
    (hid : row.id = db.nextJob)
    (huser : ∀ user, row.requestedBy = some user → HasUser db.accounts user)
    (hinsert : insertJob db.jobs row = some jobs) :
    Database.Sound hash E { db with jobs := jobs, nextJob := db.nextJob + 1 } := by
  rw [Passages.insertJob] at hinsert
  split_ifs at hinsert with hkeys
  obtain rfl := Option.some.inj hinsert
  have hbelow : ∀ r ∈ db.jobs, r.id < db.nextJob := h.jobs.below
  refine
    { h with
      jobs := ⟨Table.nodup_append h.jobs.nodup fun r hr => ?_, fun r hr => ?_,
        Table.nodup_append h.jobs.keys (Table.fresh_of_not_any hkeys)⟩
      jobUsers := fun r hr user hby => ?_ }
  · rw [hid]
    exact Nat.ne_of_lt (hbelow r hr)
  · rcases List.mem_append.1 hr with hr | hr
    · exact Nat.lt_succ_of_lt (hbelow r hr)
    · rw [List.mem_singleton.1 hr, hid]
      exact Nat.lt_succ_self _
  · rcases List.mem_append.1 hr with hr | hr
    · exact h.jobUsers r hr user hby
    · rw [List.mem_singleton.1 hr] at hby
      exact huser user hby

theorem Database.Sound.skipJob (h : db.Sound hash E) :
    Database.Sound hash E { db with nextJob := db.nextJob + 1 } :=
  { h with
    jobs := ⟨h.jobs.nodup, fun r hr => Nat.lt_succ_of_lt (h.jobs.below r hr), h.jobs.keys⟩ }

/-- An `UPDATE` of jobs, none of which changes who asked for them. -/
theorem Database.Sound.updateJobs (h : db.Sound hash E) {f : JobRow → JobRow}
    (hid : ∀ r, (f r).id = r.id) (hkeys : ∀ r, (f r).keys = r.keys)
    (hby : ∀ r, (f r).requestedBy = r.requestedBy) :
    Database.Sound hash E { db with jobs := db.jobs.map f } :=
  { h with
    jobs := h.jobs.update hid hkeys rfl (Nat.le_refl _)
    jobUsers := fun r hr user huser => by
      obtain ⟨old, hold, rfl⟩ := List.mem_map.1 hr
      exact h.jobUsers old hold user ((hby old).symm.trans huser) }

theorem Database.Sound.requeue (h : db.Sound hash E) {jobs : List JobRow} {job : Nat}
    {keys : Passages.JobKeys} {force : Bool} {now : Time}
    (hrequeue : requeueJob db.jobs keys force now = some (jobs, job)) :
    Database.Sound hash E { db with jobs := jobs } := by
  obtain ⟨found, -, heq⟩ := Option.map_eq_some_iff.1 hrequeue
  cases heq
  apply h.updateJobs <;> intro r <;> split_ifs <;> rfl

theorem Database.Sound.claim (h : db.Sound hash E) {jobs : List JobRow} {job : Job}
    {locked : List Nat} {now : Time} (hclaim : claim db.jobs locked now = some (jobs, job)) :
    Database.Sound hash E { db with jobs := jobs } := by
  obtain ⟨found, -, heq⟩ := Option.map_eq_some_iff.1 hclaim
  cases heq
  apply h.updateJobs <;> intro r <;> split_ifs <;> rfl

theorem Database.Sound.finish (h : db.Sound hash E) (job : Job) (results : StrMap Json)
    (clock : Str) (now : Time) :
    Database.Sound hash E { db with jobs := finish db.jobs job results clock now } := by
  apply h.updateJobs <;> intro r <;> split_ifs <;> rfl

theorem Database.Sound.upsertDocument {U : UnicodeTables} (h : db.Sound hash E)
    {doc : NewDocument} {addedBy : Option UserId} {now : Time} {tables : Tables V} {id : Nat}
    (hadded : ∀ user, addedBy = some user → HasUser db.accounts user)
    (hok : upsertDocument U hash E db.tables doc addedBy now = .ok (tables, id)) :
    Database.Sound hash E { db with tables := tables } :=
  { h with
    tables := sound_upsertDocument h.tables hok
    passageUsers := usersAre_upsertDocument h.passageUsers hadded hok }

theorem Database.Sound.deleteDocument (h : db.Sound hash E) (id : Nat) :
    Database.Sound hash E { db with tables := (db.tables.deleteDocument id).1 } :=
  { h with
    tables := sound_deleteDocument h.tables id
    passageUsers := usersAre_deleteDocument h.passageUsers id }

theorem Database.Sound.recordPlays (h : db.Sound hash E) {user : UserId}
    (huser : HasUser db.accounts user) (input : PlayedRequest) :
    Database.Sound hash E { db with tables := db.tables.recordPlays user input } :=
  { h with
    tables := sound_recordPlays h.tables user input
    passageUsers := usersAre_recordPlays h.passageUsers huser input }

end Writes

/-! ## Every route keeps the database sound -/

section Routes

variable {hash : Str → Str} {E : Embedder V} {db : Database V}

/-- What a request may rely on: the database is sound, and the user is in it. -/
structure SoundFor (hash : Str → Str) (E : Embedder V) (user : UserId) (db : Database V) :
    Prop where
  sound : db.Sound hash E
  known : HasUser db.accounts user

/-- A token that the `SELECT` finds has an owner. -/
theorem hasUser_selectGrant (h : db.Sound hash E) {k : Str} {u : UserRow} {r : TokenRow}
    (hgrant : db.accounts.selectGrant k = some (u, r)) : HasUser db.accounts u.id := by
  obtain ⟨-, -, hrow⟩ := (Accounts.selectGrant_iff h.accounts.columns.hashes).1 hgrant
  exact ⟨u, (Table.row?_spec hrow).1, rfl⟩

variable (X : Externals V F) (state : AppContext V)

theorem sound_calls (user : UserId) : KeptByCalls X user (SoundFor X.sha256 E user) where
  documents hs hother := ⟨hs.sound.writeDocuments hs.known hother, hs.known⟩
  contribution _ _ _ hs := ⟨hs.sound.insertFact rfl, hs.known⟩
  factPlay hs huser hplay := ⟨hs.sound.insertPlay (huser ▸ hs.known) hplay, hs.known⟩
  passagePlays input hs := ⟨hs.sound.recordPlays hs.known input, hs.known⟩

/-- One case for each kind of statement. -/
theorem sound_routes (hE : ∀ E', state.passages = some E' → E' = E) :
    KeptByRoutes X state (Database.Sound X.sha256 E) (SoundFor X.sha256 E) where
  anyone hs := hs.sound
  granted hs hgrant := ⟨hs, hasUser_selectGrant hs hgrant⟩
  calls := sound_calls X
  accounts hs hstep :=
    ⟨hs.sound.writeAccounts hstep, (accountStep_sound hs.sound.accounts hstep).2 _ hs.known⟩
  inserted {_ user _} _ _ _ hs hinsert := by
    refine ⟨hs.sound.insertJob rfl (fun user' hby => ?_) hinsert, hs.known⟩
    obtain rfl : user = user' := Option.some.inj hby
    exact hs.known
  skipped hs := ⟨hs.sound.skipJob, hs.known⟩
  requeued hs hrequeue := ⟨hs.sound.requeue hrequeue, hs.known⟩
  upserted hs hstate hok := by
    obtain rfl := hE _ hstate
    exact ⟨hs.sound.upsertDocument (fun _ hby => Option.some.inj hby ▸ hs.known) hok, hs.known⟩
  deleted id hs := ⟨hs.sound.deleteDocument id, hs.known⟩

end Routes

/-! ## Runs of the server -/

/-- A request, the bootstrap of a start, or a statement of an ingest worker. -/
inductive DatabaseAction where
  | request (course : Course) (now : Time) (request : HttpRequest)
  | ensureBootstrapAdmin (adminName : Str) (adminToken : Option Str) (now : Time)
  | claim (locked : List Nat) (now : Time)
  | store (doc : NewDocument) (now : Time)
  | finish (job : Job) (results : StrMap Json) (clock : Str) (now : Time)

/-- What a step answers. -/
inductive DatabaseEvent where
  | answered (answer : Except ApiError Reply)
  | bootstrapped (answer : Except String Unit)
  | claimed (job : Option Job)
  | stored (answer : Except Str Nat)
  | finished (job : Nat)

/-- The bootstrap is a step on the accounts. -/
theorem ensureBootstrapAdmin_step (hash : Str → Str) (accounts : AccountTables) (adminName : Str)
    (adminToken : Option Str) (now : Time) :
    ∃ e, accountStep hash accounts (.run (.ensureBootstrapAdmin adminName adminToken) now) =
      some ((accounts.ensureBootstrapAdmin hash adminName adminToken now).1, e) := by
  refine ⟨(Accounts.runOp hash accounts now (.ensureBootstrapAdmin adminName adminToken)).2, ?_⟩
  rw [accountStep, ← runOp_ensureBootstrapAdmin]

section Runs

variable [Inhabited V] (X : Externals V F) (state : AppContext V)

/-- The database of a server that was started with `state`. Workers run only with an engine; one
may finish a job at any time, whoever holds it. -/
def database : Machine (Database V) DatabaseAction DatabaseEvent where
  init := Database.empty
  step db
    | .request course now request =>
        let (answer, m) := handle X state request course ⟨db, now, 0⟩
        some (m.db, .answered answer)
    | .ensureBootstrapAdmin adminName adminToken now =>
        let (accounts, answer) :=
          db.accounts.ensureBootstrapAdmin X.sha256 adminName adminToken now
        some ({ db with accounts := accounts }, .bootstrapped answer)
    | .claim locked now =>
        match claim db.jobs locked now with
        | some (jobs, job) => some ({ db with jobs := jobs }, .claimed (some job))
        | none => some (db, .claimed none)
    | .store doc now =>
        state.passages.map fun E =>
          match upsertDocument X.unicode X.sha256 E db.tables doc none now with
          | .ok (tables, id) => ({ db with tables := tables }, .stored (.ok id))
          | .error e => (db, .stored (.error e))
    | .finish job results clock now =>
        some ({ db with jobs := finish db.jobs job results clock now }, .finished job.id)

variable {X state} {E : Embedder V} {db db' : Database V}

theorem sound_step (hE : ∀ E', state.passages = some E' → E' = E) {a : DatabaseAction}
    {e : DatabaseEvent} (h : db.Sound X.sha256 E)
    (hs : (database X state).step db a = some (db', e)) : db'.Sound X.sha256 E := by
  cases a with
  | request course now request =>
      cases hs
      exact (sound_routes X state hE).handle request ⟨db, now, 0⟩ h
  | ensureBootstrapAdmin adminName adminToken now =>
      cases hs
      obtain ⟨e, hstep⟩ := ensureBootstrapAdmin_step X.sha256 db.accounts adminName
        adminToken now
      exact h.writeAccounts hstep
  | claim locked now =>
      rw [database] at hs
      cases hclaim : claim db.jobs locked now with
      | none =>
          simp only [hclaim] at hs
          cases hs
          exact h
      | some found =>
          simp only [hclaim] at hs
          cases hs
          exact h.claim hclaim
  | store doc now =>
      obtain ⟨E', hstate, hs⟩ := Option.map_eq_some_iff.1 hs
      obtain rfl := hE E' hstate
      cases hok : upsertDocument X.unicode X.sha256 E' db.tables doc none now with
      | error e =>
          rw [hok] at hs
          cases hs
          exact h
      | ok p =>
          rw [hok] at hs
          cases hs
          exact h.upsertDocument (fun _ hby => by cases hby) hok
  | finish job results clock now =>
      cases hs
      exact h.finish job results clock now

/-- **The database is sound** in every run, whichever statements of its requests fail or lose their
answers: keys are unique, sequences ahead of their tables, every reference is to a row that exists,
and the chunks of each document are those of its body. -/
theorem database_sound (hE : ∀ E', state.passages = some E' → E' = E) {h : List DatabaseEvent}
    (hr : (database X state).Run h db) : db.Sound X.sha256 E := by
  refine hr.invariant (I := fun _ db => db.Sound X.sha256 E) (sound_empty X.sha256 E) ?_
  exact fun _ _ _ _ _ _ ih hs _ => sound_step hE ih hs

end Runs

/-! ## A page, its reader and the bootstrap admin -/

/-- The admin, whose token is new, creates a page about a song that a job then fetches. -/
def noted : List DatabaseAction :=
  [.ensureBootstrapAdmin "admin".toList (some Accounts.sampleToken) 0,
    .request Course.still 1 kimLookup,
    .claim [] 2,
    .request Course.still 3 ⟨some ("Bearer ".toList ++ Accounts.sampleToken),
      .admin (.createDocument ⟨.song, some "Thriller".toList, "Michael Jackson".toList, none,
        "Thriller".toList, "It was recorded in 1982 in a studio in Los Angeles.".toList⟩
        "note".toList)⟩,
    .request Course.still 4 ⟨some ("Bearer ".toList ++ Accounts.sampleToken),
      .user (.passagePlayed ⟨"6f1c3a52-9d0b-4e7a-8c15-2b4d7e9f0a31".toList, 4, [1]⟩)⟩]

theorem database_sound_noted :
    let db := ((database kimExternals kimContext).exec ([], Database.empty) noted).2
    db.tables.plays.length = 1 ∧ db.jobs.length = 1 ∧
      db.Sound kimExternals.sha256 Passages.wordEmbedder := by
  have hE : ∀ E', kimContext.passages = some E' → E' = Passages.wordEmbedder :=
    fun _ h => (Option.some.inj h).symm
  exact ⟨by decide +kernel, by decide +kernel, database_sound hE (Machine.run_exec noted)⟩

end AnyPlayerSync.Server
