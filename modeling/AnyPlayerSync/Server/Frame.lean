import AnyPlayerSync.Accounts.Tokens
import AnyPlayerSync.Passages.Plays
import AnyPlayerSync.Server.UserCalls

/-!
# What a request may touch

A request of a user without admin rights changes its own data only, whichever route it takes, in
whatever state it finds the database and whichever of its statements fail (`touches_own_data`).
`OwnData` lists what stays as it was. The job table is apart: the lookup of passages may insert or
requeue one job, when the user's quota allows it (`AutoQueued`).
-/

set_option autoImplicit false

namespace AnyPlayerSync.Server

open AnyPlayerSync.Accounts (AccountTables AuthenticatedUser TokenRow)
open AnyPlayerSync.Facts (FactTables)
open AnyPlayerSync.Foundation
open AnyPlayerSync.Foundation.Program
open AnyPlayerSync.Passages (Candidate JobRow PassageQuery PlayedRequest Requeues Tables
  TrackRequest autoCountToday autoDailyLimit insertJob jobKeys newJob requeueJob)
open AnyPlayerSync.Sync (ApiError Documents Time UserId)

variable {V F : Type}

/-! ## Frames -/

/-- A row of `auth_tokens` that is as it was, but for `last_used_at` where it is the presented
one. -/
def TokenKept (tokenId : Int) (r r' : TokenRow) : Prop :=
  r' = r ∨ (r.id = tokenId ∧ ∃ now, r' = { r with lastUsedAt := some now })

theorem TokenKept.trans {tokenId : Int} {r r' r'' : TokenRow} (h : TokenKept tokenId r r')
    (h' : TokenKept tokenId r' r'') : TokenKept tokenId r r'' := by
  rcases h with rfl | ⟨hid, now, rfl⟩
  · exact h'
  · rcases h' with rfl | ⟨-, later, rfl⟩
    · exact Or.inr ⟨hid, now, rfl⟩
    · exact Or.inr ⟨hid, later, rfl⟩

/-- What a request of the user that presents the token leaves as it was, jobs apart. -/
structure OwnData (user : UserId) (tokenId : Int) (db db' : Database V) : Prop where
  users : db'.accounts.users = db.accounts.users
  tokens : ∃ f, db'.accounts.tokens = db.accounts.tokens.map f ∧ ∀ r, TokenKept tokenId r (f r)
  documents : ∀ key : UserId × Int, key.1 ≠ user → db'.documents key = db.documents key
  facts : db.facts.facts <+: db'.facts.facts
  factPlays : (db'.facts.plays.filter fun p => p.userId ≠ user) =
    db.facts.plays.filter fun p => p.userId ≠ user
  docs : db'.tables.docs = db.tables.docs
  chunks : db'.tables.chunks = db.tables.chunks
  passagePlays : (db'.tables.plays.filter fun p => p.userId ≠ user) =
    db.tables.plays.filter fun p => p.userId ≠ user

section OwnData

variable {user : UserId} {tokenId : Int} {db db' db'' : Database V}

theorem OwnData.refl (user : UserId) (tokenId : Int) (db : Database V) :
    OwnData user tokenId db db where
  users := rfl
  tokens := ⟨id, (List.map_id _).symm, fun _ => Or.inl rfl⟩
  documents _ _ := rfl
  facts := List.prefix_refl _
  factPlays := rfl
  docs := rfl
  chunks := rfl
  passagePlays := rfl

theorem OwnData.trans (h : OwnData user tokenId db db') (h' : OwnData user tokenId db' db'') :
    OwnData user tokenId db db'' where
  users := h'.users.trans h.users
  tokens := by
    obtain ⟨f, hf, hkept⟩ := h.tokens
    obtain ⟨g, hg, hkept'⟩ := h'.tokens
    refine ⟨g ∘ f, ?_, fun r => (hkept r).trans (hkept' (f r))⟩
    rw [hg, hf, List.map_map]
  documents key hkey := (h'.documents key hkey).trans (h.documents key hkey)
  facts := h.facts.trans h'.facts
  factPlays := h'.factPlays.trans h.factPlays
  docs := h'.docs.trans h.docs
  chunks := h'.chunks.trans h.chunks
  passagePlays := h'.passagePlays.trans h.passagePlays

/-- The `UPDATE` of `last_used_at`. -/
theorem ownData_touch (db : Database V) (now : Time) :
    OwnData user tokenId db { db with accounts := db.accounts.touchToken tokenId now } where
  __ := OwnData.refl user tokenId db
  tokens := by
    refine ⟨fun r => if r.id = tokenId then { r with lastUsedAt := some now } else r, rfl, ?_⟩
    intro r
    by_cases hid : r.id = tokenId
    · exact Or.inr ⟨hid, now, if_pos hid⟩
    · exact Or.inl (if_neg hid)

/-- A statement on the user's own row of `user_sync_document`. -/
theorem ownData_documents (db : Database V) {documents : Documents}
    (h : ∀ key : UserId × Int, key.1 ≠ user → documents key = db.documents key) :
    OwnData user tokenId db { db with documents := documents } where
  __ := OwnData.refl user tokenId db
  documents := h

/-- New rows that a filter leaves out. -/
theorem filter_append_none {α : Type} {p : α → Prop} [DecidablePred p] {rows : List α}
    (h : ∀ a ∈ rows, ¬ p a) (old : List α) :
    ((old ++ rows).filter fun a => p a) = old.filter fun a => p a := by
  have hnone : (rows.filter fun a => p a) = [] := by
    rw [List.filter_eq_nil_iff]
    intro a ha hp
    exact h a ha (of_decide_eq_true hp)
  rw [List.filter_append, hnone, List.append_nil]

/-- A statement that inserts into `dj_facts`, or the user's rows into `dj_fact_plays`. -/
theorem ownData_facts (db : Database V) {facts : FactTables}
    (hfacts : db.facts.facts <+: facts.facts)
    (hplays : ∃ rows, facts.plays = db.facts.plays ++ rows ∧ ∀ p ∈ rows, p.userId = user) :
    OwnData user tokenId db { db with facts := facts } where
  __ := OwnData.refl user tokenId db
  facts := hfacts
  factPlays := by
    obtain ⟨rows, hrows, hown⟩ := hplays
    rw [hrows]
    exact filter_append_none (fun p hp hne => hne (hown p hp)) _

/-- A statement on the job table. -/
theorem ownData_jobs (db : Database V) (jobs : List JobRow) (nextJob : Nat) :
    OwnData user tokenId db { db with jobs := jobs, nextJob := nextJob } where
  __ := OwnData.refl user tokenId db

/-- Plays are recorded under the user's own id. -/
theorem ownData_recordPlays (db : Database V) (input : PlayedRequest) :
    OwnData user tokenId db { db with tables := db.tables.recordPlays user input } where
  __ := OwnData.refl user tokenId db
  passagePlays := by
    apply filter_append_none
    intro p hp hne
    obtain ⟨hp, -⟩ := List.mem_filter.1 hp
    obtain ⟨c, -, rfl⟩ := List.mem_map.1 hp
    exact hne rfl

end OwnData

/-- Only the user's own data has changed, and no job. -/
structure Quiet (user : UserId) (tokenId : Int) (db db' : Database V) : Prop where
  own : OwnData user tokenId db db'
  jobs : db'.jobs = db.jobs

/-- One job of the looked-up track was inserted, or requeued. -/
inductive JobsAfter (U : UnicodeTables) (user : UserId) (track : TrackRequest)
    (jobs : List JobRow) : List JobRow → Prop
  | inserted (id : Nat) (now : Time) (fresh : ∀ r ∈ jobs, r.keys ≠ jobKeys U track) :
      JobsAfter U user track jobs
        (jobs ++ [newJob id (jobKeys U track) track (some user) true now])
  | requeued (now : Time) :
      JobsAfter U user track jobs
        (jobs.map fun r => if Requeues (jobKeys U track) false now r then r.requeued now else r)

/-- The user was below the quota when it was counted, between `start` and `stop`. -/
def UnderQuota (jobs : List JobRow) (user : UserId) (start stop : Time) : Prop :=
  ∃ now, start ≤ now ∧ now ≤ stop ∧ autoCountToday jobs user now < autoDailyLimit

/-- What a lookup of passages may do to the job table. -/
structure AutoQueued (U : UnicodeTables) (user : UserId) (track : TrackRequest)
    (start stop : Time) (jobs jobs' : List JobRow) : Prop where
  quota : UnderQuota jobs user start stop
  job : JobsAfter U user track jobs jobs'

/-- What holds at some time of an interval holds of a longer one. -/
theorem UnderQuota.later {jobs : List JobRow} {user : UserId} {start stop stop' : Time}
    (h : UnderQuota jobs user start stop) (hle : stop ≤ stop') :
    UnderQuota jobs user start stop' := by
  obtain ⟨now, hstart, hstop, hcount⟩ := h
  exact ⟨now, hstart, Int.le_trans hstop hle, hcount⟩

/-! ## Calls that touch no job -/

section Quiet

variable {user : UserId} {tokenId : Int} {db : Database V} (X : Externals V F)

theorem Quiet.then {s s' : Database V} (h : Quiet user tokenId db s)
    (h' : OwnData user tokenId s s') (hjobs : s'.jobs = s.jobs) : Quiet user tokenId db s' :=
  ⟨h.own.trans h', hjobs.trans h.jobs⟩

theorem insertFact_prefix (facts : FactTables) (row : Facts.FactRow) :
    facts.facts <+: (facts.insertFact row).1.facts ∧
      (facts.insertFact row).1.plays = facts.plays := by
  rw [FactTables.insertFact]
  split
  · exact ⟨List.prefix_refl _, rfl⟩
  · exact ⟨List.prefix_append _ _, rfl⟩

/-- The play is the one row that is added. -/
theorem insertPlay_own {facts facts' : FactTables} {play : Facts.FactPlay}
    (hplay : facts.insertPlay play = some facts') :
    facts.facts <+: facts'.facts ∧ facts'.plays = facts.plays ++ [play] := by
  rw [FactTables.insertPlay] at hplay
  split_ifs at hplay
  obtain rfl := Option.some.inj hplay
  exact ⟨List.prefix_refl _, rfl⟩

theorem kept_quiet : KeptByUser X user (Quiet user tokenId db) where
  documents hs hother := hs.then (ownData_documents _ hother) rfl
  contribution input id sourceUrl now hs := by
    obtain ⟨hfacts, hplays⟩ := insertFact_prefix _ (input.row X.unicode X.sha256 id sourceUrl now)
    refine hs.then (ownData_facts _ hfacts ⟨[], ?_, fun _ h => absurd h List.not_mem_nil⟩) rfl
    rw [hplays, List.append_nil]
  factPlay hs huser hplay := by
    obtain ⟨hfacts, hplays⟩ := insertPlay_own hplay
    refine hs.then (ownData_facts _ hfacts ⟨_, hplays, ?_⟩) rfl
    intro p hp
    rw [List.mem_singleton.1 hp]
    exact huser
  passagePlays input hs := hs.then (ownData_recordPlays _ input) rfl

end Quiet

/-! ## The lookup of passages -/

section Lookup

variable {c : Course} {user : UserId} {tokenId : Int} {db : Database V} {start : Time}
  {track : TrackRequest} (X : Externals V F) (state : AppContext V)

/-- Before the enqueue: nothing has changed yet, and the user is below the quota. -/
def Allowed (user : UserId) (tokenId : Int) (db : Database V) (start now : Time)
    (s : Database V) : Prop :=
  Quiet user tokenId db s ∧ UnderQuota db.jobs user start now

/-- After it. -/
def Served (U : UnicodeTables) (user : UserId) (tokenId : Int) (track : TrackRequest)
    (db : Database V) (start now : Time) (s : Database V) : Prop :=
  OwnData user tokenId db s ∧
    (s.jobs = db.jobs ∨ AutoQueued U user track start now db.jobs s.jobs)

/-- Nothing has been enqueued so far. -/
theorem Quiet.served {U : UnicodeTables} {now : Time} {s : Database V}
    (h : Quiet user tokenId db s) : Served U user tokenId track db start now s :=
  ⟨h.own, Or.inl h.jobs⟩

theorem Served.later {U : UnicodeTables} {now now' : Time} {s : Database V}
    (h : Served U user tokenId track db start now s) (hle : now ≤ now') :
    Served U user tokenId track db start now' s :=
  ⟨h.1, h.2.imp_right fun hq => ⟨hq.quota.later hle, hq.job⟩⟩

theorem Allowed.later {now now' : Time} {s : Database V}
    (h : Allowed user tokenId db start now s) (hle : now ≤ now') :
    Allowed user tokenId db start now' s :=
  ⟨h.1, h.2.later hle⟩

/-- A statement of `enqueue` may change the jobs; when it answers that it has not, the next one
may. -/
theorem triple_enqueueStatement {failure : ApiError}
    {f : Time → Database V → Database V × Except ApiError Bool}
    (h : ∀ now s, Allowed user tokenId db start now s →
      Served X.unicode user tokenId track db start now (f now s).1 ∧
        ((f now s).2 = .ok false → Quiet user tokenId db (f now s).1)) :
    Triple c (Allowed user tokenId db start) (statement failure f) fun r now s =>
      Served X.unicode user tokenId track db start now s ∧
        (r = .ok false → Allowed user tokenId db start now s) := by
  apply triple_statement
  intro t now s hs hle
  have hs := hs.later hle
  obtain ⟨hserved, hquiet⟩ := h now s hs
  refine ⟨⟨hserved, fun hfalse => ⟨hquiet hfalse, hs.2⟩⟩, ⟨hs.1.served, ?_⟩, hserved, ?_⟩
  · intro hfalse
    cases hfalse
  · intro hfalse
    cases hfalse

/-- The insert adds a job of the user, under the quota. -/
theorem triple_insertStatement :
    Triple c (Allowed user tokenId db start) (insertStatement (V := V) X track (some user) true)
      fun r now s => Served X.unicode user tokenId track db start now s ∧
        (r = .ok false → Allowed user tokenId db start now s) := by
  apply triple_enqueueStatement
  intro now s hs
  obtain ⟨hquiet, hquota⟩ := hs
  simp only [insertJob]
  split_ifs with hkeys
  · have hq : Quiet user tokenId db { s with nextJob := s.nextJob + 1 } :=
      hquiet.then (ownData_jobs s s.jobs _) rfl
    exact ⟨hq.served, fun _ => hq⟩
  · refine ⟨⟨hquiet.own.trans (ownData_jobs s _ _), Or.inr ⟨hquota, ?_⟩⟩, fun h => by cases h⟩
    simp only [hquiet.jobs]
    refine .inserted s.nextJob now fun r hr hrow => hkeys ?_
    rw [← hquiet.jobs] at hr
    exact List.any_eq_true.2 ⟨r, hr, decide_eq_true hrow⟩

/-- The requeue changes the job of the track only. -/
theorem triple_requeueStatement :
    Triple c (Allowed user tokenId db start) (requeueStatement (V := V) X track false)
      fun r now s => Served X.unicode user tokenId track db start now s ∧
        (r = .ok false → Allowed user tokenId db start now s) := by
  apply triple_enqueueStatement
  intro now s hs
  obtain ⟨hquiet, hquota⟩ := hs
  cases hfound : requeueJob s.jobs (jobKeys X.unicode track) false now with
  | none => exact ⟨hquiet.served, fun _ => hquiet⟩
  | some found =>
      obtain ⟨row, -, rfl⟩ := Option.map_eq_some_iff.1 hfound
      refine ⟨⟨hquiet.own.trans (ownData_jobs s _ _), Or.inr ⟨hquota, ?_⟩⟩, fun h => by cases h⟩
      simp only [hquiet.jobs]
      exact .requeued now

/-- At most one of the statements of `enqueue` changes the jobs. -/
theorem triple_enqueue :
    Triple c (Allowed user tokenId db start) (enqueue (V := V) X track (some user) true false)
      fun _ => Served X.unicode user tokenId track db start := by
  refine triple_bind (triple_insertStatement X) ?_ fun _ _ _ hs => hs.1
  intro inserted
  cases inserted with
  | true => exact triple_pure fun _ _ hs => hs.1
  | false =>
      refine Triple.pre (P := Allowed user tokenId db start) ?_ fun _ _ hs => hs.2 rfl
      refine triple_bind (triple_requeueStatement X) ?_ fun _ _ _ hs => hs.1
      intro requeued
      cases requeued with
      | true => exact triple_pure fun _ _ hs => hs.1
      | false =>
          refine triple_bind (R := fun _ => Served X.unicode user tokenId track db start)
            (triple_query ?_) (fun _ => triple_pure fun _ _ hs => hs) fun _ _ _ hs => hs
          intro t now s hs hle
          exact ⟨hs.1.later hle, hs.1.later hle⟩

/-- What has been untouched since `start`. -/
def Untouched (user : UserId) (tokenId : Int) (db : Database V) (start now : Time)
    (s : Database V) : Prop :=
  Quiet user tokenId db s ∧ start ≤ now

/-- A lookup enqueues its own track, under the quota. -/
theorem triple_autoQueue (query : PassageQuery) (candidates : List (Candidate V)) :
    Triple c (Untouched user tokenId db start) (autoQueue X user query candidates)
      fun _ => Served X.unicode user tokenId query db start := by
  rw [autoQueue]
  split
  · exact triple_pure fun _ _ hs => hs.1.served
  · refine triple_bind (R := fun r now s => Quiet user tokenId db s ∧
      ∀ count, r = .ok count → count < autoDailyLimit → UnderQuota db.jobs user start now)
      (triple_query ?_) ?_ fun _ _ _ hs => hs.1.served
    · intro t now s hs hle
      refine ⟨⟨hs.1, fun count hcount hunder => ?_⟩, hs.1, fun count hcount => by cases hcount⟩
      refine ⟨now, Int.le_trans hs.2 hle, Int.le_refl _, ?_⟩
      rw [← hs.1.jobs, Except.ok.inj hcount]
      exact hunder
    · intro count
      split
      · exact triple_pure fun _ _ hs => hs.1.served
      · split
        · rename_i hunder
          refine Triple.pre (P := Allowed user tokenId db start) ?_
            fun _ _ hs => ⟨hs.1, hs.2 count rfl hunder⟩
          refine triple_bind (triple_enqueue X) (fun outcome => ?_) fun _ _ _ hs => hs
          split <;> exact triple_pure fun _ _ hs => hs
        · exact triple_pure fun _ _ hs => hs.1.served

theorem triple_passageLookup [Inhabited V] (query : PassageQuery) :
    Triple c (Untouched user tokenId db start) (passageLookup X state user query)
      fun _ => Served X.unicode user tokenId query db start := by
  have hengine : Triple c (Untouched user tokenId db start) (engine state)
      fun _ => Untouched user tokenId db start := by
    rw [engine]
    split
    · exact triple_pure fun _ _ hs => hs
    · exact triple_fail fun _ _ hs => hs
  refine triple_bind hengine ?_ fun _ _ _ hs => hs.1.served
  intro E
  split
  · exact triple_fail fun _ _ hs => hs.1.served
  · refine triple_bind (R := fun _ => Untouched user tokenId db start) (triple_query ?_) ?_
      fun _ _ _ hs => hs.1.served
    · intro t now s hs hle
      exact ⟨⟨hs.1, Int.le_trans hs.2 hle⟩, hs.1, Int.le_trans hs.2 hle⟩
    · intro candidates
      refine triple_bind (triple_autoQueue X query candidates) ?_ fun _ _ _ hs => hs
      intro answer
      cases answer with
      | some response => exact triple_pure fun _ _ hs => hs
      | none =>
          refine triple_bind (R := fun _ => Served X.unicode user tokenId query db start)
            (triple_clock fun _ _ _ hs hle => hs.later hle) (fun now => ?_) fun _ _ _ hs => hs
          refine triple_bind (R := fun _ => Served X.unicode user tokenId query db start)
            (triple_check fun _ _ hs => hs) (fun response => ?_) fun _ _ _ hs => hs
          exact triple_pure fun _ _ hs => hs

end Lookup

/-! ## Requests without admin rights -/

section Requests

variable {c : Course} {tokenId : Int} {db : Database V} {start : Time} {token : Str}
  {u : AuthenticatedUser} (X : Externals V F) (state : AppContext V)

/-- What a token has to be for its user to be authenticated. -/
theorem authenticate_spec {accounts : AccountTables} {hash : Str → Str}
    (h : accounts.authenticate hash token = .ok (u, tokenId)) :
    Text.trim token ≠ [] ∧
      ∃ user row, accounts.selectGrant (hash (Text.trim token)) = some (user, row) ∧
        user.disabledAt.isSome = false ∧ u = ⟨user.id, user.name, user.isAdmin⟩ ∧
        tokenId = row.id := by
  rw [AccountTables.authenticate] at h
  split_ifs at h with hblank
  cases hgrant : accounts.selectGrant (hash (Text.trim token)) with
  | none => simp only [hgrant] at h; cases h
  | some found =>
      obtain ⟨user, row⟩ := found
      simp only [hgrant] at h
      split_ifs at h with hdisabled
      cases h
      exact ⟨hblank, user, row, rfl, Bool.eq_false_iff.2 hdisabled, rfl, rfl⟩

/-- Authentication finds the user of the token and writes nothing but its `last_used_at`. -/
theorem triple_authenticateToken
    (hauth : db.accounts.authenticate X.sha256 token = .ok (u, tokenId)) :
    Triple c (fun now s => s = db ∧ start ≤ now) (authenticateToken X token)
      fun r now s => Untouched u.id tokenId db start now s ∧ ∀ a, r = .ok a → a = u := by
  obtain ⟨hblank, user, row, hgrant, hdisabled, rfl, rfl⟩ := authenticate_spec hauth
  rw [authenticateToken, if_neg hblank]
  have hquiet : Quiet user.id row.id db db := ⟨OwnData.refl _ _ _, rfl⟩
  refine triple_bind (R := fun r now s => (s = db ∧ start ≤ now) ∧
    ∀ found, r = .ok found → found = some (user, row)) (triple_query ?_) ?_ ?_
  · rintro t now s ⟨rfl, hstart⟩ hle
    refine ⟨⟨⟨rfl, Int.le_trans hstart hle⟩, ?_⟩, ⟨rfl, Int.le_trans hstart hle⟩, ?_⟩
    · intro found hfound
      rw [← hgrant]
      exact (Except.ok.inj hfound).symm
    · intro found hfound
      cases hfound
  · intro found
    by_cases hfound : found = some (user, row)
    · subst hfound
      simp only [hdisabled, Bool.false_eq_true, if_false]
      refine triple_bind (R := fun _ => Untouched user.id row.id db start)
        (triple_attempt (triple_statement ?_)) ?_ ?_
      · rintro t now s ⟨⟨rfl, hstart⟩, -⟩ hle
        have hle := Int.le_trans hstart hle
        exact ⟨⟨⟨ownData_touch s now, rfl⟩, hle⟩, ⟨hquiet, hle⟩, ⟨ownData_touch s now, rfl⟩, hle⟩
      · exact fun _ => triple_pure fun _ _ hs => ⟨hs, fun a ha => (Except.ok.inj ha).symm⟩
      · exact fun e t s hs => ⟨hs, fun a ha => by cases ha⟩
    · exact fun m hm => absurd (hm.2 found rfl) hfound
  · rintro e t s ⟨⟨rfl, hstart⟩, -⟩
    exact ⟨⟨hquiet, hstart⟩, fun a ha => by cases ha⟩

/-- What a call of the user leaves behind. -/
def Touched (U : UnicodeTables) (user : UserId) (tokenId : Int) (call : Call) (db : Database V)
    (start now : Time) (s : Database V) : Prop :=
  OwnData user tokenId db s ∧ (s.jobs = db.jobs ∨
    ∃ query, call = .user (.passageLookup query) ∧
      AutoQueued U user query start now db.jobs s.jobs)

theorem Quiet.touched {U : UnicodeTables} {user : UserId} {call : Call} {now : Time}
    {s : Database V} (h : Quiet user tokenId db s) : Touched U user tokenId call db start now s :=
  ⟨h.own, Or.inl h.jobs⟩

/-- A handler that enqueues nothing. -/
theorem stays_touched {α : Type} {U : UnicodeTables} {user : UserId} {call : Call}
    {p : Handler V α} (h : Stays c (Quiet user tokenId db) p) :
    Triple c (Untouched user tokenId db start) p
      fun _ => Touched U user tokenId call db start :=
  Triple.mono h (fun _ _ hs => hs.1) fun _ _ _ hs => hs.touched

/-- Only a lookup of passages may touch a job. -/
theorem triple_userCall [Inhabited V] (user : UserId) (call : UserCall) :
    Triple c (Untouched user tokenId db start) (userCall X state user call)
      fun _ => Touched X.unicode user tokenId (.user call) db start := by
  by_cases hlookup : ∃ query, call = .passageLookup query
  · obtain ⟨query, rfl⟩ := hlookup
    refine Triple.mono (triple_passageLookup X state query) (fun _ _ hs => hs) ?_
    exact fun _ _ _ hs => ⟨hs.1, hs.2.imp_right fun hq => ⟨query, rfl, hq⟩⟩
  · apply stays_touched
    apply (kept_quiet X).userCall state call
    exact fun query hcall => absurd ⟨query, hcall⟩ hlookup

/-- After authentication only the user's own handler runs. -/
theorem triple_authenticated {α : Type} {call : Call} {p : Handler V AuthenticatedUser}
    {f : AuthenticatedUser → Handler V α}
    (hp : Triple c (fun now s => s = db ∧ start ≤ now) p fun r now s =>
      Untouched u.id tokenId db start now s ∧ ∀ a, r = .ok a → a = u)
    (hf : Triple c (Untouched u.id tokenId db start) (f u)
      fun _ => Touched X.unicode u.id tokenId call db start) :
    Triple c (fun now s => s = db ∧ start ≤ now) (p >>= f)
      fun _ => Touched X.unicode u.id tokenId call db start := by
  refine triple_bind hp (fun a => ?_) fun _ _ _ hs => hs.1.1.touched
  intro m hm
  obtain rfl := hm.2 a rfl
  exact hf m hm.1

/-- `require_admin` stops whoever is no admin. -/
theorem triple_admin (hauth : db.accounts.authenticate X.sha256 token = .ok (u, tokenId))
    (hu : u.isAdmin = false) {authorization : Option Str}
    (htoken : bearerToken authorization = some token) :
    Triple c (fun now s => s = db ∧ start ≤ now) (admin X authorization)
      fun r _ s => Quiet u.id tokenId db s ∧ ∃ e, r = .error e := by
  have hdenied : requireAdmin u = .error (ApiError.forbidden "admin privileges are required") := by
    rw [requireAdmin, hu]
    rfl
  rw [admin, authenticateWithHeaders, htoken]
  refine triple_bind (triple_authenticateToken X hauth) (fun a => ?_)
    fun e _ _ hs => ⟨hs.1.1, e, rfl⟩
  refine triple_bind (R := fun r _ s => Quiet u.id tokenId db s ∧ ∃ e, r = .error e)
    (triple_check ?_) (fun _ m hm => ?_) fun e _ _ hs => ⟨hs.1, e, rfl⟩
  · intro _ s hs
    rw [hs.2 a rfl]
    exact ⟨hs.1.1, _, hdenied⟩
  · obtain ⟨-, e, he⟩ := hm
    cases he

/-- Only `ws_updates` looks for a token elsewhere. -/
theorem token_eq_bearer {authorization : Option Str} {call : Call}
    (hcall : ∀ queryToken, call ≠ .wsUpdates queryToken) :
    HttpRequest.token ⟨authorization, call⟩ = bearerToken authorization := by
  rw [HttpRequest.token]
  cases bearerToken authorization with
  | some token => rfl
  | none =>
      cases call with
      | wsUpdates queryToken => exact absurd rfl (hcall queryToken)
      | health | adminLogin | adminIndex | admin | user => rfl

/-- One case for each kind of route. -/
theorem triple_handle [Inhabited V] (request : HttpRequest)
    (htoken : request.token = some token)
    (hauth : db.accounts.authenticate X.sha256 token = .ok (u, tokenId)) (hu : u.isAdmin = false) :
    Triple c (fun now s => s = db ∧ start ≤ now) (handle X state request)
      fun _ => Touched X.unicode u.id tokenId request.call db start := by
  have hp : Triple c (fun now s => s = db ∧ start ≤ now) (authenticateToken X token)
      fun r now s => Untouched u.id tokenId db start now s ∧ ∀ a, r = .ok a → a = u :=
    triple_authenticateToken X hauth
  have hquiet : Quiet u.id tokenId db db := ⟨OwnData.refl _ _ _, rfl⟩
  obtain ⟨authorization, call⟩ := request
  cases call with
  | health =>
      refine triple_bind (R := fun _ _ s => s = db) (triple_clock fun _ _ _ hs _ => hs.1) ?_ ?_
      · rintro now
        refine triple_pure ?_
        rintro t s rfl
        exact hquiet.touched
      · rintro e t s rfl
        exact hquiet.touched
  | adminLogin | adminIndex =>
      refine triple_pure ?_
      rintro t s ⟨rfl, -⟩
      exact hquiet.touched
  | wsUpdates queryToken =>
      have hws : authenticateWithHeadersOrQueryToken X authorization queryToken =
          authenticateToken (V := V) X token := by
        rw [authenticateWithHeadersOrQueryToken.eq_def]
        cases hbearer : bearerToken authorization with
        | some found =>
            simp only [HttpRequest.token, hbearer, Option.some.injEq] at htoken
            rw [htoken]
        | none =>
            simp only [HttpRequest.token, hbearer] at htoken
            subst htoken
            rfl
      rw [← hws] at hp
      exact triple_authenticated X hp (stays_touched (stays_pure _))
  | admin call =>
      rw [token_eq_bearer fun _ => Call.noConfusion] at htoken
      refine triple_bind (triple_admin X hauth hu htoken) ?_ fun _ _ _ hs => hs.1.touched
      intro user m hm
      obtain ⟨-, e, he⟩ := hm
      cases he
  | user call =>
      rw [token_eq_bearer fun _ => Call.noConfusion] at htoken
      have huser : authenticateWithHeaders X authorization =
          authenticateToken (V := V) X token := by
        rw [authenticateWithHeaders, htoken]
      rw [← huser] at hp
      exact triple_authenticated X hp (triple_userCall X state u.id call)

end Requests

/-- **A request of a user without admin rights touches its own data only.** Whatever the request,
the state of the database and the course of its statements: `OwnData` holds, and the jobs are as
they were, or the request is a lookup of passages by a user below the quota, and the one job of its
track was inserted or requeued. -/
theorem touches_own_data [Inhabited V] (X : Externals V F) (state : AppContext V)
    (request : HttpRequest) (c : Course) (m : Moment (Database V)) {token : Str}
    {u : AuthenticatedUser} {tokenId : Int} (htoken : request.token = some token)
    (hauth : m.db.accounts.authenticate X.sha256 token = .ok (u, tokenId))
    (hu : u.isAdmin = false) :
    let after := (handle X state request c m).2
    OwnData u.id tokenId m.db after.db ∧ (after.db.jobs = m.db.jobs ∨
      ∃ query, request.call = .user (.passageLookup query) ∧
        AutoQueued X.unicode u.id query m.now after.now m.db.jobs after.db.jobs) :=
  triple_handle X state request htoken hauth hu m ⟨rfl, Int.le_refl _⟩

/-! ## A lookup on an empty server -/

/-- The user `kim` with a token, and nothing else. -/
def kimDatabase : Database Nat where
  accounts := ((Accounts.accounts Accounts.sampleHash).exec
    ([], (Accounts.accounts Accounts.sampleHash).init)
    [.run (.createUser "kim".toList false) 0,
      .run (.createToken 1 none Accounts.sampleToken) 1]).2
  documents := fun _ => none
  facts := FactTables.empty
  tables := Tables.empty
  jobs := []
  nextJob := 1

/-- A small instance of what the code takes from elsewhere. -/
def kimExternals : Externals Nat Int where
  unicode := asciiTables
  sha256 := Accounts.sampleHash
  score _ := 1
  arithmetic := Passages.hundredths
  collate a b := !b.lex a fun x y => decide (x.toNat < y.toNat)

/-- A server without models and with an embedder. -/
def kimContext : AppContext Nat := ⟨⟨none, []⟩, ⟨none, []⟩, some Passages.wordEmbedder⟩

/-- The lookup of a song that has no passages. -/
def kimLookup : HttpRequest where
  authorization := some ("Bearer ".toList ++ Accounts.sampleToken)
  call := .user (.passageLookup ⟨"Thriller".toList, "Michael Jackson".toList, none⟩)

theorem touches_own_data_kim :
    let after := (handle kimExternals kimContext kimLookup Course.still ⟨kimDatabase, 2, 0⟩).2
    after.db.jobs.length = 1 ∧ OwnData 1 1 kimDatabase after.db := by
  have htoken : kimLookup.token = some Accounts.sampleToken := by decide +kernel
  have hauth : kimDatabase.accounts.authenticate Accounts.sampleHash Accounts.sampleToken =
      .ok (⟨1, "kim".toList, false⟩, 1) := by decide +kernel
  constructor
  · decide +kernel
  · exact (touches_own_data kimExternals kimContext kimLookup Course.still ⟨kimDatabase, 2, 0⟩
      htoken hauth rfl).1

end AnyPlayerSync.Server
