import AnyPlayerSync.Accounts.Model
import AnyPlayerSync.Foundation.Machine

/-!
# What a token grants

Runs of `create_user`, `create_token`, `revoke_token`, `set_user_disabled` and
`ensure_bootstrap_admin` from empty tables, in any order. A call may be refused by its own checks,
by a constraint of the schema, or by the database at any of its statements; the `UPDATE` of
`last_used_at` that an authentication spawns may run at any time.

The history alone says what a token grants (`grantOf`, `lastDisabled`, `AdminGranted`), and
`authenticate_token` answers accordingly in every state that a run can reach.
-/

set_option autoImplicit false

namespace AnyPlayerSync.Accounts

open AnyPlayerSync.Foundation
open AnyPlayerSync.Sync (Time UserId)

/-! ## The machine -/

/-- The operations on accounts, with the values that the server draws for them. -/
inductive AccountOp where
  | createUser (name : Str) (isAdmin : Bool)
  | createToken (userId : UserId) (label : Option Str) (token : Str)
  | revokeToken (tokenId : Int)
  | setUserDisabled (userId : UserId) (disabled : Bool)
  | ensureBootstrapAdmin (adminName : Str) (adminToken : Option Str)

/-- `refuse`: the database refuses a statement of the call, whose transaction may have used up
numbers of the two sequences. -/
inductive AccountAction where
  | run (op : AccountOp) (now : Time)
  | refuse (op : AccountOp) (users tokens : Nat)
  | touch (tokenId : Int) (now : Time)

/-- What an operation answers, or that it was refused. -/
inductive AccountEvent where
  | created (user : UserId) (isAdmin : Bool)
  | issued (row : Int) (user : UserId) (token : Str)
  | revoked (row : Int)
  | disabledSet (user : UserId) (disabled : Bool)
  | bootstrapped (row : Int) (user : UserId) (token : Str)
  | failed
  | quiet

section Machine

variable (hash : Str → Str)

/-- A call and what it reports when it succeeds. -/
def runOp (db : AccountTables) (now : Time) : AccountOp → AccountTables × AccountEvent
  | .createUser name isAdmin =>
      match db.createUser name isAdmin now with
      | (db, .ok created) => (db, .created created.id isAdmin)
      | (db, .error _) => (db, .failed)
  | .createToken userId label token =>
      match db.createToken hash userId label token now with
      | (db, .ok created) => (db, .issued created.id userId token)
      | (db, .error _) => (db, .failed)
  | .revokeToken tokenId =>
      match db.revokeToken tokenId now with
      | (db, .ok ()) => (db, .revoked tokenId)
      | (db, .error _) => (db, .failed)
  | .setUserDisabled userId disabled =>
      match db.setUserDisabled userId disabled now with
      | (db, .ok ()) => (db, .disabledSet userId disabled)
      | (db, .error _) => (db, .failed)
  | .ensureBootstrapAdmin adminName adminToken =>
      match adminToken, db.ensureBootstrapAdmin hash adminName adminToken now with
      | none, (db, _) => (db, .quiet)
      | some _, (db, .error _) => (db, .failed)
      -- the token is given to the user whose id the first upsert returns
      | some token, (after, .ok ()) =>
          let userId := (db.upsertAdmin (Text.trim adminName) now).2
          match Table.row? TokenRow.tokenHash (hash token) after.tokens with
          | some r => (after, .bootstrapped r.id userId token)
          | none => (after, .failed)

/-- One operation at a time; a refused one may have taken numbers from the sequences. -/
def accountStep (db : AccountTables) : AccountAction → Option (AccountTables × AccountEvent)
  | .run op now => some (runOp hash db now op)
  | .refuse _ users tokens =>
      some ({ db with nextUser := db.nextUser + users, nextToken := db.nextToken + tokens },
        .failed)
  | .touch tokenId now => some (db.touchToken tokenId now, .quiet)

/-- The account tables, started empty. -/
def accounts : Machine AccountTables AccountAction AccountEvent where
  init := AccountTables.empty
  step := accountStep hash

end Machine

/-! ## What a step can do -/

/-- The row that holds a token after the bootstrap's upsert. -/
theorem row_upsertToken (db : AccountTables) (userId : UserId) (h p : Str) (now : Time) :
    ∃ r, Table.row? TokenRow.tokenHash h (db.upsertToken userId h p now).tokens = some r ∧
      r.userId = userId ∧ r.revokedAt = none := by
  rw [AccountTables.upsertToken]
  split_ifs with hany
  · obtain ⟨r, hr, hhash⟩ := List.any_eq_true.1 hany
    have hsome : ∃ r, Table.row? TokenRow.tokenHash h db.tokens = some r := by
      cases hrow : Table.row? TokenRow.tokenHash h db.tokens with
      | none => exact absurd (of_decide_eq_true hhash) (Table.row?_eq_none_iff.1 hrow r hr)
      | some r => exact ⟨r, rfl⟩
    obtain ⟨r, hrow⟩ := hsome
    simp only
    rw [Table.row?_map (fun r => by split_ifs <;> rfl), hrow, Option.map_some,
      if_pos (Table.row?_spec hrow).2]
    exact ⟨_, rfl, rfl, rfl⟩
  · refine ⟨⟨db.nextToken, userId, h, p, "bootstrap".toList, now, none, none⟩, ?_, rfl, rfl⟩
    rw [Table.row?_append (Table.fresh_of_not_any hany)]
    exact if_pos rfl

/-- What a step can do to the two tables. -/
inductive AccountEffect (hash : Str → Str) (db : AccountTables) :
    AccountTables → AccountEvent → Prop
  /-- Numbers of the sequences are used up, and nothing else happens. -/
  | idle (users tokens : Nat) {e : AccountEvent} (he : e = .failed ∨ e = .quiet) :
      AccountEffect hash db
        { db with nextUser := db.nextUser + users, nextToken := db.nextToken + tokens } e
  | touched (tokenId : Int) (now : Time) :
      AccountEffect hash db (db.touchToken tokenId now) .quiet
  | created (name : Str) (isAdmin : Bool) (now : Time) :
      AccountEffect hash db (db.insertUser name isAdmin now).1 (.created db.nextUser isAdmin)
  | issued {row : TokenRow} {token : Str} (owner : ∃ u ∈ db.users, u.id = row.userId)
      (fresh : ∀ r ∈ db.tokens, r.tokenHash ≠ row.tokenHash) (hashed : row.tokenHash = hash token)
      (open_ : row.revokedAt = none) (number : row.id = db.nextToken) :
      AccountEffect hash db
        { db with tokens := db.tokens ++ [row], nextToken := db.nextToken + 1 }
        (.issued row.id row.userId token)
  | revoked (tokenId : Int) (now : Time) :
      AccountEffect hash db
        { db with
          tokens := db.tokens.map fun r =>
            if r.id = tokenId ∧ r.revokedAt = none then { r with revokedAt := some now } else r }
        (.revoked tokenId)
  | disabledSet {userId : UserId} (disabled : Bool) (now : Time)
      (found : ∃ u ∈ db.users, u.id = userId) :
      AccountEffect hash db
        { db with
          users := db.users.map fun u =>
            if u.id = userId then { u with disabledAt := if disabled then some now else none }
            else u }
        (.disabledSet userId disabled)
  | bootstrapped (name token : Str) (now : Time) {r : TokenRow} {db' : AccountTables}
      (after : db' = (db.upsertAdmin name now).1.upsertToken (db.upsertAdmin name now).2
        (hash token) (tokenPrefix token) now)
      (holds : Table.row? TokenRow.tokenHash (hash token) db'.tokens = some r)
      (owned : r.userId = (db.upsertAdmin name now).2) (open_ : r.revokedAt = none) :
      AccountEffect hash db db' (.bootstrapped r.id (db.upsertAdmin name now).2 token)

section Effect

variable {hash : Str → Str} {db db' : AccountTables} {e : AccountEvent}

theorem idle_same (he : e = .failed ∨ e = .quiet) : AccountEffect hash db db e := by
  have h := @AccountEffect.idle hash db 0 0 e he
  simpa using h

theorem exists_user_of_any {id : UserId} (h : (db.users.any fun u => u.id = id) = true) :
    ∃ u ∈ db.users, u.id = id := by
  obtain ⟨u, hu, hid⟩ := List.any_eq_true.1 h
  exact ⟨u, hu, of_decide_eq_true hid⟩

theorem runOp_effect (now : Time) (op : AccountOp) :
    AccountEffect hash db (runOp hash db now op).1 (runOp hash db now op).2 := by
  cases op with
  | createUser name isAdmin =>
      rw [runOp, AccountTables.createUser]
      simp only
      split_ifs
      · exact idle_same (Or.inl rfl)
      · simpa using @AccountEffect.idle hash db 1 0 _ (Or.inl rfl)
      · exact .created _ isAdmin now
  | createToken userId label token =>
      rw [runOp, AccountTables.createToken]
      split_ifs with huser hhash
      · simpa using @AccountEffect.idle hash db 0 1 _ (Or.inl rfl)
      · exact .issued (exists_user_of_any huser) (Table.fresh_of_not_any hhash) rfl rfl rfl
      · exact idle_same (Or.inl rfl)
  | revokeToken tokenId =>
      rw [runOp, AccountTables.revokeToken]
      split_ifs
      · exact .revoked tokenId now
      · exact idle_same (Or.inl rfl)
  | setUserDisabled userId disabled =>
      rw [runOp, AccountTables.setUserDisabled]
      by_cases huser : (db.users.any fun u => u.id = userId) = true
      · rw [if_pos huser]
        exact .disabledSet disabled now (exists_user_of_any huser)
      · rw [if_neg huser]
        exact idle_same (Or.inl rfl)
  | ensureBootstrapAdmin adminName adminToken =>
      cases adminToken with
      | none => exact idle_same (Or.inr rfl)
      | some token =>
          by_cases hname : Text.trim adminName = []
          · simp only [runOp, AccountTables.ensureBootstrapAdmin, if_pos hname]
            exact idle_same (Or.inl rfl)
          · simp only [runOp, AccountTables.ensureBootstrapAdmin, if_neg hname]
            obtain ⟨r, hrow, howner, hopen⟩ :=
              row_upsertToken (db.upsertAdmin (Text.trim adminName) now).1
                (db.upsertAdmin (Text.trim adminName) now).2 (hash token) (tokenPrefix token) now
            simp only [hrow]
            exact .bootstrapped _ token now rfl hrow howner hopen

theorem accountStep_effect {a : AccountAction} (h : accountStep hash db a = some (db', e)) :
    AccountEffect hash db db' e := by
  cases a with
  | run op now =>
      have hrun := @runOp_effect hash db now op
      rw [accountStep, Option.some.injEq] at h
      rwa [h] at hrun
  | refuse op users tokens => cases h; exact .idle users tokens (Or.inl rfl)
  | touch tokenId now => cases h; exact .touched tokenId now

end Effect

/-! ## What the history says -/

/-- A token's row, the user it was last given to, and whether the last operation on the row was a
revocation. -/
structure Grant where
  row : Int
  owner : UserId
  revoked : Bool
  deriving DecidableEq

/-- The grant of a token after a history, latest event first. An issue or a bootstrap of the token
gives it anew; a revocation names the row. -/
def grantOf (t : Str) : List AccountEvent → Option Grant
  | [] => none
  | .issued row user token :: h => if token = t then some ⟨row, user, false⟩ else grantOf t h
  | .bootstrapped row user token :: h => if token = t then some ⟨row, user, false⟩ else grantOf t h
  | .revoked row :: h =>
      (grantOf t h).map fun g => if g.row = row then { g with revoked := true } else g
  | _ :: h => grantOf t h

/-- What the last `set_user_disabled` on a user asked for. -/
def lastDisabled (user : UserId) : List AccountEvent → Option Bool
  | [] => none
  | .disabledSet u disabled :: h => if u = user then some disabled else lastDisabled user h
  | _ :: h => lastDisabled user h

/-- The user was created as admin or has been the bootstrap admin. -/
def AdminGranted (user : UserId) (h : List AccountEvent) : Prop :=
  .created user true ∈ h ∨ ∃ row token, .bootstrapped row user token ∈ h

/-- The token was issued or bootstrapped. -/
def Granted (t : Str) (h : List AccountEvent) : Prop :=
  ∃ row user, .issued row user t ∈ h ∨ .bootstrapped row user t ∈ h

theorem adminGranted_cons {user : UserId} {e : AccountEvent} {h : List AccountEvent} :
    AdminGranted user (e :: h) ↔
      (e = .created user true ∨ ∃ row token, e = .bootstrapped row user token) ∨
        AdminGranted user h := by
  simp only [AdminGranted, List.mem_cons, eq_comm (b := e)]
  constructor
  · rintro ((h | h) | ⟨row, token, h | h⟩)
    · exact Or.inl (Or.inl h)
    · exact Or.inr (Or.inl h)
    · exact Or.inl (Or.inr ⟨row, token, h⟩)
    · exact Or.inr (Or.inr ⟨row, token, h⟩)
  · rintro ((h | ⟨row, token, h⟩) | (h | ⟨row, token, h⟩))
    · exact Or.inl (Or.inl h)
    · exact Or.inr ⟨row, token, Or.inl h⟩
    · exact Or.inl (Or.inr h)
    · exact Or.inr ⟨row, token, Or.inr h⟩

/-! ## Users follow the history -/

/-- The columns `disabled_at` and `is_admin` say what the history says, which knows nothing of a
number that the sequence has not given yet. -/
structure UsersAgree (h : List AccountEvent) (db : AccountTables) : Prop where
  below : ∀ u ∈ db.users, u.id < db.nextUser
  disabled : ∀ u ∈ db.users, u.disabledAt.isSome = true ↔ lastDisabled u.id h = some true
  admin : ∀ u ∈ db.users, u.isAdmin = true ↔ AdminGranted u.id h
  fresh : ∀ id, db.nextUser ≤ id → lastDisabled id h = none ∧ ¬ AdminGranted id h

section Users

variable {hash : Str → Str} {db db' : AccountTables} {h : List AccountEvent} {e : AccountEvent}

/-- An event that neither disables nor promotes, on tables with the same users. -/
theorem UsersAgree.same (ha : UsersAgree h db) (husers : db'.users = db.users)
    (hnext : db.nextUser ≤ db'.nextUser)
    (hdisabled : ∀ id, lastDisabled id (e :: h) = lastDisabled id h)
    (hadmin : ∀ id, AdminGranted id (e :: h) ↔ AdminGranted id h) : UsersAgree (e :: h) db' where
  below u hu := by
    rw [husers] at hu
    exact Int.lt_of_lt_of_le (ha.below u hu) hnext
  disabled u hu := by
    rw [husers] at hu
    rw [hdisabled]
    exact ha.disabled u hu
  admin u hu := by
    rw [husers] at hu
    rw [hadmin]
    exact ha.admin u hu
  fresh id hid := by
    rw [hdisabled, hadmin]
    exact ha.fresh id (Int.le_trans hnext hid)

/-- A new user, with an event that promotes it exactly when it is an admin. -/
theorem UsersAgree.insertUser (ha : UsersAgree h db) (name : Str) (isAdmin : Bool) (now : Time)
    (husers : db'.users = (db.insertUser name isAdmin now).1.users)
    (hnext : db'.nextUser = db.nextUser + 1)
    (hdisabled : ∀ id, lastDisabled id (e :: h) = lastDisabled id h)
    (hadmin : ∀ id, AdminGranted id (e :: h) ↔
      (id = db.nextUser ∧ isAdmin = true) ∨ AdminGranted id h) : UsersAgree (e :: h) db' := by
  have hmem : ∀ u ∈ db'.users, u ∈ db.users ∨ u = ⟨db.nextUser, name, isAdmin, now, none⟩ := by
    intro u hu
    rw [husers] at hu
    rcases List.mem_append.1 hu with hu | hu
    · exact Or.inl hu
    · exact Or.inr (List.mem_singleton.1 hu)
  have hold : ∀ u ∈ db.users, u.id ≠ db.nextUser := fun u hu => Int.ne_of_lt (ha.below u hu)
  have hfresh := ha.fresh db.nextUser (Int.le_refl _)
  refine ⟨fun u hu => ?_, fun u hu => ?_, fun u hu => ?_, fun id hid => ?_⟩
  · rw [hnext]
    rcases hmem u hu with hu | rfl
    · exact Int.lt_trans (ha.below u hu) (Int.lt_succ _)
    · exact Int.lt_succ _
  · rw [hdisabled]
    rcases hmem u hu with hu | rfl
    · exact ha.disabled u hu
    · simp [hfresh.1]
  · rw [hadmin]
    rcases hmem u hu with hu | rfl
    · rw [ha.admin u hu]
      simp [hold u hu]
    · simp [hfresh.2]
  · rw [hnext] at hid
    have hlt : db.nextUser < id := Int.lt_of_add_one_le hid
    obtain ⟨h1, h2⟩ := ha.fresh id (Int.le_of_lt hlt)
    rw [hdisabled, hadmin]
    refine ⟨h1, ?_⟩
    rintro (⟨rfl, -⟩ | h)
    · exact Int.lt_irrefl _ hlt
    · exact h2 h

/-- A change of the rows that keeps their numbers, with an event about one user of the table. -/
theorem UsersAgree.map (ha : UsersAgree h db) {f : UserRow → UserRow} {target : UserId}
    (htarget : ∃ v ∈ db.users, v.id = target) (hf : ∀ u, (f u).id = u.id)
    (husers : db'.users = db.users.map f) (hnext : db.nextUser ≤ db'.nextUser)
    (hdisabled : ∀ u ∈ db.users,
      (f u).disabledAt.isSome = true ↔ lastDisabled u.id (e :: h) = some true)
    (hadmin : ∀ u ∈ db.users, (f u).isAdmin = true ↔ AdminGranted u.id (e :: h))
    (hother : ∀ id, id ≠ target → lastDisabled id (e :: h) = lastDisabled id h ∧
      (AdminGranted id (e :: h) ↔ AdminGranted id h)) : UsersAgree (e :: h) db' where
  below u hu := by
    rw [husers] at hu
    obtain ⟨old, hold, rfl⟩ := List.mem_map.1 hu
    rw [hf]
    exact Int.lt_of_lt_of_le (ha.below old hold) hnext
  disabled u hu := by
    rw [husers] at hu
    obtain ⟨old, hold, rfl⟩ := List.mem_map.1 hu
    rw [hf]
    exact hdisabled old hold
  admin u hu := by
    rw [husers] at hu
    obtain ⟨old, hold, rfl⟩ := List.mem_map.1 hu
    rw [hf]
    exact hadmin old hold
  fresh id hle := by
    have hfresh := Int.le_trans hnext hle
    -- the user of the event is in the table, so it is none of the numbers to come
    have hne : id ≠ target := by
      obtain ⟨v, hv, rfl⟩ := htarget
      rintro rfl
      exact Int.lt_irrefl _ (Int.lt_of_lt_of_le (ha.below v hv) hfresh)
    rw [(hother id hne).1, (hother id hne).2]
    exact ha.fresh id hfresh

theorem upsertToken_users (userId : UserId) (k p : Str) (now : Time) :
    (db.upsertToken userId k p now).users = db.users ∧
      (db.upsertToken userId k p now).nextUser = db.nextUser := by
  rw [AccountTables.upsertToken]
  split_ifs <;> exact ⟨rfl, rfl⟩

/-- The bootstrap promotes the user it finds, or makes one that is an admin. -/
theorem UsersAgree.upsertAdmin (ha : UsersAgree h db) (name : Str) (now : Time) (row : Int)
    (token : Str) (husers : db'.users = (db.upsertAdmin name now).1.users)
    (hnext : db'.nextUser = (db.upsertAdmin name now).1.nextUser) :
    UsersAgree (.bootstrapped row (db.upsertAdmin name now).2 token :: h) db' := by
  cases hfound : db.users.find? fun u => u.name = name with
  | none =>
      simp only [AccountTables.upsertAdmin, hfound] at husers hnext ⊢
      refine ha.insertUser name true now husers hnext (fun id => rfl) fun id => ?_
      rw [adminGranted_cons]
      simp [AccountTables.insertUser, eq_comm]
  | some found =>
      simp only [AccountTables.upsertAdmin, hfound] at husers hnext ⊢
      have hadmin : ∀ id, AdminGranted id (.bootstrapped row found.id token :: h) ↔
          id = found.id ∨ AdminGranted id h := by
        intro id
        rw [adminGranted_cons]
        simp [eq_comm]
      refine ha.map ⟨found, List.mem_of_find?_eq_some hfound, rfl⟩
        (fun u => by split_ifs <;> rfl) husers ?_ (fun u hu => ?_) (fun u hu => ?_)
        fun id hid => ⟨rfl, ?_⟩
      · rw [hnext]
        exact Int.le_of_lt (Int.lt_succ _)
      · have hold : u.disabledAt.isSome = true ↔ lastDisabled u.id h = some true := ha.disabled u hu
        split_ifs <;> exact hold
      · rw [hadmin]
        split_ifs with hid
        · simp [hid]
        · simp [hid, ha.admin u hu]
      · rw [hadmin]
        simp [hid]

theorem AccountEffect.usersAgree (he : AccountEffect hash db db' e) (ha : UsersAgree h db) :
    UsersAgree (e :: h) db' := by
  cases he with
  | idle users tokens he =>
      have hnext : db.nextUser ≤ db.nextUser + users :=
        Int.le_add_of_nonneg_right (Int.natCast_nonneg users)
      rcases he with rfl | rfl <;>
        exact ha.same rfl hnext (fun _ => rfl) fun id => by simp [adminGranted_cons]
  | touched tokenId now =>
      exact ha.same rfl (Int.le_refl _) (fun _ => rfl) fun id => by simp [adminGranted_cons]
  | created name isAdmin now =>
      refine ha.insertUser name isAdmin now rfl rfl (fun _ => rfl) fun id => ?_
      rw [adminGranted_cons]
      simp [eq_comm]
  | issued owner fresh hashed open_ number =>
      exact ha.same rfl (Int.le_refl _) (fun _ => rfl) fun id => by simp [adminGranted_cons]
  | revoked tokenId now =>
      exact ha.same rfl (Int.le_refl _) (fun _ => rfl) fun id => by simp [adminGranted_cons]
  | @disabledSet userId disabled now found =>
      have hadmin : ∀ id, AdminGranted id (.disabledSet userId disabled :: h) ↔
          AdminGranted id h := fun id => by simp [adminGranted_cons]
      refine ha.map found (fun u => by split_ifs <;> rfl) rfl (Int.le_refl _) (fun u hu => ?_)
        (fun u hu => ?_) fun id hid => ⟨?_, hadmin id⟩
      · by_cases hid : u.id = userId
        · cases disabled <;> simp [lastDisabled, hid]
        · simp [lastDisabled, hid, Ne.symm hid, ha.disabled u hu]
      · rw [hadmin]
        split_ifs <;> exact ha.admin u hu
      · rw [lastDisabled, if_neg (Ne.symm hid)]
  | bootstrapped name token now after holds owned open_ =>
      obtain ⟨husers, hnext⟩ := @upsertToken_users (db.upsertAdmin name now).1
        (db.upsertAdmin name now).2 (hash token) (tokenPrefix token) now
      rw [← after] at husers hnext
      exact ha.upsertAdmin name now _ token husers hnext

end Users

/-! ## Tokens follow the history -/

/-- The grant that the row holds. -/
def TokenRow.grant (r : TokenRow) : Grant := ⟨r.id, r.userId, r.revokedAt.isSome⟩

/-- The hashes are unique, every token has an owner, and the row of one token `t` holds the grant
that the history says. -/
structure TokensAgree (hash : Str → Str) (t : Str) (h : List AccountEvent) (db : AccountTables) :
    Prop where
  hashes : (db.tokens.map TokenRow.tokenHash).Nodup
  owners : ∀ r ∈ db.tokens, ∃ u ∈ db.users, u.id = r.userId
  grant : (Table.row? TokenRow.tokenHash (hash t) db.tokens).map TokenRow.grant = grantOf t h

section Tokens

variable {hash : Str → Str} {t : Str} {db db' : AccountTables} {h : List AccountEvent}
  {e : AccountEvent}

/-- An owner stays when the users keep their ids. -/
theorem owners_map {f : UserRow → UserRow} (hf : ∀ u, (f u).id = u.id) {id : UserId}
    (ho : ∃ u ∈ db.users, u.id = id) : ∃ u ∈ db.users.map f, u.id = id := by
  obtain ⟨u, hu, rfl⟩ := ho
  exact ⟨f u, List.mem_map_of_mem hu, hf u⟩

/-- A change of the rows that keeps their hashes and owners. -/
theorem TokensAgree.map (ha : TokensAgree hash t h db) {f : TokenRow → TokenRow}
    (hhash : ∀ r, (f r).tokenHash = r.tokenHash) (howner : ∀ r, (f r).userId = r.userId)
    (htokens : db'.tokens = db.tokens.map f) (husers : db'.users = db.users)
    (hgrant : ((Table.row? TokenRow.tokenHash (hash t) db.tokens).map f).map TokenRow.grant =
      grantOf t (e :: h)) : TokensAgree hash t (e :: h) db' where
  hashes := by
    rw [htokens]
    exact Table.nodup_map hhash ha.hashes
  owners r hr := by
    rw [htokens] at hr
    obtain ⟨old, hold, rfl⟩ := List.mem_map.1 hr
    rw [husers, howner]
    exact ha.owners old hold
  grant := by rw [htokens, Table.row?_map hhash, hgrant]

/-- An event that is not about tokens, on tables with the same tokens. -/
theorem TokensAgree.same (ha : TokensAgree hash t h db) (htokens : db'.tokens = db.tokens)
    (husers : ∀ id, (∃ u ∈ db.users, u.id = id) → ∃ u ∈ db'.users, u.id = id)
    (hgrant : grantOf t (e :: h) = grantOf t h) : TokensAgree hash t (e :: h) db' where
  hashes := by rw [htokens]; exact ha.hashes
  owners r hr := by
    rw [htokens] at hr
    exact husers _ (ha.owners r hr)
  grant := by rw [htokens, hgrant]; exact ha.grant

/-- An event that gives a token to a user, on tables where only the row of its hash is another. -/
theorem TokensAgree.given (ha : TokensAgree hash t h db) {token : Str} {r : TokenRow}
    (hcol : hash token = hash t → token = t)
    (hhashes : (db'.tokens.map TokenRow.tokenHash).Nodup)
    (howners : ∀ r ∈ db'.tokens, ∃ u ∈ db'.users, u.id = r.userId)
    (holds : Table.row? TokenRow.tokenHash (hash token) db'.tokens = some r)
    (hopen : r.revokedAt = none)
    (hother : ∀ k, hash token ≠ k →
      Table.row? TokenRow.tokenHash k db'.tokens = Table.row? TokenRow.tokenHash k db.tokens)
    (hgrant : grantOf t (e :: h) =
      if token = t then some ⟨r.id, r.userId, false⟩ else grantOf t h) :
    TokensAgree hash t (e :: h) db' where
  hashes := hhashes
  owners := howners
  grant := by
    rw [hgrant]
    by_cases ht : token = t
    · rw [if_pos ht, ← ht, holds]
      simp [TokenRow.grant, hopen]
    · rw [if_neg ht, hother (hash t) fun hhash => ht (hcol hhash), ha.grant]

/-- The bootstrap leaves the rows of other hashes as they are. -/
theorem row_upsertToken_other {k k' p : Str} (hne : k' ≠ k) (userId : UserId) (now : Time) :
    Table.row? TokenRow.tokenHash k (db.upsertToken userId k' p now).tokens =
      Table.row? TokenRow.tokenHash k db.tokens := by
  rw [AccountTables.upsertToken]
  split_ifs with hany
  · simp only
    rw [Table.row?_map (fun r => by split_ifs <;> rfl)]
    cases hrow : Table.row? TokenRow.tokenHash k db.tokens with
    | none => rfl
    | some r => rw [Option.map_some, if_neg (by rw [(Table.row?_spec hrow).2]; exact hne.symm)]
  · rw [Table.row?_append (Table.fresh_of_not_any hany), if_neg hne]

theorem upsertToken_tokens (userId : UserId) (k p : Str) (now : Time)
    (hn : (db.tokens.map TokenRow.tokenHash).Nodup) :
    ((db.upsertToken userId k p now).tokens.map TokenRow.tokenHash).Nodup ∧
      ∀ r ∈ (db.upsertToken userId k p now).tokens, r ∈ db.tokens ∨ r.userId = userId := by
  rw [AccountTables.upsertToken]
  split_ifs with hany
  · constructor
    · exact Table.nodup_map (fun r => by split_ifs <;> rfl) hn
    · intro r hr
      obtain ⟨old, hold, rfl⟩ := List.mem_map.1 hr
      split_ifs
      · exact Or.inr rfl
      · exact Or.inl hold
  · constructor
    · exact Table.nodup_append hn (Table.fresh_of_not_any hany)
    · intro r hr
      rcases List.mem_append.1 hr with hr | hr
      · exact Or.inl hr
      · exact Or.inr (by rw [List.mem_singleton.1 hr])

/-- The bootstrap's user is in the table, and nobody else left it. -/
theorem upsertAdmin_owners (name : Str) (now : Time) :
    (∃ u ∈ (db.upsertAdmin name now).1.users, u.id = (db.upsertAdmin name now).2) ∧
      ∀ id, (∃ u ∈ db.users, u.id = id) → ∃ u ∈ (db.upsertAdmin name now).1.users, u.id = id := by
  cases hfound : db.users.find? fun u => u.name = name with
  | none =>
      simp only [AccountTables.upsertAdmin, hfound, AccountTables.insertUser]
      refine ⟨⟨_, List.mem_append_right _ (List.mem_singleton_self _), rfl⟩, ?_⟩
      rintro id ⟨u, hu, hid⟩
      exact ⟨u, List.mem_append_left _ hu, hid⟩
  | some found =>
      simp only [AccountTables.upsertAdmin, hfound]
      have hkeep : ∀ u : UserRow,
          (if u.id = found.id then { u with isAdmin := true } else u).id = u.id := by
        intro u
        split_ifs <;> rfl
      exact ⟨owners_map hkeep ⟨found, List.mem_of_find?_eq_some hfound, rfl⟩,
        fun id hid => owners_map hkeep hid⟩

theorem upsertAdmin_tokens (name : Str) (now : Time) :
    (db.upsertAdmin name now).1.tokens = db.tokens := by
  rw [AccountTables.upsertAdmin]
  cases db.users.find? fun u => u.name = name <;> rfl

/-- One case for each kind of event. Two tokens that were given have different hashes. -/
theorem AccountEffect.tokensAgree (he : AccountEffect hash db db' e)
    (hcol : ∀ token, Granted token (e :: h) → hash token = hash t → token = t)
    (ha : TokensAgree hash t h db) : TokensAgree hash t (e :: h) db' := by
  cases he with
  | idle users tokens he =>
      rcases he with rfl | rfl <;> exact ha.same rfl (fun _ h => h) rfl
  | touched tokenId now =>
      refine ha.map (fun r => by split_ifs <;> rfl) (fun r => by split_ifs <;> rfl) rfl rfl ?_
      show _ = grantOf t h
      rw [← ha.grant, Option.map_map]
      congr 1
      funext r
      simp only [Function.comp_apply]
      split_ifs <;> rfl
  | created name isAdmin now =>
      refine ha.same rfl ?_ rfl
      rintro id ⟨u, hu, hid⟩
      exact ⟨u, List.mem_append_left _ hu, hid⟩
  | @issued row token owner fresh hashed open_ number =>
      refine ha.given (hcol token ⟨_, _, Or.inl List.mem_cons_self⟩)
        (Table.nodup_append ha.hashes fresh) (fun r hr => ?_) ?_ open_ (fun k hne => ?_) rfl
      · rcases List.mem_append.1 hr with hr | hr
        · exact ha.owners r hr
        · rw [List.mem_singleton.1 hr]
          exact owner
      · rw [Table.row?_append fresh, if_pos hashed]
      · rw [Table.row?_append fresh, if_neg (by rw [hashed]; exact hne)]
  | revoked tokenId now =>
      refine ha.map (fun r => by split_ifs <;> rfl) (fun r => by split_ifs <;> rfl) rfl rfl ?_
      rw [grantOf, ← ha.grant, Option.map_map, Option.map_map]
      congr 1
      funext r
      simp only [Function.comp_apply, TokenRow.grant]
      by_cases hid : r.id = tokenId
      · cases hr : r.revokedAt <;> simp [hid, hr]
      · simp [hid]
  | disabledSet disabled now found =>
      exact ha.same rfl (fun id hid => owners_map (fun u => by split_ifs <;> rfl) hid) rfl
  | @bootstrapped name token now r db' after holds owned open_ =>
      -- the first upsert keeps the users, the second the other tokens
      obtain ⟨hown, hkeep⟩ := @upsertAdmin_owners db name now
      have hn : ((db.upsertAdmin name now).1.tokens.map TokenRow.tokenHash).Nodup := by
        rw [upsertAdmin_tokens]
        exact ha.hashes
      obtain ⟨hnodup, hrows⟩ := upsertToken_tokens (db.upsertAdmin name now).2 (hash token)
        (tokenPrefix token) now hn
      have husers := (@upsertToken_users (db.upsertAdmin name now).1
        (db.upsertAdmin name now).2 (hash token) (tokenPrefix token) now).1
      rw [← after] at hnodup hrows husers
      refine ha.given (hcol token ⟨_, _, Or.inr List.mem_cons_self⟩) hnodup (fun r' hr' => ?_) holds
        open_ (fun k hne => ?_) (by rw [owned]; rfl)
      · rw [husers]
        rcases hrows r' hr' with hr' | hr'
        · rw [upsertAdmin_tokens] at hr'
          exact hkeep _ (ha.owners r' hr')
        · rw [hr']
          exact hown
      · rw [after, row_upsertToken_other hne, upsertAdmin_tokens]

end Tokens

/-! ## Authentication follows the history -/

section Runs

variable {hash : Str → Str} {t : Str} {db : AccountTables} {h : List AccountEvent}

theorem Granted.cons {token : Str} {e : AccountEvent} (hg : Granted token h) :
    Granted token (e :: h) := by
  obtain ⟨row, user, hg | hg⟩ := hg
  · exact ⟨row, user, Or.inl (List.mem_cons_of_mem _ hg)⟩
  · exact ⟨row, user, Or.inr (List.mem_cons_of_mem _ hg)⟩

theorem run_agree (hr : (accounts hash).Run h db)
    (hcol : ∀ token, Granted token h → hash token = hash t → token = t) :
    UsersAgree h db ∧ TokensAgree hash t h db := by
  refine hr.invariant
    (I := fun h db => (∀ token, Granted token h → hash token = hash t → token = t) →
      UsersAgree h db ∧ TokensAgree hash t h db) ?_ ?_ hcol
  · intro _
    refine ⟨⟨?_, ?_, ?_, ?_⟩, ⟨List.nodup_nil, ?_, rfl⟩⟩
    · exact fun u hu => nomatch hu
    · exact fun u hu => nomatch hu
    · exact fun u hu => nomatch hu
    · exact fun id _ => ⟨rfl, by simp [AdminGranted]⟩
    · exact fun r hr => nomatch hr
  · intro h db a db' e _ ih hs _ hcol
    obtain ⟨hu, ht⟩ := ih fun token hg => hcol token hg.cons
    have he := accountStep_effect hs
    exact ⟨he.usersAgree hu, he.tokensAgree hcol ht⟩

/-- With unique hashes, the `SELECT` finds the row of the hash, unless it is revoked, with its
owner. -/
theorem selectGrant_iff (hn : (db.tokens.map TokenRow.tokenHash).Nodup) {k : Str} {u : UserRow}
    {r : TokenRow} :
    db.selectGrant k = some (u, r) ↔
      Table.row? TokenRow.tokenHash k db.tokens = some r ∧ r.revokedAt = none ∧
        Table.row? UserRow.id r.userId db.users = some u := by
  have hsound : ∀ {u r}, db.selectGrant k = some (u, r) →
      Table.row? TokenRow.tokenHash k db.tokens = some r ∧ r.revokedAt = none ∧
        Table.row? UserRow.id r.userId db.users = some u := by
    intro u r hsel
    obtain ⟨r', hr', hu⟩ := List.exists_of_findSome?_eq_some hsel
    obtain ⟨u', hrow, heq⟩ := Option.map_eq_some_iff.1 hu
    cases heq
    obtain ⟨hmem, hcond⟩ := List.mem_filter.1 hr'
    obtain ⟨hhash, hopen⟩ := of_decide_eq_true hcond
    refine ⟨?_, hopen, hrow⟩
    rw [← hhash]
    exact Table.row?_of_mem hn hmem
  constructor
  · exact hsound
  · rintro ⟨hrow, hopen, huser⟩
    obtain ⟨hmem, hhash⟩ := Table.row?_spec hrow
    cases hsel : db.selectGrant k with
    | none =>
        have hnone := List.findSome?_eq_none_iff.1 hsel r
          (List.mem_filter.2 ⟨hmem, decide_eq_true ⟨hhash, hopen⟩⟩)
        rw [huser] at hnone
        cases hnone
    | some p =>
        obtain ⟨u', r'⟩ := p
        obtain ⟨hrow', -, huser'⟩ := hsound hsel
        rw [hrow, Option.some.injEq] at hrow'
        subst hrow'
        rw [huser, Option.some.injEq] at huser'
        rw [huser']

/-- What `authenticate_token` answers to a trimmed token that is not empty. -/
theorem authenticateToken_eq_ok_iff (htrim : Text.trim t = t) (hne : t ≠ [])
    {a : AuthenticatedUser} :
    db.authenticateToken hash t = .ok a ↔
      ∃ u r, db.selectGrant (hash t) = some (u, r) ∧ u.disabledAt = none ∧
        a = ⟨u.id, u.name, u.isAdmin⟩ := by
  rw [AccountTables.authenticateToken, AccountTables.authenticate, htrim]
  simp only [if_neg hne]
  cases hsel : db.selectGrant (hash t) with
  | none => simp [Except.map]
  | some p =>
      obtain ⟨u, r⟩ := p
      cases hdis : u.disabledAt with
      | none => simp [Except.map, hdis, eq_comm]
      | some at_ => simp [Except.map, hdis]

/-- **A token grants the access last given to it.** In every run, a token is accepted exactly when
it was issued or bootstrapped, the last of issue, bootstrap and revocation on its row is not the
revocation, and its owner was not disabled last; it then stands for the user it was last given to,
who is an admin exactly when created as one or bootstrapped. The hash need only tell the token
from the tokens of the run. -/
theorem token_grants (hr : (accounts hash).Run h db) (htrim : Text.trim t = t) (hne : t ≠ [])
    (hcol : ∀ token, Granted token h → hash token = hash t → token = t) :
    ((∃ a, db.authenticateToken hash t = .ok a) ↔
      ∃ g, grantOf t h = some g ∧ g.revoked = false ∧ lastDisabled g.owner h ≠ some true) ∧
    ∀ a, db.authenticateToken hash t = .ok a →
      (∃ g, grantOf t h = some g ∧ g.owner = a.id) ∧ (a.isAdmin = true ↔ AdminGranted a.id h) := by
  obtain ⟨hu, ht⟩ := run_agree hr hcol
  have hselect {u : UserRow} {r : TokenRow} :=
    selectGrant_iff (k := hash t) (u := u) (r := r) ht.hashes
  -- an enabled owner is one whom the history did not disable last
  have henabled : ∀ u ∈ db.users, u.disabledAt = none ↔ lastDisabled u.id h ≠ some true := by
    intro u hmem
    rw [Ne, ← hu.disabled u hmem]
    cases u.disabledAt <;> simp
  constructor
  · constructor
    · rintro ⟨a, ha⟩
      obtain ⟨u, r, hsel, hdis, -⟩ := (authenticateToken_eq_ok_iff htrim hne).1 ha
      obtain ⟨hrow, hopen, huser⟩ := hselect.1 hsel
      obtain ⟨hmem, hid⟩ := Table.row?_spec huser
      refine ⟨r.grant, ?_, ?_, ?_⟩
      · rw [← ht.grant, hrow, Option.map_some]
      · simp [TokenRow.grant, hopen]
      · rw [show r.grant.owner = u.id from hid.symm]
        exact (henabled u hmem).1 hdis
    · rintro ⟨g, hg, hopen, hdis⟩
      rw [← ht.grant] at hg
      obtain ⟨r, hrow, rfl⟩ := Option.map_eq_some_iff.1 hg
      have hrevoked : r.revokedAt = none := by simpa [TokenRow.grant] using hopen
      obtain ⟨v, hv, hvid⟩ := ht.owners r (Table.row?_spec hrow).1
      cases huser : Table.row? UserRow.id r.userId db.users with
      | none => exact absurd hvid (Table.row?_eq_none_iff.1 huser v hv)
      | some u =>
          obtain ⟨hmem, hid⟩ := Table.row?_spec huser
          refine ⟨⟨u.id, u.name, u.isAdmin⟩, ?_⟩
          apply (authenticateToken_eq_ok_iff htrim hne).2
          refine ⟨u, r, hselect.2 ⟨hrow, hrevoked, huser⟩, ?_, rfl⟩
          apply (henabled u hmem).2
          rw [hid]
          exact hdis
  · intro a ha
    obtain ⟨u, r, hsel, -, rfl⟩ := (authenticateToken_eq_ok_iff htrim hne).1 ha
    obtain ⟨hrow, -, huser⟩ := hselect.1 hsel
    obtain ⟨hmem, hid⟩ := Table.row?_spec huser
    refine ⟨⟨r.grant, ?_, hid.symm⟩, hu.admin u hmem⟩
    rw [← ht.grant, hrow, Option.map_some]

end Runs

/-! ## A revoked token that is bootstrapped again -/

def sampleToken : Str := "ap_7Qm2vXc9Lr4KpZtYw1NbHs8DfGj3TaUe6RoViM50".toList

/-- A hash that agrees with SHA-256 on the token of the run. -/
def sampleHash (token : Str) : Str :=
  if token = sampleToken then
    "383b288666894ee11d1031bc7464f627ce6cd21aaa3a6769c78b65c4f1c27635".toList
  else token

/-- A token of the user `kim` is revoked, and then becomes the token of the bootstrap admin. -/
def revived : List AccountAction :=
  [.run (.createUser " kim ".toList false) 0, .run (.createToken 1 none sampleToken) 1,
    .run (.revokeToken 1) 2, .run (.ensureBootstrapAdmin "admin".toList (some sampleToken)) 3]

theorem token_grants_revived :
    ∃ a, ((accounts sampleHash).exec ([], (accounts sampleHash).init)
      revived).2.authenticateToken sampleHash sampleToken = .ok a := by
  refine ((token_grants (Machine.run_exec revived) (by decide) (by decide) ?_).1).2
    ⟨⟨1, 2, false⟩, by decide, rfl, by decide⟩
  have hevents : ((accounts sampleHash).exec ([], (accounts sampleHash).init) revived).1 =
      [.bootstrapped 1 2 sampleToken, .revoked 1, .issued 1 1 sampleToken, .created 1 false] := rfl
  rintro token ⟨row, user, hg⟩ -
  rw [hevents] at hg
  simp at hg
  rcases hg with ⟨-, -, rfl⟩ | ⟨-, -, rfl⟩ <;> rfl

end AnyPlayerSync.Accounts
