import AnyPlayerSync.Accounts.Tokens
import Mathlib.Data.Int.Order.Basic

/-!
# The bootstrap admin

`ensure_bootstrap_admin` runs at every start of the server with the same name and token. Its two
upserts promote the account and give it the token, revoked or not, but they leave `disabled_at` as
it is. After it the token opens the admin account exactly when the account was not disabled
(`bootstrap_opens_iff`).

Names, ids and hashes are unique in every run, so both upserts know their row.
-/

set_option autoImplicit false

namespace AnyPlayerSync.Accounts

open AnyPlayerSync.Foundation
open AnyPlayerSync.Sync (ApiError Time UserId)

/-! ## Users keep their names -/

/-- What a step can do to the users: change rows that keep their ids and names, or add a row with
the next number and a new name. -/
inductive UsersChange (db db' : AccountTables) : Prop
  | updated (f : UserRow → UserRow) (ids : ∀ u, (f u).id = u.id) (names : ∀ u, (f u).name = u.name)
      (users : db'.users = db.users.map f) (next : db.nextUser ≤ db'.nextUser)
  | added (row : UserRow) (number : row.id = db.nextUser)
      (fresh : ∀ u ∈ db.users, u.name ≠ row.name) (users : db'.users = db.users ++ [row])
      (next : db'.nextUser = db.nextUser + 1)

section Change

variable {hash : Str → Str} {db db' : AccountTables} {e : AccountEvent}

theorem UsersChange.same (husers : db'.users = db.users) (hnext : db.nextUser ≤ db'.nextUser) :
    UsersChange db db' :=
  .updated id (fun _ => rfl) (fun _ => rfl) (by rw [husers, List.map_id]) hnext

theorem insertUser_change {name : Str} (hfresh : ∀ u ∈ db.users, u.name ≠ name) (isAdmin : Bool)
    (now : Time) : UsersChange db (db.insertUser name isAdmin now).1 :=
  .added ⟨db.nextUser, name, isAdmin, now, none⟩ rfl hfresh rfl rfl

theorem upsertAdmin_change (name : Str) (now : Time) :
    UsersChange db (db.upsertAdmin name now).1 := by
  cases hfound : db.users.find? fun u => u.name = name with
  | none =>
      simp only [AccountTables.upsertAdmin, hfound]
      exact insertUser_change (Table.row?_eq_none_iff.1 hfound) true now
  | some found =>
      simp only [AccountTables.upsertAdmin, hfound]
      -- the name conflicts: the row becomes an admin's, and the sequence moves on
      refine .updated _ (fun u => ?_) (fun u => ?_) rfl (Int.le_of_lt (Int.lt_succ _))
      · split_ifs <;> rfl
      · split_ifs <;> rfl

theorem createUser_change (name : Str) (isAdmin : Bool) (now : Time) :
    UsersChange db (db.createUser name isAdmin now).1 := by
  rw [AccountTables.createUser]
  simp only
  split_ifs with hblank htaken
  · exact .same rfl (Int.le_refl _)
  -- a taken name uses up a number of the sequence
  · exact .same rfl (Int.le_of_lt (Int.lt_succ _))
  · exact insertUser_change (Table.fresh_of_not_any htaken) isAdmin now

theorem createToken_change (userId : UserId) (label : Option Str) (token : Str) (now : Time) :
    UsersChange db (db.createToken hash userId label token now).1 := by
  rw [AccountTables.createToken]
  split_ifs <;> exact .same rfl (Int.le_refl _)

theorem revokeToken_change (tokenId : Int) (now : Time) :
    UsersChange db (db.revokeToken tokenId now).1 := by
  rw [AccountTables.revokeToken]
  split_ifs <;> exact .same rfl (Int.le_refl _)

theorem setUserDisabled_change (userId : UserId) (disabled : Bool) (now : Time) :
    UsersChange db (db.setUserDisabled userId disabled now).1 := by
  rw [AccountTables.setUserDisabled]
  by_cases huser : (db.users.any fun u => u.id = userId) = true
  · rw [if_pos huser]
    refine .updated _ (fun u => ?_) (fun u => ?_) rfl (Int.le_refl _)
    · split_ifs <;> rfl
    · split_ifs <;> rfl
  · rw [if_neg huser]
    exact .same rfl (Int.le_refl _)

/-- The second upsert leaves the users as the first made them. -/
theorem ensureBootstrapAdmin_change (adminName : Str) (adminToken : Option Str) (now : Time) :
    UsersChange db (db.ensureBootstrapAdmin hash adminName adminToken now).1 := by
  cases adminToken with
  | none => exact .same rfl (Int.le_refl _)
  | some token =>
      by_cases hname : Text.trim adminName = []
      · simp only [AccountTables.ensureBootstrapAdmin, if_pos hname]
        exact .same rfl (Int.le_refl _)
      · simp only [AccountTables.ensureBootstrapAdmin, if_neg hname]
        obtain ⟨husers, hnext⟩ := @upsertToken_users (db.upsertAdmin (Text.trim adminName) now).1
          (db.upsertAdmin (Text.trim adminName) now).2 (hash token) (tokenPrefix token) now
        cases @upsertAdmin_change db (Text.trim adminName) now with
        | updated f ids names users next =>
            exact .updated f ids names (by rw [husers, users]) (by rw [hnext]; exact next)
        | added row number fresh users next =>
            exact .added row number fresh (by rw [husers, users]) (by rw [hnext, next])

/-- What the event says does not matter to the tables. -/
theorem runOp_change (now : Time) (op : AccountOp) : UsersChange db (runOp hash db now op).1 := by
  cases op with
  | createUser name isAdmin =>
      have hc := @createUser_change db name isAdmin now
      rw [runOp]
      split <;> rename_i h <;> rw [h] at hc <;> exact hc
  | createToken userId label token =>
      have hc := @createToken_change hash db userId label token now
      rw [runOp]
      split <;> rename_i h <;> rw [h] at hc <;> exact hc
  | revokeToken tokenId =>
      have hc := @revokeToken_change db tokenId now
      rw [runOp]
      split <;> rename_i h <;> rw [h] at hc <;> exact hc
  | setUserDisabled userId disabled =>
      have hc := @setUserDisabled_change db userId disabled now
      rw [runOp]
      split <;> rename_i h <;> rw [h] at hc <;> exact hc
  | ensureBootstrapAdmin adminName adminToken =>
      have hc := @ensureBootstrapAdmin_change hash db adminName adminToken now
      cases adminToken with
      | none => exact hc
      | some token =>
          cases hcall : db.ensureBootstrapAdmin hash adminName (some token) now with
          | mk db' r =>
              rw [hcall] at hc
              simp only [runOp, hcall]
              cases r with
              | error _ => exact hc
              | ok answer =>
                  cases answer
                  simp only
                  cases Table.row? TokenRow.tokenHash (hash token) db'.tokens <;> exact hc

theorem accountStep_change {a : AccountAction} (h : accountStep hash db a = some (db', e)) :
    UsersChange db db' := by
  cases a with
  | run op now =>
      have hrun := @runOp_change hash db now op
      rw [accountStep, Option.some.injEq] at h
      rwa [h] at hrun
  | refuse op users tokens =>
      cases h
      exact .same rfl (Int.le_add_of_nonneg_right (Int.natCast_nonneg users))
  | touch tokenId now => cases h; exact .same rfl (Int.le_refl _)

end Change

/-! ## Unique columns -/

/-- The unique columns of the two tables; both ids are below their sequences. -/
structure UniqueColumns (db : AccountTables) : Prop where
  users : Table.Numbered UserRow.id db.users db.nextUser
  names : (db.users.map UserRow.name).Nodup
  tokens : Table.Numbered TokenRow.id db.tokens db.nextToken
  hashes : (db.tokens.map TokenRow.tokenHash).Nodup

section Unique

variable {hash : Str → Str} {db db' : AccountTables} {h : List AccountEvent} {e : AccountEvent}

theorem AccountEffect.hashes (he : AccountEffect hash db db' e)
    (hn : (db.tokens.map TokenRow.tokenHash).Nodup) :
    (db'.tokens.map TokenRow.tokenHash).Nodup := by
  cases he with
  | idle | created | disabledSet => exact hn
  | touched tokenId now => exact Table.nodup_map (fun r => by split_ifs <;> rfl) hn
  | issued owner fresh hashed open_ number => exact Table.nodup_append hn fresh
  | revoked tokenId now => exact Table.nodup_map (fun r => by split_ifs <;> rfl) hn
  | bootstrapped name token now after holds owned open_ =>
      rw [after]
      apply (upsertToken_tokens _ _ _ now _).1
      rw [upsertAdmin_tokens]
      exact hn

theorem upsertAdmin_nextToken (name : Str) (now : Time) :
    (db.upsertAdmin name now).1.nextToken = db.nextToken := by
  rw [AccountTables.upsertAdmin]
  cases db.users.find? fun u => u.name = name <;> rfl

/-- The row of a known hash keeps its id, a new row takes the next number; either way a number of
the sequence is used up. -/
theorem upsertToken_numbered (ht : Table.Numbered TokenRow.id db.tokens db.nextToken)
    (userId : UserId) (k p : Str) (now : Time) :
    Table.Numbered TokenRow.id (db.upsertToken userId k p now).tokens
      (db.upsertToken userId k p now).nextToken := by
  rw [AccountTables.upsertToken]
  split_ifs
  · exact (ht.map fun r => by split_ifs <;> rfl).mono (Int.le_of_lt (Int.lt_succ _))
  · exact ht.append rfl (Int.lt_succ _)

/-- Token ids stay unique and below their sequence. -/
theorem AccountEffect.tokens (he : AccountEffect hash db db' e)
    (ht : Table.Numbered TokenRow.id db.tokens db.nextToken) :
    Table.Numbered TokenRow.id db'.tokens db'.nextToken := by
  cases he with
  | idle users tokens he => exact ht.mono (Int.le_add_of_nonneg_right (Int.natCast_nonneg tokens))
  | created | disabledSet => exact ht
  | touched tokenId now => exact ht.map fun r => by split_ifs <;> rfl
  | issued owner fresh hashed open_ number => exact ht.append number (Int.lt_succ _)
  | revoked tokenId now => exact ht.map fun r => by split_ifs <;> rfl
  | bootstrapped name token now after holds owned open_ =>
      rw [after]
      apply upsertToken_numbered
      rw [upsertAdmin_tokens, upsertAdmin_nextToken]
      exact ht

/-- Names stay unique. -/
theorem UsersChange.names (hc : UsersChange db db') (hn : (db.users.map UserRow.name).Nodup) :
    (db'.users.map UserRow.name).Nodup := by
  cases hc with
  | updated f ids names users next =>
      rw [users]
      exact Table.nodup_map names hn
  | added row number fresh users next =>
      rw [users]
      exact Table.nodup_append hn fresh

/-- User ids stay unique and below their sequence. -/
theorem UsersChange.users (hc : UsersChange db db')
    (hu : Table.Numbered UserRow.id db.users db.nextUser) :
    Table.Numbered UserRow.id db'.users db'.nextUser := by
  cases hc with
  | updated f ids names users next =>
      rw [users]
      exact (hu.map ids).mono next
  | added row number fresh users next =>
      rw [users, next]
      exact hu.append number (Int.lt_succ _)

theorem accountStep_unique {a : AccountAction} (hs : accountStep hash db a = some (db', e))
    (hu : UniqueColumns db) : UniqueColumns db' where
  users := (accountStep_change hs).users hu.users
  names := (accountStep_change hs).names hu.names
  tokens := (accountStep_effect hs).tokens hu.tokens
  hashes := (accountStep_effect hs).hashes hu.hashes

theorem uniqueColumns_empty : UniqueColumns AccountTables.empty where
  users := Table.numbered_nil _ _
  names := List.nodup_nil
  tokens := Table.numbered_nil _ _
  hashes := List.nodup_nil

theorem run_uniqueColumns (hr : (accounts hash).Run h db) : UniqueColumns db := by
  refine hr.invariant (I := fun _ db => UniqueColumns db) uniqueColumns_empty ?_
  exact fun _ _ _ _ _ _ ih hs _ => accountStep_unique hs ih

/-! ## What the bootstrap leaves -/

/-- The first upsert makes the account an admin; the account is disabled when it was. -/
theorem row_upsertAdmin (hu : UniqueColumns db) (name : Str) (now : Time) :
    ∃ u, Table.row? UserRow.id (db.upsertAdmin name now).2 (db.upsertAdmin name now).1.users =
        some u ∧ u.isAdmin = true ∧
      (u.disabledAt = none ↔ ∀ v ∈ db.users, v.name = name → v.disabledAt = none) := by
  cases hfound : db.users.find? fun u => u.name = name with
  | none =>
      have hfree : ∀ v ∈ db.users, v.name ≠ name := Table.row?_eq_none_iff.1 hfound
      simp only [AccountTables.upsertAdmin, hfound, AccountTables.insertUser]
      refine ⟨⟨db.nextUser, name, true, now, none⟩, ?_, rfl, ?_⟩
      · rw [Table.row?_append fun u hmem => Int.ne_of_lt (hu.users.below u hmem)]
        exact if_pos rfl
      · exact ⟨fun _ v hv hname => absurd hname (hfree v hv), fun _ => rfl⟩
  | some found =>
      obtain ⟨hmem, hname⟩ : found ∈ db.users ∧ found.name = name := Table.row?_spec hfound
      simp only [AccountTables.upsertAdmin, hfound]
      refine ⟨{ found with isAdmin := true }, ?_, rfl, ?_⟩
      -- the update keeps the ids, so the row with the returned id is the updated one
      · rw [Table.row?_map (fun u => by split_ifs <;> rfl), Table.row?_of_mem hu.users.nodup hmem,
          Option.map_some, if_pos rfl]
      · constructor
        · intro hopen v hv hvname
          rw [Table.eq_of_key hu.names hv hmem (hvname.trans hname.symm)]
          exact hopen
        · exact fun hall => hall found hmem hname

/-- The `SELECT` of the token finds the account after both upserts. -/
theorem selectGrant_bootstrapped (hu : UniqueColumns db) (name : Str) (k p : Str) (now : Time) :
    ∃ u r, ((db.upsertAdmin name now).1.upsertToken (db.upsertAdmin name now).2 k p
        now).selectGrant k = some (u, r) ∧ u.isAdmin = true ∧
      (u.disabledAt = none ↔ ∀ v ∈ db.users, v.name = name → v.disabledAt = none) := by
  obtain ⟨u, huser, hadmin, hdisabled⟩ := row_upsertAdmin hu name now
  obtain ⟨r, hrow, howner, hopen⟩ := row_upsertToken (db.upsertAdmin name now).1
    (db.upsertAdmin name now).2 k p now
  have hn : ((db.upsertAdmin name now).1.tokens.map TokenRow.tokenHash).Nodup := by
    rw [upsertAdmin_tokens]
    exact hu.hashes
  have hhashes := (upsertToken_tokens (db.upsertAdmin name now).2 k p now hn).1
  refine ⟨u, r, (selectGrant_iff hhashes).2 ⟨hrow, hopen, ?_⟩, hadmin, hdisabled⟩
  rw [(upsertToken_users _ k p now).1, howner]
  exact huser

/-- **What the bootstrap token opens.** After any run, when `ensure_bootstrap_admin` has
returned, the token opens an admin account exactly when no user of the bootstrap name was disabled
before the call. -/
theorem bootstrap_opens_iff (hr : (accounts hash).Run h db) {name t : Str}
    (hname : Text.trim name ≠ []) (htrim : Text.trim t = t) (hne : t ≠ []) (now : Time) :
    (∀ db', db.ensureBootstrapAdmin hash name (some t) now = (db', .ok ()) →
      ∃ a, db'.authenticateToken hash t = .ok a ∧ a.isAdmin = true) ↔
    ∀ u ∈ db.users, u.name = Text.trim name → u.disabledAt = none := by
  obtain ⟨u, r, hsel, hadmin, hdisabled⟩ := selectGrant_bootstrapped (run_uniqueColumns hr)
    (Text.trim name) (hash t) (tokenPrefix t) now
  have hcall : db.ensureBootstrapAdmin hash name (some t) now =
      ((db.upsertAdmin (Text.trim name) now).1.upsertToken (db.upsertAdmin (Text.trim name) now).2
        (hash t) (tokenPrefix t) now, .ok ()) := by
    simp only [AccountTables.ensureBootstrapAdmin, if_neg hname]
  rw [hcall, ← hdisabled]
  constructor
  · intro hopens
    obtain ⟨a, ha, -⟩ := hopens _ rfl
    -- what lets the token in is the row that the bootstrap left, and it is not disabled
    obtain ⟨u', r', hsel', hopen, -⟩ := (authenticateToken_eq_ok_iff htrim hne).1 ha
    rw [hsel] at hsel'
    cases hsel'
    exact hopen
  · intro hopen db' heq
    obtain ⟨rfl, -⟩ := Prod.mk.inj heq
    exact ⟨_, (authenticateToken_eq_ok_iff htrim hne).2 ⟨u, r, hsel, hopen, rfl⟩, hadmin⟩

end Unique

/-- The token of the bootstrap admin `admin` is revoked, and its account is disabled for a time. -/
def reopened : List AccountAction :=
  [.run (.ensureBootstrapAdmin "admin".toList (some sampleToken)) 0, .run (.revokeToken 1) 1,
    .run (.setUserDisabled 1 true) 2, .run (.setUserDisabled 1 false) 3]

theorem bootstrap_opens_reopened :
    ∃ a, (((accounts sampleHash).exec ([], (accounts sampleHash).init)
        reopened).2.ensureBootstrapAdmin sampleHash " admin ".toList (some sampleToken)
        4).1.authenticateToken sampleHash sampleToken = .ok a ∧ a.isAdmin = true :=
  have hname : Text.trim " admin ".toList ≠ [] := by decide
  (bootstrap_opens_iff (Machine.run_exec reopened) hname (by decide) (by decide) 4).2 (by decide)
    _ rfl

/-- The bootstrap admin `admin` is disabled before the server starts again. -/
def lockedOut : List AccountAction :=
  [.run (.ensureBootstrapAdmin "admin".toList (some sampleToken)) 0,
    .run (.setUserDisabled 1 true) 1]

/-- **The bootstrap token need not open the admin account.** The call succeeds, and the token is
refused with 403. -/
theorem bootstrap_refused :
    ∃ h db, (accounts sampleHash).Run h db ∧ Text.trim "admin".toList ≠ [] ∧
      Text.trim sampleToken = sampleToken ∧ sampleToken ≠ [] ∧
      ∃ db', db.ensureBootstrapAdmin sampleHash "admin".toList (some sampleToken) 2 =
          (db', .ok ()) ∧
        db'.authenticateToken sampleHash sampleToken =
          .error (ApiError.forbidden "user account is disabled") :=
  ⟨_, _, Machine.run_exec lockedOut, by decide, by decide, by decide, _, rfl, rfl⟩

end AnyPlayerSync.Accounts
