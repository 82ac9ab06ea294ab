import AnyPlayerSync.Foundation.Table
import AnyPlayerSync.Foundation.Text
import AnyPlayerSync.Sync.Model

/-!
# Users and tokens

The tables `users` and `auth_tokens` of `db.rs` with the five operations that write them and
`authenticate_token`. The hash of a token's text is a parameter, and so is the token that
`generate_token` drew. The sequences behind `BIGSERIAL` belong to the tables; a refused `INSERT`
gives no number back.
-/

set_option autoImplicit false

namespace AnyPlayerSync.Accounts

open AnyPlayerSync.Foundation
open AnyPlayerSync.Sync (ApiError Time UserId)

/-! ## Tables -/

/-- A row of `users`. -/
structure UserRow where
  id : UserId
  name : Str
  isAdmin : Bool
  createdAt : Time
  disabledAt : Option Time
  deriving DecidableEq

/-- A row of `auth_tokens`. -/
structure TokenRow where
  id : Int
  userId : UserId
  tokenHash : Str
  tokenPrefix : Str
  label : Str
  createdAt : Time
  lastUsedAt : Option Time
  revokedAt : Option Time
  deriving DecidableEq

/-- The tables `users` and `auth_tokens`, each with the next value of its sequence. -/
structure AccountTables where
  users : List UserRow
  tokens : List TokenRow
  nextUser : UserId
  nextToken : Int

def AccountTables.empty : AccountTables := ⟨[], [], 1, 1⟩

/-- What a token that opens an account tells the handlers about its user. -/
structure AuthenticatedUser where
  id : UserId
  name : Str
  isAdmin : Bool
  deriving DecidableEq

/-- The answer to a created user: the row, and the token in plain text, which is shown only here. -/
structure UserCreatedResponse where
  id : UserId
  name : Str
  isAdmin : Bool
  createdAt : Time

/-- What `create_token` returns: the only time the token itself is shown. -/
structure TokenCreated where
  id : Int
  label : Str
  tokenPrefix : Str
  token : Str
  createdAt : Time

/-- The part of a token that is stored in plain text, to tell tokens apart in lists. -/
def tokenPrefix (token : Str) : Str := token.take 8

namespace AccountTables

variable (db : AccountTables)

/-! ## Users -/

/-- `INSERT INTO users (name, is_admin) VALUES ($1, $2) RETURNING ...`. -/
def insertUser (name : Str) (isAdmin : Bool) (now : Time) : AccountTables × UserRow :=
  let row : UserRow := ⟨db.nextUser, name, isAdmin, now, none⟩
  ({ db with users := db.users ++ [row], nextUser := db.nextUser + 1 }, row)

/-- `create_user`. -/
def createUser (name : Str) (isAdmin : Bool) (now : Time) :
    AccountTables × Except ApiError UserCreatedResponse :=
  let normalizedName := Text.trim name
  if normalizedName = [] then (db, .error (ApiError.badRequest "name is required"))
  -- `UNIQUE (name)`: error code 23505; the number is used up all the same
  else if db.users.any fun u => u.name = normalizedName then
    ({ db with nextUser := db.nextUser + 1 },
      .error (ApiError.conflict "a user with that name already exists"))
  else
    let (db, row) := db.insertUser normalizedName isAdmin now
    (db, .ok ⟨row.id, row.name, row.isAdmin, row.createdAt⟩)

/-- `set_user_disabled`. -/
def setUserDisabled (userId : UserId) (disabled : Bool) (now : Time) :
    AccountTables × Except ApiError Unit :=
  if db.users.any fun u => u.id = userId then
    ({ db with
        users := db.users.map fun u =>
          if u.id = userId then { u with disabledAt := if disabled then some now else none }
          else u },
      .ok ())
  else (db, .error (ApiError.notFound "user not found"))

/-! ## Tokens -/

section Tokens

variable (hash : Str → Str)

/-- `create_token`, with the token that `generate_token` drew. Users are never deleted, so the row
that the `SELECT` found is there when the `INSERT` runs. -/
def createToken (userId : UserId) (label : Option Str) (token : Str) (now : Time) :
    AccountTables × Except ApiError TokenCreated :=
  if db.users.any fun u => u.id = userId then
    -- `UNIQUE (token_hash)`
    if db.tokens.any fun r => r.tokenHash = hash token then
      ({ db with nextToken := db.nextToken + 1 },
        .error (ApiError.internal "failed to create token"))
    else
      let row : TokenRow :=
        ⟨db.nextToken, userId, hash token, tokenPrefix token, label.getD "manual".toList, now,
          none, none⟩
      ({ db with tokens := db.tokens ++ [row], nextToken := db.nextToken + 1 },
        .ok ⟨row.id, row.label, row.tokenPrefix, token, row.createdAt⟩)
  else (db, .error (ApiError.notFound "user not found"))

/-- `revoke_token`: a row that is revoked already is not found. -/
def revokeToken (tokenId : Int) (now : Time) : AccountTables × Except ApiError Unit :=
  if db.tokens.any fun r => r.id = tokenId ∧ r.revokedAt = none then
    ({ db with
        tokens := db.tokens.map fun r =>
          if r.id = tokenId ∧ r.revokedAt = none then { r with revokedAt := some now } else r },
      .ok ())
  else (db, .error (ApiError.notFound "token not found"))

/-- `INSERT INTO users ... ON CONFLICT (name) DO UPDATE SET is_admin = TRUE RETURNING id`. An
existing user keeps `disabled_at`. -/
def upsertAdmin (name : Str) (now : Time) : AccountTables × UserId :=
  match db.users.find? fun u => u.name = name with
  | some found =>
      ({ db with
          users := db.users.map fun u => if u.id = found.id then { u with isAdmin := true } else u
          nextUser := db.nextUser + 1 }, found.id)
  | none =>
      let (db, row) := db.insertUser name true now
      (db, row.id)

/-- `INSERT INTO auth_tokens ... ON CONFLICT (token_hash) DO UPDATE SET user_id = $1,
token_prefix = $3, label = 'bootstrap', revoked_at = NULL`. -/
def upsertToken (userId : UserId) (tokenHash tokenPrefix : Str) (now : Time) : AccountTables :=
  if db.tokens.any fun r => r.tokenHash = tokenHash then
    { db with
      tokens := db.tokens.map fun r =>
        if r.tokenHash = tokenHash then
          { r with
            userId := userId, tokenPrefix := tokenPrefix, label := "bootstrap".toList,
            revokedAt := none }
        else r
      nextToken := db.nextToken + 1 }
  else
    { db with
      tokens := db.tokens ++
        [⟨db.nextToken, userId, tokenHash, tokenPrefix, "bootstrap".toList, now, none, none⟩]
      nextToken := db.nextToken + 1 }

/-- `ensure_bootstrap_admin`, whose two statements are one transaction. The token is hashed as it
was given. -/
def ensureBootstrapAdmin (adminName : Str) (adminToken : Option Str) (now : Time) :
    AccountTables × Except String Unit :=
  match adminToken with
  | none => (db, .ok ())
  | some adminToken =>
      let adminName := Text.trim adminName
      if adminName = [] then
        (db, .error "ADMIN_BOOTSTRAP_NAME cannot be empty when ADMIN_BOOTSTRAP_TOKEN is set")
      else
        let (db, userId) := db.upsertAdmin adminName now
        (db.upsertToken userId (hash adminToken) (tokenPrefix adminToken) now, .ok ())

/-! ## Authentication -/

/-- `SELECT ... FROM auth_tokens t JOIN users u ON u.id = t.user_id WHERE t.token_hash = $1 AND
t.revoked_at IS NULL`. -/
def selectGrant (tokenHash : Str) : Option (UserRow × TokenRow) :=
  (db.tokens.filter fun r => r.tokenHash = tokenHash ∧ r.revokedAt = none).findSome? fun r =>
    (Table.row? UserRow.id r.userId db.users).map fun u => (u, r)

/-- `authenticate_token` with the id of the row whose `last_used_at` it then sets. -/
def authenticate (token : Str) : Except ApiError (AuthenticatedUser × Int) :=
  let trimmed := Text.trim token
  if trimmed = [] then .error (ApiError.unauthorized "missing bearer token")
  else
    match db.selectGrant (hash trimmed) with
    | none => .error (ApiError.unauthorized "invalid bearer token")
    | some (u, r) =>
        if u.disabledAt.isSome then .error (ApiError.forbidden "user account is disabled")
        else .ok (⟨u.id, u.name, u.isAdmin⟩, r.id)

/-- `authenticate_token`. -/
def authenticateToken (token : Str) : Except ApiError AuthenticatedUser :=
  (db.authenticate hash token).map Prod.fst

end Tokens

/-- The spawned `UPDATE auth_tokens SET last_used_at = NOW() WHERE id = $1`. -/
def touchToken (tokenId : Int) (now : Time) : AccountTables :=
  { db with
    tokens := db.tokens.map fun r =>
      if r.id = tokenId then { r with lastUsedAt := some now } else r }

end AccountTables

end AnyPlayerSync.Accounts
