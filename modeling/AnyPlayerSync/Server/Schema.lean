import AnyPlayerSync.Accounts.Bootstrap
import AnyPlayerSync.Server.Handlers

/-!
# The schema

`ensure_schema` of `db.rs`, which runs at every start on what earlier versions and all requests so
far have left. It folds the dashes of old keys with a regular expression and `translate()`, which
agree with `fold_dashes` on every text (`rewriteKeys_eq`), and it copies the rows of the legacy
table that the user `default` does not have yet.

One start does all of its work or nothing (`triple_ensureSchema`), its work is to migrate the store
(`migrate_migrated`), and doing it again changes no row (`migrate_again`).
-/

set_option autoImplicit false

namespace AnyPlayerSync.Server

open AnyPlayerSync.Accounts (AccountTables UserRow UsersChange)
open AnyPlayerSync.Facts (FactRow)
open AnyPlayerSync.Foundation
open AnyPlayerSync.Foundation.Program
open AnyPlayerSync.Sync (Documents Snapshot Time UserId)

/-! ## Statements of `ensure_schema` -/

/-- `translate(string, from, to)`: a character of `from` becomes the one at its place in `to`, and
is removed when `to` is shorter. -/
def translate (s source target : Str) : Str :=
  s.filterMap fun c =>
    match source.idxOf? c with
    | some i => target[i]?
    | none => some c

/-- The second argument of `translate` in the `UPDATE`. -/
def sqlDashes : Str := ['\u2010', '\u2011', '\u2012', '\u2013', '\u2014', '\u2015']

/-- The character class `[\u2010-\u2015]`. -/
def inDashClass (c : Char) : Bool := 0x2010 ≤ c.toNat && c.toNat ≤ 0x2015

/-- `UPDATE dj_facts SET ... WHERE song_key ~ ... OR artist_key ~ ...`. -/
def rewriteKeys (rows : List FactRow) : List FactRow :=
  rows.map fun f =>
    if f.songKey.any inDashClass || f.artistKey.any inDashClass then
      { f with
        songKey := translate f.songKey sqlDashes "------".toList
        artistKey := translate f.artistKey sqlDashes "------".toList }
    else f

/-- `INSERT INTO users (name, is_admin) VALUES ('default', FALSE) ON CONFLICT (name) DO UPDATE SET
name = EXCLUDED.name RETURNING id`. -/
def insertDefaultUser (db : AccountTables) (now : Time) : AccountTables × UserId :=
  match db.users.find? fun u => u.name = "default".toList with
  | some found =>
      ({ db with
          users := db.users.map fun u =>
            if u.name = "default".toList then { u with name := "default".toList } else u
          nextUser := db.nextUser + 1 }, found.id)
  | none =>
      let (db, row) := db.insertUser "default".toList false now
      (db, row.id)

/-- The table `sync_document` of versions without users, by its key `id`. -/
abbrev LegacyDocuments := Int → Option Snapshot

/-- `INSERT INTO user_sync_document ... SELECT ... FROM sync_document ON CONFLICT (user_id, id) DO
NOTHING`. -/
def copyDocuments (documents : Documents) (user : UserId) (legacy : LegacyDocuments) : Documents :=
  fun key =>
    match documents key with
    | some row => some row
    | none => if key.1 = user then legacy key.2 else none

/-- The database, with the legacy table if there is one. -/
structure Store (V : Type) where
  db : Database V
  legacy : Option LegacyDocuments

/-- An error of the driver. -/
inductive SqlError where
  | failed

section Schema

variable {V : Type}

/-- The store after the `UPDATE`. -/
def rewritten (s : Store V) : Store V :=
  { s with db := { s.db with facts := { s.db.facts with facts := rewriteKeys s.db.facts.facts } } }

/-- The first `UPDATE` of the transaction. -/
def rewriteStatement : Program (Store V) SqlError Unit :=
  statement .failed fun _ s => (rewritten s, .ok ())

/-- The user `default` is there. -/
def defaultUserStatement : Program (Store V) SqlError UserId :=
  statement .failed fun now s =>
    let (accounts, id) := insertDefaultUser s.db.accounts now
    ({ s with db := { s.db with accounts := accounts } }, .ok id)

/-- The legacy rows become rows of that user. -/
def copyStatement (user : UserId) : Program (Store V) SqlError Unit :=
  statement .failed fun _ s =>
    match s.legacy with
    | some legacy =>
        let documents := copyDocuments s.db.documents user legacy
        ({ s with db := { s.db with documents := documents } }, .ok ())
    | none => (s, .error .failed)

/-- The transaction of `ensure_schema`, after its `CREATE ... IF NOT EXISTS` statements. -/
def schemaTransaction : Program (Store V) SqlError Unit := do
  rewriteStatement
  let legacyExists ← query .failed fun _ s => .ok s.legacy.isSome
  if legacyExists then do
    let defaultUserId ← defaultUserStatement
    copyStatement defaultUserId
  else pure ()

/-- `ensure_schema` from the point where all tables are there. -/
def ensureSchema : Program (Store V) SqlError Unit :=
  transaction .failed .failed schemaTransaction

end Schema

/-! ## Dashes in SQL and in Rust -/

theorem mem_dashes_iff (c : Char) : c ∈ Keys.dashes ↔ inDashClass c = true := by
  constructor
  · intro hc
    simp only [Keys.dashes, List.mem_cons, List.not_mem_nil, or_false] at hc
    rcases hc with rfl | rfl | rfl | rfl | rfl | rfl <;> decide
  · intro hc
    rw [inDashClass, Bool.and_eq_true, decide_eq_true_eq, decide_eq_true_eq] at hc
    have hnum : c.toNat = 0x2010 ∨ c.toNat = 0x2011 ∨ c.toNat = 0x2012 ∨ c.toNat = 0x2013 ∨
        c.toNat = 0x2014 ∨ c.toNat = 0x2015 := by omega
    rw [← Char.ofNat_toNat c]
    rcases hnum with h | h | h | h | h | h <;> rw [h] <;> decide

/-- The `UPDATE` folds dashes as the server does. -/
theorem translate_dashes (s : Str) :
    translate s sqlDashes "------".toList = Keys.foldDashes s := by
  rw [translate, Keys.foldDashes, ← List.filterMap_eq_map]
  congr 1
  funext c
  -- both map the six dashes to the hyphen, and nothing else
  by_cases hc : c ∈ Keys.dashes
  · simp only [Function.comp_apply, if_pos hc]
    simp only [Keys.dashes, List.mem_cons, List.not_mem_nil, or_false] at hc
    rcases hc with rfl | rfl | rfl | rfl | rfl | rfl <;> decide
  · simp only [Function.comp_apply, if_neg hc]
    have hnone : sqlDashes.idxOf? c = none := List.idxOf?_eq_none_iff.2 hc
    rw [hnone]

theorem foldDashes_of_not_any {s : Str} (h : s.any inDashClass = false) :
    Keys.foldDashes s = s := by
  have hsame : ∀ c ∈ s, (if c ∈ Keys.dashes then '-' else c) = c := by
    intro c hc
    exact if_neg (mt (mem_dashes_iff c).1 (List.any_eq_false.1 h c hc))
  rw [Keys.foldDashes, List.map_congr_left hsame, List.map_id']

/-- Folded dashes stay as they are. -/
theorem foldDashes_idem (s : Str) : Keys.foldDashes (Keys.foldDashes s) = Keys.foldDashes s := by
  apply foldDashes_of_not_any
  rw [List.any_eq_false]
  intro c hc
  obtain ⟨d, -, rfl⟩ := List.mem_map.1 hc
  rw [← mem_dashes_iff]
  split_ifs with hd
  · decide
  · exact hd

/-- **The `UPDATE` folds the dashes of every row**, those that its `WHERE` skips included. -/
theorem rewriteKeys_eq (rows : List FactRow) :
    rewriteKeys rows = rows.map fun f =>
      { f with
        songKey := Keys.foldDashes f.songKey, artistKey := Keys.foldDashes f.artistKey } := by
  rw [rewriteKeys]
  congr 1
  funext f
  split_ifs with hdash
  · rw [translate_dashes, translate_dashes]
  · rw [Bool.or_eq_true, not_or, Bool.not_eq_true, Bool.not_eq_true] at hdash
    rw [foldDashes_of_not_any hdash.1, foldDashes_of_not_any hdash.2]

/-- A second `UPDATE` changes nothing. -/
theorem rewriteKeys_again (rows : List FactRow) :
    rewriteKeys (rewriteKeys rows) = rewriteKeys rows := by
  rw [rewriteKeys_eq (rewriteKeys rows), rewriteKeys_eq rows, List.map_map]
  apply List.map_congr_left
  intro f _
  simp only [Function.comp_apply, foldDashes_idem]

/-! ## What earlier versions leave -/

section Inherited

variable (U : UnicodeTables)

/-- Earlier versions stored `identity_key` of a text, later ones `match_key`. -/
def KeyOf (key text : Str) : Prop := key = Keys.identityKey U text ∨ key = Keys.matchKey U text

/-- The row with the keys of this version. -/
def rekeyed (f : FactRow) : FactRow :=
  { f with songKey := Keys.matchKey U f.song, artistKey := Keys.matchKey U f.artist }

variable {V : Type}

/-- What earlier versions and requests leave: every key is one of the two, and `UNIQUE (name)`
holds. -/
structure Inherited (db : Database V) : Prop where
  keys : ∀ f ∈ db.facts.facts, KeyOf U f.songKey f.song ∧ KeyOf U f.artistKey f.artist
  names : (db.accounts.users.map UserRow.name).Nodup

variable {U}

theorem foldDashes_keyOf {key text : Str} (h : KeyOf U key text) :
    Keys.foldDashes key = Keys.matchKey U text := by
  rcases h with rfl | rfl
  · rfl
  · exact foldDashes_idem _

/-- Every inherited key becomes the key of its text. -/
theorem Inherited.rewriteKeys {db : Database V} (h : Inherited U db) :
    rewriteKeys db.facts.facts = db.facts.facts.map (rekeyed U) := by
  rw [rewriteKeys_eq]
  apply List.map_congr_left
  intro f hf
  obtain ⟨hsong, hartist⟩ := h.keys f hf
  rw [foldDashes_keyOf hsong, foldDashes_keyOf hartist, rekeyed]

theorem Inherited.of_eq {db db' : Database V} (h : Inherited U db)
    (hfacts : db'.facts.facts = db.facts.facts) (husers : db'.accounts.users = db.accounts.users) :
    Inherited U db' where
  keys := by rw [hfacts]; exact h.keys
  names := by rw [husers]; exact h.names

theorem Inherited.accounts {db : Database V} (h : Inherited U db) {accounts : AccountTables}
    (hc : UsersChange db.accounts accounts) : Inherited U { db with accounts := accounts } :=
  ⟨h.keys, hc.names h.names⟩

end Inherited

/-! ## What a start does -/

section Migrate

variable {V : Type}

/-- What `ensure_schema` leaves when it answers; the clock is read for a new user only. -/
def migrate (now : Time) (s : Store V) : Store V :=
  match s.legacy with
  | none => rewritten s
  | some legacy =>
      let (accounts, id) := insertDefaultUser s.db.accounts now
      { rewritten s with
        db := { (rewritten s).db with
          accounts := accounts, documents := copyDocuments s.db.documents id legacy } }

/-- What the transaction has done when it answers. -/
theorem answers_schemaTransaction (c : Course) (s₀ : Store V) :
    Answers c (fun _ s => s = s₀) (schemaTransaction (V := V))
      fun _ _ s => ∃ now, s = migrate now s₀ := by
  refine answers_bind (Q := fun _ _ s => s = rewritten s₀) (answers_statement ?_) fun _ => ?_
  · rintro t t' _ rfl _ a -
    rfl
  refine answers_bind (Q := fun b _ s => s = rewritten s₀ ∧ b = s₀.legacy.isSome)
    (answers_query ?_) fun b => ?_
  · rintro t t' _ rfl _ a ⟨rfl⟩
    exact ⟨rfl, rfl⟩
  -- the answer of the query is the branch, so two of the four cases are impossible
  cases hlegacy : s₀.legacy with
  | none =>
      cases b with
      | true => exact fun m hm => absurd hm.2 Bool.noConfusion
      | false =>
          apply answers_pure
          rintro t s ⟨rfl, -⟩
          exact ⟨t, by rw [migrate, hlegacy]⟩
  | some legacy =>
      cases b with
      | false => exact fun m hm => absurd hm.2 Bool.noConfusion
      | true =>
          refine answers_bind (Q := fun id _ s => ∃ now,
            id = (insertDefaultUser s₀.db.accounts now).2 ∧
            s = { rewritten s₀ with db := { (rewritten s₀).db with
              accounts := (insertDefaultUser s₀.db.accounts now).1 } })
            (answers_statement ?_) fun id => answers_statement ?_
          · rintro t t' _ ⟨rfl, -⟩ _ a ⟨rfl⟩
            exact ⟨t', rfl, rfl⟩
          · rintro t t' _ ⟨now, rfl, rfl⟩ _ a -
            refine ⟨now, ?_⟩
            simp only [migrate, rewritten, hlegacy]

/-- **A start as one step.** It does all of its work or nothing; who gets an error does not know
which. -/
theorem triple_ensureSchema (c : Course) (s₀ : Store V) :
    Triple c (fun _ s => s = s₀) (ensureSchema (V := V)) fun r _ s =>
      (r = .ok () → ∃ now, s = migrate now s₀) ∧ (s = s₀ ∨ ∃ now, s = migrate now s₀) := by
  refine triple_transaction (answers_schemaTransaction c s₀) ?_ ?_
  · intro a t t' s hs _
    obtain ⟨now, rfl⟩ := hs a rfl
    exact ⟨⟨fun _ => ⟨now, rfl⟩, Or.inr ⟨now, rfl⟩⟩, fun h => (nomatch h), Or.inr ⟨now, rfl⟩⟩
  · intro e t s hs
    exact ⟨fun h => (nomatch h), Or.inl hs⟩

/-! ### The user `default` -/

section DefaultUser

variable {db : AccountTables} {now : Time}

/-- An existing user gets the name that it has. -/
theorem insertDefaultUser_found {found : UserRow}
    (h : (db.users.find? fun u => u.name = "default".toList) = some found) :
    insertDefaultUser db now = ({ db with nextUser := db.nextUser + 1 }, found.id) := by
  have hsame : (fun u : UserRow => if u.name = "default".toList then
      { u with name := "default".toList } else u) = id := by
    funext u
    split_ifs with hname
    · rw [← hname, id]
    · rfl
  simp only [insertDefaultUser, h, hsame, List.map_id]

theorem find_insertDefaultUser :
    ∃ u, ((insertDefaultUser db now).1.users.find? fun u => u.name = "default".toList) = some u ∧
      u.id = (insertDefaultUser db now).2 := by
  cases hfound : db.users.find? fun u => u.name = "default".toList with
  | some found =>
      rw [insertDefaultUser_found hfound]
      exact ⟨found, hfound, rfl⟩
  | none =>
      simp only [insertDefaultUser, hfound, AccountTables.insertUser]
      refine ⟨⟨db.nextUser, "default".toList, false, now, none⟩, ?_, rfl⟩
      rw [List.find?_append, hfound]
      rfl

theorem insertDefaultUser_change : UsersChange db (insertDefaultUser db now).1 := by
  cases hfound : db.users.find? fun u => u.name = "default".toList with
  | some found =>
      rw [insertDefaultUser_found hfound]
      exact .same rfl (Int.le_of_lt (Int.lt_succ _))
  | none =>
      simp only [insertDefaultUser, hfound]
      exact Accounts.insertUser_change (Table.row?_eq_none_iff.1 hfound) false now

/-- Users and tokens stay as they were. -/
theorem insertDefaultUser_kept :
    (∀ u ∈ db.users, u ∈ (insertDefaultUser db now).1.users) ∧
      (insertDefaultUser db now).1.tokens = db.tokens := by
  cases hfound : db.users.find? fun u => u.name = "default".toList with
  | some found =>
      rw [insertDefaultUser_found hfound]
      exact ⟨fun u hu => hu, rfl⟩
  | none =>
      simp only [insertDefaultUser, hfound, AccountTables.insertUser]
      exact ⟨fun u hu => List.mem_append_left _ hu, trivial⟩

/-- The user is there already when it is inserted again. -/
theorem insertDefaultUser_again (now' : Time) :
    insertDefaultUser (insertDefaultUser db now).1 now' =
      ({ (insertDefaultUser db now).1 with
        nextUser := (insertDefaultUser db now).1.nextUser + 1 }, (insertDefaultUser db now).2) := by
  obtain ⟨u, hfind, hid⟩ := @find_insertDefaultUser db now
  rw [insertDefaultUser_found hfind, hid]

end DefaultUser

/-! ### The documents -/

section Copy

variable {documents : Documents} {user : UserId} {legacy : LegacyDocuments}

/-- No row is overwritten. -/
theorem copyDocuments_kept {key : UserId × Int} {row : Snapshot} (h : documents key = some row) :
    copyDocuments documents user legacy key = some row := by
  rw [copyDocuments, h]

theorem copyDocuments_copied {id : Int} (h : documents (user, id) = none) :
    copyDocuments documents user legacy (user, id) = legacy id := by
  rw [copyDocuments, h]
  exact if_pos rfl

/-- A second copy changes nothing. -/
theorem copyDocuments_again : copyDocuments (copyDocuments documents user legacy) user legacy =
    copyDocuments documents user legacy := by
  funext key
  cases hrow : copyDocuments documents user legacy key with
  | some row => exact copyDocuments_kept hrow
  | none =>
      have hold : documents key = none := by
        cases hold : documents key with
        | none => rfl
        | some row => rw [copyDocuments_kept hold] at hrow; cases hrow
      rw [copyDocuments, hold] at hrow
      rw [copyDocuments, copyDocuments, hold]
      simp only at hrow ⊢
      rw [hrow]

end Copy

/-! ### The whole start -/

/-- A start that did its work: every fact has the keys of this version and its other columns as
before, documents and users that were there are as they were, and the user `default` has all legacy
documents for which it had none. The other tables are untouched. -/
structure Migrated (U : UnicodeTables) (before after : Store V) : Prop where
  keys : after.db.facts.facts = before.db.facts.facts.map (rekeyed U)
  kept : ∀ key row, before.db.documents key = some row → after.db.documents key = some row
  copied : ∀ legacy, before.legacy = some legacy →
    ∃ u ∈ after.db.accounts.users, u.name = "default".toList ∧
      (∀ v ∈ after.db.accounts.users, v.name = "default".toList → v = u) ∧
      ∀ id document, legacy id = some document → before.db.documents (u.id, id) = none →
        after.db.documents (u.id, id) = some document
  users : ∀ u ∈ before.db.accounts.users, u ∈ after.db.accounts.users
  others : after.legacy = before.legacy ∧ after.db.accounts.tokens = before.db.accounts.tokens ∧
    after.db.facts.plays = before.db.facts.plays ∧ after.db.tables = before.db.tables ∧
    after.db.jobs = before.db.jobs

/-- Only the sequence of `users.id` differs. -/
def SameRows (s s' : Store V) : Prop :=
  ∃ nextUser, s' = { s with db := { s.db with accounts :=
    { s.db.accounts with nextUser := nextUser } } }

variable {U : UnicodeTables} {s : Store V} {now : Time}

theorem migrate_facts (now : Time) (s : Store V) :
    (migrate now s).db.facts.facts = rewriteKeys s.db.facts.facts := by
  rw [migrate]
  cases s.legacy <;> rfl

theorem migrate_inherited (h : Inherited U s.db) : Inherited U (migrate now s).db := by
  constructor
  · rw [migrate_facts, h.rewriteKeys]
    intro f hf
    obtain ⟨old, -, rfl⟩ := List.mem_map.1 hf
    exact ⟨Or.inr rfl, Or.inr rfl⟩
  · rw [migrate]
    cases s.legacy with
    | none => exact h.names
    | some legacy => exact insertDefaultUser_change.names h.names

/-- The transaction migrates what it finds. -/
theorem migrate_migrated (h : Inherited U s.db) : Migrated U s (migrate now s) := by
  have hkeys : (migrate now s).db.facts.facts = s.db.facts.facts.map (rekeyed U) := by
    rw [migrate_facts, h.rewriteKeys]
  have hnames : ((migrate now s).db.accounts.users.map UserRow.name).Nodup :=
    (migrate_inherited h).names
  cases hlegacy : s.legacy with
  | none =>
      simp only [migrate, hlegacy] at hkeys ⊢
      refine ⟨hkeys, fun _ _ hrow => hrow, ?_, fun _ hu => hu, rfl, rfl, rfl, rfl, rfl⟩
      intro legacy hsome
      rw [hlegacy] at hsome
      cases hsome
  | some legacy =>
      obtain ⟨u, hfind, hid⟩ := @find_insertDefaultUser s.db.accounts now
      obtain ⟨hmem, hname⟩ := @Table.row?_spec _ _ UserRow.name _ _ _ _ hfind
      obtain ⟨husers, htokens⟩ := @insertDefaultUser_kept s.db.accounts now
      simp only [migrate, hlegacy] at hkeys hnames ⊢
      refine ⟨hkeys, fun _ _ hrow => copyDocuments_kept hrow, ?_, husers, rfl, htokens, rfl, rfl,
        rfl⟩
      intro legacy' hsome
      rw [hlegacy] at hsome
      cases hsome
      refine ⟨u, hmem, hname, ?_, ?_⟩
      · intro v hv hvname
        -- the name is unique, so the user of the copy is the one found by name
        exact Table.eq_of_key hnames hv hmem (hvname.trans hname.symm)
      · intro id document hdocument hnone
        rw [← hid]
        exact (copyDocuments_copied hnone).trans hdocument

/-- **A second start in a row changes no row.** -/
theorem migrate_again (now now' : Time) (s : Store V) :
    SameRows (migrate now s) (migrate now' (migrate now s)) := by
  cases hlegacy : s.legacy with
  | none =>
      simp only [migrate, rewritten, hlegacy, rewriteKeys_again]
      exact ⟨_, rfl⟩
  | some legacy =>
      simp only [migrate, rewritten, hlegacy, rewriteKeys_again, insertDefaultUser_again,
        copyDocuments_again]
      exact ⟨_, rfl⟩

end Migrate

end AnyPlayerSync.Server
