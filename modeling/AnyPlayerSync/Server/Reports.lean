import AnyPlayerSync.Accounts.Bootstrap
import AnyPlayerSync.Passages.Misses
import AnyPlayerSync.Server.Frame

/-!
# Reports

The two reports of the administration that say something about a whole history. `list_users` reads
the users and then the tokens, and joins them by groups; accounts may change between the two reads
(`listUsers_between`). `misses` names the tracks for which no attempt since the last requeue found
anything (`misses_iff`).
-/

set_option autoImplicit false

namespace AnyPlayerSync.Server

open AnyPlayerSync.Accounts (AccountAction AccountEvent AccountTables TokenRow UserRow accounts
  AuthenticatedUser UniqueColumns authenticateToken_eq_ok_iff run_uniqueColumns selectGrant_iff)
open AnyPlayerSync.Foundation
open AnyPlayerSync.Passages (FoundSince FreshLease JobRow Queue QueueAction QueueEvent TrackRequest
  found_iff onlyWikipediaAnswers queue stateFound)
open AnyPlayerSync.Sync (UserId)

/-! ## The users with their tokens -/

section Listing

variable {V F : Type}

/-- What the report says of the users of the first read and the tokens of the second. -/
structure Lists (users : List UserRow) (tokens : List TokenRow) (report : List UserSummary) :
    Prop where
  /-- Every user of the first read, once. -/
  everyUser : (report.map UserSummary.id).Perm (users.map UserRow.id)
  rows : ∀ u ∈ report, ∃ row ∈ users, u.id = row.id ∧ u.name = row.name ∧
    u.isAdmin = row.isAdmin ∧ u.createdAt = row.createdAt ∧ u.disabledAt = row.disabledAt
  /-- Its own tokens of the second read, latest first. -/
  own : ∀ u ∈ report, u.tokens.Perm ((tokens.filter fun r => r.userId = u.id).map tokenInfo)
  latestFirst : ∀ u ∈ report, u.tokens.Pairwise fun a b => b.createdAt ≤ a.createdAt
  /-- No token is lost or repeated, unless its owner is newer than the first read. -/
  everyToken : (report.flatMap UserSummary.tokens).Perm
    ((tokens.filter fun r => r.userId ∈ users.map UserRow.id).map tokenInfo)

variable {X : Externals V F} {users : List UserRow} {tokens : List TokenRow}

theorem selectUsers_perm : (selectUsers X users).Perm users := List.mergeSort_perm _ _

theorem selectTokens_perm : (selectTokens tokens).Perm tokens := List.mergeSort_perm _ _

theorem selectTokens_latestFirst :
    (selectTokens tokens).Pairwise fun a b => b.createdAt ≤ a.createdAt := by
  have hsorted : (selectTokens tokens).Pairwise
      fun a b => decide (b.createdAt ≤ a.createdAt) = true := by
    apply List.pairwise_mergeSort
    · intro a b c hab hbc
      rw [decide_eq_true_eq] at hab hbc ⊢
      exact Int.le_trans hbc hab
    · intro a b
      rw [Bool.or_eq_true, decide_eq_true_eq, decide_eq_true_eq]
      exact Int.le_total _ _
  exact hsorted.imp fun h => of_decide_eq_true h

/-- The join by groups is the plain join. -/
theorem listUsersFrom_eq (hn : (users.map UserRow.id).Nodup) :
    listUsersFrom X users tokens = (selectUsers X users).map fun u =>
      userSummary (u, (selectTokens tokens).filter fun r => r.userId = u.id) := by
  have hsorted : ((selectUsers X users).map UserRow.id).Nodup :=
    (selectUsers_perm.map _).nodup_iff.2 hn
  rw [listUsersFrom, Join.join_eq _ hsorted, List.map_map]
  apply List.map_congr_left
  intro u _
  simp only [Function.comp_apply, Join.groups_getD]

theorem listUsersFrom_lists (hn : (users.map UserRow.id).Nodup) :
    Lists users tokens (listUsersFrom X users tokens) := by
  rw [listUsersFrom_eq hn]
  refine ⟨?_, ?_, ?_, ?_, ?_⟩
  · rw [List.map_map]
    exact selectUsers_perm.map UserRow.id
  · intro u hu
    obtain ⟨row, hrow, rfl⟩ := List.mem_map.1 hu
    exact ⟨row, selectUsers_perm.subset hrow, rfl, rfl, rfl, rfl, rfl⟩
  · intro u hu
    obtain ⟨row, hrow, rfl⟩ := List.mem_map.1 hu
    exact (selectTokens_perm.filter _).map tokenInfo
  · intro u hu
    obtain ⟨row, hrow, rfl⟩ := List.mem_map.1 hu
    exact List.pairwise_map.2 (selectTokens_latestFirst.filter _)
  · have hflat : ((selectUsers X users).map fun u =>
        userSummary (u, (selectTokens tokens).filter fun r => r.userId = u.id)).flatMap
          UserSummary.tokens =
        (((selectUsers X users).map UserRow.id).flatMap fun k =>
          (selectTokens tokens).filter fun r => r.userId = k).map tokenInfo := by
      rw [List.flatMap_map, List.flatMap_map, List.map_flatMap]
      rfl
    have hids : ((selectUsers X users).map UserRow.id).Perm (users.map UserRow.id) :=
      selectUsers_perm.map UserRow.id
    rw [hflat]
    refine ((Join.join_perm (selectTokens tokens) (hids.nodup_iff.2 hn)).trans ?_).map tokenInfo
    refine (selectTokens_perm.filter _).trans ?_
    rw [List.filter_congr]
    intro r _
    exact decide_eq_decide.2 hids.mem_iff

/-- The report shows a token that opens an account, under its owner and as not revoked. -/
def Shows (hash : Str → Str) (db : AccountTables) (report : List UserSummary) (t : Str)
    (owner : UserId) : Prop :=
  ∃ row ∈ db.tokens, row.tokenHash = hash t ∧ row.revokedAt = none ∧
    ∃ u ∈ report, u.id = owner ∧ tokenInfo row ∈ u.tokens

theorem Lists.shows {hash : Str → Str} {db : AccountTables} {report : List UserSummary} {t : Str}
    {a : AuthenticatedUser} (hl : Lists users db.tokens report) (hu : UniqueColumns db)
    (htrim : Text.trim t = t) (hne : t ≠ []) (ha : db.authenticateToken hash t = .ok a)
    (howner : a.id ∈ users.map UserRow.id) : Shows hash db report t a.id := by
  obtain ⟨u, row, hsel, -, rfl⟩ := (authenticateToken_eq_ok_iff htrim hne).1 ha
  obtain ⟨hrow, hopen, huser⟩ := (selectGrant_iff hu.hashes).1 hsel
  obtain ⟨hmem, hhash⟩ := Table.row?_spec hrow
  obtain ⟨v, hv, hid⟩ := List.mem_map.1 (hl.everyUser.symm.subset howner)
  refine ⟨row, hmem, hhash, hopen, v, hv, hid, (hl.own v hv).symm.subset ?_⟩
  apply List.mem_map_of_mem
  refine List.mem_filter.2 ⟨hmem, decide_eq_true ?_⟩
  rw [hid]
  exact (Table.row?_spec huser).2.symm

/-- **`list_users`, with any account steps between its two reads.** The users are those of the first
read, each with its tokens of the second, and no token that opens the account of one of them at the
second read is left out. -/
theorem listUsers_between {hash : Str → Str} {h : List AccountEvent} {db db' : AccountTables}
    (hr : (accounts hash).Run h db) (as : List AccountAction)
    (hdb : ((accounts hash).exec (h, db) as).2 = db') :
    Lists db.users db'.tokens (listUsersFrom X db.users db'.tokens) ∧
      ∀ t a, Text.trim t = t → t ≠ [] → db'.authenticateToken hash t = .ok a →
        a.id ∈ db.users.map UserRow.id →
          Shows hash db' (listUsersFrom X db.users db'.tokens) t a.id := by
  have hlists : Lists db.users db'.tokens (listUsersFrom X db.users db'.tokens) :=
    listUsersFrom_lists (run_uniqueColumns hr).users.nodup
  have hlater : UniqueColumns db' := hdb ▸ run_uniqueColumns (Machine.run_exec_from as hr)
  exact ⟨hlists, fun t a htrim hne ha howner => hlists.shows hlater htrim hne ha howner⟩

/-- The token of `kim` is made between the two reads. -/
theorem listUsers_between_kim :
    Shows Accounts.sampleHash kimDatabase.accounts
      (listUsersFrom kimExternals kimDatabase.accounts.users kimDatabase.accounts.tokens)
      Accounts.sampleToken 1 :=
  (listUsers_between (X := kimExternals)
    (Machine.run_exec [.run (.createUser "kim".toList false) 0])
    [.run (.createToken 1 none Accounts.sampleToken) 1] rfl).2 Accounts.sampleToken
      ⟨1, "kim".toList, false⟩ (by decide +kernel) (by decide) (by decide +kernel)
      (by decide +kernel)

end Listing

/-! ## The misses -/

section Misses

variable {V F : Type} {X : Externals V F} {U : UnicodeTables} {h : List QueueEvent} {s : Queue}

theorem mem_misses_iff {rows : List JobRow} {track : TrackRequest} :
    track ∈ misses X rows ↔ ∃ row ∈ rows, row.track = track ∧
      (row.status = .done ∨ row.status = .failed) ∧
        ¬ ∃ p ∈ row.entries, Passages.state p.2 = stateFound := by
  rw [misses, List.mem_mergeSort, List.mem_map]
  constructor
  · rintro ⟨row, hrow, rfl⟩
    obtain ⟨hmem, hcond⟩ := List.mem_filter.1 hrow
    rw [Bool.and_eq_true, Bool.or_eq_true, decide_eq_true_eq, decide_eq_true_eq,
      Bool.not_eq_true', List.any_eq_false] at hcond
    refine ⟨row, hmem, rfl, hcond.1, ?_⟩
    rintro ⟨p, hp, hfound⟩
    exact hcond.2 p hp (decide_eq_true hfound)
  · rintro ⟨row, hrow, rfl, hstatus, hnone⟩
    refine ⟨row, List.mem_filter.2 ⟨hrow, ?_⟩, rfl⟩
    rw [Bool.and_eq_true, Bool.or_eq_true, decide_eq_true_eq, decide_eq_true_eq,
      Bool.not_eq_true', List.any_eq_false]
    exact ⟨hstatus, fun p hp hfound => hnone ⟨p, hp, of_decide_eq_true hfound⟩⟩

/-- **The misses are the tracks of the finished jobs for which no attempt found anything** since the
last requeue, where each worker finishes before its lease goes stale. -/
theorem misses_iff (hr : (queue U).RunIf FreshLease h s) (track : TrackRequest) :
    track ∈ misses X s.rows ↔ ∃ row ∈ s.rows, row.track = track ∧
      (row.status = .done ∨ row.status = .failed) ∧ ¬ FoundSince h row.id := by
  rw [mem_misses_iff]
  constructor
  · rintro ⟨row, hrow, htrack, hstatus, hnone⟩
    exact ⟨row, hrow, htrack, hstatus, fun hfound => hnone ((found_iff hr hrow).2 hfound)⟩
  · rintro ⟨row, hrow, htrack, hstatus, hnone⟩
    exact ⟨row, hrow, htrack, hstatus, fun hfound => hnone ((found_iff hr hrow).1 hfound)⟩

/-- One attempt, at the end of which Wikipedia knows nothing of the song. -/
def unknownSong : List QueueAction :=
  [.call 0 ⟨"Creep".toList, "Radiohead".toList, none⟩ none false false, .proceed 0, .claim [],
    .fetch 0 ["wikipedia".toList], .finish 0 onlyWikipediaAnswers []]

theorem misses_iff_unknownSong :
    ∃ row ∈ ((queue asciiTables).exec ([], Queue.empty) unknownSong).2.rows,
      row.track = ⟨"Creep".toList, "Radiohead".toList, none⟩ ∧
        (row.status = .done ∨ row.status = .failed) ∧
          ¬ FoundSince ((queue asciiTables).exec ([], Queue.empty) unknownSong).1 row.id :=
  (misses_iff (X := kimExternals) (Machine.runIf_exec (by decide)) _).1
    (mem_misses_iff.2 ⟨_, List.mem_cons_self, rfl, by decide, by decide⟩)

end Misses

end AnyPlayerSync.Server
