import AnyPlayerSync.Passages.Api
import AnyPlayerSync.Passages.ChunkIds

/-!
# Sound passage tables

The tables `dj_documents`, `dj_chunks` and `dj_passage_plays` together: keys are unique, every row
refers to rows that exist, and the chunks are those of the stored bodies. Each step of a call keeps
this (`TxnEffect.sound`), so each function does that runs alone (`sound_upsertDocument`,
`sound_deleteDocument`), and `record_plays` does (`sound_recordPlays`). `Tables.UsersAre` says which
users the rows refer to.
-/

set_option autoImplicit false

namespace AnyPlayerSync.Passages

open AnyPlayerSync.Foundation
open AnyPlayerSync.Sync (Time UserId)

variable {V : Type} {U : UnicodeTables} {hash : Str → Str} {E : Embedder V}

/-! ## The invariant -/

/-- The rows of `dj_passage_plays` have unique keys and refer to chunks. -/
structure PlaysSound (T : Tables V) : Prop where
  keys : (T.plays.map PlayRow.key).Nodup
  known : ∀ p ∈ T.plays, ∃ c ∈ T.chunks, c.id = p.chunkId

variable (hash E) in
/-- The tables meet their constraints, and each body has its chunks. -/
structure Tables.Sound (T : Tables V) : Prop where
  valid : T.Valid
  chunks : ChunksMatch hash E T
  chunkIds : (T.chunks.map ChunkRow.id).Nodup
  drawn : ∀ c ∈ T.chunks, c.id < T.chunkSeq
  plays : PlaysSound T

theorem sound_empty : (Tables.empty (V := V)).Sound hash E where
  valid := Tables.valid_empty
  chunks := ⟨fun _ h => absurd h List.not_mem_nil, fun _ h => absurd h List.not_mem_nil,
    fun _ h => absurd h List.not_mem_nil⟩
  chunkIds := List.nodup_nil
  drawn _ h := absurd h List.not_mem_nil
  plays := ⟨List.nodup_nil, fun _ h => absurd h List.not_mem_nil⟩

/-! ## Plays -/

/-- What a write keeps of the plays, when each that is left has its chunk left. -/
theorem PlaysSound.shrink {T T' : Tables V} (h : PlaysSound T) (hsub : T'.plays.Sublist T.plays)
    (hleft : ∀ p ∈ T'.plays, ∀ c ∈ T.chunks, c.id = p.chunkId → c ∈ T'.chunks) :
    PlaysSound T' where
  keys := (hsub.map PlayRow.key).nodup h.keys
  known p hp := by
    obtain ⟨c, hc, hid⟩ := h.known p (hsub.subset hp)
    exact ⟨c, hleft p hp c hc hid, hid⟩

theorem plays_commit {T : Tables V} (h : PlaysSound T) (st : Staged V) :
    PlaysSound (T.commit st) := by
  refine h.shrink List.filter_sublist fun p hp c hc hid => List.mem_append_left _ ?_
  have hkept := of_decide_eq_true (List.mem_filter.1 hp).2
  exact List.mem_filter.2 ⟨hc, decide_eq_true fun hgone => hkept (hid ▸ hgone.2)⟩

theorem plays_deleteDocument {T : Tables V} (h : PlaysSound T) (id : Nat) :
    PlaysSound (T.deleteDocument id).1 := by
  refine h.shrink List.filter_sublist fun p hp c hc hid => List.mem_filter.2 ⟨hc, ?_⟩
  have hkept := of_decide_eq_true (List.mem_filter.1 hp).2
  refine decide_eq_true fun howner => hkept ?_
  rw [← hid]
  exact List.mem_map_of_mem (List.mem_filter.2 ⟨hc, decide_eq_true howner⟩)

theorem TxnEffect.plays {s : TxnState V} {p : TxnState V × StoreEvent V}
    (he : TxnEffect U hash E s p) (h : PlaysSound s.tables) : PlaysSound p.1.tables := by
  cases he with
  | moved | touched | inserted | cleared | added | rolledBack => exact ⟨h.keys, h.known⟩
  | committed held => exact plays_commit h _
  | deleted held free => exact plays_deleteDocument h _

/-! ## Functions that run alone -/

/-- A state in which one call has begun. -/
def alone (T : Tables V) (c : StoreCall V) : TxnState V :=
  ⟨T, [], fun i => if i = 0 then some c else none⟩

/-- What every step of the store keeps. -/
structure TxnSound (U : UnicodeTables) (hash : Str → Str) (E : Embedder V) (s : TxnState V) :
    Prop where
  inv : TxnInv U hash E s
  ids : ChunkIds s
  plays : PlaysSound s.tables

theorem TxnEffect.sound {s : TxnState V} {p : TxnState V × StoreEvent V}
    (he : TxnEffect U hash E s p) (h : TxnSound U hash E s) : TxnSound U hash E p.1 :=
  ⟨he.inv h.inv, he.chunkIds h.ids, he.plays h.plays⟩

theorem TxnSound.tables {s : TxnState V} (h : TxnSound U hash E s) : s.tables.Sound hash E where
  valid := h.inv.valid
  chunks := ⟨h.inv.hashes, h.inv.stored, h.inv.valid.chunkOwner⟩
  chunkIds := h.ids.nodup
  drawn := h.ids.drawn
  plays := h.plays

/-- A call that has only begun has staged nothing. -/
theorem txnSound_alone {T : Tables V} {c : StoreCall V} (h : T.Sound hash E)
    (hstaged : c.staged = none) (hok : c.Ok U hash E T) : TxnSound U hash E (alone T c) := by
  have hcalls : ∀ i c', (alone T c).calls i = some c' → c' = c := by
    intro i c' hc
    simp only [alone] at hc
    split_ifs at hc
    exact (Option.some.inj hc).symm
  have hnone : ∀ i st, ¬ (alone T c).Stages i st := by
    rintro i st ⟨c', hc, hst⟩
    rw [hcalls i c' hc, hstaged] at hst
    cases hst
  refine ⟨⟨h.valid, h.chunks.hashes, h.chunks.stored, ?_, ?_, ?_⟩,
    ⟨h.chunkIds, h.drawn, ?_, ?_⟩, h.plays⟩
  · intro i c' hc
    rw [hcalls i c' hc]
    exact hok
  · exact fun i st hst => absurd hst (hnone i st)
  · exact fun i j st st' _ hst => absurd hst (hnone i st)
  · exact fun i st hst => absurd hst (hnone i st)
  · exact fun i j st st' _ hst => absurd hst (hnone i st)

theorem exec_sound (as : List StoreAction) : ∀ {h : List (StoreEvent V)} {s : TxnState V},
    TxnSound U hash E s → TxnSound U hash E ((store U hash E).exec (h, s) as).2 := by
  induction as with
  | nil => exact fun hs => hs
  | cons a as ih =>
      intro h s hs
      rw [Machine.exec]
      cases hstep : (store U hash E).step s a with
      | none => exact ih hs
      | some p =>
          obtain ⟨s', e⟩ := p
          exact ih ((storeStep_effect hstep).sound hs)

theorem sound_upsertDocument {T T' : Tables V} {doc : NewDocument} {addedBy : Option UserId}
    {now : Time} {id : Nat} (h : T.Sound hash E)
    (hok : upsertDocument U hash E T doc addedBy now = .ok (T', id)) : T'.Sound hash E := by
  have hbegun : TxnSound U hash E (alone T (.upsert doc addedBy .reading)) :=
    txnSound_alone h rfl trivial
  obtain ⟨n, htables, -⟩ := exec_upsert (h := []) (s := alone T (.upsert doc addedBy .reading)) rfl
    (if_pos rfl) hok
  rw [← htables]
  exact (exec_sound _ hbegun).tables

theorem sound_deleteDocument {T : Tables V} (h : T.Sound hash E) (id : Nat) :
    (T.deleteDocument id).1.Sound hash E := by
  have hbegun : TxnSound asciiTables hash E (alone T (.delete id)) := txnSound_alone h rfl trivial
  have hfree : ¬ (alone T (.delete id)).IdLocked id := by
    rintro ⟨r, -, -, hlocked⟩
    cases hlocked
  exact ((TxnEffect.deleted (if_pos rfl) hfree).sound hbegun).tables

/-! ## `record_plays` -/

theorem sound_recordPlays {T : Tables V} (h : T.Sound hash E) (user : UserId)
    (input : PlayedRequest) : (T.recordPlays user input).Sound hash E := by
  refine ⟨⟨h.valid.docIds, h.valid.docKeys, h.valid.docFresh, h.valid.chunkOwner⟩,
    ⟨h.chunks.hashes, h.chunks.stored, h.chunks.owned⟩, h.chunkIds, h.drawn, ?_, ?_⟩
  · -- each named chunk has one row, and a key that is there already is skipped
    have hrows : (((T.chunks.filter fun c => (c.id : Int) ∈ input.chunkIds).map fun c =>
        (⟨user, input.eventId, c.id, input.playedAt⟩ : PlayRow)).map PlayRow.key).Nodup := by
      have hids : ((T.chunks.filter fun c => (c.id : Int) ∈ input.chunkIds).map
          ChunkRow.id).Nodup := (List.filter_sublist.map ChunkRow.id).nodup h.chunkIds
      have hkeys : Function.Injective fun id : Nat => (user, input.eventId, id) := by
        intro a b hab
        exact congrArg (fun k => k.2.2) hab
      rw [List.map_map]
      have hmap := hids.map hkeys
      rwa [List.map_map] at hmap
    rw [Tables.recordPlays, List.map_append, List.nodup_append]
    refine ⟨h.plays.keys, (List.filter_sublist.map PlayRow.key).nodup hrows, ?_⟩
    rintro k hk k' hk' rfl
    obtain ⟨p, hp, rfl⟩ := List.mem_map.1 hk
    obtain ⟨row, hrow, hkey⟩ := List.mem_map.1 hk'
    have hnew := (List.mem_filter.1 hrow).2
    rw [Bool.not_eq_true', List.any_eq_false] at hnew
    exact hnew p hp (decide_eq_true hkey.symm)
  · intro p hp
    rcases List.mem_append.1 hp with hp | hp
    · exact h.plays.known p hp
    · obtain ⟨c, hc, rfl⟩ := List.mem_map.1 (List.mem_filter.1 hp).1
      exact ⟨c, (List.mem_filter.1 hc).1, rfl⟩

/-! ## The users that rows refer to -/

/-- The users of the rows meet `P`. -/
structure Tables.UsersAre (P : UserId → Prop) (T : Tables V) : Prop where
  documents : ∀ r ∈ T.docs, ∀ user, r.addedBy = some user → P user
  plays : ∀ p ∈ T.plays, P p.userId

section Users

variable {P : UserId → Prop} {T T' : Tables V}

variable (U hash T) in
/-- A row that conflicts stays with the one who added it first. -/
theorem insertDocument_addedBy (doc : NewDocument) (addedBy : Option UserId) (now : Time) :
    (T.insertDocument U hash doc addedBy now).2.row.addedBy = addedBy ∨
      ∃ r ∈ T.docs, r.addedBy = (T.insertDocument U hash doc addedBy now).2.row.addedBy := by
  rw [Tables.insertDocument]
  cases hrow : Table.row? DocumentRow.key doc.key T.docs with
  | none => exact Or.inl rfl
  | some r => exact Or.inr ⟨r, (Table.row?_spec hrow).1, rfl⟩

theorem usersAre_rewriteDocument (h : T.UsersAre P) {doc : NewDocument} {addedBy : Option UserId}
    {now : Time} {id : Nat} (hadded : ∀ user, addedBy = some user → P user)
    (hok : rewriteDocument U hash E T doc addedBy now = .ok (T', id)) : T'.UsersAre P := by
  rw [rewriteDocument] at hok
  cases hp : E.passages doc.body with
  | error e => simp [hp, bind, Except.bind] at hok
  | ok passages =>
      obtain ⟨htables, hrow, -, -⟩ := insertChunks_spec passages
        (T.insertDocument U hash doc addedBy now).1
        ((T.insertDocument U hash doc addedBy now).1.deleteChunks
          (T.insertDocument U hash doc addedBy now).2) [] (Stored.nil _)
      simp only [hp, bind, Except.bind, pure, Except.pure, Except.ok.injEq, Prod.mk.injEq] at hok
      obtain ⟨rfl, -⟩ := hok
      constructor
      · intro r hr user huser
        rw [Tables.commit, htables, hrow] at hr
        rcases Table.mem_put.1 hr with rfl | ⟨hr, -⟩
        · rcases insertDocument_addedBy U hash T doc addedBy now with hnew | ⟨old, hold, hkept⟩
          · exact hadded user (hnew.symm.trans huser)
          · exact h.documents old hold user (hkept.trans huser)
        · exact h.documents r hr user huser
      · intro p hp
        rw [Tables.commit, htables] at hp
        exact h.plays p (List.mem_filter.1 hp).1

theorem usersAre_upsertDocument (h : T.UsersAre P) {doc : NewDocument} {addedBy : Option UserId}
    {now : Time} {id : Nat} (hadded : ∀ user, addedBy = some user → P user)
    (hok : upsertDocument U hash E T doc addedBy now = .ok (T', id)) : T'.UsersAre P := by
  rcases upsertDocument_cases U hash E T doc addedBy now with ⟨r, -, -, hshort⟩ | ⟨-, hfull⟩
  · rw [hshort] at hok
    cases hok
    refine ⟨fun r hr user huser => ?_, h.plays⟩
    obtain ⟨old, hold, rfl⟩ := List.mem_map.1 hr
    refine h.documents old hold user ?_
    rw [← huser]
    split_ifs <;> rfl
  · rw [hfull] at hok
    exact usersAre_rewriteDocument h hadded hok

theorem usersAre_deleteDocument (h : T.UsersAre P) (id : Nat) :
    (T.deleteDocument id).1.UsersAre P where
  documents r hr := h.documents r (List.mem_filter.1 hr).1
  plays p hp := h.plays p (List.mem_filter.1 hp).1

theorem usersAre_recordPlays (h : T.UsersAre P) {user : UserId} (huser : P user)
    (input : PlayedRequest) : (T.recordPlays user input).UsersAre P where
  documents := h.documents
  plays p hp := by
    rcases List.mem_append.1 hp with hp | hp
    · exact h.plays p hp
    · obtain ⟨c, -, rfl⟩ := List.mem_map.1 (List.mem_filter.1 hp).1
      exact huser

end Users

end AnyPlayerSync.Passages
