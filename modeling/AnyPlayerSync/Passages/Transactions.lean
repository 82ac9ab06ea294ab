import AnyPlayerSync.Foundation.Machine
import AnyPlayerSync.Passages.Rewrite
import Mathlib.Logic.Function.Basic

/-!
# Documents under concurrency

Any number of `upsert_document` and `delete_document` calls, interleaved at their statements under
READ COMMITTED. The hash is read, and the body embedded, before the transaction of an upsert
begins. Its `INSERT ... ON CONFLICT` takes the lock on the row of `(source, source_ref)`, the rest
of the transaction runs under that lock, and nothing that it wrote is seen before its `COMMIT`. The
single statements that write a row wait for its lock. A call can fail at any of its steps; a failed
transaction is rolled back and its lock released.

`TxnEffect` says once what a step does.
-/

set_option autoImplicit false

namespace AnyPlayerSync.Passages

open AnyPlayerSync.Foundation
open AnyPlayerSync.Sync (Time UserId)

/-! ## State -/

/-- The next statement of an `upsert_document` call. From `clearing` on the transaction is open and
holds the lock. -/
inductive UpsertPhase (V : Type) where
  | reading
  | touching (id : Nat)
  | embedding
  | inserting (passages : List (Passage V))
  | clearing (st : Staged V) (passages : List (Passage V))
  | adding (st : Staged V) (pending : List (Passage V))

/-- A call and its next statement. -/
inductive StoreCall (V : Type) where
  | upsert (doc : NewDocument) (addedBy : Option UserId) (phase : UpsertPhase V)
  | delete (id : Nat)
  | ended

/-- The committed tables, the locked keys and the calls. -/
structure TxnState (V : Type) where
  tables : Tables V
  locks : List (Str × Str)
  calls : Nat → Option (StoreCall V)

/-- Empty tables without locks or calls. -/
def TxnState.empty {V : Type} : TxnState V := ⟨Tables.empty, [], fun _ => none⟩

/-! ## Actions and events -/

/-- A scheduling choice; a call may fail before any of its statements. -/
inductive StoreAction where
  | upsert (call : Nat) (doc : NewDocument) (addedBy : Option UserId)
  | delete (call : Nat) (id : Nat)
  | proceed (call : Nat) (now : Time)
  | fail (call : Nat)

/-- How the call stands after a step. -/
inductive StoreResult where
  | running
  | returned (id : Nat)
  | removed (existed : Bool)
  | failed
  deriving DecidableEq

/-- One step of a call, with the committed tables before and after it. -/
structure StoreEvent (V : Type) where
  call : Nat
  result : StoreResult
  before : Tables V
  after : Tables V

/-! ## The machine -/

section Machine

variable {V : Type}

/-- What an open transaction has staged. -/
def UpsertPhase.staged : UpsertPhase V → Option (Staged V)
  | .clearing st _ => some st
  | .adding st _ => some st
  | _ => none

/-- What the transaction of the call has staged, if it is open. -/
def StoreCall.staged : StoreCall V → Option (Staged V)
  | .upsert _ _ phase => phase.staged
  | _ => none

/-- The committed row of an id is locked. -/
def TxnState.IdLocked (s : TxnState V) (id : Nat) : Prop :=
  ∃ r ∈ s.tables.docs, r.id = id ∧ r.key ∈ s.locks

instance (s : TxnState V) (id : Nat) : Decidable (s.IdLocked id) :=
  inferInstanceAs (Decidable (∃ r ∈ s.tables.docs, _))

/-- A step of `call`: its next phase, with the tables and locks that it leaves. -/
def TxnState.move (s : TxnState V) (call : Nat) (c : StoreCall V) (T : Tables V)
    (locks : List (Str × Str)) (result : StoreResult) : TxnState V × StoreEvent V :=
  (⟨T, locks, Function.update s.calls call (some c)⟩, ⟨call, result, s.tables, T⟩)

theorem TxnState.move_calls_self (s : TxnState V) (call : Nat) (c : StoreCall V) (T : Tables V)
    (locks : List (Str × Str)) (result : StoreResult) :
    (s.move call c T locks result).1.calls call = some c := Function.update_self _ _ _

theorem TxnState.move_calls_of_ne (s : TxnState V) {call j : Nat} (hj : j ≠ call)
    (c : StoreCall V) (T : Tables V) (locks : List (Str × Str)) (result : StoreResult) :
    (s.move call c T locks result).1.calls j = s.calls j := Function.update_of_ne hj _ _

variable (U : UnicodeTables) (hash : Str → Str) (E : Embedder V)

/-- The next statement of an `upsert_document` call. -/
def proceedUpsert (s : TxnState V) (call : Nat) (doc : NewDocument) (addedBy : Option UserId)
    (now : Time) : UpsertPhase V → Option (TxnState V × StoreEvent V)
  | .reading =>
      let phase := match s.tables.selectHash doc.key with
        | some (id, existing) => if existing = hash doc.body then .touching id else .embedding
        | none => .embedding
      some (s.move call (.upsert doc addedBy phase) s.tables s.locks .running)
  | .touching id =>
      if s.IdLocked id then none
      else some (s.move call .ended (s.tables.touch id now) s.locks (.returned id))
  | .embedding =>
      match E.passages doc.body with
      | .ok passages =>
          some (s.move call (.upsert doc addedBy (.inserting passages)) s.tables s.locks .running)
      | .error _ => some (s.move call .ended s.tables s.locks .failed)
  | .inserting passages =>
      -- the insert waits for the transaction that holds the key
      if doc.key ∈ s.locks then none
      else
        let (T, st) := s.tables.insertDocument U hash doc addedBy now
        some (s.move call (.upsert doc addedBy (.clearing st passages)) T (doc.key :: s.locks)
          .running)
  | .clearing st passages =>
      some (s.move call (.upsert doc addedBy (.adding (s.tables.deleteChunks st) passages))
        s.tables s.locks .running)
  | .adding st (p :: pending) =>
      let (T, st) := s.tables.insertChunk st p
      some (s.move call (.upsert doc addedBy (.adding st pending)) T s.locks .running)
  | .adding st [] =>
      some (s.move call .ended (s.tables.commit st) (s.locks.filter (· ≠ st.row.key))
        (.returned st.row.id))

/-- The locks after a call has failed. -/
def StoreCall.unlock (c : StoreCall V) (locks : List (Str × Str)) : List (Str × Str) :=
  match c.staged with
  | some st => locks.filter (· ≠ st.row.key)
  | none => locks

/-- A call begins, takes its next statement, or fails. -/
def storeStep (s : TxnState V) : StoreAction → Option (TxnState V × StoreEvent V)
  | .upsert call doc addedBy =>
      if s.calls call = none then
        some (s.move call (.upsert doc addedBy .reading) s.tables s.locks .running)
      else none
  | .delete call id =>
      if s.calls call = none then some (s.move call (.delete id) s.tables s.locks .running)
      else none
  | .proceed call now =>
      match s.calls call with
      | some (.upsert doc addedBy phase) => proceedUpsert U hash E s call doc addedBy now phase
      | some (.delete id) =>
          -- the delete waits for the lock on the row
          if s.IdLocked id then none
          else
            let (T, existed) := s.tables.deleteDocument id
            some (s.move call .ended T s.locks (.removed existed))
      | _ => none
  | .fail call =>
      match s.calls call with
      | some .ended => none
      | some c => some (s.move call .ended s.tables (c.unlock s.locks) .failed)
      | none => none

/-- Calls of `upsert_document` and `delete_document` on empty tables. -/
def store : Machine (TxnState V) StoreAction (StoreEvent V) where
  init := TxnState.empty
  step := storeStep U hash E

/-! ## What a step does -/

/-- What the calls have promised about the committed tables: an open transaction has staged a row
that may be put, its `DELETE` has found every chunk row of the document, and the texts inserted and
still to insert are the chunks of its body. -/
def StoreCall.Ok (T : Tables V) : StoreCall V → Prop
  | .upsert doc _ (.inserting passages) => passages.map Passage.text = chunk E.countTokens doc.body
  | .upsert doc _ (.clearing st passages) =>
      Inserted U hash doc st.row ∧ Placed T st.row ∧ st.inserted = [] ∧
        passages.map Passage.text = chunk E.countTokens doc.body
  | .upsert doc _ (.adding st pending) =>
      Inserted U hash doc st.row ∧ Placed T st.row ∧
        st.deleted = (T.chunks.filter fun c => c.documentId = st.row.id).map ChunkRow.id ∧
        ∃ texts, Stored st.inserted st.row.id texts ∧
          texts ++ pending.map Passage.text = chunk E.countTokens doc.body
  | _ => True

/-- Everything a step can do. -/
inductive TxnEffect (s : TxnState V) : TxnState V × StoreEvent V → Prop
  /-- A step outside a transaction that writes no table. -/
  | moved {i : Nat} {c : StoreCall V} {result : StoreResult} (live : s.calls i ≠ some .ended)
      (before : ∀ c₀, s.calls i = some c₀ → c₀.staged = none) (after : c.staged = none)
      (ok : c.Ok U hash E s.tables) (closed : result = .running ∨ (result = .failed ∧ c = .ended)) :
      TxnEffect s (s.move i c s.tables s.locks result)
  | touched {i : Nat} {doc : NewDocument} {addedBy : Option UserId} {id : Nat} (now : Time)
      (held : s.calls i = some (.upsert doc addedBy (.touching id))) :
      TxnEffect s (s.move i .ended (s.tables.touch id now) s.locks (.returned id))
  | inserted {i : Nat} {doc : NewDocument} {addedBy : Option UserId}
      {passages : List (Passage V)} (now : Time)
      (held : s.calls i = some (.upsert doc addedBy (.inserting passages)))
      (free : doc.key ∉ s.locks) :
      TxnEffect s (s.move i
        (.upsert doc addedBy
          (.clearing (s.tables.insertDocument U hash doc addedBy now).2 passages))
        (s.tables.insertDocument U hash doc addedBy now).1 (doc.key :: s.locks) .running)
  | cleared {i : Nat} {doc : NewDocument} {addedBy : Option UserId} {st : Staged V}
      {passages : List (Passage V)}
      (held : s.calls i = some (.upsert doc addedBy (.clearing st passages))) :
      TxnEffect s (s.move i (.upsert doc addedBy (.adding (s.tables.deleteChunks st) passages))
        s.tables s.locks .running)
  | added {i : Nat} {doc : NewDocument} {addedBy : Option UserId} {st : Staged V}
      {p : Passage V} {pending : List (Passage V)}
      (held : s.calls i = some (.upsert doc addedBy (.adding st (p :: pending)))) :
      TxnEffect s (s.move i (.upsert doc addedBy (.adding (s.tables.insertChunk st p).2 pending))
        (s.tables.insertChunk st p).1 s.locks .running)
  | committed {i : Nat} {doc : NewDocument} {addedBy : Option UserId} {st : Staged V}
      (held : s.calls i = some (.upsert doc addedBy (.adding st []))) :
      TxnEffect s (s.move i .ended (s.tables.commit st) (s.locks.filter (· ≠ st.row.key))
        (.returned st.row.id))
  | deleted {i id : Nat} (held : s.calls i = some (.delete id)) (free : ¬ s.IdLocked id) :
      TxnEffect s (s.move i .ended (s.tables.deleteDocument id).1 s.locks
        (.removed (s.tables.deleteDocument id).2))
  | rolledBack {i : Nat} {c : StoreCall V} {st : Staged V} (held : s.calls i = some c)
      (staged : c.staged = some st) :
      TxnEffect s (s.move i .ended s.tables (s.locks.filter (· ≠ st.row.key)) .failed)

variable {U hash E} {s : TxnState V}

theorem proceedUpsert_effect {i : Nat} {doc : NewDocument} {addedBy : Option UserId} {now : Time}
    {phase : UpsertPhase V} {p : TxnState V × StoreEvent V}
    (held : s.calls i = some (.upsert doc addedBy phase))
    (h : proceedUpsert U hash E s i doc addedBy now phase = some p) : TxnEffect U hash E s p := by
  have hlive : s.calls i ≠ some .ended := by rw [held]; exact fun h => by cases h
  have hbefore : phase.staged = none → ∀ c₀, s.calls i = some c₀ → c₀.staged = none := by
    intro hphase c₀ hc₀
    rw [held] at hc₀
    cases hc₀
    exact hphase
  cases phase with
  -- both outcomes of the read only choose the next phase
  | reading =>
      cases h
      cases s.tables.selectHash doc.key with
      | none => exact .moved hlive (hbefore rfl) rfl trivial (Or.inl rfl)
      | some found =>
          obtain ⟨id, existing⟩ := found
          dsimp only
          split_ifs
          · exact .moved hlive (hbefore rfl) rfl trivial (Or.inl rfl)
          · exact .moved hlive (hbefore rfl) rfl trivial (Or.inl rfl)
  | touching id =>
      rw [proceedUpsert] at h
      split_ifs at h
      cases h
      exact .touched now held
  | embedding =>
      rw [proceedUpsert] at h
      cases hp : E.passages doc.body with
      | error e =>
          rw [hp] at h
          cases h
          exact .moved hlive (hbefore rfl) rfl trivial (Or.inr ⟨rfl, rfl⟩)
      | ok passages =>
          rw [hp] at h
          cases h
          exact .moved hlive (hbefore rfl) rfl (passages_texts hp) (Or.inl rfl)
  | inserting passages =>
      rw [proceedUpsert] at h
      split_ifs at h with hfree
      cases h
      -- another call that holds the row's lock makes this one wait
      exact .inserted now held hfree
  | clearing st passages => cases h; exact .cleared held
  | adding st pending =>
      cases pending with
      | nil => cases h; exact .committed held
      | cons p pending => cases h; exact .added held

/-- A new call, outside a transaction. -/
theorem started_effect {i : Nat} {c : StoreCall V} (hfresh : s.calls i = none)
    (hstaged : c.staged = none) (hok : c.Ok U hash E s.tables) :
    TxnEffect U hash E s (s.move i c s.tables s.locks .running) := by
  refine .moved ?_ ?_ hstaged hok (Or.inl rfl)
  · rw [hfresh]
    exact Option.some_ne_none _ |>.symm
  · intro c₀ hc
    rw [hfresh] at hc
    cases hc

theorem storeStep_effect {a : StoreAction} {p : TxnState V × StoreEvent V}
    (h : storeStep U hash E s a = some p) : TxnEffect U hash E s p := by
  cases a with
  | upsert i doc addedBy =>
      rw [storeStep] at h
      split_ifs at h with hfresh
      cases h
      exact started_effect hfresh rfl trivial
  | delete i id =>
      rw [storeStep] at h
      split_ifs at h with hfresh
      cases h
      exact started_effect hfresh rfl trivial
  | proceed i now =>
      rw [storeStep] at h
      cases hc : s.calls i with
      | none => rw [hc] at h; cases h
      | some c =>
          rw [hc] at h
          cases c with
          | upsert doc addedBy phase => exact proceedUpsert_effect hc h
          | delete id =>
              dsimp only at h
              split_ifs at h with hfree
              cases h
              exact .deleted hc hfree
          | ended => cases h
  | fail i =>
      rw [storeStep] at h
      cases hc : s.calls i with
      | none => rw [hc] at h; cases h
      | some c =>
          have hlive : c ≠ .ended := by
            rintro rfl
            rw [hc] at h
            cases h
          have hp : p = s.move i .ended s.tables (c.unlock s.locks) .failed := by
            rw [hc] at h
            cases c with
            | ended => exact absurd rfl hlive
            | upsert doc addedBy phase => exact (Option.some.inj h).symm
            | delete id => exact (Option.some.inj h).symm
          -- outside a transaction only the call ends, inside one the lock goes too
          rw [hp, StoreCall.unlock]
          cases hst : c.staged with
          | none =>
              refine .moved (fun he => hlive (Option.some.inj (hc.symm.trans he))) ?_ rfl trivial
                (Or.inr ⟨rfl, rfl⟩)
              intro c₀ hc₀
              rwa [Option.some.inj (hc₀.symm.trans hc)]
          | some st => exact .rolledBack hc hst

/-! ## A call that no other call interrupts -/

section Alone

variable (U hash E)

/-- The call goes on by `n` steps. -/
def steps (call : Nat) (now : Time) (n : Nat) : List StoreAction :=
  List.replicate n (.proceed call now)

variable {U hash E} {call : Nat} {now : Time} {doc : NewDocument} {addedBy : Option UserId}

/-- One step of a call in a phase. -/
theorem exec_proceed {phase : UpsertPhase V} {p : TxnState V × StoreEvent V}
    {h : List (StoreEvent V)} (n : Nat)
    (held : s.calls call = some (.upsert doc addedBy phase))
    (hstep : proceedUpsert U hash E s call doc addedBy now phase = some p) :
    (store U hash E).exec (h, s) (steps call now (n + 1)) =
      (store U hash E).exec (p.2 :: h, p.1) (steps call now n) := by
  rw [steps, List.replicate_succ, Machine.exec]
  have : (store U hash E).step s (.proceed call now) = some p := by
    change storeStep U hash E s (.proceed call now) = some p
    rw [storeStep, held]
    exact hstep
  rw [this]
  rfl

/-- The chunks that are pending, then the commit. -/
theorem exec_adding (pending : List (Passage V)) :
    ∀ (h : List (StoreEvent V)) (s : TxnState V) (st : Staged V),
      s.calls call = some (.upsert doc addedBy (.adding st pending)) →
      ((store U hash E).exec (h, s) (steps call now (pending.length + 1))).2.tables =
          (insertChunks (s.tables, st) pending).1.commit (insertChunks (s.tables, st) pending).2 ∧
        ((store U hash E).exec (h, s) (steps call now (pending.length + 1))).2.calls call =
          some .ended := by
  induction pending with
  | nil =>
      intro h s st held
      rw [List.length_nil, exec_proceed 0 held rfl]
      exact ⟨rfl, Function.update_self _ _ _⟩
  | cons p pending ih =>
      intro h s st held
      rw [List.length_cons, exec_proceed _ held rfl]
      exact ih _ _ _ (s.move_calls_self _ _ _ _ _)

/-- The read of the hash of a row that is to be touched. -/
theorem read_touch {r : DocumentRow}
    (hr : Table.row? DocumentRow.key doc.key s.tables.docs = some r)
    (hhash : r.contentHash = hash doc.body) :
    proceedUpsert U hash E s call doc addedBy now .reading =
      some (s.move call (.upsert doc addedBy (.touching r.id)) s.tables s.locks .running) := by
  rw [proceedUpsert, Tables.selectHash, hr]
  simp [hhash]

/-- The read when no row has the hash. -/
theorem read_embed (hnone : ∀ r, Table.row? DocumentRow.key doc.key s.tables.docs = some r →
      r.contentHash ≠ hash doc.body) :
    proceedUpsert U hash E s call doc addedBy now .reading =
      some (s.move call (.upsert doc addedBy .embedding) s.tables s.locks .running) := by
  rw [proceedUpsert, Tables.selectHash]
  cases hr : Table.row? DocumentRow.key doc.key s.tables.docs with
  | none => rfl
  | some r => simp [hnone r hr]

theorem touch_unlocked (hlocks : s.locks = []) (id : Nat) :
    proceedUpsert U hash E s call doc addedBy now (.touching id) =
      some (s.move call .ended (s.tables.touch id now) s.locks (.returned id)) := by
  refine if_neg fun hlocked => ?_
  obtain ⟨r, -, -, hlock⟩ := hlocked
  rw [hlocks] at hlock
  cases hlock

theorem insert_unlocked (hlocks : s.locks = []) (passages : List (Passage V)) :
    proceedUpsert U hash E s call doc addedBy now (.inserting passages) =
      some (s.move call
        (.upsert doc addedBy
          (.clearing (s.tables.insertDocument U hash doc addedBy now).2 passages))
        (s.tables.insertDocument U hash doc addedBy now).1 (doc.key :: s.locks) .running) :=
  if_neg fun hlock => by rw [hlocks] at hlock; cases hlock

theorem embed_ok {passages : List (Passage V)} (hp : E.passages doc.body = .ok passages) :
    proceedUpsert U hash E s call doc addedBy now .embedding =
      some (s.move call (.upsert doc addedBy (.inserting passages)) s.tables s.locks .running) := by
  rw [proceedUpsert, hp]

/-- **Alone**, a call that succeeds leaves the tables that `upsert_document` returns. -/
theorem exec_upsert {h : List (StoreEvent V)} {T : Tables V} {id : Nat} (hlocks : s.locks = [])
    (held : s.calls call = some (.upsert doc addedBy .reading))
    (hok : upsertDocument U hash E s.tables doc addedBy now = .ok (T, id)) :
    ∃ n, ((store U hash E).exec (h, s) (steps call now n)).2.tables = T ∧
      ((store U hash E).exec (h, s) (steps call now n)).2.calls call = some .ended := by
  rcases upsertDocument_cases U hash E s.tables doc addedBy now with
    ⟨r, hr, hhash, hshort⟩ | ⟨hnone, hfull⟩
  · rw [hshort] at hok
    cases hok
    refine ⟨2, ?_⟩
    rw [exec_proceed 1 held (read_touch hr hhash),
      exec_proceed 0 (s.move_calls_self _ _ _ _ _) (touch_unlocked (by exact hlocks) _)]
    exact ⟨rfl, Function.update_self _ _ _⟩
  · rw [hfull, rewriteDocument] at hok
    cases hp : E.passages doc.body with
    | error e => simp [hp, bind, Except.bind] at hok
    | ok passages =>
        simp only [hp, bind, Except.bind, pure, Except.pure, Except.ok.injEq, Prod.mk.injEq] at hok
        obtain ⟨rfl, -⟩ := hok
        -- read, embed, insert, delete; then one step for each chunk and the commit
        refine ⟨passages.length + 1 + 4, ?_⟩
        rw [exec_proceed _ held (read_embed hnone),
          exec_proceed _ (s.move_calls_self _ _ _ _ _) (embed_ok hp),
          exec_proceed _ (TxnState.move_calls_self _ _ _ _ _ _)
            (insert_unlocked (by exact hlocks) _),
          exec_proceed _ (TxnState.move_calls_self _ _ _ _ _ _) rfl]
        exact exec_adding passages _ _ _ (TxnState.move_calls_self _ _ _ _ _ _)

end Alone

end Machine

end AnyPlayerSync.Passages
