import AnyPlayerSync.Passages.Consistency

/-!
# What an upload has done when it returns

A call of `upsert_document` that returns has seen its body in the committed table or has put it
there: the row that its first `SELECT` found had the hash of the body, or its `COMMIT` wrote it
(`returned_held`). A call that fails, or goes on, is still about its own document
(`UpsertStep.call`).
-/

set_option autoImplicit false

namespace AnyPlayerSync.Passages

open AnyPlayerSync.Foundation
open AnyPlayerSync.Sync (Time UserId)

variable {V : Type} {U : UnicodeTables} {hash : Str → Str} {E : Embedder V}

/-! ## The row of a document -/

/-- The tables have the document under its key, by the hash of its body. -/
def Tables.HasBody (hash : Str → Str) (T : Tables V) (doc : NewDocument) : Prop :=
  ∃ r ∈ T.docs, r.key = doc.key ∧ r.contentHash = hash doc.body

/-- The call has seen the document in the committed tables. -/
def HeldBy (hash : Str → Str) (h : List (StoreEvent V)) (call : Nat) (doc : NewDocument) : Prop :=
  ∃ e ∈ h, e.call = call ∧ e.after.HasBody hash doc

theorem HeldBy.cons {h : List (StoreEvent V)} {call : Nat} {doc : NewDocument} {e : StoreEvent V}
    (hh : HeldBy hash h call doc) : HeldBy hash (e :: h) call doc := by
  obtain ⟨f, hf, hcall, hholds⟩ := hh
  exact ⟨f, List.mem_cons_of_mem e hf, hcall, hholds⟩

theorem holds_of_selectHash {T : Tables V} {doc : NewDocument} {id : Nat}
    (h : T.selectHash doc.key = some (id, hash doc.body)) : T.HasBody hash doc := by
  obtain ⟨r, hr, heq⟩ := Option.map_eq_some_iff.1 h
  obtain ⟨hmem, hkey⟩ := Table.row?_spec hr
  exact ⟨r, hmem, hkey, congrArg Prod.snd heq⟩

theorem holds_commit {T : Tables V} {st : Staged V} {doc : NewDocument}
    (h : Inserted U hash doc st.row) : (T.commit st).HasBody hash doc :=
  ⟨st.row, Table.mem_put.2 (Or.inl rfl), h.key, h.contentHash⟩

/-! ## The steps of an upload -/

section Steps

variable {h : List (StoreEvent V)} {s s' : TxnState V} {a : StoreAction} {e : StoreEvent V}
  {doc : NewDocument} {addedBy : Option UserId} {phase : UpsertPhase V}

/-- What a step of an upload does to its call. -/
inductive UploadStep (hash : Str → Str) (doc : NewDocument) (addedBy : Option UserId)
    (phase : UpsertPhase V) (s' : TxnState V) (e : StoreEvent V) : Prop
  /-- The call goes on; it will touch a row only when its `SELECT` has found the body. -/
  | running {next : UpsertPhase V} (result : e.result = .running)
      (after : s'.calls e.call = some (.upsert doc addedBy next))
      (found : ∀ id, next = .touching id → e.after.HasBody hash doc)
  | touched {id row : Nat} (result : e.result = .returned id) (was : phase = .touching row)
  | committed {id : Nat} (result : e.result = .returned id) (holds : e.after.HasBody hash doc)
  | failed (result : e.result = .failed)

theorem proceedUpsert_uploadStep {now : Time} {call : Nat} (hi : TxnInv U hash E s)
    (hc : s.calls call = some (.upsert doc addedBy phase))
    (h : proceedUpsert U hash E s call doc addedBy now phase = some (s', e)) :
    UploadStep hash doc addedBy phase s' e := by
  cases phase with
  | reading =>
      cases hsel : s.tables.selectHash doc.key with
      | none =>
          simp only [proceedUpsert, hsel] at h
          cases h
          exact .running rfl (Function.update_self ..) fun _ hid => by cases hid
      | some found =>
          obtain ⟨id, existing⟩ := found
          simp only [proceedUpsert, hsel] at h
          split_ifs at h with hsame
          · cases h
            subst hsame
            exact .running rfl (Function.update_self ..) fun _ _ => holds_of_selectHash hsel
          · cases h
            exact .running rfl (Function.update_self ..) fun _ hid => by cases hid
  | touching id =>
      rw [proceedUpsert] at h
      split_ifs at h
      cases h
      exact .touched rfl rfl
  | embedding =>
      rw [proceedUpsert] at h
      cases hp : E.passages doc.body with
      | error err =>
          rw [hp] at h
          cases h
          exact .failed rfl
      | ok passages =>
          rw [hp] at h
          cases h
          exact .running rfl (Function.update_self ..) fun _ hid => by cases hid
  | inserting passages =>
      rw [proceedUpsert] at h
      split_ifs at h
      cases h
      exact .running rfl (Function.update_self ..) fun _ hid => by cases hid
  | clearing st passages =>
      cases h
      exact .running rfl (Function.update_self ..) fun _ hid => by cases hid
  | adding st pending =>
      cases pending with
      | nil =>
          cases h
          exact .committed rfl (holds_commit (hi.calls call _ hc).1)
      | cons p pending =>
          cases h
          exact .running rfl (Function.update_self ..) fun _ hid => by cases hid

variable (U hash E s s' e) in
/-- What a step does to its own call. -/
inductive CallMove : Prop
  | began {c : StoreCall V} (fresh : s.calls e.call = none) (result : e.result = .running)
      (after : s'.calls e.call = some c)
      (first : (∃ doc addedBy, c = .upsert doc addedBy .reading) ∨ ∃ id, c = .delete id)
  | uploads {doc : NewDocument} {addedBy : Option UserId} {phase : UpsertPhase V} {now : Time}
      (was : s.calls e.call = some (.upsert doc addedBy phase))
      (step : proceedUpsert U hash E s e.call doc addedBy now phase = some (s', e))
  | deleted {id : Nat} {existed : Bool} (was : s.calls e.call = some (.delete id))
      (result : e.result = .removed existed)
  | failed (was : s.calls e.call ≠ none) (result : e.result = .failed)

theorem proceedUpsert_call {now : Time} {call : Nat}
    (h : proceedUpsert U hash E s call doc addedBy now phase = some (s', e)) : e.call = call := by
  cases phase with
  | reading | clearing => cases h; rfl
  | touching | inserting =>
      rw [proceedUpsert] at h
      split_ifs at h
      cases h
      rfl
  | embedding =>
      rw [proceedUpsert] at h
      cases hp : E.passages doc.body <;> rw [hp] at h <;> cases h <;> rfl
  | adding st pending => cases pending <;> cases h <;> rfl

theorem storeStep_callMove (hs : storeStep U hash E s a = some (s', e)) :
    CallMove U hash E s s' e := by
  cases a with
  | upsert call doc addedBy =>
      rw [storeStep] at hs
      split_ifs at hs with hfresh
      cases hs
      exact .began hfresh rfl (Function.update_self ..) (Or.inl ⟨doc, addedBy, rfl⟩)
  | delete call id =>
      rw [storeStep] at hs
      split_ifs at hs with hfresh
      cases hs
      exact .began hfresh rfl (Function.update_self ..) (Or.inr ⟨id, rfl⟩)
  | proceed call now =>
      rw [storeStep] at hs
      cases hcall : s.calls call with
      | none =>
          rw [hcall] at hs
          cases hs
      | some c =>
          rw [hcall] at hs
          cases c with
          | upsert doc addedBy phase =>
              obtain rfl := proceedUpsert_call hs
              exact .uploads hcall hs
          | delete id =>
              dsimp only at hs
              split_ifs at hs
              cases hs
              exact .deleted hcall rfl
          | ended => cases hs
  | fail call =>
      rw [storeStep] at hs
      cases hcall : s.calls call with
      | none =>
          rw [hcall] at hs
          cases hs
      | some c =>
          rw [hcall] at hs
          cases c with
          | ended => cases hs
          | upsert | delete =>
              cases hs
              refine .failed ?_ rfl
              rw [hcall]
              exact Option.some_ne_none _

/-- The steps of a call that is an upload. -/
theorem storeStep_uploadStep (hi : TxnInv U hash E s) (hs : storeStep U hash E s a = some (s', e))
    (hc : s.calls e.call = some (.upsert doc addedBy phase)) :
    UploadStep hash doc addedBy phase s' e := by
  cases storeStep_callMove hs with
  | began fresh => exact absurd (fresh.symm.trans hc) (by simp)
  | uploads was step =>
      rw [was] at hc
      cases hc
      exact proceedUpsert_uploadStep hi was step
  | deleted was => exact absurd (was.symm.trans hc) (by simp)
  | failed was result => exact .failed result

/-! ## The runs -/

/-- An upload that will touch a row has seen its document. -/
theorem run_seen (hr : (store U hash E).Run h s) :
    ∀ call doc addedBy id, s.calls call = some (.upsert doc addedBy (.touching id)) →
      HeldBy hash h call doc := by
  refine hr.invariant (I := fun h s => ∀ call doc addedBy id,
    s.calls call = some (.upsert doc addedBy (.touching id)) → HeldBy hash h call doc) ?_ ?_
  · exact fun _ _ _ _ hc => by cases hc
  · intro h s a s' e hrun ih hs _ call doc addedBy id hc
    have hfacts := (storeStep_effect hs).facts
    by_cases hown : call = e.call
    · subst hown
      have hrunning : e.result = .running := by
        by_contra hresult
        rw [hfacts.closed hresult] at hc
        cases hc
      cases storeStep_callMove hs with
      | began fresh result after first =>
          rw [after] at hc
          rcases first with ⟨doc', addedBy', rfl⟩ | ⟨id', rfl⟩ <;> cases hc
      | uploads was step =>
          cases proceedUpsert_uploadStep (run_inv hrun) was step with
          | running result after found =>
              rw [after] at hc
              cases hc
              exact ⟨e, List.mem_cons_self, rfl, found id rfl⟩
          | touched result => exact absurd (hrunning.symm.trans result) (by simp)
          | committed result => exact absurd (hrunning.symm.trans result) (by simp)
          | failed result => exact absurd (hrunning.symm.trans result) (by simp)
      | deleted was result => exact absurd (hrunning.symm.trans result) (by simp)
      | failed was result => exact absurd (hrunning.symm.trans result) (by simp)
    · rw [hfacts.others call hown] at hc
      exact (ih call doc addedBy id hc).cons

/-- **A step of an upload**: the call goes on with its document, returns after it has seen the
document in the committed tables, or fails. -/
theorem upload_step (hr : (store U hash E).Run h s)
    (hs : storeStep U hash E s a = some (s', e))
    (hc : s.calls e.call = some (.upsert doc addedBy phase)) :
    (e.result = .running ∧ ∃ next, s'.calls e.call = some (.upsert doc addedBy next)) ∨
      (∃ id, e.result = .returned id) ∧ HeldBy hash (e :: h) e.call doc ∨ e.result = .failed := by
  cases storeStep_uploadStep (run_inv hr) hs hc with
  | running result after => exact Or.inl ⟨result, _, after⟩
  | touched result was =>
      subst was
      exact Or.inr (Or.inl ⟨⟨_, result⟩, (run_seen hr _ _ _ _ hc).cons⟩)
  | committed result holds =>
      exact Or.inr (Or.inl ⟨⟨_, result⟩, e, List.mem_cons_self, rfl, holds⟩)
  | failed result => exact Or.inr (Or.inr result)

end Steps

end AnyPlayerSync.Passages
