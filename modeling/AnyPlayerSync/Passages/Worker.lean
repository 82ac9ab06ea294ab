import AnyPlayerSync.Passages.Jobs

/-!
# The ingest worker

`passages/worker.rs`: which sources a claimed job still has to fetch, what outcome is recorded for
each, and how the outcomes are merged into the job's results. The documents that a source returns
are stored one after the other; `stored i` is the error of the `i`-th `upsert_document`, if any.
-/

set_option autoImplicit false

namespace AnyPlayerSync.Passages

open AnyPlayerSync.Foundation

/-! ## Outcomes -/

/-- The source has nothing. -/
def noMatchOutcome : Json := .obj [("state".toList, .str "no_match".toList)]

/-- `json!({"state": "found", "documents": n})`, keys in map order. -/
def foundOutcome (documents : Nat) : Json :=
  .obj [("documents".toList, .int documents), ("state".toList, .str "found".toList)]

/-- The source is tried again. -/
def errorOutcome (message : Str) : Json :=
  .obj [("message".toList, .str message), ("state".toList, .str stateError)]

/-- The entry that a result becomes; a permanent error counts as nothing found. -/
def outcomeFor : SourceResult → Json
  | .ok docs => if docs = [] then noMatchOutcome else foundOutcome docs.length
  | .error (.permanent _) => noMatchOutcome
  | .error (.transient message) => errorOutcome message

/-- The first error in storing the documents, in order. -/
def firstStoreError (stored : Nat → Option Str) : Nat → List NewDocument → Option Str
  | _, [] => none
  | i, _ :: docs =>
      match stored i with
      | some err => some err
      | none => firstStoreError stored (i + 1) docs

/-- Store what a source returned, and its outcome. -/
def storeResults (result : SourceResult) (stored : Nat → Option Str) : Json :=
  match result with
  | .error _ => outcomeFor result
  | .ok docs =>
      match firstStoreError stored 0 docs with
      | some err => errorOutcome ("store: ".toList ++ err)
      | none => outcomeFor result

/-! ## One attempt -/

/-- An entry in a state that is not fetched again. -/
def Settled (v : Json) : Prop :=
  (v.index "state".toList).asStr = some "found".toList ∨
    (v.index "state".toList).asStr = some "no_match".toList

instance (v : Json) : Decidable (Settled v) := inferInstanceAs (Decidable (_ ∨ _))

/-- The enabled sources whose entry is not settled. -/
def pendingSources (enabled : List Str) (results : StrMap Json) : List Str :=
  enabled.filter fun name =>
    match StrMap.lookup name results with
    | some v => ¬ Settled v
    | none => true

/-- What one source returned and how storing it went. -/
structure Fetched where
  result : SourceResult
  stored : Nat → Option Str

/-- The results of an attempt: the old entries with an outcome for each pending source. -/
def attemptResults (results : StrMap Json) (pending : List Str) (fetched : Str → Fetched) :
    StrMap Json :=
  pending.foldl (fun results name =>
    StrMap.insert name (storeResults (fetched name).result (fetched name).stored) results) results

/-! ## Entries -/

/-- A finished entry: an object with its time. -/
def Stamped (v : Json) : Prop := ∃ fields, v = .obj fields ∧ StrMap.lookup "at".toList fields ≠ none

theorem stamp_of_stamped {v : Json} (h : Stamped v) (clock : Str) : stamp clock v = v := by
  obtain ⟨fields, rfl, hat⟩ := h
  simp only [stamp, if_neg hat]

theorem stamped_stamp (clock : Str) (fields : StrMap Json) :
    Stamped (stamp clock (.obj fields)) := by
  simp only [stamp]
  split_ifs with hat
  · exact ⟨_, rfl, by simp⟩
  · exact ⟨_, rfl, hat⟩

theorem storeResults_object (result : SourceResult) (stored : Nat → Option Str) :
    ∃ fields, storeResults result stored = .obj fields := by
  have hfor : ∀ result, ∃ fields, outcomeFor result = .obj fields := by
    intro result
    rw [outcomeFor.eq_def]
    split
    · split_ifs <;> exact ⟨_, rfl⟩
    · exact ⟨_, rfl⟩
    · exact ⟨_, rfl⟩
  rw [storeResults.eq_def]
  split
  · exact hfor _
  · split
    · exact ⟨_, rfl⟩
    · exact hfor _

theorem mem_pendingSources {enabled : List Str} {results : StrMap Json} {name : Str} :
    name ∈ pendingSources enabled results ↔
      name ∈ enabled ∧ ∀ v, StrMap.lookup name results = some v → ¬ Settled v := by
  rw [pendingSources, List.mem_filter]
  cases StrMap.lookup name results <;> simp

section Attempt

variable {results : StrMap Json} {pending : List Str} {fetched : Str → Fetched}

/-- An attempt leaves the entries of the other sources. -/
theorem lookup_attemptResults_other {name : Str} (h : name ∉ pending) :
    StrMap.lookup name (attemptResults results pending fetched) = StrMap.lookup name results := by
  induction pending generalizing results with
  | nil => rfl
  | cons source pending ih =>
      obtain ⟨hne, hrest⟩ := not_or.1 (mt List.mem_cons.2 h)
      exact (ih hrest).trans (StrMap.lookup_insert_of_ne hne _ _)

/-- An attempt records an entry for each pending source, and drops none. -/
theorem lookup_attemptResults_isSome {name : Str}
    (h : name ∈ pending ∨ (StrMap.lookup name results).isSome) :
    (StrMap.lookup name (attemptResults results pending fetched)).isSome := by
  induction pending generalizing results with
  | nil => exact h.resolve_left (List.not_mem_nil)
  | cons source pending ih =>
      apply ih
      -- either this source's outcome was just inserted, or its turn is still to come
      by_cases hsource : name = source
      · exact Or.inr (by simp [hsource])
      · rw [StrMap.lookup_insert_of_ne hsource]
        exact h.imp_left fun h => (List.mem_cons.1 h).resolve_left hsource

/-- The entries after an attempt are the old ones and outcomes. -/
theorem mem_attemptResults {p : Str × Json} (h : p ∈ attemptResults results pending fetched) :
    p ∈ results ∨ ∃ f : Fetched, p.2 = storeResults f.result f.stored := by
  induction pending generalizing results with
  | nil => exact Or.inl h
  | cons source pending ih =>
      rcases ih h with h | h
      · rcases StrMap.mem_insert h with rfl | h
        · exact Or.inr ⟨fetched source, rfl⟩
        · exact Or.inl h
      · exact Or.inr h

/-- Every entry is stamped once the attempt's results are. -/
theorem stamped_stampResults (hstamped : ∀ p ∈ results, Stamped p.2) (clock : Str) :
    ∀ p ∈ stampResults clock (attemptResults results pending fetched), Stamped p.2 := by
  intro p hp
  obtain ⟨q, hq, rfl⟩ := List.mem_map.1 hp
  rcases mem_attemptResults hq with hq | ⟨f, hf⟩
  · simp only [stamp_of_stamped (hstamped q hq)]
    exact hstamped q hq
  · obtain ⟨fields, hfields⟩ := storeResults_object f.result f.stored
    simp only [hf, hfields]
    exact stamped_stamp clock fields

end Attempt

end AnyPlayerSync.Passages
