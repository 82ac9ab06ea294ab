import AnyPlayerSync.Passages.Jobs
import AnyPlayerSync.Passages.Store

/-!
# Ranking

`passages/rank.rs`: the choice among the candidates of a lookup. The floating-point operations are a
parameter; which candidates are excluded is decided on whole seconds and needs none of them. A
candidate is chosen only when it was never played or not within 30 days (`select_chosen`), and the
choice reads of the plays only the candidates' `last_played`.
-/

set_option autoImplicit false

namespace AnyPlayerSync.Passages

open AnyPlayerSync.Foundation
open AnyPlayerSync.Sync (Time)

/-- The tokens that the passages of one answer may have. -/
def budgetTokens : Nat := 2500

/-- A played passage is excluded for this long. -/
def exclusionDays : Int := 30

/-- An answer takes no more passages of one document. -/
def perDocument : Nat := 2

/-- The arithmetic on `f32`: `F` are the numbers, `V` the embedding vectors. -/
structure Arithmetic (V F : Type) where
  cosine : V → V → F
  add : F → F → F
  mul : F → F → F
  zero : F
  one : F
  /-- `TITLE_BOOST`. -/
  titleBoost : F
  weight : Subject → F
  /-- The score that has come back since a play, from the time since it. -/
  recovered : Time → F
  /-- `partial_cmp(..).unwrap_or(Equal)`. -/
  compare : F → F → Ordering
  /-- `x > NEAR_DUPLICATE`. -/
  nearDuplicate : F → Bool

/-- `Chosen(ids)`, or why there are none. -/
inductive Selection where
  | chosen (ids : List Nat)
  | allExcluded
  | empty
  deriving DecidableEq

section Rank

variable {V F : Type} (A : Arithmetic V F) (U : UnicodeTables)

/-- `(now - at).num_seconds()`. -/
def numSeconds (elapsed : Time) : Int := elapsed.tdiv 1000000

/-- None while inside the exclusion window; 1.0 when never played. -/
def recovery (lastPlayed : Option Time) (now : Time) : Option F :=
  match lastPlayed with
  | none => some A.one
  | some played =>
      if numSeconds (now - played) < exclusionDays * 86400 then none
      else some (A.recovered (now - played))

/-- A candidate with its place in the order. -/
structure Scored (V F : Type) where
  unplayed : Bool
  score : F
  candidate : Candidate V

/-- The score of a candidate; a candidate that is excluded has none. -/
def scored (query : V) (songKey : Str) (now : Time) (c : Candidate V) : Option (Scored V F) :=
  (recovery A c.lastPlayed now).map fun recovery =>
    let boost :=
      if songKey ≠ [] ∧ Text.contains (Keys.matchKey U c.text) songKey = true then A.titleBoost
      else A.zero
    let score := A.mul (A.mul (A.add (A.cosine query c.embedding) boost) (A.weight c.subject))
      recovery
    ⟨c.lastPlayed.isNone, score, c⟩

/-- Never-played first, then score, then chunk id. -/
def Scored.compare (a b : Scored V F) : Ordering :=
  ((Ord.compare b.unplayed a.unplayed).then (A.compare b.score a.score)).then
    (Ord.compare a.candidate.chunkId b.candidate.chunkId)

/-- The loop over the scored candidates. -/
def choose (budget : Nat) :
    List (Scored V F) → List (Candidate V) → Nat → List (Candidate V)
  | [], chosen, _ => chosen
  | s :: rest, chosen, used =>
      let c := s.candidate
      if perDocument ≤ (chosen.filter fun x => x.documentId = c.documentId).length then
        choose budget rest chosen used
      else if chosen.any fun x => A.nearDuplicate (A.cosine x.embedding c.embedding) then
        choose budget rest chosen used
      else if chosen ≠ [] ∧ budget < used + c.tokenCount then chosen
      else choose budget rest (chosen ++ [c]) (used + c.tokenCount)

/-- The candidates that are not excluded, best first, as far as the budget goes. -/
def select (candidates : List (Candidate V)) (query : V) (songKey : Str) (now : Time)
    (budget : Nat) : Selection :=
  if candidates = [] then .empty
  else
    let scored := candidates.filterMap (scored A U query songKey now)
    if scored = [] then .allExcluded
    else
      let sorted := scored.mergeSort fun a b => (a.compare A b).isLE
      .chosen ((choose A budget sorted [] 0).map Candidate.chunkId)

end Rank

/-! ## What is chosen -/

section Chosen

variable {V F : Type} {A : Arithmetic V F} {U : UnicodeTables} {query : V} {songKey : Str}
  {now : Time} {budget : Nat}

theorem mem_choose (rest : List (Scored V F)) :
    ∀ (chosen : List (Candidate V)) (used : Nat) (c : Candidate V),
      c ∈ choose A budget rest chosen used → c ∈ chosen ∨ ∃ s ∈ rest, s.candidate = c := by
  induction rest with
  | nil =>
      intro chosen used c h
      exact Or.inl h
  | cons s rest ih =>
      intro chosen used c h
      have hskip : c ∈ choose A budget rest chosen used →
          c ∈ chosen ∨ ∃ s' ∈ s :: rest, s'.candidate = c := by
        intro h
        rcases ih _ _ _ h with h | ⟨s', hs', hc⟩
        · exact Or.inl h
        · exact Or.inr ⟨s', List.mem_cons_of_mem _ hs', hc⟩
      rw [choose] at h
      split_ifs at h
      · exact hskip h
      · exact hskip h
      · exact Or.inl h
      · rcases ih _ _ _ h with h | ⟨s', hs', hc⟩
        · rcases List.mem_append.1 h with h | h
          · exact Or.inl h
          · exact Or.inr ⟨s, List.mem_cons_self, (List.mem_singleton.1 h).symm⟩
        · exact Or.inr ⟨s', List.mem_cons_of_mem _ hs', hc⟩

/-- A chosen id is that of a candidate outside the exclusion window. -/
theorem select_chosen {candidates : List (Candidate V)} {ids : List Nat}
    (h : select A U candidates query songKey now budget = .chosen ids) {id : Nat} (hid : id ∈ ids) :
    ∃ c ∈ candidates, c.chunkId = id ∧ recovery A c.lastPlayed now ≠ none := by
  simp only [select] at h
  split_ifs at h
  obtain rfl := Selection.chosen.inj h
  obtain ⟨c, hc, rfl⟩ := List.mem_map.1 hid
  rcases mem_choose _ _ _ _ hc with hc | ⟨s, hs, rfl⟩
  · exact absurd hc List.not_mem_nil
  · obtain ⟨candidate, hmem, hscored⟩ := List.mem_filterMap.1 (List.mem_mergeSort.1 hs)
    obtain ⟨r, hr, rfl⟩ := Option.map_eq_some_iff.1 hscored
    exact ⟨candidate, hmem, rfl, by rw [hr]; exact Option.some_ne_none r⟩

/-- A candidate that was played less than 30 days ago is excluded. -/
theorem recovery_none {played : Time} (h : now < played + 30 * day) :
    recovery A (some played) now = none := by
  have hday : 30 * day = 2592000000000 := by decide
  have hle : now - played ≤ 2591999999999 := by
    rw [hday] at h
    exact Int.le_of_lt_add_one (Int.sub_left_lt_of_lt_add h)
  have hseconds : numSeconds (now - played) ≤ 2591999 := Int.tdiv_le_tdiv (by decide) hle
  exact if_pos (Int.lt_of_le_of_lt hseconds (by decide))

end Chosen

end AnyPlayerSync.Passages
