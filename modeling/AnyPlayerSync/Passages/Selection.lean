import AnyPlayerSync.Foundation.Greedy
import AnyPlayerSync.Passages.Rank
import Mathlib.Algebra.GroupWithZero.Nat
import Mathlib.Data.List.Perm.Subperm
import Mathlib.Data.Prod.Lex

/-!
# Selection

`select` over any numbers whose comparison is that of their values in a linear order. Its order on
the scored candidates is then a strict linear order, so the sorted list does not depend on the order
of the candidates (`ranking_perm`), and its loop is a greedy selection from that list
(`select_selects`).
-/

set_option autoImplicit false

namespace AnyPlayerSync.Passages

open AnyPlayerSync.Foundation
open AnyPlayerSync.Sync (Time)

/-! ## Who is excluded -/

/-- Never played, or not within the last 30 days. -/
def Eligible {V : Type} (now : Time) (c : Candidate V) : Prop :=
  ∀ played, c.lastPlayed = some played → played + 30 * day ≤ now

section Excluded

variable {V F : Type} {A : Arithmetic V F} {U : UnicodeTables} {query : V} {songKey : Str}
  {now : Time} {budget : Nat}

/-- The exclusion window is cut at whole seconds, and ends at one. -/
theorem numSeconds_lt_iff (played : Time) :
    numSeconds (now - played) < exclusionDays * 86400 ↔ now < played + 30 * day := by
  have hday : 30 * day = 2592000000000 := by decide
  have hexclusion : exclusionDays * 86400 = 2592000 := by decide
  have hcut : ∀ elapsed : Int, elapsed.tdiv 1000000 < 2592000 ↔ elapsed < 2592000000000 := by
    intro elapsed
    have hmod := Int.mul_tdiv_add_tmod elapsed 1000000
    have hlt := Int.tmod_lt_of_pos elapsed (b := 1000000) (by decide)
    rcases Int.le_total 0 elapsed with h | h
    · have hnonneg := Int.tmod_nonneg (a := elapsed) 1000000 h
      omega
    · have hgt := Int.lt_tmod_of_pos elapsed (b := 1000000) (by decide)
      omega
  rw [hexclusion, numSeconds, hcut, hday, Int.sub_lt_iff, Int.add_comm]

theorem recovery_isSome_iff (c : Candidate V) :
    (recovery A c.lastPlayed now).isSome = true ↔ Eligible now c := by
  rw [Eligible]
  cases hplayed : c.lastPlayed with
  | none => simp [recovery]
  | some played =>
      rw [recovery]
      simp only [Option.some.injEq, forall_eq']
      split_ifs with h
      · rw [numSeconds_lt_iff] at h
        exact iff_of_false (fun h => (by cases h)) (Int.not_le.2 h)
      · rw [numSeconds_lt_iff] at h
        exact iff_of_true rfl (Int.not_lt.1 h)

theorem scored_candidate {c : Candidate V} {s : Scored V F}
    (h : scored A U query songKey now c = some s) : s.candidate = c := by
  obtain ⟨r, -, rfl⟩ := Option.map_eq_some_iff.1 h
  rfl

variable (A U query songKey) in
theorem exists_scored_iff (c : Candidate V) :
    (∃ s, scored A U query songKey now c = some s) ↔ Eligible now c := by
  rw [← recovery_isSome_iff (A := A), ← Option.isSome_iff_exists, scored, Option.isSome_map]

theorem select_empty_iff (candidates : List (Candidate V)) :
    select A U candidates query songKey now budget = .empty ↔ candidates = [] := by
  rw [select]
  split_ifs with h
  · exact iff_of_true rfl h
  · dsimp only
    split_ifs
    · exact iff_of_false (fun h => (by cases h)) h
    · exact iff_of_false (fun h => (by cases h)) h

variable (A U query songKey now) in
theorem filterMap_scored_eq_nil_iff (candidates : List (Candidate V)) :
    candidates.filterMap (scored A U query songKey now) = [] ↔
      ∀ c ∈ candidates, ¬ Eligible now c := by
  rw [List.filterMap_eq_nil_iff]
  apply forall₂_congr
  intro c _
  rw [← exists_scored_iff A U query songKey, ← Option.isSome_iff_exists,
    Option.not_isSome_iff_eq_none]

theorem not_eligible_iff (c : Candidate V) :
    ¬ Eligible now c ↔ ∃ played, c.lastPlayed = some played ∧ now < played + 30 * day := by
  rw [Eligible]
  push Not
  rfl

theorem select_allExcluded_iff (candidates : List (Candidate V)) :
    select A U candidates query songKey now budget = .allExcluded ↔
      candidates ≠ [] ∧
        ∀ c ∈ candidates, ∃ played, c.lastPlayed = some played ∧ now < played + 30 * day := by
  have hnil := filterMap_scored_eq_nil_iff A U query songKey now candidates
  simp only [not_eligible_iff] at hnil
  rw [select]
  split_ifs with h
  · exact iff_of_false (fun h => (by cases h)) fun hne => hne.1 h
  · dsimp only
    split_ifs with hscored
    · exact iff_of_true rfl ⟨h, hnil.1 hscored⟩
    · exact iff_of_false (fun h => (by cases h)) fun hall => hscored (hnil.2 hall.2)

end Excluded

/-! ## The order -/

section Order

variable {V F β : Type} (v : F → β)

/-- The place in the order, smallest first. -/
def Scored.place (s : Scored V F) : Bool ×ₗ βᵒᵈ ×ₗ ℕ :=
  toLex (!s.unplayed, toLex (OrderDual.toDual (v s.score), s.candidate.chunkId))

variable {v}

theorem Scored.chunkId_eq_of_place_eq {s t : Scored V F} (h : s.place v = t.place v) :
    s.candidate.chunkId = t.candidate.chunkId :=
  congrArg (fun x => (ofLex (ofLex x).2).2) h

variable [LinearOrder β] (v)

/-- Never-played first, then the higher score, then the lower chunk id. -/
def Scored.Before (s t : Scored V F) : Prop :=
  (s.unplayed = true ∧ t.unplayed = false) ∨
    (s.unplayed = t.unplayed ∧ (v t.score < v s.score ∨
      (v s.score = v t.score ∧ s.candidate.chunkId < t.candidate.chunkId)))

variable {v}

theorem Scored.before_iff {s t : Scored V F} : s.Before v t ↔ s.place v < t.place v := by
  rw [Before, place, place, Prod.Lex.toLex_lt_toLex, Prod.Lex.toLex_lt_toLex]
  simp only [OrderDual.toDual_lt_toDual, OrderDual.toDual_inj]
  cases s.unplayed <;> cases t.unplayed <;> simp

theorem Scored.before_asymm {s t : Scored V F} (h : s.Before v t) : ¬ t.Before v s := fun h' =>
  (before_iff.1 h).asymm (before_iff.1 h')

/-- The comparator puts no scored candidate before one that comes before it. -/
theorem Scored.compare_isLE_iff {A : Arithmetic V F} {s t : Scored V F}
    (h : A.compare t.score s.score = Ord.compare (v t.score) (v s.score)) :
    (s.compare A t).isLE = true ↔ s.place v ≤ t.place v := by
  rw [← not_lt, ← before_iff, Before, Scored.compare, Ordering.isLE_then_iff_or,
    Ordering.then_eq_lt, Ordering.then_eq_eq, h, compare_lt_iff_lt, compare_lt_iff_lt,
    compare_eq_iff_eq, compare_eq_iff_eq, Nat.isLE_compare]
  rcases lt_trichotomy (v s.score) (v t.score) with hlt | heq | hgt
  · cases s.unplayed <;> cases t.unplayed <;> simp [hlt, hlt.not_gt, hlt.ne']
  · cases s.unplayed <;> cases t.unplayed <;> simp [heq]
  · cases s.unplayed <;> cases t.unplayed <;> simp [hgt, hgt.not_gt, hgt.ne]

end Order

/-! ## The sorted list -/

section Ranking

variable {V F β : Type} {v : F → β} (A : Arithmetic V F) (U : UnicodeTables) (query : V)
  (songKey : Str) (now : Time)

/-- The scored candidates in the order of `select`. -/
def ranking (candidates : List (Candidate V)) : List (Scored V F) :=
  (candidates.filterMap (scored A U query songKey now)).mergeSort fun a b => (a.compare A b).isLE

variable {A U query songKey now} {candidates candidates' : List (Candidate V)}

theorem mem_ranking_iff {s : Scored V F} : s ∈ ranking A U query songKey now candidates ↔
    ∃ c ∈ candidates, scored A U query songKey now c = some s := by
  rw [ranking, List.mem_mergeSort, List.mem_filterMap]

/-- Candidates with one chunk id are one candidate. -/
theorem eq_of_chunkId_eq (hids : (candidates.map Candidate.chunkId).Nodup) {c d : Candidate V}
    (hc : c ∈ candidates) (hd : d ∈ candidates) (h : c.chunkId = d.chunkId) : c = d :=
  List.inj_on_of_nodup_map hids hc hd h

theorem eq_of_place_eq (hids : (candidates.map Candidate.chunkId).Nodup) {s t : Scored V F}
    (hs : s ∈ ranking A U query songKey now candidates)
    (ht : t ∈ ranking A U query songKey now candidates) (h : s.place v = t.place v) : s = t := by
  obtain ⟨c, hc, hcs⟩ := mem_ranking_iff.1 hs
  obtain ⟨d, hd, hdt⟩ := mem_ranking_iff.1 ht
  have hid := Scored.chunkId_eq_of_place_eq h
  rw [scored_candidate hcs, scored_candidate hdt] at hid
  have hcd := eq_of_chunkId_eq hids hc hd hid
  rw [hcd, hdt] at hcs
  exact (Option.some.inj hcs).symm

theorem ranking_nodup (hids : (candidates.map Candidate.chunkId).Nodup) :
    (ranking A U query songKey now candidates).Nodup := by
  refine (List.mergeSort_perm _ _).symm.nodup (hids.of_map.filterMap fun c d s hc hd => ?_)
  rw [← scored_candidate hc, ← scored_candidate hd]

variable [LinearOrder β]

variable (A U query songKey now) in
/-- The comparison of these candidates' scores is that of their values. -/
def Comparable (v : F → β) (candidates : List (Candidate V)) : Prop :=
  ∀ s ∈ candidates.filterMap (scored A U query songKey now),
    ∀ t ∈ candidates.filterMap (scored A U query songKey now),
      A.compare s.score t.score = Ord.compare (v s.score) (v t.score)

theorem ranking_places (h : Comparable A U query songKey now v candidates) :
    (ranking A U query songKey now candidates).Pairwise fun s t => s.place v ≤ t.place v := by
  -- on these candidates the comparator is a total order, given by the places
  have hsort : ranking A U query songKey now candidates =
      (candidates.filterMap (scored A U query songKey now)).mergeSort
        fun s t => decide (s.place v ≤ t.place v) := by
    have hmap := List.map_mergeSort (f := id)
      (l := candidates.filterMap (scored A U query songKey now))
      (r := fun s t => (s.compare A t).isLE) (s := fun s t => decide (s.place v ≤ t.place v))
      fun s hs t ht => by
        rw [Bool.eq_iff_iff, decide_eq_true_iff]
        exact Scored.compare_isLE_iff (h t ht s hs)
    rwa [List.map_id, List.map_id] at hmap
  rw [hsort]
  refine (List.pairwise_mergeSort (fun r s t hrs hst => ?_) (fun s t => ?_) _).imp ?_
  · exact decide_eq_true ((of_decide_eq_true hrs).trans (of_decide_eq_true hst))
  · rw [Bool.or_eq_true, decide_eq_true_iff, decide_eq_true_iff]
    exact le_total _ _
  · exact fun hst => of_decide_eq_true hst

/-- The sorted list does not depend on the order of the candidates. -/
theorem ranking_perm (h : Comparable A U query songKey now v candidates)
    (hids : (candidates.map Candidate.chunkId).Nodup) (hperm : candidates.Perm candidates') :
    ranking A U query songKey now candidates = ranking A U query songKey now candidates' := by
  have hscored : (candidates.filterMap (scored A U query songKey now)).Perm
      (candidates'.filterMap (scored A U query songKey now)) := hperm.filterMap _
  have hranking : (ranking A U query songKey now candidates).Perm
      (ranking A U query songKey now candidates') :=
    ((List.mergeSort_perm _ _).trans hscored).trans (List.mergeSort_perm _ _).symm
  have h' : Comparable A U query songKey now v candidates' := fun s hs t ht =>
    h s (hscored.symm.subset hs) t (hscored.symm.subset ht)
  refine hranking.eq_of_pairwise (fun s t hs ht hst hts => ?_) (ranking_places h)
    (ranking_places h')
  exact eq_of_place_eq hids hs (hranking.symm.subset ht) (le_antisymm hst hts)

/-- With distinct chunk ids each scored candidate comes before the next. -/
theorem ranking_pairwise (h : Comparable A U query songKey now v candidates)
    (hids : (candidates.map Candidate.chunkId).Nodup) :
    (ranking A U query songKey now candidates).Pairwise (Scored.Before v) := by
  apply ((ranking_places h).and (ranking_nodup hids)).imp_of_mem
  intro _ _ hs ht hst
  exact Scored.before_iff.2 (lt_of_le_of_ne hst.1 (mt (eq_of_place_eq hids hs ht) hst.2))

/-- The selection of an unempty ranking is the loop over it. -/
theorem select_eq (budget : Nat) (candidates : List (Candidate V)) :
    select A U candidates query songKey now budget =
      if candidates = [] then .empty
      else if candidates.filterMap (scored A U query songKey now) = [] then .allExcluded
      else .chosen ((choose A budget (ranking A U query songKey now candidates) [] 0).map
        Candidate.chunkId) := rfl

end Ranking

/-! ## The loop as a greedy selection -/

/-- Two of the earlier chosen are of the candidate's document, or one is nearly the same. -/
def RuledOut {V : Type} (before near : Candidate V → Candidate V → Prop)
    (chosen : List (Candidate V)) (c : Candidate V) : Prop :=
  (∃ a ∈ chosen, ∃ b ∈ chosen, a ≠ b ∧ (a.documentId = c.documentId ∧ before a c) ∧
    (b.documentId = c.documentId ∧ before b c)) ∨
  ∃ a ∈ chosen, before a c ∧ near a c

/-- The first candidate that is not ruled out but is over the budget. -/
structure EndsSelection {V : Type} (eligible : Candidate V → Prop)
    (before near : Candidate V → Candidate V → Prop) (candidates : List (Candidate V))
    (budget : Nat) (chosen : List (Candidate V)) (f : Candidate V) : Prop where
  mem : f ∈ candidates ∧ eligible f
  passes : ¬ RuledOut before near chosen f
  last : ∀ a ∈ chosen, before a f
  overflows : budget < (chosen.map Candidate.tokenCount).sum + f.tokenCount
  first : ∀ g ∈ candidates, eligible g → before g f → g ∈ chosen ∨ RuledOut before near chosen g

/-- The greedy selection: every limit holds, and nothing else is left out. -/
structure Selects {V : Type} (eligible : Candidate V → Prop)
    (before near : Candidate V → Candidate V → Prop) (candidates : List (Candidate V))
    (budget : Nat) (chosen : List (Candidate V)) : Prop where
  ne_nil : chosen ≠ []
  nodup : (chosen.map Candidate.chunkId).Nodup
  mem : ∀ c ∈ chosen, c ∈ candidates ∧ eligible c
  ranked : chosen.Pairwise before
  document : ∀ d, (chosen.filter fun c => c.documentId = d).length ≤ perDocument
  distinct : chosen.Pairwise fun a b => ¬ near a b
  within : (chosen.map Candidate.tokenCount).sum ≤ budget ∨ chosen.length = 1
  complete : ∀ c ∈ candidates, eligible c → c ∉ chosen → RuledOut before near chosen c ∨
    ∃ f, EndsSelection eligible before near candidates budget chosen f ∧ (c = f ∨ before f c)

section Loop

variable {V F : Type} (A : Arithmetic V F)

/-- The two filters of the loop. -/
def Skips (chosen : List (Candidate V)) (c : Candidate V) : Prop :=
  perDocument ≤ (chosen.filter fun x => x.documentId = c.documentId).length ∨
    (chosen.any fun x => A.nearDuplicate (A.cosine x.embedding c.embedding)) = true

/-- The test that ends the loop. -/
def Stops (budget : Nat) (chosen : List (Candidate V)) (c : Candidate V) : Prop :=
  chosen ≠ [] ∧ budget < (chosen.map Candidate.tokenCount).sum + c.tokenCount

instance (chosen : List (Candidate V)) (c : Candidate V) : Decidable (Skips A chosen c) :=
  inferInstanceAs (Decidable (_ ∨ _))

instance (budget : Nat) (chosen : List (Candidate V)) (c : Candidate V) :
    Decidable (Stops budget chosen c) :=
  inferInstanceAs (Decidable (_ ∧ _))

theorem choose_eq_greedy (budget : Nat) (rest : List (Scored V F)) :
    ∀ chosen : List (Candidate V),
      choose A budget rest chosen (chosen.map Candidate.tokenCount).sum =
        greedy (Skips A) (Stops budget) (rest.map Scored.candidate) chosen := by
  induction rest with
  | nil => exact fun _ => rfl
  | cons s rest ih =>
      intro chosen
      have hused : (chosen.map Candidate.tokenCount).sum + s.candidate.tokenCount =
          ((chosen ++ [s.candidate]).map Candidate.tokenCount).sum := by
        rw [List.map_append, List.sum_append, List.map_singleton, List.sum_singleton]
      rw [choose, List.map_cons, greedy]
      by_cases hdoc : perDocument ≤
          (chosen.filter fun x => x.documentId = s.candidate.documentId).length
      · have hskips : Skips A chosen s.candidate := Or.inl hdoc
        rw [if_pos hdoc, if_pos hskips, ih]
      · by_cases hnear : (chosen.any fun x =>
            A.nearDuplicate (A.cosine x.embedding s.candidate.embedding)) = true
        · have hskips : Skips A chosen s.candidate := Or.inr hnear
          rw [if_neg hdoc, if_pos hnear, if_pos hskips, ih]
        · have hskips : ¬ Skips A chosen s.candidate := not_or.2 ⟨hdoc, hnear⟩
          rw [if_neg hdoc, if_neg hnear, if_neg hskips]
          by_cases hover : chosen ≠ [] ∧
              budget < (chosen.map Candidate.tokenCount).sum + s.candidate.tokenCount
          · have hstops : Stops budget chosen s.candidate := hover
            rw [if_pos hover, if_pos hstops]
          · have hstops : ¬ Stops budget chosen s.candidate := hover
            rw [if_neg hover, if_neg hstops, hused, ih]

/-- The second candidate is nearly the same as the first. -/
def Near (a b : Candidate V) : Prop := A.nearDuplicate (A.cosine a.embedding b.embedding) = true

variable {A} {before : Candidate V → Candidate V → Prop}

theorem ruledOut_of_skipped {selection pre : List (Candidate V)} {c : Candidate V}
    (hnodup : selection.Nodup) (hpre : ∀ x ∈ pre, before x c)
    (h : Skipped (Skips A) selection pre c) : RuledOut before (Near A) selection c := by
  obtain ⟨earlier, hbegins, hearlier, hdoc | hnear⟩ := h
  · -- the two of the document are distinct, as they stand at different places
    left
    have hlist := hbegins.sublist.nodup hnodup
    have hmem : ∀ x ∈ earlier.filter fun x => x.documentId = c.documentId,
        x ∈ selection ∧ x.documentId = c.documentId ∧ before x c := by
      intro x hx
      have hx := List.mem_filter.1 hx
      exact ⟨hbegins.subset hx.1, of_decide_eq_true hx.2, hpre x (hearlier x hx.1)⟩
    have hfilter := hlist.filter fun x : Candidate V => decide (x.documentId = c.documentId)
    cases hcases : earlier.filter fun x => x.documentId = c.documentId with
    | nil =>
        rw [hcases] at hdoc
        exact absurd hdoc (by decide : ¬ perDocument ≤ 0)
    | cons a rest =>
        cases rest with
        | nil =>
            rw [hcases] at hdoc
            exact absurd hdoc (by decide : ¬ perDocument ≤ 1)
        | cons b rest =>
            rw [hcases] at hmem hfilter
            have ha := hmem a List.mem_cons_self
            have hb := hmem b (List.mem_cons_of_mem a List.mem_cons_self)
            refine ⟨a, ha.1, b, hb.1, ?_, ha.2, hb.2⟩
            rintro rfl
            exact (List.nodup_cons.1 hfilter).1 List.mem_cons_self
  · right
    obtain ⟨a, ha, hnear⟩ := List.any_eq_true.1 hnear
    exact ⟨a, hbegins.subset ha, hpre a (hearlier a ha), hnear⟩

theorem skips_of_ruledOut {selection : List (Candidate V)} {c : Candidate V}
    (h : RuledOut before (Near A) selection c) : Skips A selection c := by
  rcases h with ⟨a, ha, b, hb, hab, hda, hdb⟩ | ⟨a, ha, -, hnear⟩
  · left
    have hpair : [a, b].Nodup := List.nodup_cons.2 ⟨by simpa using hab, List.nodup_singleton b⟩
    have hsub : [a, b] ⊆ selection.filter fun x => x.documentId = c.documentId := by
      intro x hx
      rw [List.mem_filter]
      rcases List.mem_cons.1 hx with rfl | hx
      · exact ⟨ha, decide_eq_true hda.1⟩
      · rw [List.mem_singleton.1 hx]
        exact ⟨hb, decide_eq_true hdb.1⟩
    exact (List.subperm_of_subset hpair hsub).length_le
  · exact Or.inr (List.any_eq_true.2 ⟨a, ha, hnear⟩)

variable {budget : Nat} {l : List (Candidate V)}

theorem greedy_document (d : Nat) :
    ((greedy (Skips A) (Stops budget) l []).filter fun c => c.documentId = d).length ≤
      perDocument := by
  apply greedy_invariant (P := fun chosen : List (Candidate V) =>
    (chosen.filter fun c => c.documentId = d).length ≤ perDocument) l _ [] (Nat.zero_le _)
  intro chosen a h hskip _
  rw [List.filter_append, List.length_append]
  by_cases hd : a.documentId = d
  · have hlt := Nat.lt_of_not_le (not_or.1 hskip).1
    rw [hd] at hlt
    rw [List.filter_singleton, decide_eq_true hd]
    exact hlt
  · rw [List.filter_singleton, decide_eq_false hd]
    exact h

theorem greedy_distinct :
    (greedy (Skips A) (Stops budget) l []).Pairwise fun a b => ¬ Near A a b := by
  refine greedy_invariant (P := fun chosen => chosen.Pairwise fun a b => ¬ Near A a b) l
    (fun chosen a h hskip _ => ?_) [] List.Pairwise.nil
  refine List.pairwise_append.2 ⟨h, List.pairwise_singleton _ a, fun x hx b hb => ?_⟩
  rw [List.mem_singleton.1 hb]
  exact fun hnear => hskip (Or.inr (List.any_eq_true.2 ⟨x, hx, hnear⟩))

theorem greedy_within : ((greedy (Skips A) (Stops budget) l []).map Candidate.tokenCount).sum ≤
    budget ∨ (greedy (Skips A) (Stops budget) l []).length ≤ 1 := by
  refine greedy_invariant (P := fun chosen => (chosen.map Candidate.tokenCount).sum ≤ budget ∨
    chosen.length ≤ 1) l (fun chosen a _ _ hstop => ?_) [] (Or.inl (Nat.zero_le _))
  by_cases hnil : chosen = []
  · rw [hnil]
    exact Or.inr le_rfl
  · left
    rw [List.map_append, List.sum_append, List.map_singleton, List.sum_singleton]
    exact Nat.le_of_not_lt fun hover => hstop ⟨hnil, hover⟩

/-- The loop over a list in rank order selects greedily. -/
theorem selects_greedy {eligible : Candidate V → Prop} {candidates : List (Candidate V)}
    (hne : l ≠ []) (hids : (l.map Candidate.chunkId).Nodup) (hranked : l.Pairwise before)
    (hasymm : ∀ a b, before a b → ¬ before b a)
    (hmem : ∀ c, c ∈ l ↔ c ∈ candidates ∧ eligible c) :
    Selects eligible before (Near A) candidates budget
      (greedy (Skips A) (Stops budget) l []) := by
  have hsub : (greedy (Skips A) (Stops budget) l []).Sublist l := greedy_sublist l []
  have hne' : greedy (Skips A) (Stops budget) l [] ≠ [] := by
    obtain ⟨a, rest, rfl⟩ := List.exists_cons_of_ne_nil hne
    refine greedy_ne_nil ?_ fun hstop => hstop.1 rfl
    exact not_or.2 ⟨(by decide : ¬ perDocument ≤ 0), fun hany => (by cases hany)⟩
  have hnodup := hsub.nodup hids.of_map
  obtain ⟨read, unread, hl, hchosen, hend, hread⟩ :=
    greedy_complete_from (Skips A) (Stops budget) l []
  rw [hl] at hranked
  obtain ⟨hreadRanked, hunreadRanked, hcross⟩ := List.pairwise_append.1 hranked
  have hout : ∀ c ∈ read, c ∈ greedy (Skips A) (Stops budget) l [] ∨
      RuledOut before (Near A) (greedy (Skips A) (Stops budget) l []) c := by
    intro c hc
    obtain ⟨pre, post, rfl⟩ := List.append_of_mem hc
    refine (hread pre c post rfl).imp_right (ruledOut_of_skipped hnodup fun x hx => ?_)
    exact (List.pairwise_append.1 hreadRanked).2.2 x hx c List.mem_cons_self
  refine ⟨hne', (hsub.map _).nodup hids, fun c hc => (hmem c).1 (hsub.subset hc),
    (hl ▸ hranked : l.Pairwise before).sublist hsub, greedy_document, greedy_distinct, ?_, ?_⟩
  · refine greedy_within.imp_right fun hlen => ?_
    exact Nat.le_antisymm hlen (List.length_pos_of_ne_nil hne')
  · intro c hc hcan hnot
    have hcl := (hmem c).2 ⟨hc, hcan⟩
    rw [hl] at hcl
    rcases List.mem_append.1 hcl with hcread | hcunread
    · exact Or.inl ((hout c hcread).resolve_left hnot)
    · right
      -- the loop stopped before `c`, at the first candidate that did not fit
      obtain ⟨f, rest, rfl⟩ := List.exists_cons_of_ne_nil (List.ne_nil_of_mem hcunread)
      obtain ⟨hskip, hstop⟩ := hend f rfl
      have hf : f ∈ l := by
        rw [hl]
        exact List.mem_append_right _ List.mem_cons_self
      refine ⟨f, ⟨(hmem f).1 hf, fun h => hskip (skips_of_ruledOut h), ?_, hstop.2, ?_⟩, ?_⟩
      · exact fun a ha => hcross a (hchosen a ha) f List.mem_cons_self
      · intro g hg hgcan hbefore
        have hgl := (hmem g).2 ⟨hg, hgcan⟩
        rw [hl] at hgl
        rcases List.mem_append.1 hgl with hgread | hgunread
        · exact hout g hgread
        · rcases List.mem_cons.1 hgunread with rfl | hgrest
          · exact absurd hbefore (hasymm _ _ hbefore)
          · exact absurd hbefore (hasymm _ _ ((List.pairwise_cons.1 hunreadRanked).1 g hgrest))
      · rcases List.mem_cons.1 hcunread with rfl | hcrest
        · exact Or.inl rfl
        · exact Or.inr ((List.pairwise_cons.1 hunreadRanked).1 c hcrest)

end Loop

section Select

variable {V F β : Type} [LinearOrder β] (A : Arithmetic V F) (v : F → β) (U : UnicodeTables)
  (query : V) (songKey : Str) (now : Time)

/-- Rank order: never-played first, then the higher score, then the lower chunk id. -/
def RanksBefore (c d : Candidate V) : Prop :=
  ∃ s t, scored A U query songKey now c = some s ∧ scored A U query songKey now d = some t ∧
    s.Before v t

variable {A v U query songKey now} {candidates : List (Candidate V)}

theorem RanksBefore.asymm {c d : Candidate V} (h : RanksBefore A v U query songKey now c d) :
    ¬ RanksBefore A v U query songKey now d c := by
  rintro ⟨t', s', ht', hs', hbefore'⟩
  obtain ⟨s, t, hs, ht, hbefore⟩ := h
  rw [hs] at hs'
  rw [ht] at ht'
  cases hs'
  cases ht'
  exact Scored.before_asymm hbefore hbefore'

/-- **`select` selects greedily** whenever a candidate is eligible. -/
theorem select_selects (h : Comparable A U query songKey now v candidates)
    (hids : (candidates.map Candidate.chunkId).Nodup) (hsome : ∃ c ∈ candidates, Eligible now c)
    (budget : Nat) : ∃ chosen, select A U candidates query songKey now budget =
        .chosen (chosen.map Candidate.chunkId) ∧
      Selects (Eligible now) (RanksBefore A v U query songKey now) (Near A) candidates budget
        chosen := by
  obtain ⟨c, hc, heligible⟩ := hsome
  have hne : candidates ≠ [] := List.ne_nil_of_mem hc
  have hscored : candidates.filterMap (scored A U query songKey now) ≠ [] := fun hnil =>
    (filterMap_scored_eq_nil_iff A U query songKey now candidates).1 hnil c hc heligible
  have hself : ∀ s ∈ ranking A U query songKey now candidates,
      s.candidate ∈ candidates ∧ scored A U query songKey now s.candidate = some s := by
    intro s hs
    obtain ⟨d, hd, hds⟩ := mem_ranking_iff.1 hs
    rw [scored_candidate hds]
    exact ⟨hd, hds⟩
  have hmem : ∀ d, d ∈ (ranking A U query songKey now candidates).map Scored.candidate ↔
      d ∈ candidates ∧ Eligible now d := by
    intro d
    rw [List.mem_map]
    constructor
    · rintro ⟨s, hs, rfl⟩
      exact ⟨(hself s hs).1, (exists_scored_iff A U query songKey _).1 ⟨s, (hself s hs).2⟩⟩
    · rintro ⟨hd, hcan⟩
      obtain ⟨s, hs⟩ := (exists_scored_iff A U query songKey d).2 hcan
      exact ⟨s, mem_ranking_iff.2 ⟨d, hd, hs⟩, scored_candidate hs⟩
  have hloop := choose_eq_greedy A budget (ranking A U query songKey now candidates) []
  rw [List.map_nil, List.sum_nil] at hloop
  rw [select_eq, if_neg hne, if_neg hscored, hloop]
  refine ⟨_, rfl, selects_greedy (List.ne_nil_of_mem ((hmem c).2 ⟨hc, heligible⟩)) ?_ ?_
    (fun _ _ => RanksBefore.asymm) hmem⟩
  · -- two places in the ranking hold different candidates, so different ids
    rw [List.map_map]
    apply (List.nodup_map_iff_inj_on (ranking_nodup hids)).2
    intro s hs t ht hid
    have hcandidate := eq_of_chunkId_eq hids (hself s hs).1 (hself t ht).1 hid
    have hst := (hself s hs).2
    rw [hcandidate, (hself t ht).2] at hst
    exact (Option.some.inj hst).symm
  · rw [List.pairwise_map]
    apply (ranking_pairwise h hids).imp_of_mem
    intro _ _ hs ht hst
    exact ⟨_, _, (hself _ hs).2, (hself _ ht).2, hst⟩

end Select

end AnyPlayerSync.Passages
