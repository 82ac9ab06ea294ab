import AnyPlayerSync.Passages.Selection
import Mathlib.Analysis.SpecialFunctions.Log.Basic

/-!
# Exact scores

`rank.rs` over the real numbers: what `select` does when no rounding and no NaN comes in the way.

- `select_exact`: `select` returns exactly the greedy selection.
- `select_perm`: the order of the candidates does not matter, over any numbers without NaN.
- `ranksMonotone_iff`: a better subject or a longer recovery never lowers the place of a candidate,
  exactly when no sum of cosine and boost that two such candidates share is negative.
-/

set_option autoImplicit false

namespace AnyPlayerSync.Passages

open AnyPlayerSync.Foundation
open AnyPlayerSync.Sync (Time)

/-! ## The arithmetic -/

/-- `cosine`: the sum of the products, as far as both vectors reach. -/
noncomputable def exactCosine (a b : List ℝ) : ℝ := (List.zipWith (· * ·) a b).sum

/-- The weights of the source, as numbers without rounding. -/
noncomputable def exactWeight : Subject → ℝ
  | .song => 1
  | .album => 0.85
  | .artist => 0.7

/-- `((days - 30).ln_1p() / 366.ln()).min(1)`, from the whole seconds since the play. -/
noncomputable def exactRecovered (elapsed : Time) : ℝ :=
  min (Real.log (1 + ((numSeconds elapsed : ℝ) / 86400 - exclusionDays)) / Real.log 366) 1

/-- `rank.rs` over the real numbers. -/
noncomputable def exactArithmetic : Arithmetic (List ℝ) ℝ where
  cosine := exactCosine
  add := (· + ·)
  mul := (· * ·)
  zero := 0
  one := 1
  titleBoost := 0.05
  weight := exactWeight
  recovered := exactRecovered
  compare := Ord.compare
  nearDuplicate x := decide (0.92 < x)

theorem comparable_exact (U : UnicodeTables) (query : List ℝ) (songKey : Str) (now : Time)
    (candidates : List (Candidate (List ℝ))) :
    Comparable exactArithmetic U query songKey now id candidates := fun _ _ _ _ => rfl

/-! ## The greedy selection -/

theorem near_exact :
    Near exactArithmetic = fun a b => 0.92 < exactCosine a.embedding b.embedding := by
  funext a b
  exact propext decide_eq_true_iff

/-- **`select` returns exactly the greedy selection.** -/
theorem select_exact (U : UnicodeTables) (candidates : List (Candidate (List ℝ)))
    (query : List ℝ) (songKey : Str) (now : Time) (budget : Nat)
    (hids : (candidates.map Candidate.chunkId).Nodup) :
    (select exactArithmetic U candidates query songKey now budget = .empty ↔ candidates = []) ∧
    (select exactArithmetic U candidates query songKey now budget = .allExcluded ↔
      candidates ≠ [] ∧
        ∀ c ∈ candidates, ∃ played, c.lastPlayed = some played ∧ now < played + 30 * day) ∧
    (select exactArithmetic U candidates query songKey now budget ≠ .empty →
      select exactArithmetic U candidates query songKey now budget ≠ .allExcluded →
      ∃ chosen, select exactArithmetic U candidates query songKey now budget =
          .chosen (chosen.map Candidate.chunkId) ∧
        Selects (Eligible now) (RanksBefore exactArithmetic id U query songKey now)
          (fun a b => 0.92 < exactCosine a.embedding b.embedding) candidates budget chosen) := by
  refine ⟨select_empty_iff candidates, select_allExcluded_iff candidates, ?_⟩
  intro hempty hexcluded
  have hsome : ∃ c ∈ candidates, Eligible now c := by
    by_contra hnone
    push Not at hnone
    refine hexcluded ((select_allExcluded_iff candidates).2 ⟨?_, fun c hc => ?_⟩)
    · exact mt (select_empty_iff candidates).2 hempty
    · exact (not_eligible_iff c).1 (hnone c hc)
  rw [← near_exact]
  exact select_selects (comparable_exact U query songKey now candidates) hids hsome budget

/-- A candidate that was never played. -/
def freshCandidate (id : Nat) (subject : Subject) : Candidate (List ℝ) where
  chunkId := id
  documentId := id
  text := []
  tokenCount := 10
  embedding := [1]
  source := []
  sourceUrl := []
  title := []
  subject := subject
  lang := []
  lastPlayed := none

theorem select_exact_fresh : ∃ ids, ids ≠ [] ∧
    select exactArithmetic asciiTables [freshCandidate 1 .song, freshCandidate 2 .artist] [1] [] 0
      budgetTokens = .chosen ids := by
  obtain ⟨hempty, hexcluded, hchosen⟩ := select_exact asciiTables
    [freshCandidate 1 .song, freshCandidate 2 .artist] [1] [] 0 budgetTokens (by decide)
  obtain ⟨chosen, hselect, hselects⟩ := hchosen (fun h => List.cons_ne_nil _ _ (hempty.1 h))
    fun h => by
      obtain ⟨played, hplayed, -⟩ := (hexcluded.1 h).2 _ List.mem_cons_self
      cases hplayed
  exact ⟨_, mt List.map_eq_nil_iff.1 hselects.ne_nil, hselect⟩

/-! ## The order of the candidates -/

section Permuted

variable {V F β : Type} [LinearOrder β] {A : Arithmetic V F} {U : UnicodeTables} {query : V}
  {songKey : Str} {now : Time} {candidates candidates' : List (Candidate V)}

/-- **The order of the candidates does not matter**: numbers that are not NaN compare as their
values in a linear order, chunk ids are distinct, and no score is NaN. -/
theorem select_perm (isNan : F → Prop) (value : F → β)
    (hcompare : ∀ x y, ¬ isNan x → ¬ isNan y →
      A.compare x y = Ord.compare (value x) (value y))
    (hperm : candidates.Perm candidates') (hids : (candidates.map Candidate.chunkId).Nodup)
    (hnan : ∀ c ∈ candidates, ∀ s, scored A U query songKey now c = some s → ¬ isNan s.score)
    (budget : Nat) :
    select A U candidates query songKey now budget =
      select A U candidates' query songKey now budget := by
  have hscore : ∀ s ∈ candidates.filterMap (scored A U query songKey now), ¬ isNan s.score := by
    intro s hs
    obtain ⟨c, hc, hcs⟩ := List.mem_filterMap.1 hs
    exact hnan c hc s hcs
  have hcomparable : Comparable A U query songKey now value candidates := fun s hs t ht =>
    hcompare _ _ (hscore s hs) (hscore t ht)
  have hnil : candidates = [] ↔ candidates' = [] := by
    constructor
    · rintro rfl
      exact hperm.nil_eq.symm
    · rintro rfl
      exact hperm.eq_nil
  have hscored : candidates.filterMap (scored A U query songKey now) = [] ↔
      candidates'.filterMap (scored A U query songKey now) = [] := by
    have hfilter := hperm.filterMap (scored A U query songKey now)
    constructor
    · intro h
      rw [h] at hfilter
      exact hfilter.nil_eq.symm
    · intro h
      rw [h] at hfilter
      exact hfilter.eq_nil
  rw [select_eq, select_eq, ranking_perm hcomparable hids hperm]
  simp only [hnil, hscored]

end Permuted

theorem select_perm_fresh :
    select exactArithmetic asciiTables [freshCandidate 1 .song, freshCandidate 2 .artist] [1] [] 0
        budgetTokens =
      select exactArithmetic asciiTables [freshCandidate 2 .artist, freshCandidate 1 .song] [1] [] 0
        budgetTokens :=
  select_perm (fun _ => False) id (fun _ _ _ _ => rfl) (List.Perm.swap _ _ _) (by decide)
    (fun _ _ _ _ => id) budgetTokens

/-! ## Better subjects and longer recoveries -/

section Monotone

variable (U : UnicodeTables) (query : List ℝ) (songKey : Str) (now : Time)

/-- The sum of cosine and boost that a score multiplies. -/
noncomputable def relevance (c : Candidate (List ℝ)) : ℝ :=
  exactCosine query c.embedding +
    if songKey ≠ [] ∧ Text.contains (Keys.matchKey U c.text) songKey = true then 0.05 else 0

/-- The first has no lower score, and comes first unless the chunk ids decide. -/
def NotWorse (s t : Scored (List ℝ) ℝ) : Prop :=
  t.score ≤ s.score ∧ (s.Before id t ∨
    (s.score = t.score ∧ t.candidate.chunkId ≤ s.candidate.chunkId))

/-- Two candidates of one text and embedding stand in the order of their subjects' weights, or of
their plays, the longer ago first. -/
def RanksMonotone (candidates : List (Candidate (List ℝ))) : Prop :=
  ∀ c ∈ candidates, ∀ d ∈ candidates, c.text = d.text → c.embedding = d.embedding →
    ∀ s t, scored exactArithmetic U query songKey now c = some s →
      scored exactArithmetic U query songKey now d = some t →
      (c.lastPlayed = d.lastPlayed → exactWeight d.subject ≤ exactWeight c.subject →
        NotWorse s t) ∧
      (c.subject = d.subject → ∀ played played', c.lastPlayed = some played →
        d.lastPlayed = some played' → played ≤ played' → NotWorse s t) ∧
      (c.subject = d.subject → c.lastPlayed = none → d.lastPlayed ≠ none → s.Before id t)

/-- Two such candidates whose weights or recoveries differ share no negative sum. -/
def NoneReversed (candidates : List (Candidate (List ℝ))) : Prop :=
  ∀ c ∈ candidates, ∀ d ∈ candidates, c.text = d.text → c.embedding = d.embedding →
    ∀ r r', recovery exactArithmetic c.lastPlayed now = some r →
      recovery exactArithmetic d.lastPlayed now = some r' →
      (c.lastPlayed = d.lastPlayed ∧ exactWeight d.subject < exactWeight c.subject ∧ r ≠ 0) ∨
        (c.subject = d.subject ∧ c.lastPlayed ≠ none ∧ d.lastPlayed ≠ none ∧ r' < r) →
      0 ≤ relevance U query songKey c

variable {U query songKey now}

theorem exactWeight_pos (subject : Subject) : 0 < exactWeight subject := by
  cases subject <;> norm_num [exactWeight]

theorem scored_eq {c : Candidate (List ℝ)} {s : Scored (List ℝ) ℝ}
    (h : scored exactArithmetic U query songKey now c = some s) :
    ∃ r, recovery exactArithmetic c.lastPlayed now = some r ∧
      s.score = relevance U query songKey c * exactWeight c.subject * r ∧
      s.unplayed = c.lastPlayed.isNone ∧ s.candidate = c := by
  obtain ⟨r, hr, rfl⟩ := Option.map_eq_some_iff.1 h
  exact ⟨r, hr, rfl, rfl, rfl⟩

theorem relevance_congr {c d : Candidate (List ℝ)} (htext : c.text = d.text)
    (hembedding : c.embedding = d.embedding) :
    relevance U query songKey c = relevance U query songKey d := by
  rw [relevance, relevance, htext, hembedding]

theorem exactRecovered_nonneg {elapsed : Time} (h : ¬ numSeconds elapsed < exclusionDays * 86400) :
    0 ≤ exactRecovered elapsed := by
  have hdays : (exclusionDays : ℝ) ≤ (numSeconds elapsed : ℝ) / 86400 := by
    rw [le_div_iff₀ (by norm_num)]
    exact_mod_cast Int.not_lt.1 h
  refine le_min (div_nonneg (Real.log_nonneg ?_) (Real.log_nonneg (by norm_num))) zero_le_one
  linarith

theorem exactRecovered_mono {elapsed elapsed' : Time}
    (h : ¬ numSeconds elapsed < exclusionDays * 86400) (hle : elapsed ≤ elapsed') :
    exactRecovered elapsed ≤ exactRecovered elapsed' := by
  have hdays : (exclusionDays : ℝ) ≤ (numSeconds elapsed : ℝ) / 86400 := by
    rw [le_div_iff₀ (by norm_num)]
    exact_mod_cast Int.not_lt.1 h
  have hseconds : (numSeconds elapsed : ℝ) / 86400 ≤ (numSeconds elapsed' : ℝ) / 86400 := by
    have hint : numSeconds elapsed ≤ numSeconds elapsed' := Int.tdiv_le_tdiv (by decide) hle
    gcongr
  refine min_le_min_right 1 (div_le_div_of_nonneg_right ?_ (Real.log_nonneg (by norm_num)))
  exact Real.log_le_log (by linarith) (by linarith)

theorem recovery_nonneg {lastPlayed : Option Time} {r : ℝ}
    (h : recovery exactArithmetic lastPlayed now = some r) : 0 ≤ r := by
  cases lastPlayed with
  | none =>
      cases h
      exact zero_le_one
  | some played =>
      rw [recovery] at h
      split_ifs at h with hlate
      cases h
      exact exactRecovered_nonneg hlate

/-- What was played longer ago has recovered more. -/
theorem recovery_mono {played played' : Time} {r r' : ℝ}
    (h : recovery exactArithmetic (some played) now = some r)
    (h' : recovery exactArithmetic (some played') now = some r') (hle : played ≤ played') :
    r' ≤ r := by
  rw [recovery] at h h'
  split_ifs at h h' with hlate hlate'
  cases h
  cases h'
  exact exactRecovered_mono hlate' (Int.sub_le_sub_left hle now)

/-- Among candidates both played or both not, the order is that of the scores. -/
theorem notWorse_iff {s t : Scored (List ℝ) ℝ} (h : s.unplayed = t.unplayed) :
    NotWorse s t ↔ t.score ≤ s.score := by
  refine ⟨fun hnot => hnot.1, fun hle => ⟨hle, ?_⟩⟩
  rcases lt_or_eq_of_le hle with hlt | heq
  · exact Or.inl (Or.inr ⟨h, Or.inl hlt⟩)
  · rcases Nat.lt_or_ge s.candidate.chunkId t.candidate.chunkId with hid | hid
    · exact Or.inl (Or.inr ⟨h, Or.inr ⟨heq.symm, hid⟩⟩)
    · exact Or.inr ⟨heq.symm, hid⟩

/-- A larger factor gives no smaller product, exactly when the other factor is not negative or the
factors are equal. -/
theorem mul_le_mul_iff_of_le {x a b : ℝ} (hle : b ≤ a) : x * b ≤ x * a ↔ (b < a → 0 ≤ x) := by
  constructor
  · intro h hlt
    by_contra hneg
    exact absurd h (not_le.2 (mul_lt_mul_of_neg_left hlt (not_le.1 hneg)))
  · intro h
    rcases eq_or_lt_of_le hle with rfl | hlt
    · exact le_rfl
    · exact mul_le_mul_of_nonneg_left hle (h hlt)

/-- Candidates of one text and embedding compare as their weights and recoveries do, if their sum is
not negative. -/
theorem score_le_iff {c d : Candidate (List ℝ)} (htext : c.text = d.text)
    (hembedding : c.embedding = d.embedding) {s t : Scored (List ℝ) ℝ} {r r' : ℝ}
    (hs : scored exactArithmetic U query songKey now c = some s)
    (ht : scored exactArithmetic U query songKey now d = some t)
    (hr : recovery exactArithmetic c.lastPlayed now = some r)
    (hr' : recovery exactArithmetic d.lastPlayed now = some r')
    (hle : exactWeight d.subject * r' ≤ exactWeight c.subject * r) :
    t.score ≤ s.score ↔ (exactWeight d.subject * r' < exactWeight c.subject * r →
      0 ≤ relevance U query songKey c) := by
  obtain ⟨q, hq, hscore, -, -⟩ := scored_eq hs
  obtain ⟨q', hq', hscore', -, -⟩ := scored_eq ht
  cases hq.symm.trans hr
  cases hq'.symm.trans hr'
  rw [hscore, hscore', relevance_congr htext.symm hembedding.symm, mul_assoc, mul_assoc,
    mul_le_mul_iff_of_le hle]

theorem RanksMonotone.noneReversed {candidates : List (Candidate (List ℝ))}
    (h : RanksMonotone U query songKey now candidates) :
    NoneReversed U query songKey now candidates := by
  intro c hc d hd htext hembedding r r' hr hr' hdiffer
  obtain ⟨s, hs⟩ : ∃ s, scored exactArithmetic U query songKey now c = some s := by
    rw [scored, hr]
    exact ⟨_, rfl⟩
  obtain ⟨t, ht⟩ : ∃ t, scored exactArithmetic U query songKey now d = some t := by
    rw [scored, hr']
    exact ⟨_, rfl⟩
  obtain ⟨hsubject, hplayed, -⟩ := h c hc d hd htext hembedding s t hs ht
  rcases hdiffer with ⟨hlast, hweight, hne⟩ | ⟨hsub, hc', hd', hlt⟩
  · have hle := (hsubject hlast hweight.le).1
    have hsame : r = r' := Option.some.inj (hr.symm.trans (hlast ▸ hr'))
    subst hsame
    have hpos : 0 < r := lt_of_le_of_ne (recovery_nonneg hr) hne.symm
    have hfactor := mul_lt_mul_of_pos_right hweight hpos
    exact (score_le_iff htext hembedding hs ht hr hr' hfactor.le).1 hle hfactor
  · obtain ⟨played, hp⟩ := Option.ne_none_iff_exists'.1 hc'
    obtain ⟨played', hp'⟩ := Option.ne_none_iff_exists'.1 hd'
    have hago : played ≤ played' :=
      (Int.le_total played played').resolve_right fun h =>
        absurd (recovery_mono (hp' ▸ hr') (hp ▸ hr) h) (not_le.2 hlt)
    have hle := (hplayed hsub played played' hp hp' hago).1
    have hfactor : exactWeight d.subject * r' < exactWeight c.subject * r := by
      rw [← hsub]
      exact mul_lt_mul_of_pos_left hlt (exactWeight_pos c.subject)
    exact (score_le_iff htext hembedding hs ht hr hr' hfactor.le).1 hle hfactor

theorem NoneReversed.ranksMonotone {candidates : List (Candidate (List ℝ))}
    (h : NoneReversed U query songKey now candidates) :
    RanksMonotone U query songKey now candidates := by
  intro c hc d hd htext hembedding s t hs ht
  obtain ⟨r, hr, -, hunplayed, -⟩ := scored_eq hs
  obtain ⟨r', hr', -, hunplayed', -⟩ := scored_eq ht
  have hnone := h c hc d hd htext hembedding r r' hr hr'
  refine ⟨fun hlast hweight => ?_, fun hsub played played' hp hp' hle => ?_,
    fun hsub hfresh hold => ?_⟩
  · rw [notWorse_iff (by rw [hunplayed, hunplayed', hlast])]
    have hsame : r = r' := Option.some.inj (hr.symm.trans (hlast ▸ hr'))
    subst hsame
    have hfactor := mul_le_mul_of_nonneg_right hweight (recovery_nonneg hr)
    apply (score_le_iff htext hembedding hs ht hr hr' hfactor).2
    intro hlt
    refine hnone (Or.inl ⟨hlast, lt_of_mul_lt_mul_right hlt (recovery_nonneg hr), ?_⟩)
    rintro rfl
    rw [mul_zero, mul_zero] at hlt
    exact lt_irrefl _ hlt
  · rw [notWorse_iff (by rw [hunplayed, hunplayed', hp, hp']; rfl)]
    have hrecovered : r' ≤ r := recovery_mono (hp ▸ hr) (hp' ▸ hr') hle
    have hfactor : exactWeight d.subject * r' ≤ exactWeight c.subject * r := by
      rw [← hsub]
      exact mul_le_mul_of_nonneg_left hrecovered (exactWeight_pos c.subject).le
    apply (score_le_iff htext hembedding hs ht hr hr' hfactor).2
    intro hlt
    rw [← hsub] at hlt
    refine hnone (Or.inr ⟨hsub, ?_, ?_, ?_⟩)
    · rw [hp]
      exact Option.some_ne_none played
    · rw [hp']
      exact Option.some_ne_none played'
    · exact lt_of_mul_lt_mul_left hlt (exactWeight_pos c.subject).le
  · left
    rw [hunplayed, hunplayed', hfresh]
    exact ⟨rfl, Option.isNone_eq_false_iff.2 (Option.isSome_iff_ne_none.2 hold)⟩

/-- **The ranking is monotone in subject and in recovery** exactly when no two candidates that
differ in one of them share a negative sum of cosine and boost. -/
theorem ranksMonotone_iff (candidates : List (Candidate (List ℝ))) :
    RanksMonotone U query songKey now candidates ↔ NoneReversed U query songKey now candidates :=
  ⟨RanksMonotone.noneReversed, NoneReversed.ranksMonotone⟩

/-- A song and an artist with one embedding, away from the query: the artist scores higher. -/
theorem not_ranksMonotone_fresh :
    ¬ RanksMonotone asciiTables [-1] [] 0 [freshCandidate 1 .song, freshCandidate 2 .artist] := by
  intro h
  obtain ⟨hsubject, -, -⟩ := h (freshCandidate 1 .song) List.mem_cons_self
    (freshCandidate 2 .artist) (List.mem_cons_of_mem _ List.mem_cons_self) rfl rfl _ _ rfl rfl
  have hle := (hsubject rfl (by norm_num [exactWeight, freshCandidate])).1
  norm_num [exactArithmetic, exactCosine, exactWeight, freshCandidate] at hle

end Monotone

end AnyPlayerSync.Passages
