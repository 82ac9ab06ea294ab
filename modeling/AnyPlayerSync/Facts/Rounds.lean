import AnyPlayerSync.Facts.Plays
import Mathlib.Data.List.Perm.Subperm

/-!
# Rounds of facts

A round of a user is a lookup and a `played` request for the fact that it returned, with anything
that other users do in between. As long as 30 days have not passed since the first round, the
candidates of the next lookup are the matching facts that no round has returned (`RoundsInv`), so
the rounds run through all of them before a lookup returns nothing (`facts_rotate`).
-/

set_option autoImplicit false

namespace AnyPlayerSync.Facts

open AnyPlayerSync.Foundation
open AnyPlayerSync.Passages (day)
open AnyPlayerSync.Sync (Time UserId)

/-! ## The choice of a fact -/

section Choice

variable {U : UnicodeTables} {score : Time → ℚ} {db : FactTables} {user : UserId}
  {query : FactQuery} {now : Time}

/-- The user has played the fact. -/
def FactTables.PlayedBy (db : FactTables) (user : UserId) (factId : Int) : Prop :=
  ∃ p ∈ db.plays, p.Of user factId

/-- There is no last use of a fact that was not played. -/
theorem lastUsedAt_eq_none_iff {factId : Int} :
    db.lastUsedAt user factId = none ↔ ¬ db.PlayedBy user factId := by
  rw [FactTables.lastUsedAt, List.max?_eq_none_iff, List.map_eq_nil_iff, List.filter_eq_nil_iff]
  simp [FactTables.PlayedBy]

/-- A fact is recovered when no play of it is later than 30 days ago. -/
theorem recovered_iff {f : FactRow} :
    db.Recovered user now f ↔ ∀ p ∈ db.plays, p.Of user f.id → p.playedAt ≤ now - 30 * day := by
  rw [FactTables.Recovered]
  cases hlast : db.lastUsedAt user f.id with
  | none =>
      have hnone := lastUsedAt_eq_none_iff.1 hlast
      simp only [Option.mem_def, reduceCtorEq, false_implies, implies_true, true_iff]
      intro p hp hof
      exact absurd ⟨p, hp, hof⟩ hnone
  | some t =>
      have hmax (bound : Time) := List.max?_le_iff (x := bound) hlast
      simp only [Option.mem_def, Option.some.injEq, forall_eq', hmax, List.mem_map, List.mem_filter,
        decide_eq_true_eq]
      constructor
      · exact fun h p hp hof => h _ ⟨p, ⟨hp, hof⟩, rfl⟩
      · rintro h _ ⟨p, ⟨hp, hof⟩, rfl⟩
        exact h p hp hof

theorem mem_candidates_iff {f : FactRow} : f ∈ db.candidates U user query now ↔
    f ∈ db.facts ∧ query.Matches U f ∧ db.Recovered user now f := by
  simp [FactTables.candidates]

theorem selectFact_mem {f : FactRow} (h : db.selectFact U score user query now = some f) :
    f ∈ db.facts ∧ query.Matches U f ∧ db.Recovered user now f :=
  mem_candidates_iff.1 (List.argmin_mem h)

/-- Nothing is selected when no matching fact has recovered. -/
theorem selectFact_eq_none_iff : db.selectFact U score user query now = none ↔
    ∀ f ∈ db.facts, query.Matches U f → ¬ db.Recovered user now f := by
  rw [FactTables.selectFact, List.argmin_eq_none, List.eq_nil_iff_forall_not_mem]
  simp only [mem_candidates_iff, not_and]

/-- A fact that the user has not played is preferred to one that it has. -/
theorem selectFact_unplayed {f g : FactRow}
    (h : db.selectFact U score user query now = some f) (hg : g ∈ db.facts)
    (hmatch : query.Matches U g) (hfresh : ¬ db.PlayedBy user g.id) :
    ¬ db.PlayedBy user f.id := by
  intro hplayed
  have hnone := lastUsedAt_eq_none_iff.2 hfresh
  have hcandidate : g ∈ db.candidates U user query now := by
    refine mem_candidates_iff.2 ⟨hg, hmatch, ?_⟩
    rw [FactTables.Recovered, hnone]
    exact fun _ ht => (by cases ht)
  have hle := List.le_of_mem_argmin hcandidate h
  cases hlast : db.lastUsedAt user f.id with
  | none => exact lastUsedAt_eq_none_iff.1 hlast hplayed
  | some t =>
      -- the first key of the order is `true` for the played fact and `false` for the other
      simp only [FactTables.rank, hnone, hlast, Option.isSome_none, Option.isSome_some,
        Prod.Lex.toLex_le_toLex] at hle
      simp only [Bool.lt_iff, Bool.true_eq_false, false_and, false_or] at hle

/-- A lookup with valid texts answers what is selected. -/
theorem lookup_eq_ok (hquery : bounded query.song 200 = true ∧ bounded query.artist 200 = true) :
    lookup U score db user query now =
      .ok ((db.selectFact U score user query now).map FactRow.fact) := by
  simp [lookup, hquery.1, hquery.2]

theorem lookup_some {fact : Fact} (h : lookup U score db user query now = .ok (some fact)) :
    ∃ f, db.selectFact U score user query now = some f ∧ f.fact = fact := by
  rw [lookup] at h
  split_ifs at h
  exact Option.map_eq_some_iff.1 (Except.ok.inj h)

end Choice

/-! ## Rounds -/

section Rounds

variable (U : UnicodeTables) (score : Time → ℚ) (sha256 : Str → Str)

/-- The user of a request. -/
def FactServer.user? (s : FactServer) : FactAction → Option UserId
  | .tick _ => none
  | .contribute _ _ => none
  | .lookup user _ => some user
  | .played _ user _ _ => some user
  | .proceed id => (s.calls id).map PlayedCall.user

/-- Time passes, or another user looks up or plays. -/
def Others (user : UserId) (s : FactServer) (a : FactAction) : Prop :=
  s.user? a ≠ some user ∧ ∀ input verified, a ≠ .contribute input verified

/-- What happens in between. -/
inductive Meanwhile (user : UserId) : FactServer → FactServer → Prop
  | refl (s : FactServer) : Meanwhile user s s
  | step {s s' s'' : FactServer} {a : FactAction} {e : FactEvent} :
      Meanwhile user s s' → (facts U score sha256).step s' a = some (s'', e) → Others user s' a →
      Meanwhile user s s''

/-- Rounds of a user from a state on, and the facts that they returned, latest first. The event id
of a round's play is fresh and its time is that of the call. -/
inductive Rounds (user : UserId) (query : FactQuery) (start : FactServer) :
    List Fact → FactServer → Prop
  | start : Rounds user query start [] start
  | meanwhile {returned : List Fact} {s s' : FactServer} :
      Rounds user query start returned s → Meanwhile U score sha256 user s s' →
      Rounds user query start returned s'
  | round {returned : List Fact} {s played called insert after : FactServer} {fact : Fact}
      {id : Nat} {eventId : Str} {e : FactEvent} :
      Rounds user query start returned s →
      (facts U score sha256).step s (.lookup user query) = some (s, .lookedUp (.ok (some fact))) →
      Meanwhile U score sha256 user s played →
      (∀ p ∈ played.db.plays, p.key ≠ (user, eventId)) →
      (facts U score sha256).step played (.played id user fact.id ⟨eventId, played.now⟩) =
        some (called, .called id) →
      Meanwhile U score sha256 user called insert →
      (facts U score sha256).step insert (.proceed id) = some (after, e) →
      Rounds user query start (fact :: returned) after

end Rounds

/-! ## What others leave of a user -/

/-- The plays of a user. -/
def FactTables.playsOf (db : FactTables) (user : UserId) : List FactPlay :=
  db.plays.filter fun p => p.userId = user

/-- The facts, the user's plays and the user's requests are as they were; time has passed. -/
structure Undisturbed (user : UserId) (s s' : FactServer) : Prop where
  facts : s'.db.facts = s.db.facts
  plays : s'.db.playsOf user = s.db.playsOf user
  now : s.now ≤ s'.now
  calls : ∀ id c, s.calls id = some c → c.user = user → s'.calls id = some c

section Others

variable {U : UnicodeTables} {score : Time → ℚ} {sha256 : Str → Str} {user : UserId}
  {s s' s'' : FactServer} {a : FactAction} {e : FactEvent}

theorem step_effect (h : (facts U score sha256).step s a = some (s', e)) : FactEffect s s' a e :=
  factStep_effect h

theorem Undisturbed.refl (s : FactServer) : Undisturbed user s s :=
  ⟨rfl, rfl, Int.le_refl _, fun _ _ hc _ => hc⟩

theorem Undisturbed.trans (h : Undisturbed user s s') (h' : Undisturbed user s' s'') :
    Undisturbed user s s'' where
  facts := h'.facts.trans h.facts
  plays := h'.plays.trans h.plays
  now := Int.le_trans h.now h'.now
  calls id c hc hu := h'.calls id c (h.calls id c hc hu) hu

/-- A request of another user moves on. -/
theorem setCall_undisturbed {id : Nat} {c : PlayedCall} (c' : PlayedCall)
    (hc : s.calls id = some c) (hne : c.user ≠ user) : Undisturbed user s (s.setCall id c') where
  facts := rfl
  plays := rfl
  now := Int.le_refl _
  calls i d hd hu := by
    have hi : i ≠ id := by
      intro hi
      rw [hi, hc, Option.some.injEq] at hd
      exact hne (hd ▸ hu)
    rw [setCall_other hi, hd]

/-- The steps of others leave the user's plays and the facts. -/
theorem FactEffect.undisturbed (he : FactEffect s s' a e) (ho : Others user s a) :
    Undisturbed user s s' := by
  obtain ⟨huser, hquiet⟩ := ho
  have hcaller {id : Nat} {c : PlayedCall} (hc : s.calls id = some c)
      (hu : s.user? (.proceed id) ≠ some user) : c.user ≠ user := by
    rw [FactServer.user?, hc, Option.map_some] at hu
    exact fun h => hu (by rw [h])
  cases he with
  | ticked elapsed =>
      exact ⟨rfl, rfl, Int.le_add_of_nonneg_right (Int.natCast_nonneg elapsed), fun _ _ hc _ => hc⟩
  | contributed input verified => exact absurd rfl (hquiet input verified)
  | inserted input verified => exact absurd rfl (hquiet input verified)
  | lookedUp | refused => exact .refl s
  | called id u factId input free checked =>
      refine ⟨rfl, rfl, Int.le_refl _, fun i c hc _ => ?_⟩
      have hi : i ≠ id := by
        intro hi
        rw [hi, free] at hc
        cases hc
      rw [setCall_other hi, hc]
  | @played id c called phase found fresh =>
      have hne := hcaller called huser
      have hset := setCall_undisturbed { c with phase := .returned } called hne
      refine ⟨rfl, ?_, Int.le_refl _, hset.calls⟩
      simp only [FactServer.setCall, FactTables.playsOf, List.filter_append]
      rw [List.filter_cons_of_neg (by simpa using show c.play.userId ≠ user from hne),
        List.filter_nil, List.append_nil]
  | passed called | reread called => exact setCall_undisturbed _ called (hcaller called huser)

theorem Meanwhile.undisturbed (h : Meanwhile U score sha256 user s s') :
    Undisturbed user s s' := by
  induction h with
  | refl => exact .refl _
  | step _ hs ho ih => exact ih.trans ((step_effect hs).undisturbed ho)

end Others

/-! ## The rotation -/

section Rotation

variable {U : UnicodeTables} {score : Time → ℚ} {sha256 : Str → Str} {user : UserId}
  {query : FactQuery} {start s s' : FactServer} {returned : List Fact}

/-- After some rounds, the matching facts that they returned are those that the user has played,
each since the rounds began. -/
structure RoundsInv (U : UnicodeTables) (user : UserId) (query : FactQuery) (start : FactServer)
    (returned : List Fact) (s : FactServer) : Prop where
  facts : s.db.facts = start.db.facts
  now : start.now ≤ s.now
  distinct : (returned.map Fact.id).Nodup
  matching : ∀ fact ∈ returned, ∃ f ∈ start.db.facts, query.Matches U f ∧ f.fact = fact
  played : ∀ fact ∈ returned, ∃ p ∈ s.db.plays, p.Of user fact.id ∧ start.now ≤ p.playedAt
  unplayed : ∀ f ∈ start.db.facts, query.Matches U f → s.db.PlayedBy user f.id →
    f.id ∈ returned.map Fact.id

theorem mem_playsOf {db : FactTables} {p : FactPlay} :
    p ∈ db.playsOf user ↔ p ∈ db.plays ∧ p.userId = user := by simp [FactTables.playsOf]

/-- So they keep the invariant of the rounds. -/
theorem RoundsInv.undisturbed (hi : RoundsInv U user query start returned s)
    (h : Undisturbed user s s') : RoundsInv U user query start returned s' := by
  have hplays {p : FactPlay} (hp : p.userId = user) : p ∈ s'.db.plays ↔ p ∈ s.db.plays := by
    have hmem : p ∈ s'.db.playsOf user ↔ p ∈ s.db.playsOf user := by rw [h.plays]
    simpa only [mem_playsOf, hp, and_true] using hmem
  refine ⟨h.facts.trans hi.facts, Int.le_trans hi.now h.now, hi.distinct, hi.matching, ?_, ?_⟩
  · intro fact hfact
    obtain ⟨p, hp, hof, hfrom⟩ := hi.played fact hfact
    exact ⟨p, (hplays hof.1).2 hp, hof, hfrom⟩
  · rintro f hf hmatch ⟨p, hp, hof⟩
    exact hi.unplayed f hf hmatch ⟨p, (hplays hof.1).1 hp, hof⟩

/-- Within the window, a fact is a candidate when no round has returned it. -/
theorem RoundsInv.recovered_iff (hi : RoundsInv U user query start returned s)
    (hwindow : s.now < start.now + 30 * day) {f : FactRow} (hf : f ∈ start.db.facts)
    (hmatch : query.Matches U f) :
    s.db.Recovered user s.now f ↔ f.id ∉ returned.map Fact.id := by
  rw [Facts.recovered_iff]
  constructor
  · intro hrecovered hreturned
    obtain ⟨fact, hfact, hid⟩ := List.mem_map.1 hreturned
    obtain ⟨p, hp, hof, hfrom⟩ := hi.played fact hfact
    rw [hid] at hof
    have hold := hrecovered p hp hof
    have hlate := Int.sub_right_lt_of_lt_add hwindow
    exact absurd (Int.le_trans hfrom hold) (Int.not_le.2 hlate)
  · intro hnew p hp hof
    exact absurd (hi.unplayed f hf hmatch ⟨p, hp, hof⟩) hnew

/-- A lookup within the window returns a matching fact that no round has returned. -/
theorem RoundsInv.selected (hi : RoundsInv U user query start returned s)
    (hwindow : s.now < start.now + 30 * day) {f : FactRow}
    (h : s.db.selectFact U score user query s.now = some f) :
    f ∈ start.db.facts ∧ query.Matches U f ∧ f.id ∉ returned.map Fact.id := by
  obtain ⟨hf, hmatch, hrecovered⟩ := selectFact_mem h
  rw [hi.facts] at hf
  exact ⟨hf, hmatch, (hi.recovered_iff hwindow hf hmatch).1 hrecovered⟩

/-- A lookup within the window returns nothing once the rounds have returned all matching facts. -/
theorem RoundsInv.exhausted (hi : RoundsInv U user query start returned s)
    (hwindow : s.now < start.now + 30 * day) :
    s.db.selectFact U score user query s.now = none ↔
      ∀ f ∈ start.db.facts, query.Matches U f → f.id ∈ returned.map Fact.id := by
  rw [selectFact_eq_none_iff, hi.facts]
  constructor
  · intro h f hf hmatch
    have hnot := h f hf hmatch
    rwa [hi.recovered_iff hwindow hf hmatch, not_not] at hnot
  · intro h f hf hmatch
    rw [hi.recovered_iff hwindow hf hmatch, not_not]
    exact h f hf hmatch

/-- The request of a round arrives. -/
theorem RoundsInv.called (hi : RoundsInv U user query start returned s) (id : Nat)
    (c : PlayedCall) : RoundsInv U user query start returned (s.setCall id c) :=
  ⟨hi.facts, hi.now, hi.distinct, hi.matching, hi.played, hi.unplayed⟩

/-- The insert of a round's play. -/
theorem RoundsInv.inserted (hi : RoundsInv U user query start returned s)
    {f : FactRow} (hf : f ∈ start.db.facts) (hmatch : query.Matches U f)
    (hnew : f.id ∉ returned.map Fact.id) (id : Nat) {c : PlayedCall} (huser : c.user = user)
    (hfact : c.factId = f.id) (hfrom : start.now ≤ c.input.playedAt) :
    RoundsInv U user query start (f.fact :: returned)
      (FactServer.setCall { s with db := { s.db with plays := s.db.plays ++ [c.play] } } id
        { c with phase := .returned }) where
  facts := hi.facts
  now := hi.now
  distinct := List.nodup_cons.2 ⟨hnew, hi.distinct⟩
  matching := by
    intro fact hmem
    rcases List.mem_cons.1 hmem with rfl | hmem
    · exact ⟨f, hf, hmatch, rfl⟩
    · exact hi.matching fact hmem
  played := by
    intro fact hmem
    rcases List.mem_cons.1 hmem with rfl | hmem
    · exact ⟨c.play, List.mem_append_right _ (List.mem_singleton_self _), ⟨huser, hfact⟩, hfrom⟩
    · obtain ⟨p, hp, hof, hlate⟩ := hi.played fact hmem
      exact ⟨p, List.mem_append_left _ hp, hof, hlate⟩
  unplayed := by
    rintro g hg hmatch' ⟨p, hp, hof⟩
    rw [List.map_cons, List.mem_cons]
    rcases List.mem_append.1 hp with hp | hp
    · exact Or.inr (hi.unplayed g hg hmatch' ⟨p, hp, hof⟩)
    · rw [List.mem_singleton.1 hp] at hof
      exact Or.inl (hof.2.symm.trans hfact)

/-- What a round does: its lookup returns a fact, its request arrives and inserts, and meanwhile
others do what they do. -/
theorem RoundsInv.round (hi : RoundsInv U user query start returned s) {fact : Fact}
    {played called insert after : FactServer} {id : Nat} {eventId : Str} {e : FactEvent}
    (hwindow : s.now < start.now + 30 * day)
    (hlookup : lookup U score s.db user query s.now = .ok (some fact))
    (hbefore : Undisturbed user s played)
    (hfresh : ∀ p ∈ played.db.plays, p.key ≠ (user, eventId))
    (hcalled : FactEffect played called (.played id user fact.id ⟨eventId, played.now⟩)
      (.called id))
    (hbetween : Undisturbed user called insert)
    (hproceed : FactEffect insert after (.proceed id) e) :
    RoundsInv U user query start (fact :: returned) after := by
  obtain ⟨f, hselected, rfl⟩ := lookup_some hlookup
  obtain ⟨hf, hmatch, hnew⟩ := hi.selected hwindow hselected
  cases hcalled with
  | called _ _ _ _ free checked =>
      let c : PlayedCall := ⟨user, f.fact.id, ⟨eventId, played.now⟩, .inserting⟩
      have hplayed := hi.undisturbed hbefore
      have hinsert := (hplayed.called id c).undisturbed hbetween
      have hcall : insert.calls id = some c := hbetween.calls id c (setCall_self c) rfl
      have hfrom : start.now ≤ c.input.playedAt := hplayed.now
      cases hproceed with
      | @played _ d hd phase found fresh =>
          rw [hcall, Option.some.injEq] at hd
          subst hd
          exact hinsert.inserted hf hmatch hnew id rfl rfl hfrom
      | @passed _ d hd phase blocked =>
          rw [hcall, Option.some.injEq] at hd
          subst hd
          rcases blocked with hmissing | ⟨p, hp, hkey⟩
          · exact absurd rfl (hmissing f (hinsert.facts ▸ hf))
          · obtain ⟨hu, -⟩ := Prod.mk.inj hkey
            have hmem : p ∈ insert.db.playsOf user := mem_playsOf.2 ⟨hp, hu⟩
            rw [hbetween.plays] at hmem
            exact absurd hkey (hfresh p (mem_playsOf.1 hmem).1)
      | @reread _ d hd phase =>
          rw [hcall, Option.some.injEq] at hd
          subst hd
          cases phase

/-- Each round keeps it for 30 days. -/
theorem Rounds.inv (hr : Rounds U score sha256 user query start returned s)
    (hunplayed : ∀ f ∈ start.db.facts, query.Matches U f → ¬ start.db.PlayedBy user f.id) :
    s.now < start.now + 30 * day → RoundsInv U user query start returned s := by
  induction hr with
  | start =>
      intro _
      refine ⟨rfl, Int.le_refl _, List.nodup_nil, ?_, ?_, ?_⟩
      · exact fun _ h => absurd h List.not_mem_nil
      · exact fun _ h => absurd h List.not_mem_nil
      · exact fun f hf hmatch hplayed => absurd hplayed (hunplayed f hf hmatch)
  | meanwhile _ hmeanwhile ih =>
      intro hwindow
      have hrest := hmeanwhile.undisturbed
      exact (ih (Int.lt_of_le_of_lt hrest.now hwindow)).undisturbed hrest
  | @round _ s played called insert after fact id eventId e _ hlookup hbefore hfresh hcalled
      hbetween hproceed ih =>
      intro hwindow
      replace hproceed := step_effect hproceed
      replace hcalled := step_effect hcalled
      have hafter : insert.now ≤ after.now := by cases hproceed <;> exact Int.le_refl _
      have hcall : played.now ≤ called.now := by cases hcalled; exact Int.le_refl _
      have hbefore := hbefore.undisturbed
      have hbetween := hbetween.undisturbed
      have hs : s.now < start.now + 30 * day := by
        have h1 := Int.le_trans hbefore.now hcall
        have h2 := Int.le_trans hbetween.now hafter
        exact Int.lt_of_le_of_lt (Int.le_trans h1 h2) hwindow
      have hevent : lookup U score s.db user query s.now = .ok (some fact) := by
        simp only [facts, factStep, Option.some.injEq, Prod.mk.injEq, FactEvent.lookedUp.injEq,
          true_and] at hlookup
        exact hlookup
      exact (ih hs).round hs hevent hbefore hfresh hcalled hbetween hproceed

/-- The matching facts. -/
def FactTables.matching (U : UnicodeTables) (db : FactTables) (query : FactQuery) : List FactRow :=
  db.facts.filter fun f => query.Matches U f

theorem mem_matching_iff {db : FactTables} {f : FactRow} :
    f ∈ db.matching U query ↔ f ∈ db.facts ∧ query.Matches U f := by simp [FactTables.matching]

/-- While fewer facts were returned than match, a lookup returns another one; then none. -/
theorem RoundsInv.selectFact_none_iff (hi : RoundsInv U user query start returned s)
    (hw : start.db.WellFormed) (hwindow : s.now < start.now + 30 * day) (score : Time → ℚ) :
    s.db.selectFact U score user query s.now = none ↔
      (start.db.matching U query).length ≤ returned.length := by
  have hsub : returned.map Fact.id ⊆ (start.db.matching U query).map FactRow.id := by
    intro i hmem
    obtain ⟨fact, hfact, rfl⟩ := List.mem_map.1 hmem
    obtain ⟨f, hf, hmatch, rfl⟩ := hi.matching fact hfact
    exact List.mem_map.2 ⟨f, mem_matching_iff.2 ⟨hf, hmatch⟩, rfl⟩
  have hids : ((start.db.matching U query).map FactRow.id).Nodup :=
    hw.ids.sublist (List.filter_sublist.map _)
  rw [hi.exhausted hwindow]
  constructor
  · intro hall
    have hsup : (start.db.matching U query).map FactRow.id ⊆ returned.map Fact.id := by
      intro i hmem
      obtain ⟨f, hf, rfl⟩ := List.mem_map.1 hmem
      obtain ⟨hf, hmatch⟩ := mem_matching_iff.1 hf
      exact hall f hf hmatch
    simpa using (List.subperm_of_subset hids hsup).length_le
  · intro hle f hf hmatch
    by_contra hnew
    have hnodup := List.nodup_cons.2 ⟨hnew, hi.distinct⟩
    have hlt := (List.subperm_of_subset hnodup (List.cons_subset.2
      ⟨List.mem_map.2 ⟨f, mem_matching_iff.2 ⟨hf, hmatch⟩, rfl⟩, hsub⟩)).length_le
    simp only [List.length_cons, List.length_map] at hlt
    omega

/-- **Facts rotate.** From any reachable state in which a user has played none of the facts that
match a query, rounds within 30 days return distinct facts, each lookup returns another one while
fewer were returned than match, and nothing afterwards. In any reachable state, a returned fact has
no play of the user later than 30 days ago, and has no play of the user at all if some matching fact
has none. -/
theorem facts_rotate {l : List FactRunStep} (ht : (facts U score sha256).Trace l start)
    (user : UserId) (query : FactQuery) :
    (bounded query.song 200 = true ∧ bounded query.artist 200 = true →
      (∀ f ∈ start.db.facts, query.Matches U f → ¬ start.db.PlayedBy user f.id) →
      ∀ returned s, Rounds U score sha256 user query start returned s →
        s.now < start.now + 30 * day →
        (returned.map Fact.id).Nodup ∧
        (returned.length < (start.db.matching U query).length →
          ∃ f ∈ start.db.matching U query, lookup U score s.db user query s.now =
            .ok (some f.fact) ∧ f.id ∉ returned.map Fact.id) ∧
        ((start.db.matching U query).length ≤ returned.length →
          lookup U score s.db user query s.now = .ok none)) ∧
    (∀ fact, lookup U score start.db user query start.now = .ok (some fact) →
      (∀ p ∈ start.db.plays, p.Of user fact.id → p.playedAt ≤ start.now - 30 * day) ∧
      ((∃ f ∈ start.db.matching U query, ¬ start.db.PlayedBy user f.id) →
        ¬ start.db.PlayedBy user fact.id)) := by
  constructor
  · intro hquery hunplayed returned s hrounds hwindow
    have hi := hrounds.inv hunplayed hwindow
    have hnone := hi.selectFact_none_iff (trace_wellFormed ht) hwindow score
    rw [lookup_eq_ok hquery]
    refine ⟨hi.distinct, fun hlt => ?_, fun hle => ?_⟩
    · cases hselected : s.db.selectFact U score user query s.now with
      | none => exact absurd (hnone.1 hselected) (Nat.not_le.2 hlt)
      | some f =>
          obtain ⟨hf, hmatch, hnew⟩ := hi.selected hwindow hselected
          exact ⟨f, mem_matching_iff.2 ⟨hf, hmatch⟩, rfl, hnew⟩
    · rw [hnone.2 hle]
      rfl
  · intro fact hlookup
    obtain ⟨f, hselected, rfl⟩ := lookup_some hlookup
    refine ⟨Facts.recovered_iff.1 (selectFact_mem hselected).2.2, ?_⟩
    rintro ⟨g, hg, hfresh⟩
    obtain ⟨hg, hmatch⟩ := mem_matching_iff.1 hg
    exact selectFact_unplayed hselected hg hmatch hfresh

end Rotation

def creepQuery : FactQuery := ⟨"creep".toList, "radiohead".toList⟩

/-- The machine with the hashes of the two contributions, and the state after them. -/
def creepFacts : Machine FactServer FactAction FactEvent := facts asciiTables (fun _ => 0) creepHash

def twoFacts : List FactRunStep × FactServer :=
  creepFacts.trace ([], creepFacts.init) [contributeCreep "1".toList, contributeCreep "2".toList]

/-- The row of the first contribution. -/
def firstFact : FactRow :=
  (creepClaim "1".toList).row asciiTables creepHash 1 (creepClaim "1".toList).sourceUrl 0

theorem firstFact_selected :
    twoFacts.2.db.selectFact asciiTables (fun _ => 0) 7 creepQuery twoFacts.2.now =
      some firstFact := by
  decide +kernel

/-- The second round answers the second fact. -/
theorem facts_rotate_second : ∃ s,
    Rounds asciiTables (fun _ => 0) creepHash 7 creepQuery twoFacts.2 [firstFact.fact] s ∧
      ∃ f ∈ twoFacts.2.db.matching asciiTables creepQuery,
        lookup asciiTables (fun _ => 0) s.db 7 creepQuery s.now = .ok (some f.fact) ∧
          f.id ∉ [firstFact.fact].map Fact.id := by
  have hquery : bounded creepQuery.song 200 = true ∧ bounded creepQuery.artist 200 = true := by
    decide
  have hlookup : creepFacts.step twoFacts.2 (.lookup 7 creepQuery) =
      some (twoFacts.2, .lookedUp (.ok (some firstFact.fact))) := by
    show some (twoFacts.2, FactEvent.lookedUp (lookup _ _ _ _ _ _)) = _
    rw [lookup_eq_ok hquery, firstFact_selected]
    rfl
  let c : PlayedCall := ⟨7, 1, playedEvent, .inserting⟩
  have hcalled : creepFacts.step twoFacts.2 (.played 0 7 1 playedEvent) =
      some (twoFacts.2.setCall 0 c, .called 0) := rfl
  have hproceed : creepFacts.step (twoFacts.2.setCall 0 c) (.proceed 0) =
      some (FactServer.setCall
        { twoFacts.2.setCall 0 c with db := { twoFacts.2.db with plays := [c.play] } } 0
        { c with phase := .returned }, .answered 0 (.ok ())) := rfl
  have hround := Rounds.round .start hlookup (.refl _) (fun _ hp => absurd hp List.not_mem_nil)
    hcalled (.refl _) hproceed
  refine ⟨_, hround, ?_⟩
  have hrotate := (facts_rotate (Machine.trace_exec _) 7 creepQuery).1 hquery
    (fun _ _ _ ⟨_, hp, _⟩ => absurd hp List.not_mem_nil) _ _ hround (by decide)
  exact hrotate.2.1 (by decide +kernel)

end AnyPlayerSync.Facts
