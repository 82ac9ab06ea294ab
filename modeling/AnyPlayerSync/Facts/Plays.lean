import AnyPlayerSync.Facts.Model
import AnyPlayerSync.Foundation.Machine
import AnyPlayerSync.Foundation.Table

/-!
# Play events

Any number of fact lookups, contributions and `played` requests, the two statements of `played`
interleaved with everything else. What a step can do is said once (`FactEffect`); it never removes
or changes a row, so what a request found in the table stays there (`plays_exactly_once`).
-/

set_option autoImplicit false

namespace AnyPlayerSync.Facts

open AnyPlayerSync.Foundation
open AnyPlayerSync.Sync (ApiError Time UserId)

/-! ## The machine -/

/-- The next statement of a `played` request. -/
inductive PlayedPhase where
  | inserting
  | rereading
  | returned
  deriving DecidableEq

/-- A `played` request that has passed the checks. -/
structure PlayedCall where
  user : UserId
  factId : Int
  input : Played
  phase : PlayedPhase

/-- The row that the request inserts. -/
def PlayedCall.play (c : PlayedCall) : FactPlay :=
  ⟨c.user, c.input.eventId, c.factId, c.input.playedAt⟩

/-- The committed tables, the calls of `played` in progress, and the clock. -/
structure FactServer where
  db : FactTables
  now : Time
  calls : Nat → Option PlayedCall

/-- The call is at another statement. -/
def FactServer.setCall (s : FactServer) (id : Nat) (c : PlayedCall) : FactServer :=
  { s with calls := Function.update s.calls id (some c) }

/-- A scheduling choice. -/
inductive FactAction where
  | tick (elapsed : Nat)
  | contribute (input : Contribution) (verified : Except ApiError Str)
  | lookup (user : UserId) (query : FactQuery)
  | played (id : Nat) (user : UserId) (factId : Int) (input : Played)
  | proceed (id : Nat)

/-- What a step tells. -/
inductive FactEvent where
  | ticked
  | contributed (answer : Except ApiError Fact)
  | lookedUp (answer : Except ApiError (Option Fact))
  | called (id : Nat)
  | refused (id : Nat) (error : ApiError)
  | passed (id : Nat)
  | answered (id : Nat) (answer : Except ApiError Unit)

/-- The next statement of a request. -/
def proceedPlayed (s : FactServer) (id : Nat) (c : PlayedCall) : Option (FactServer × FactEvent) :=
  match c.phase with
  | .inserting =>
      match s.db.insertPlay c.play with
      | some db =>
          some ({ s with db := db }.setCall id { c with phase := .returned },
            .answered id (.ok ()))
      | none => some (s.setCall id { c with phase := .rereading }, .passed id)
  | .rereading =>
      let existing := s.db.existingFact c.user c.input.eventId
      some (s.setCall id { c with phase := .returned },
        .answered id (playedAnswer existing c.factId))
  | .returned => none

section Step

variable (U : UnicodeTables) (score : Time → ℚ) (sha256 : Str → Str)

/-- One step: the clock, a whole lookup or contribution, or a statement of a `played` call. -/
def factStep (s : FactServer) : FactAction → Option (FactServer × FactEvent)
  | .tick elapsed => some ({ s with now := s.now + elapsed }, .ticked)
  | .contribute input verified =>
      let p := contribute U sha256 s.db input verified s.now
      some ({ s with db := p.1 }, .contributed p.2)
  | .lookup user query => some (s, .lookedUp (lookup U score s.db user query s.now))
  | .played id user factId input =>
      match s.calls id with
      | some _ => none
      | none =>
          match checkPlayed factId input s.now with
          | .error error => some (s, .refused id error)
          | .ok () => some (s.setCall id ⟨user, factId, input, .inserting⟩, .called id)
  | .proceed id =>
      match s.calls id with
      | none => none
      | some c => proceedPlayed s id c

/-- The handlers of `dj_facts.rs` over tables that start empty. -/
def facts : Machine FactServer FactAction FactEvent where
  init := ⟨.empty, 0, fun _ => none⟩
  step := factStep U score sha256

end Step

/-- A step of a run. -/
abbrev FactRunStep := Machine.Step FactServer FactAction FactEvent

/-! ## What a step can do -/

/-- The first statement cannot insert: there is no such fact, or the event is known. -/
def FactTables.Blocks (db : FactTables) (play : FactPlay) : Prop :=
  (∀ f ∈ db.facts, f.id ≠ play.factId) ∨ ∃ p ∈ db.plays, p.key = play.key

/-- All that a step can do. -/
inductive FactEffect (s : FactServer) : FactServer → FactAction → FactEvent → Prop
  | ticked (elapsed : Nat) :
      FactEffect s { s with now := s.now + elapsed } (.tick elapsed) .ticked
  | contributed (input : Contribution) (verified : Except ApiError Str)
      (answer : Except ApiError Fact) (used : Nat) :
      FactEffect s { s with db := { s.db with nextFact := s.db.nextFact + used } }
        (.contribute input verified) (.contributed answer)
  | inserted (input : Contribution) (verified : Except ApiError Str) {row : FactRow}
      (id : row.id = s.db.nextFact)
      (fresh : ∀ f ∈ s.db.facts, f.fingerprint ≠ row.fingerprint) :
      FactEffect s
        { s with
          db := { s.db with facts := s.db.facts ++ [row], nextFact := s.db.nextFact + 1 } }
        (.contribute input verified) (.contributed (.ok row.fact))
  | lookedUp (user : UserId) (query : FactQuery) (answer : Except ApiError (Option Fact)) :
      FactEffect s s (.lookup user query) (.lookedUp answer)
  | refused (id : Nat) (user : UserId) (factId : Int) (input : Played) (error : ApiError) :
      FactEffect s s (.played id user factId input) (.refused id error)
  | called (id : Nat) (user : UserId) (factId : Int) (input : Played)
      (free : s.calls id = none) (checked : checkPlayed factId input s.now = .ok ()) :
      FactEffect s (s.setCall id ⟨user, factId, input, .inserting⟩)
        (.played id user factId input) (.called id)
  | played {id : Nat} {c : PlayedCall} (called : s.calls id = some c)
      (phase : c.phase = .inserting) (found : ∃ f ∈ s.db.facts, f.id = c.factId)
      (fresh : ∀ p ∈ s.db.plays, p.key ≠ c.play.key) :
      FactEffect s
        (FactServer.setCall { s with db := { s.db with plays := s.db.plays ++ [c.play] } } id
          { c with phase := .returned })
        (.proceed id) (.answered id (.ok ()))
  | passed {id : Nat} {c : PlayedCall} (called : s.calls id = some c)
      (phase : c.phase = .inserting) (blocked : s.db.Blocks c.play) :
      FactEffect s (s.setCall id { c with phase := .rereading }) (.proceed id) (.passed id)
  | reread {id : Nat} {c : PlayedCall} (called : s.calls id = some c)
      (phase : c.phase = .rereading) :
      FactEffect s (s.setCall id { c with phase := .returned }) (.proceed id)
        (.answered id (playedAnswer (s.db.existingFact c.user c.input.eventId) c.factId))

section Effect

variable {U : UnicodeTables} {score : Time → ℚ} {sha256 : Str → Str} {s s' : FactServer}
  {a : FactAction} {e : FactEvent}

/-- An insert adds the row, which was new and has its fact. -/
theorem insertPlay_some {db db' : FactTables} {play : FactPlay}
    (h : db.insertPlay play = some db') :
    db' = { db with plays := db.plays ++ [play] } ∧ (∃ f ∈ db.facts, f.id = play.factId) ∧
      ∀ p ∈ db.plays, p.key ≠ play.key := by
  rw [FactTables.insertPlay] at h
  split_ifs at h with hcan
  cases h
  simp only [Bool.and_eq_true, List.any_eq_true, decide_eq_true_eq, Bool.not_eq_true',
    List.any_eq_false] at hcan
  exact ⟨rfl, hcan⟩

/-- Without an insert the fact is missing or the event is known. -/
theorem insertPlay_none {db : FactTables} {play : FactPlay} (h : db.insertPlay play = none) :
    db.Blocks play := by
  rw [FactTables.insertPlay] at h
  split_ifs at h with hcan
  by_contra hopen
  apply hcan
  simpa [FactTables.Blocks] using hopen

/-- A contribution uses up a number of the sequence or adds a fact with it. -/
theorem contribute_effect (input : Contribution) (verified : Except ApiError Str) :
    FactEffect s { s with db := (contribute U sha256 s.db input verified s.now).1 }
      (.contribute input verified)
      (.contributed (contribute U sha256 s.db input verified s.now).2) := by
  have hkept (answer : Except ApiError Fact) :
      FactEffect s s (.contribute input verified) (.contributed answer) := by
    have h := @FactEffect.contributed s input verified answer 0
    simpa using h
  rw [contribute.eq_def]
  split_ifs
  · exact hkept _
  · cases verified with
    | error error => exact hkept _
    | ok sourceUrl =>
        simp only
        split_ifs
        · exact hkept _
        · cases hfound : s.db.facts.find? fun f =>
            f.fingerprint = (input.row U sha256 s.db.nextFact sourceUrl s.now).fingerprint with
          | none =>
              simp only [FactTables.insertFact, hfound]
              exact .inserted input _ rfl (by simpa using hfound)
          | some found =>
              simp only [FactTables.insertFact, hfound]
              exact .contributed input _ _ 1

/-- Each step has one of the effects. -/
theorem factStep_effect (h : factStep U score sha256 s a = some (s', e)) :
    FactEffect s s' a e := by
  cases a with
  | tick elapsed => cases h; exact .ticked elapsed
  | contribute input verified => cases h; exact contribute_effect input verified
  | lookup user query => cases h; exact .lookedUp user query _
  | played id user factId input =>
      cases hc : s.calls id with
      | some c => simp only [factStep, hc] at h; cases h
      | none =>
          cases hchecked : checkPlayed factId input s.now with
          | error error =>
              simp only [factStep, hc, hchecked] at h
              cases h
              exact .refused id user factId input error
          | ok u =>
              simp only [factStep, hc, hchecked] at h
              cases h
              exact .called id user factId input hc hchecked
  | proceed id =>
      cases hc : s.calls id with
      | none => simp only [factStep, hc] at h; cases h
      | some c =>
          simp only [factStep, hc, proceedPlayed] at h
          cases hphase : c.phase with
          | inserting =>
              cases hinsert : s.db.insertPlay c.play with
              | none =>
                  simp only [hphase, hinsert] at h
                  cases h
                  exact .passed hc hphase (insertPlay_none hinsert)
              | some db =>
                  obtain ⟨rfl, hfound, hfresh⟩ := insertPlay_some hinsert
                  simp only [hphase, hinsert] at h
                  cases h
                  exact .played hc hphase hfound hfresh
          | rereading =>
              simp only [hphase] at h
              cases h
              exact .reread hc hphase
          | returned => simp only [hphase] at h; cases h

/-! ## What holds of the tables -/

/-- The constraints of the schema, and what the sequence has given out. -/
structure FactTables.WellFormed (db : FactTables) : Prop where
  ids : (db.facts.map FactRow.id).Nodup
  drawn : ∀ f ∈ db.facts, 0 < f.id ∧ f.id < db.nextFact
  next : 0 < db.nextFact
  keys : (db.plays.map FactPlay.key).Nodup
  /-- `REFERENCES dj_facts(id)`. -/
  known : ∀ p ∈ db.plays, ∃ f ∈ db.facts, f.id = p.factId

theorem wellFormed_empty : FactTables.empty.WellFormed where
  ids := List.nodup_nil
  drawn := nofun
  next := by decide
  keys := List.nodup_nil
  known := nofun

/-- The sequence moves on. -/
theorem FactTables.WellFormed.used {db : FactTables} (hw : db.WellFormed) (n : Nat) :
    FactTables.WellFormed { db with nextFact := db.nextFact + n } :=
  { hw with
    drawn := fun f hf => ⟨(hw.drawn f hf).1, by have := (hw.drawn f hf).2; simp only; omega⟩
    next := by have := hw.next; simp only; omega }

theorem FactTables.WellFormed.insertFact {db : FactTables} (hw : db.WellFormed) {row : FactRow}
    (hid : row.id = db.nextFact) :
    FactTables.WellFormed
      { db with facts := db.facts ++ [row], nextFact := db.nextFact + 1 } where
  ids := by
    apply Table.nodup_append hw.ids
    intro f hf
    have := (hw.drawn f hf).2
    omega
  drawn := by
    intro f hf
    have := hw.next
    simp only
    rcases List.mem_append.1 hf with hf | hf
    · have := hw.drawn f hf
      omega
    · rw [List.mem_singleton.1 hf]
      omega
  next := by have := hw.next; simp only; omega
  keys := hw.keys
  known := by
    intro p hp
    obtain ⟨f, hf, hid⟩ := hw.known p hp
    exact ⟨f, List.mem_append_left _ hf, hid⟩

theorem FactTables.WellFormed.insertPlay {db : FactTables} (hw : db.WellFormed) {play : FactPlay}
    (hfound : ∃ f ∈ db.facts, f.id = play.factId) (hfresh : ∀ p ∈ db.plays, p.key ≠ play.key) :
    FactTables.WellFormed { db with plays := db.plays ++ [play] } :=
  { hw with
    keys := Table.nodup_append hw.keys hfresh
    known := by
      intro p hp
      rcases List.mem_append.1 hp with hp | hp
      · exact hw.known p hp
      · rw [List.mem_singleton.1 hp]
        exact hfound }

/-- Each effect keeps the tables well formed. -/
theorem FactEffect.wellFormed (he : FactEffect s s' a e) (hw : s.db.WellFormed) :
    s'.db.WellFormed := by
  cases he with
  | contributed input verified answer used => exact hw.used used
  | inserted input verified id fresh => exact hw.insertFact id
  | played called phase found fresh => exact hw.insertPlay found fresh
  | ticked | lookedUp | refused | called | passed | reread => exact hw

/-- No step removes or changes a row. -/
theorem FactEffect.grows (he : FactEffect s s' a e) :
    s.db.facts <+: s'.db.facts ∧ s.db.plays <+: s'.db.plays := by
  cases he with
  | inserted input verified id fresh => exact ⟨List.prefix_append _ _, List.prefix_rfl⟩
  | played called phase found fresh => exact ⟨List.prefix_rfl, List.prefix_append _ _⟩
  | ticked | contributed | lookedUp | refused | called | passed | reread =>
      exact ⟨List.prefix_rfl, List.prefix_rfl⟩

end Effect

/-! ## Runs -/

section Runs

variable {U : UnicodeTables} {score : Time → ℚ} {sha256 : Str → Str} {s : FactServer}
  {l : List FactRunStep}

theorem trace_wellFormed (ht : (facts U score sha256).Trace l s) : s.db.WellFormed := by
  refine ht.invariant (I := fun _ s => s.db.WellFormed) wellFormed_empty ?_
  intro _ _ _ _ _ _ ih hs
  exact (factStep_effect hs).wellFormed ih

/-- What stood in the tables before a step, stands in all tables after it. -/
theorem trace_grows (ht : (facts U score sha256).Trace l s) : ∀ st ∈ l,
    (st.before.db.facts <+: st.after.db.facts ∧ st.before.db.plays <+: st.after.db.plays) ∧
      st.after.db.facts <+: s.db.facts ∧ st.after.db.plays <+: s.db.plays := by
  refine ht.grows (R := fun s s' : FactServer =>
    s.db.facts <+: s'.db.facts ∧ s.db.plays <+: s'.db.plays) ?_ ?_ ?_
  · exact fun _ => ⟨List.prefix_rfl, List.prefix_rfl⟩
  · exact fun _ _ _ h h' => ⟨h.1.trans h'.1, h.2.trans h'.2⟩
  · exact fun _ _ _ _ hs => (factStep_effect hs).grows

/-- Plays are added at the end and never removed. -/
theorem trace_plays (ht : (facts U score sha256).Trace l s) : ∀ st ∈ l,
    st.before.db.plays <+: st.after.db.plays ∧ st.after.db.plays <+: s.db.plays := fun st hst =>
  ⟨(trace_grows ht st hst).1.2, (trace_grows ht st hst).2.2⟩

/-- The statements of a request have left the tables as they were. -/
def Silent (id : Nat) (l : List FactRunStep) : Prop :=
  ∀ st ∈ l, st.action = .proceed id → st.after.db = st.before.db

/-- A request that has been answered has returned; one that has not, or that was answered an error,
has written nothing. -/
structure Settled (l : List FactRunStep) (s : FactServer) (id : Nat) : Prop where
  returned : ∀ st ∈ l, ∀ answer, st.event = .answered id answer →
    ∃ c, s.calls id = some c ∧ c.phase = .returned
  pending : (∀ c, s.calls id = some c → c.phase ≠ .returned) → Silent id l
  refused : ∀ st ∈ l, ∀ error, st.event = .answered id (.error error) → Silent id l

/-- A step of another call adds nothing to the call's statements. -/
theorem Silent.cons_other {st : FactRunStep} {id : Nat} (h : Silent id l)
    (hne : st.action ≠ .proceed id) : Silent id (st :: l) := by
  intro st' hst' hid
  rcases List.mem_cons.1 hst' with rfl | hst'
  · exact absurd hid hne
  · exact h st' hst' hid

theorem Silent.cons_same {st : FactRunStep} {id : Nat} (h : Silent id l)
    (hsame : st.after.db = st.before.db) : Silent id (st :: l) := by
  intro st' hst' hid
  rcases List.mem_cons.1 hst' with rfl | hst'
  · exact hsame
  · exact h st' hst' hid

section Steps

variable {s' : FactServer} {a : FactAction} {e : FactEvent} {id : Nat}

theorem setCall_self (c : PlayedCall) : (s.setCall id c).calls id = some c :=
  Function.update_self ..

theorem setCall_other {i : Nat} (h : i ≠ id) (c : PlayedCall) :
    (s.setCall id c).calls i = s.calls i := Function.update_of_ne h ..

/-- What a step that is not a statement of a request can do to it: the request arrives. -/
theorem FactEffect.calls_other (he : FactEffect s s' a e) (hne : a ≠ .proceed id) :
    (∀ answer, e ≠ .answered id answer) ∧
      (s'.calls id = s.calls id ∨
        s.calls id = none ∧ ∃ c, s'.calls id = some c ∧ c.phase = .inserting) := by
  have hid {i : Nat} (h : FactAction.proceed i ≠ .proceed id) : id ≠ i := fun hi => h (by rw [hi])
  cases he with
  | called i user factId input free checked =>
      refine ⟨fun _ h => (by cases h), ?_⟩
      by_cases hi : id = i
      · subst hi
        exact Or.inr ⟨free, _, setCall_self _, rfl⟩
      · exact Or.inl (setCall_other hi _)
  | ticked | contributed | inserted | lookedUp | refused =>
      exact ⟨fun _ h => (by cases h), Or.inl rfl⟩
  | @passed i c called phase blocked =>
      exact ⟨fun _ h => (by cases h), Or.inl (setCall_other (hid hne) _)⟩
  | @played i c called phase found fresh =>
      exact ⟨fun _ h => (by cases h; exact hne rfl), Or.inl (setCall_other (hid hne) _)⟩
  | @reread i c called phase =>
      exact ⟨fun _ h => (by cases h; exact hne rfl), Or.inl (setCall_other (hid hne) _)⟩

/-- Another step leaves what is settled about a call. -/
theorem Settled.other (hs : Settled l s id) (he : FactEffect s s' a e) (hne : a ≠ .proceed id) :
    Settled (⟨s, a, e, s'⟩ :: l) s' id := by
  obtain ⟨hevent, hcalls⟩ := he.calls_other hne
  have hkept : ∀ c, s.calls id = some c → s'.calls id = some c := by
    intro c hc
    rcases hcalls with hsame | ⟨hnone, -⟩
    · rw [hsame, hc]
    · rw [hnone] at hc
      cases hc
  constructor
  · intro st hst answer hans
    rcases List.mem_cons.1 hst with rfl | hst
    · exact absurd hans (hevent answer)
    · obtain ⟨c, hc, hphase⟩ := hs.returned st hst answer hans
      exact ⟨c, hkept c hc, hphase⟩
  · intro hpending
    exact (hs.pending fun c hc => hpending c (hkept c hc)).cons_other hne
  · intro st hst error hans
    rcases List.mem_cons.1 hst with rfl | hst
    · exact absurd hans (hevent _)
    · exact (hs.refused st hst error hans).cons_other hne

/-- A step of the call settles its next phase. -/
theorem Settled.own (hs : Settled l s id) (he : FactEffect s s' (.proceed id) e) :
    Settled (⟨s, .proceed id, e, s'⟩ :: l) s' id := by
  -- the request had not returned, so it has written nothing and no answer stands in the past
  have hopen {c : PlayedCall} (hc : s.calls id = some c) (hphase : c.phase ≠ .returned) :
      Silent id l ∧ ∀ st ∈ l, ∀ answer, st.event ≠ .answered id answer := by
    constructor
    · apply hs.pending
      intro c' hc'
      rw [hc] at hc'
      cases hc'
      exact hphase
    · intro st hst answer hans
      obtain ⟨c', hc', hphase'⟩ := hs.returned st hst answer hans
      rw [hc] at hc'
      cases hc'
      exact hphase hphase'
  cases he with
  | @played _ c called phase found fresh =>
      obtain ⟨hsilent, hnone⟩ := hopen called (by rw [phase]; decide)
      refine ⟨fun _ _ _ _ => ⟨_, setCall_self _, rfl⟩, ?_, ?_⟩
      · exact fun hpending => absurd rfl (hpending _ (setCall_self _))
      · intro st hst error hans
        rcases List.mem_cons.1 hst with rfl | hst
        · cases hans
        · exact absurd hans (hnone st hst _)
  | @passed _ c called phase blocked =>
      obtain ⟨hsilent, hnone⟩ := hopen called (by rw [phase]; decide)
      refine ⟨?_, fun _ => hsilent.cons_same rfl, fun _ _ _ _ => hsilent.cons_same rfl⟩
      intro st hst answer hans
      rcases List.mem_cons.1 hst with rfl | hst
      · cases hans
      · exact absurd hans (hnone st hst _)
  | @reread _ c called phase =>
      obtain ⟨hsilent, hnone⟩ := hopen called (by rw [phase]; decide)
      exact ⟨fun _ _ _ _ => ⟨_, setCall_self _, rfl⟩, fun _ => hsilent.cons_same rfl,
        fun _ _ _ _ => hsilent.cons_same rfl⟩

end Steps

/-- So in every run. -/
theorem trace_settled (ht : (facts U score sha256).Trace l s) (id : Nat) : Settled l s id := by
  refine ht.invariant (I := fun l s => Settled l s id) ?_ ?_
  · exact ⟨fun _ hst => absurd hst List.not_mem_nil, fun _ _ hst => absurd hst List.not_mem_nil,
      fun _ hst => absurd hst List.not_mem_nil⟩
  · intro l s a s' e _ ih hs
    have he := factStep_effect hs
    by_cases hid : a = .proceed id
    · subst hid
      exact ih.own he
    · exact ih.other he hid

/-! ## Exactly once -/

/-- The row of a play event. -/
def FactTables.Recorded (db : FactTables) (user : UserId) (eventId : Str) (factId : Int) : Prop :=
  ∃ p ∈ db.plays, p.key = (user, eventId) ∧ p.factId = factId

/-- The second statement finds the recorded event. -/
theorem existingFact_eq_some_iff {db : FactTables} (hw : db.WellFormed) {user : UserId}
    {eventId : Str} {factId : Int} :
    db.existingFact user eventId = some factId ↔ db.Recorded user eventId factId := by
  rw [FactTables.existingFact, Option.map_eq_some_iff]
  constructor
  · rintro ⟨p, hp, hfact⟩
    obtain ⟨hmem, hkey⟩ := Table.row?_spec hp
    exact ⟨p, hmem, hkey, hfact⟩
  · rintro ⟨p, hmem, hkey, hfact⟩
    refine ⟨p, ?_, hfact⟩
    rw [← hkey]
    exact Table.row?_of_mem hw.keys hmem

/-- One event records one fact. -/
theorem FactTables.Recorded.unique {db : FactTables} (hw : db.WellFormed) {user : UserId}
    {eventId : Str} {f g : Int} (hf : db.Recorded user eventId f)
    (hg : db.Recorded user eventId g) : f = g := by
  have h := (existingFact_eq_some_iff hw).2 hf
  rw [(existingFact_eq_some_iff hw).2 hg] at h
  exact (Option.some.inj h).symm

/-- The answer to a request for a fact that is missing, or whose event is known for another. -/
def notRecorded : Except ApiError Unit :=
  .error (ApiError.notFound "fact not found or event ID used for another fact")

theorem notRecorded_ne : notRecorded ≠ .ok () := by simp [notRecorded]

theorem playedAnswer_eq (existing : Option Int) (factId : Int) :
    playedAnswer existing factId = if existing = some factId then .ok () else notRecorded := by
  rw [playedAnswer, ite_not]
  rfl

/-- An answer says what stands in the table. -/
theorem answered_iff {s' : FactServer} {a : FactAction} {id : Nat} {answer : Except ApiError Unit}
    {c : PlayedCall} (hw : s.db.WellFormed) (he : FactEffect s s' a (.answered id answer))
    (hc : s.calls id = some c) :
    (answer = .ok () ↔ s'.db.Recorded c.user c.input.eventId c.factId) ∧
      (answer = .ok () ∨ answer = notRecorded) := by
  cases he with
  | played called phase found fresh =>
      rw [hc] at called
      cases called
      refine ⟨iff_of_true rfl ?_, Or.inl rfl⟩
      exact ⟨c.play, List.mem_append_right _ (List.mem_singleton_self _), rfl, rfl⟩
  | reread called phase =>
      rw [hc] at called
      cases called
      have hiff := @existingFact_eq_some_iff s.db hw c.user c.input.eventId c.factId
      simp only [FactServer.setCall, playedAnswer_eq, ← hiff]
      split_ifs with hknown
      · exact ⟨iff_of_true rfl hknown, Or.inl rfl⟩
      · exact ⟨iff_of_false notRecorded_ne hknown, Or.inr rfl⟩

/-- What is recorded stays recorded. -/
theorem FactTables.Recorded.mono {db db' : FactTables} (hplays : db.plays <+: db'.plays)
    {user : UserId} {eventId : Str} {factId : Int} (h : db.Recorded user eventId factId) :
    db'.Recorded user eventId factId := by
  obtain ⟨p, hp, hrow⟩ := h
  exact ⟨p, hplays.subset hp, hrow⟩

/-- An answer says whether the row of the event names the fact, and its statement adds no fact. -/
theorem trace_answered (ht : (facts U score sha256).Trace l s) {st : FactRunStep} (hst : st ∈ l)
    {id : Nat} {answer : Except ApiError Unit} {c : PlayedCall}
    (hans : st.event = .answered id answer) (hc : st.before.calls id = some c) :
    ((answer = .ok () ↔ st.after.db.Recorded c.user c.input.eventId c.factId) ∧
      (answer = .ok () ∨ answer = notRecorded)) ∧
    st.after.db.WellFormed ∧ st.before.db.facts = st.after.db.facts := by
  obtain ⟨earlier, hearlier, hstep⟩ := ht.mem st hst
  have hbefore := trace_wellFormed hearlier
  have he := factStep_effect hstep
  have hafter := he.wellFormed hbefore
  rw [hans] at he
  refine ⟨answered_iff hbefore he hc, hafter, ?_⟩
  generalize st.after = after at he
  generalize st.action = a at he
  cases he with
  | played | reread => rfl

/-- A request for a fact that is there, with an event that was not used, is answered 204 by its
first statement, which writes the row. -/
theorem proceed_unused {id : Nat} {c : PlayedCall} (hc : s.calls id = some c)
    (hphase : c.phase = .inserting) (hfound : ∃ f ∈ s.db.facts, f.id = c.factId)
    (hfresh : ∀ p ∈ s.db.plays, p.key ≠ c.play.key) :
    ∃ s', factStep U score sha256 s (.proceed id) = some (s', .answered id (.ok ())) ∧
      s'.db.plays = s.db.plays ++ [c.play] := by
  cases hinsert : s.db.insertPlay c.play with
  | none =>
      rcases insertPlay_none hinsert with hmissing | ⟨p, hp, hkey⟩
      · obtain ⟨f, hf, hid⟩ := hfound
        exact absurd hid (hmissing f hf)
      · exact absurd hkey (hfresh p hp)
  | some db =>
      obtain ⟨rfl, -, -⟩ := insertPlay_some hinsert
      simp only [factStep, hc, proceedPlayed, hphase, hinsert]
      exact ⟨_, rfl, rfl⟩

/-- **Play events are recorded exactly once.** In every run of the statements of any number of
requests: an event has at most one row, which stays as it was written; a request is answered 204
exactly when the row of its event names its fact after its last statement, and from then on it
does, so all 204 answers for an event name one fact; any other answer is 404, and its request has
written nothing; a request for a missing fact, or with the event of another fact, is answered
404. -/
theorem plays_exactly_once (ht : (facts U score sha256).Trace l s) :
    (s.db.plays.map FactPlay.key).Nodup ∧
    (∀ st ∈ l, ∀ p ∈ st.before.db.plays, p ∈ s.db.plays) ∧
    (∀ st ∈ l, ∀ id answer c, st.event = .answered id answer → st.before.calls id = some c →
      (answer = .ok () ↔ st.after.db.Recorded c.user c.input.eventId c.factId) ∧
      (answer = .ok () → s.db.Recorded c.user c.input.eventId c.factId) ∧
      (answer ≠ .ok () → answer = notRecorded ∧
        ∀ st' ∈ l, st'.action = .proceed id → st'.after.db = st'.before.db) ∧
      ((∀ f ∈ st.before.db.facts, f.id ≠ c.factId) ∨
          (∃ g, st.before.db.Recorded c.user c.input.eventId g ∧ g ≠ c.factId) →
        answer = notRecorded)) ∧
    ∀ st ∈ l, ∀ st' ∈ l, ∀ id id' c c', st.event = .answered id (.ok ()) →
      st'.event = .answered id' (.ok ()) → st.before.calls id = some c →
      st'.before.calls id' = some c' → c.play.key = c'.play.key → c.factId = c'.factId := by
  have hw := trace_wellFormed ht
  refine ⟨hw.keys, ?_, ?_, ?_⟩
  · intro st hst p hp
    obtain ⟨hstep, hlater⟩ := trace_plays ht st hst
    exact hlater.subset (hstep.subset hp)
  · intro st hst id answer c hans hc
    obtain ⟨⟨hiff, hcases⟩, hafter, hfacts⟩ := trace_answered ht hst hans hc
    refine ⟨hiff, fun hok => ?_, fun hne => ?_, fun hmissing => ?_⟩
    · exact (hiff.1 hok).mono (trace_plays ht st hst).2
    · have hans' := hcases.resolve_left hne
      exact ⟨hans', (trace_settled ht id).refused st hst _ (by rw [hans, hans']; rfl)⟩
    · apply hcases.resolve_left
      intro hok
      obtain ⟨p, hp, hkey, hfact⟩ := hiff.1 hok
      rcases hmissing with hmissing | ⟨g, hg, hne⟩
      · obtain ⟨f, hf, hid⟩ := hafter.known p hp
        exact hmissing f (hfacts ▸ hf) (hid.trans hfact)
      · have hlater := hg.mono (trace_plays ht st hst).1
        exact hne (hlater.unique hafter ⟨p, hp, hkey, hfact⟩)
  · intro st hst st' hst' id id' c c' hans hans' hc hc' hkey
    obtain ⟨⟨hiff, -⟩, -⟩ := trace_answered ht hst hans hc
    obtain ⟨⟨hiff', -⟩, -⟩ := trace_answered ht hst' hans' hc'
    have h := (hiff.1 rfl).mono (trace_plays ht st hst).2
    have h' := (hiff'.1 rfl).mono (trace_plays ht st' hst').2
    obtain ⟨hu, hevent⟩ := Prod.mk.inj hkey
    simp only [PlayedCall.play] at hu hevent
    rw [hu, hevent] at h
    exact h.unique hw h'

end Runs

def creepClaim (sourceId : Str) : Contribution where
  song := "creep".toList
  artist := "radiohead".toList
  claim := "a".toList
  source := "wikipedia".toList
  sourceId := sourceId
  sourceUrl := "https://en.wikipedia.org/wiki/".toList ++ sourceId
  evidence := "b".toList

/-- The hashes of two contributions. -/
def creepHash (text : Str) : Str :=
  if text = (creepClaim "1".toList).normalized asciiTables then
    "14be0eb97f186aa2059cb425eb5c5dd328614157cdee0f10c6616a5212b4d0cf".toList
  else "dd7467d0b68ad62383093a5305296252c10567adb2ff02e389fdbc12e22ceaa2".toList

/-- A contribution that was verified. -/
def contributeCreep (sourceId : Str) : FactAction :=
  .contribute (creepClaim sourceId) (.ok (creepClaim sourceId).sourceUrl)

def playedEvent : Played := ⟨"12345678-1234-1234-1234-123456789abc".toList, 0⟩

/-- Two requests use one event id for two facts; the second one's insert comes too late. -/
def racingPlays : List FactAction :=
  [contributeCreep "1".toList, contributeCreep "2".toList, .played 0 7 1 playedEvent,
    .played 1 7 2 playedEvent, .proceed 0, .proceed 1, .proceed 1]

/-- The number of a `played` request with the status of its answer. -/
def FactEvent.status? : FactEvent → Option (Nat × Nat)
  | .answered id (.ok ()) => some (id, 204)
  | .answered id (.error e) => some (id, e.status)
  | _ => none

/-- The first is answered 204 and has its row, the second is answered 404. -/
theorem plays_exactly_once_race :
    let run := (facts asciiTables (fun _ => 0) creepHash).trace
      ([], (facts asciiTables (fun _ => 0) creepHash).init) racingPlays
    run.1.filterMap (fun st => st.event.status?) = [(1, 404), (0, 204)] ∧
      run.2.db.plays = [⟨7, playedEvent.eventId, 1, 0⟩] ∧
      (run.2.db.plays.map FactPlay.key).Nodup ∧
      ∀ st ∈ run.1, ∀ p ∈ st.before.db.plays, p ∈ run.2.db.plays :=
  ⟨by decide +kernel, by decide +kernel, (plays_exactly_once (Machine.trace_exec racingPlays)).1,
    (plays_exactly_once (Machine.trace_exec racingPlays)).2.1⟩

end AnyPlayerSync.Facts
