import AnyPlayerSync.Facts.FactSources
import AnyPlayerSync.Facts.Plays
import AnyPlayerSync.Foundation.Collapse

/-!
# Contributions

What is hashed to a fingerprint is six texts joined by newlines. The texts of a contribution that
was accepted have no newline (`Verified.plain`), so the join is known by its texts (`text_inj`).

Over runs of any number of contributions, the table has one row for each tuple of the six texts: the
row of the first contribution of the tuple (`contributions_deduplicated`).
-/

set_option autoImplicit false

namespace AnyPlayerSync.Facts

open AnyPlayerSync.Foundation
open AnyPlayerSync.Foundation.Text
open AnyPlayerSync.Sync (ApiError Time)

/-! ## What is hashed -/

/-- The texts that identify a fact: the source and its id, and the song, the artist, the claim and
the evidence under `identity_key`. -/
structure FactIdentity where
  source : Str
  sourceId : Str
  song : Str
  artist : Str
  claim : Str
  evidence : Str
  deriving DecidableEq

namespace FactIdentity

/-- The six values that are hashed, in the order of the source. -/
def texts (k : FactIdentity) : List Str :=
  [k.source, k.sourceId, k.song, k.artist, k.claim, k.evidence]

/-- The text that is hashed. -/
def text (k : FactIdentity) : Str := join "\n".toList k.texts

/-- No text has a newline. -/
def Plain (k : FactIdentity) : Prop := ∀ t ∈ k.texts, '\n' ∉ t

theorem texts_inj {k k' : FactIdentity} (h : k.texts = k'.texts) : k = k' := by
  obtain ⟨⟩ := k
  obtain ⟨⟩ := k'
  simpa [texts] using h

/-- Texts without newlines are known by their join. -/
theorem text_inj {k k' : FactIdentity} (hk : k.Plain) (hk' : k'.Plain) :
    k.text = k'.text ↔ k = k' := by
  constructor
  · intro h
    apply texts_inj
    have hsplit : ∀ k : FactIdentity, k.Plain → k.text.splitOn '\n' = k.texts := fun k hk =>
      List.splitOn_intercalate '\n' hk (List.cons_ne_nil _ _)
    rw [← hsplit k hk, ← hsplit k' hk', h]
  · exact congrArg text

end FactIdentity

section Identity

variable (U : UnicodeTables)

/-- The identity of the fact that a contribution states. -/
def Contribution.identity (input : Contribution) : FactIdentity :=
  ⟨input.source, input.sourceId, Keys.identityKey U input.song, Keys.identityKey U input.artist,
    Keys.identityKey U input.claim, Keys.identityKey U input.evidence⟩

/-- The identity of a stored fact. -/
def FactRow.identity (r : FactRow) : FactIdentity :=
  ⟨r.source, r.sourceId, Keys.identityKey U r.song, Keys.identityKey U r.artist,
    Keys.identityKey U r.claim, Keys.identityKey U r.evidence⟩

theorem normalized_eq (input : Contribution) : input.normalized U = (input.identity U).text := rfl

/-- The contribution passes the checks of its fields and its source supports it. -/
structure Contribution.Verified (input : Contribution) : Prop where
  song : bounded input.song 200 = true
  artist : bounded input.artist 200 = true
  claim : bounded input.claim 500 = true
  evidence : bounded input.evidence 1000 = true
  sourceId : bounded input.sourceId 160 = true
  sourceUrl : bounded input.sourceUrl 300 = true
  supported : ∃ fetch, FactSources.verify U fetch input.source input.sourceId input.song
    input.artist input.evidence input.claim = .ok input.sourceUrl

variable {U}

theorem not_newline_of_bounded {value : Str} {max : Nat} (h : bounded value max = true) :
    '\n' ∉ value := by
  intro hmem
  rw [bounded, Bool.and_eq_true, Bool.not_eq_true', List.any_eq_false] at h
  exact h.2 '\n' hmem (by decide)

theorem mem_join {c : Char} {sep : Str} {parts : List Str} (h : c ∈ join sep parts) :
    c ∈ sep ∨ ∃ p ∈ parts, c ∈ p := by
  induction parts with
  | nil => cases h
  | cons p parts ih =>
      by_cases hnil : parts = []
      · rw [hnil, join_singleton] at h
        exact Or.inr ⟨p, List.mem_cons_self, h⟩
      · rw [join_cons sep p hnil, List.mem_append, List.mem_append] at h
        rcases h with h | h | h
        · exact Or.inr ⟨p, List.mem_cons_self, h⟩
        · exact Or.inl h
        · exact (ih h).imp_right fun ⟨q, hq, hc⟩ => ⟨q, List.mem_cons_of_mem p hq, hc⟩

/-- The only white space of an identity key is the space. -/
theorem not_newline_identityKey (value : Str) : '\n' ∉ Keys.identityKey U value := by
  intro h
  rw [Keys.identityKey, toLowercase_join] at h
  rcases mem_join h with h | ⟨p, hp, hc⟩
  · revert h
    decide
  · obtain ⟨w, hw, rfl⟩ := List.mem_map.1 hp
    have hsolid := toLowercase_solid U (isWord_of_mem_splitWhitespace hw).2 '\n' hc
    revert hsolid
    decide

theorem Contribution.Verified.plain {input : Contribution} (h : input.Verified U) :
    (input.identity U).Plain := by
  obtain ⟨fetch, hverify⟩ := h.supported
  have hsource := FactSources.canonical_mem (FactSources.canonical_of_verify hverify)
  have hnewline : ∀ source ∈ FactSources.acceptedSources, '\n' ∉ source := by decide
  intro t ht
  simp only [FactIdentity.texts, Contribution.identity, List.mem_cons, List.not_mem_nil,
    or_false] at ht
  rcases ht with rfl | rfl | rfl | rfl | rfl | rfl
  · exact hnewline _ hsource
  · exact not_newline_of_bounded h.sourceId
  all_goals exact not_newline_identityKey _

/-- **The join is injective** on contributions that pass the checks. -/
theorem normalized_inj {input input' : Contribution} (h : input.Verified U)
    (h' : input'.Verified U) :
    input.normalized U = input'.normalized U ↔ input.identity U = input'.identity U := by
  rw [normalized_eq, normalized_eq, FactIdentity.text_inj h.plain h'.plain]

end Identity

/-! ## One contribution -/

section Step

variable {U : UnicodeTables} {score : Time → ℚ} {sha256 : Str → Str}

/-- What an accepted contribution does to the rows, and the fact that it is answered with. -/
inductive Inserts (U : UnicodeTables) (sha256 : Str → Str) (rows : List FactRow)
    (input : Contribution) : List FactRow → Fact → Prop
  | known {r : FactRow} (mem : r ∈ rows) (same : r.fingerprint = sha256 (input.normalized U)) :
      Inserts U sha256 rows input rows r.fact
  | new (id : Int) (now : Time)
      (fresh : ∀ r ∈ rows, r.fingerprint ≠ sha256 (input.normalized U)) :
      Inserts U sha256 rows input (rows ++ [input.row U sha256 id input.sourceUrl now])
        (input.row U sha256 id input.sourceUrl now).fact

/-- The fields that `contribute` checks. -/
def Contribution.fieldsBounded (input : Contribution) : Bool :=
  bounded input.song 200 && bounded input.artist 200 && bounded input.claim 500 &&
    bounded input.evidence 1000 && bounded input.sourceId 160 && bounded input.sourceUrl 300

theorem insertFact_inserts (db : FactTables) (input : Contribution) (id : Int) (now : Time) :
    Inserts U sha256 db.facts input
      (db.insertFact (input.row U sha256 id input.sourceUrl now)).1.facts
      (db.insertFact (input.row U sha256 id input.sourceUrl now)).2.fact := by
  rw [FactTables.insertFact]
  cases hfound : db.facts.find? fun f =>
      f.fingerprint = (input.row U sha256 id input.sourceUrl now).fingerprint with
  | some found =>
      have hsame := List.find?_some hfound
      exact .known (List.mem_of_find?_eq_some hfound) (of_decide_eq_true hsame)
  | none =>
      apply Inserts.new id now
      intro r hr
      have hne := List.find?_eq_none.1 hfound r hr
      exact fun hsame => hne (decide_eq_true hsame)

/-- A contribution is accepted when its fields pass and `verify` answers its URL. -/
theorem contribute_cases (db : FactTables) (input : Contribution)
    (verified : Except ApiError Str) (now : Time) :
    (input.fieldsBounded = true ∧ verified = .ok input.sourceUrl ∧
      ∃ fact, (contribute U sha256 db input verified now).2 = .ok fact ∧
        Inserts U sha256 db.facts input (contribute U sha256 db input verified now).1.facts fact) ∨
    (contribute U sha256 db input verified now).1 = db ∧
      ∃ error, (contribute U sha256 db input verified now).2 = .error error := by
  rw [contribute.eq_def]
  split_ifs with hfields
  · exact Or.inr ⟨rfl, _, rfl⟩
  · cases verified with
    | error error => exact Or.inr ⟨rfl, _, rfl⟩
    | ok sourceUrl =>
        dsimp only
        split_ifs with hurl
        · exact Or.inr ⟨rfl, _, rfl⟩
        · rw [not_not] at hurl
          subst hurl
          refine Or.inl ⟨?_, rfl, _, rfl, insertFact_inserts db input db.nextFact now⟩
          simpa [Contribution.fieldsBounded, Bool.not_or] using hfields

/-- The step is a contribution that was accepted. -/
def Accepted (st : FactRunStep) (input : Contribution) (fact : Fact) : Prop :=
  ∃ verified, st.action = .contribute input verified ∧ st.event = .contributed (.ok fact)

/-- What `verify` answered is what it answers to the fields of the contribution. -/
def Checked (U : UnicodeTables) (st : FactRunStep) : Prop :=
  ∀ input verified, st.action = .contribute input verified →
    ∃ fetch, verified = FactSources.verify U fetch input.source input.sourceId input.song
      input.artist input.evidence input.claim

variable {s s' : FactServer} {a : FactAction} {e : FactEvent}

/-- A step either accepts a contribution or leaves the rows as they are. -/
theorem factStep_facts (h : factStep U score sha256 s a = some (s', e)) :
    (∃ input fact, Accepted ⟨s, a, e, s'⟩ input fact ∧
      Inserts U sha256 s.db.facts input s'.db.facts fact) ∨
    (s'.db.facts = s.db.facts ∧ ∀ input fact, ¬ Accepted ⟨s, a, e, s'⟩ input fact) := by
  have hother : (∀ input verified, a ≠ .contribute input verified) →
      s'.db.facts = s.db.facts ∧ ∀ input fact, ¬ Accepted ⟨s, a, e, s'⟩ input fact := by
    intro hne
    refine ⟨?_, fun input fact haccepted => ?_⟩
    swap
    · obtain ⟨verified, haction, -⟩ := haccepted
      exact hne input verified haction
    cases factStep_effect h with
    | contributed input verified => exact absurd rfl (hne input verified)
    | inserted input verified => exact absurd rfl (hne input verified)
    | ticked | lookedUp | refused | called | played | passed | reread => rfl
  cases a with
  | contribute input verified =>
      cases h
      rcases contribute_cases s.db input verified s.now with
        ⟨-, -, fact, hok, hinserts⟩ | ⟨hsame, error, herror⟩
      · exact Or.inl ⟨input, fact, ⟨verified, rfl, congrArg FactEvent.contributed hok⟩, hinserts⟩
      · refine Or.inr ⟨congrArg FactTables.facts hsame, fun input fact ⟨_, _, hevent⟩ => ?_⟩
        dsimp only at hevent
        rw [herror] at hevent
        cases hevent
  | tick | lookup | played | proceed =>
      exact Or.inr (hother fun _ _ hne => by cases hne)

theorem Accepted.verified {st : FactRunStep} {input : Contribution} {fact : Fact}
    (hst : factStep U score sha256 st.before st.action = some (st.after, st.event))
    (hchecked : Checked U st) (h : Accepted st input fact) : input.Verified U := by
  obtain ⟨verified, haction, hevent⟩ := h
  obtain ⟨fetch, hverify⟩ := hchecked input verified haction
  rw [haction, hevent] at hst
  have hanswer := congrArg Prod.snd (Option.some.inj hst)
  rcases @contribute_cases U sha256 st.before.db input verified st.before.now with
    ⟨hfields, hok, -⟩ | ⟨-, error, herror⟩
  · simp only [Contribution.fieldsBounded, Bool.and_eq_true] at hfields
    obtain ⟨⟨⟨⟨⟨hsong, hartist⟩, hclaim⟩, hevidence⟩, hid⟩, hurl⟩ := hfields
    exact ⟨hsong, hartist, hclaim, hevidence, hid, hurl, fetch, by rw [← hverify, hok]⟩
  · have hsame := FactEvent.contributed.inj hanswer
    rw [herror] at hsame
    cases hsame

end Step

/-! ## Runs -/

section Runs

variable (U : UnicodeTables) (sha256 : Str → Str)

/-- No two texts that were hashed for accepted contributions have one hash. -/
def NoCollision (l : List FactRunStep) : Prop :=
  ∀ st ∈ l, ∀ st' ∈ l, ∀ input fact input' fact', Accepted st input fact →
    Accepted st' input' fact' → sha256 (input.normalized U) = sha256 (input'.normalized U) →
    input.normalized U = input'.normalized U

/-- Each tuple that was contributed has one row. -/
structure Deduplicated (l : List FactRunStep) (s : FactServer) : Prop where
  distinct : (s.db.facts.map (FactRow.identity U)).Nodup
  /-- A row is as the first contribution of its tuple inserted it. -/
  first : ∀ r ∈ s.db.facts, ∃ later st earlier input fact, l = later ++ st :: earlier ∧
    Accepted st input fact ∧ (∃ id now, r = input.row U sha256 id input.sourceUrl now) ∧
    ∀ st' ∈ earlier, ∀ input' fact', Accepted st' input' fact' →
      input'.identity U ≠ input.identity U
  /-- A row that was there is still there. -/
  kept : ∀ st ∈ l, (∀ r ∈ st.before.db.facts, r ∈ s.db.facts) ∧
    ∀ r ∈ st.after.db.facts, r ∈ s.db.facts
  answers : ∀ st ∈ l, ∀ input fact, Accepted st input fact →
    ∃ r ∈ st.after.db.facts, r.fact = fact ∧ r.identity U = input.identity U

variable {U sha256} {score : Time → ℚ} {l : List FactRunStep} {s s' : FactServer}
  {a : FactAction} {e : FactEvent}

theorem NoCollision.tail {st : FactRunStep} (h : NoCollision U sha256 (st :: l)) :
    NoCollision U sha256 l := fun st₁ h₁ st₂ h₂ =>
  h st₁ (List.mem_cons_of_mem st h₁) st₂ (List.mem_cons_of_mem st h₂)

theorem row_identity (input : Contribution) (id : Int) (url : Str) (now : Time) :
    (input.row U sha256 id url now).identity U = input.identity U := rfl

theorem Deduplicated.fingerprint (h : Deduplicated U sha256 l s) {r : FactRow}
    (hr : r ∈ s.db.facts) : r.fingerprint = sha256 (r.identity U).text := by
  obtain ⟨-, -, -, input, -, -, -, ⟨id, now, rfl⟩, -⟩ := h.first r hr
  rfl

theorem Deduplicated.mem_iff (h : Deduplicated U sha256 l s) (k : FactIdentity) :
    (∃ r ∈ s.db.facts, r.identity U = k) ↔
      ∃ st ∈ l, ∃ input fact, Accepted st input fact ∧ input.identity U = k := by
  constructor
  · rintro ⟨r, hr, rfl⟩
    obtain ⟨later, st, earlier, input, fact, rfl, haccepted, ⟨id, now, rfl⟩, -⟩ := h.first r hr
    exact ⟨st, List.mem_append_right _ List.mem_cons_self, input, fact, haccepted,
      (row_identity input id _ now).symm⟩
  · rintro ⟨st, hst, input, fact, haccepted, rfl⟩
    obtain ⟨r, hr, -, hidentity⟩ := h.answers st hst input fact haccepted
    exact ⟨r, (h.kept st hst).2 r hr, hidentity⟩

/-- A step adds a row only for the first contribution of a tuple, and answers an accepted
contribution with the row of its tuple. -/
theorem Deduplicated.cons (h : Deduplicated U sha256 l s)
    (hgrows : ∀ r ∈ s.db.facts, r ∈ s'.db.facts)
    (hdistinct : (s'.db.facts.map (FactRow.identity U)).Nodup)
    (hnew : ∀ r ∈ s'.db.facts, r ∈ s.db.facts ∨
      ∃ input fact, Accepted ⟨s, a, e, s'⟩ input fact ∧
        (∃ id now, r = input.row U sha256 id input.sourceUrl now) ∧
        ∀ st' ∈ l, ∀ input' fact', Accepted st' input' fact' →
          input'.identity U ≠ input.identity U)
    (hanswer : ∀ input fact, Accepted ⟨s, a, e, s'⟩ input fact →
      ∃ r ∈ s'.db.facts, r.fact = fact ∧ r.identity U = input.identity U) :
    Deduplicated U sha256 (⟨s, a, e, s'⟩ :: l) s' where
  distinct := hdistinct
  first r hr := by
    rcases hnew r hr with hr | ⟨input, fact, haccepted, hrow, hfirst⟩
    · obtain ⟨later, st, earlier, input, fact, hl, hrest⟩ := h.first r hr
      exact ⟨⟨s, a, e, s'⟩ :: later, st, earlier, input, fact, by rw [hl, List.cons_append], hrest⟩
    · exact ⟨[], ⟨s, a, e, s'⟩, l, input, fact, rfl, haccepted, hrow, hfirst⟩
  kept st hst := by
    rcases List.mem_cons.1 hst with rfl | hst
    · exact ⟨hgrows, fun _ hr => hr⟩
    · obtain ⟨hbefore, hafter⟩ := h.kept st hst
      exact ⟨fun r hr => hgrows r (hbefore r hr), fun r hr => hgrows r (hafter r hr)⟩
  answers st hst input fact haccepted := by
    rcases List.mem_cons.1 hst with rfl | hst
    · exact hanswer input fact haccepted
    · exact h.answers st hst input fact haccepted

theorem Accepted.unique {st : FactRunStep} {input input' : Contribution} {fact fact' : Fact}
    (h : Accepted st input fact) (h' : Accepted st input' fact') :
    input = input' ∧ fact = fact' := by
  obtain ⟨verified, haction, hevent⟩ := h
  obtain ⟨verified', haction', hevent'⟩ := h'
  rw [haction] at haction'
  rw [hevent] at hevent'
  cases haction'
  cases hevent'
  exact ⟨rfl, rfl⟩

/-- The hashes tell contributions with different tuples apart. -/
theorem identity_of_fingerprint (ht : (facts U score sha256).Trace l s)
    (hchecked : ∀ st ∈ l, Checked U st) (hcollision : NoCollision U sha256 l)
    {st st' : FactRunStep} (hst : st ∈ l) (hst' : st' ∈ l) {input input' : Contribution}
    {fact fact' : Fact} (h : Accepted st input fact) (h' : Accepted st' input' fact')
    (hsame : sha256 (input.normalized U) = sha256 (input'.normalized U)) :
    input.identity U = input'.identity U := by
  obtain ⟨-, -, hstep⟩ := ht.mem st hst
  obtain ⟨-, -, hstep'⟩ := ht.mem st' hst'
  rw [← normalized_inj (h.verified hstep (hchecked st hst))
    (h'.verified hstep' (hchecked st' hst'))]
  exact hcollision st hst st' hst' input fact input' fact' h h' hsame

/-- A step that leaves the rows, and answers an accepted contribution with one of them. -/
theorem Deduplicated.same (h : Deduplicated U sha256 l s) (hrows : s'.db.facts = s.db.facts)
    (hanswer : ∀ input fact, Accepted ⟨s, a, e, s'⟩ input fact →
      ∃ r ∈ s.db.facts, r.fact = fact ∧ r.identity U = input.identity U) :
    Deduplicated U sha256 (⟨s, a, e, s'⟩ :: l) s' := by
  apply h.cons
  · exact fun r hr => hrows ▸ hr
  · rw [hrows]
    exact h.distinct
  · exact fun r hr => Or.inl (hrows ▸ hr)
  · rwa [hrows]

/-- A step that adds a row for a contribution whose hash no row has. -/
theorem Deduplicated.new (h : Deduplicated U sha256 l s) {input : Contribution} {id : Int}
    {now : Time}
    (haccepted : Accepted ⟨s, a, e, s'⟩ input (input.row U sha256 id input.sourceUrl now).fact)
    (hrows : s'.db.facts = s.db.facts ++ [input.row U sha256 id input.sourceUrl now])
    (hfresh : ∀ r ∈ s.db.facts, r.fingerprint ≠ sha256 (input.normalized U)) :
    Deduplicated U sha256 (⟨s, a, e, s'⟩ :: l) s' := by
  have hother : ∀ r ∈ s.db.facts, r.identity U ≠ input.identity U := by
    intro r hr hidentity
    apply hfresh r hr
    rw [h.fingerprint hr, hidentity, normalized_eq]
  apply h.cons
  · exact fun r hr => hrows ▸ List.mem_append_left _ hr
  · rw [hrows, List.map_append, List.map_singleton, row_identity, List.nodup_append]
    refine ⟨h.distinct, List.nodup_singleton _, fun k hk k' hk' => ?_⟩
    obtain ⟨r, hr, rfl⟩ := List.mem_map.1 hk
    rw [List.mem_singleton.1 hk']
    exact hother r hr
  · intro r hr
    rw [hrows] at hr
    rcases List.mem_append.1 hr with hr | hr
    · exact Or.inl hr
    · refine Or.inr ⟨input, _, haccepted, ⟨id, now, List.mem_singleton.1 hr⟩, ?_⟩
      intro st' hst' input' fact' haccepted' hidentity
      obtain ⟨r', hr', hrow'⟩ := (h.mem_iff _).2 ⟨st', hst', input', fact', haccepted', rfl⟩
      exact hother r' hr' (hrow'.trans hidentity)
  · intro input' fact' haccepted'
    obtain ⟨rfl, rfl⟩ := haccepted.unique haccepted'
    exact ⟨_, hrows ▸ List.mem_append_right _ (List.mem_singleton_self _), rfl, rfl⟩

theorem trace_deduplicated (ht : (facts U score sha256).Trace l s)
    (hchecked : ∀ st ∈ l, Checked U st) (hcollision : NoCollision U sha256 l) :
    Deduplicated U sha256 l s := by
  induction ht with
  | start =>
      exact ⟨List.nodup_nil, fun _ hr => (nomatch hr), fun _ hst => (nomatch hst),
        fun _ hst => (nomatch hst)⟩
  | @step l s s' a e ht hs ih =>
      have h := ih (fun st hst => hchecked st (List.mem_cons_of_mem _ hst)) hcollision.tail
      have hrun := Machine.Trace.step ht hs
      have hlast : (⟨s, a, e, s'⟩ : FactRunStep) ∈ (⟨s, a, e, s'⟩ : FactRunStep) :: l :=
        List.mem_cons_self
      rcases factStep_facts hs with ⟨input, fact, haccepted, hinserts⟩ | ⟨hsame, hnone⟩
      · generalize hrows : s'.db.facts = rows at hinserts
        cases hinserts with
        | @known r hr hsame =>
            obtain ⟨later, st₀, earlier, input₀, fact₀, hl, haccepted₀, ⟨id, now, hrow⟩, -⟩ :=
              h.first r hr
            have hst₀ : st₀ ∈ l := hl ▸ List.mem_append_right _ List.mem_cons_self
            have hidentity : r.identity U = input.identity U := by
              rw [hrow, row_identity]
              apply identity_of_fingerprint hrun hchecked hcollision
                (List.mem_cons_of_mem _ hst₀) hlast haccepted₀ haccepted
              rw [← hsame, hrow]
              rfl
            apply h.same hrows
            intro input' fact' haccepted'
            obtain ⟨rfl, rfl⟩ := haccepted.unique haccepted'
            exact ⟨r, hr, rfl, hidentity⟩
        | new id now hfresh => exact h.new haccepted hrows hfresh
      · exact h.same hsame fun input fact haccepted => absurd haccepted (hnone input fact)

/-- **Contributions are deduplicated.** The texts that are hashed are equal exactly when the tuples
are. In every run of any number of contributions and other requests, without a collision of hashes,
the rows are those of the tuples that were contributed, each once; a row is as the first
contribution of its tuple inserted it, and stays; an accepted contribution is answered with the row
of its tuple. -/
theorem contributions_deduplicated (ht : (facts U score sha256).Trace l s)
    (hchecked : ∀ st ∈ l, Checked U st) (hcollision : NoCollision U sha256 l) :
    (∀ input input' : Contribution, input.Verified U → input'.Verified U →
      (input.normalized U = input'.normalized U ↔ input.identity U = input'.identity U)) ∧
    Deduplicated U sha256 l s ∧
    ∀ k, (∃ r ∈ s.db.facts, r.identity U = k) ↔
      ∃ st ∈ l, ∃ input fact, Accepted st input fact ∧ input.identity U = k := by
  have h := trace_deduplicated ht hchecked hcollision
  exact ⟨fun _ _ hinput hinput' => normalized_inj hinput hinput', h, h.mem_iff⟩

end Runs

/-- A page with one passage. -/
def mySongPage : Json :=
  .obj [("query".toList, .obj [("pages".toList, .obj [("42".toList,
    .obj [("extract".toList, .str "My Song was recorded by An Artist in 1998.".toList),
      ("title".toList, .str "My Song".toList)])])])]

def mySongClaim (song artist claim : String) : Contribution where
  song := song.toList
  artist := artist.toList
  claim := claim.toList
  source := "wikipedia".toList
  sourceId := "My Song".toList
  sourceUrl := "https://en.wikipedia.org/wiki/My_Song".toList
  evidence := claim.toList

/-- Two spellings of one fact, and another fact. -/
def mySongClaims : List Contribution :=
  [mySongClaim "My Song" "An Artist" "My Song was recorded by An Artist in 1998.",
    mySongClaim "my  song" "AN ARTIST" "My Song was recorded by An Artist in 1998.",
    mySongClaim "My Song" "An Artist" "My Song was recorded by An Artist in 1998"]

/-- The hashes of the two facts. -/
def mySongHash (text : Str) : Str :=
  if text = ((mySongClaim "My Song" "An Artist"
      "My Song was recorded by An Artist in 1998.").identity asciiTables).text then
    "08b50c5eaed89e4d17c3cf58553f95aaf4eeb7406578f6592d97ef8365114728".toList
  else "9673da4044df45c1395758ea6bb32572c89b82e8dae05b401e9e52c8d1804fb1".toList

def contributeMySong (input : Contribution) : FactAction :=
  .contribute input (FactSources.verify asciiTables (fun _ => .ok mySongPage) input.source
    input.sourceId input.song input.artist input.evidence input.claim)

/-- Three contributions make two rows. -/
theorem contributions_deduplicated_my_song :
    let run := (facts asciiTables (fun _ => 0) mySongHash).trace
      ([], (facts asciiTables (fun _ => 0) mySongHash).init) (mySongClaims.map contributeMySong)
    Deduplicated asciiTables mySongHash run.1 run.2 ∧ run.2.db.facts.length = 2 := by
  intro run
  have haction : ∀ st ∈ run.1, ∃ input ∈ mySongClaims, st.action = contributeMySong input := by
    intro st hst
    rcases Machine.action_mem_of_trace _ st hst with hmem | hmem
    · cases hmem
    · obtain ⟨input, hinput, hsame⟩ := List.mem_map.1 hmem
      exact ⟨input, hinput, hsame.symm⟩
  refine ⟨(contributions_deduplicated (Machine.trace_exec _) ?_ ?_).2.1, by decide +kernel⟩
  · intro st hst input verified hcontribute
    obtain ⟨claimed, -, hsame⟩ := haction st hst
    cases hsame.symm.trans hcontribute
    exact ⟨_, rfl⟩
  · have hhash : ∀ input ∈ mySongClaims, ∀ input' ∈ mySongClaims,
        mySongHash (input.normalized asciiTables) = mySongHash (input'.normalized asciiTables) →
        input.normalized asciiTables = input'.normalized asciiTables := by decide +kernel
    intro st hst st' hst' input fact input' fact' ⟨_, h, _⟩ ⟨_, h', _⟩
    obtain ⟨claimed, hmem, hsame⟩ := haction st hst
    obtain ⟨claimed', hmem', hsame'⟩ := haction st' hst'
    cases hsame.symm.trans h
    cases hsame'.symm.trans h'
    exact hhash input hmem input' hmem'

end AnyPlayerSync.Facts
