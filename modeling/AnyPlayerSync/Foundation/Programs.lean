import Mathlib.Tactic.Common

/-!
# Programs of statements

A program runs statements on a database, one after another. Time passes before each of them, and
each may fail: refused without effect, or with its answer lost after it took effect. The caller sees
an error in both cases. A `Course` says how much time passes and which statements fail.

`Triple c P p Q` is a Hoare triple for the runs of `p` along a course, with one rule for each way of
building a program. `Answers` is its special case for the runs that end without an error, `Stays`
the one for what a program does not change; `Does` says what a program computes when nothing fails
and no time passes.
-/

set_option autoImplicit false

namespace AnyPlayerSync.Foundation

/-! ## Programs -/

/-- What comes of a statement. -/
inductive Fate where
  | done
  | refused
  | lost
  deriving DecidableEq

/-- The time that passes before each step of a run, and what comes of the step. -/
structure Course where
  elapsed : Nat → Nat
  fate : Nat → Fate

/-- The course without any failure, at one point in time. -/
def Course.still : Course := ⟨fun _ => 0, fun _ => .done⟩

/-- Where a run stands: its database, the time, and how many steps it has made. -/
structure Moment (σ : Type) where
  db : σ
  now : Int
  steps : Nat

/-- A program on databases `σ` with errors `ε`. -/
def Program (σ ε : Type) (α : Type) := Course → Moment σ → Except ε α × Moment σ

namespace Program

variable {σ ε : Type} {α β : Type}

/-- One program after the other; the second does not run when the first fails. -/
def bind (p : Program σ ε α) (f : α → Program σ ε β) : Program σ ε β := fun c m =>
  match p c m with
  | (.ok a, m) => f a c m
  | (.error e, m) => (.error e, m)

instance : Monad (Program σ ε) where
  pure a := fun _ m => (.ok a, m)
  bind := bind

/-- End with an error. -/
def fail (e : ε) : Program σ ε α := fun _ m => (.error e, m)

/-- End with the error of a failed check. -/
def check (r : Except ε α) : Program σ ε α := fun _ m => (r, m)

/-- The moment at which the next step takes place. -/
def next (c : Course) (m : Moment σ) : Moment σ :=
  ⟨m.db, m.now + c.elapsed m.steps, m.steps + 1⟩

/-- Read the clock. -/
def clock : Program σ ε Int := fun c m => (.ok (next c m).now, next c m)

/-- A statement; `failure` is the error when it fails. -/
def statement (failure : ε) (f : Int → σ → σ × Except ε α) : Program σ ε α := fun c m =>
  let m' := next c m
  let p := f m'.now m'.db
  match c.fate m.steps with
  | .done => (p.2, { m' with db := p.1 })
  | .refused => (.error failure, m')
  | .lost => (.error failure, { m' with db := p.1 })

/-- A statement that only reads. -/
def query (failure : ε) (f : Int → σ → Except ε α) : Program σ ε α :=
  statement failure fun now s => (s, f now s)

/-- Run a program and drop its error. -/
def attempt (p : Program σ ε α) : Program σ ε Unit := fun c m => (.ok (), (p c m).2)

/-- `BEGIN`, the program, `COMMIT`. Without a commit the database is as it was before. -/
def transaction (begun committed : ε) (p : Program σ ε α) : Program σ ε α := fun c m =>
  match query begun (fun _ _ => .ok ()) c m with
  | (.error e, m) => (.error e, m)
  | (.ok (_ : Unit), m) =>
      match p c m with
      | (.error e, m') => (.error e, { m' with db := m.db })
      | (.ok a, m') =>
          match c.fate m'.steps with
          | .done => (.ok a, next c m')
          | .refused => (.error committed, { next c m' with db := m.db })
          | .lost => (.error committed, next c m')

/-! ## Triples -/

/-- From a database that meets `P` the program ends in one that meets `Q`, which also speaks about
the answer. -/
def Triple (c : Course) (P : Int → σ → Prop) (p : Program σ ε α)
    (Q : Except ε α → Int → σ → Prop) : Prop :=
  ∀ m, P m.now m.db → Q (p c m).1 (p c m).2.now (p c m).2.db

section Rules

variable {c : Course} {P : Int → σ → Prop} {p : Program σ ε α} {Q : Except ε α → Int → σ → Prop}

/-- The rule of consequence. -/
theorem Triple.mono {P' : Int → σ → Prop} {Q' : Except ε α → Int → σ → Prop}
    (h : Triple c P p Q) (hP : ∀ t s, P' t s → P t s) (hQ : ∀ r t s, Q r t s → Q' r t s) :
    Triple c P' p Q' :=
  fun m hm => hQ _ _ _ (h m (hP _ _ hm))

/-- A stronger precondition. -/
theorem Triple.pre {P' : Int → σ → Prop} (h : Triple c P p Q) (hP : ∀ t s, P' t s → P t s) :
    Triple c P' p Q :=
  h.mono hP fun _ _ _ hs => hs

/-- What is known of the run and not of the database. -/
theorem triple_known {b : Prop} (h : b → Triple c P p Q) :
    Triple c (fun t s => P t s ∧ b) p Q :=
  fun m hm => h hm.2 m hm.1

theorem triple_pure {a : α} (h : ∀ t s, P t s → Q (.ok a) t s) :
    Triple c P (pure a : Program σ ε α) Q :=
  fun m hm => h m.now m.db hm

theorem triple_fail {e : ε} (h : ∀ t s, P t s → Q (.error e) t s) :
    Triple c P (fail e : Program σ ε α) Q :=
  fun m hm => h m.now m.db hm

/-- A check hands on its result. -/
theorem triple_check {r : Except ε α} (h : ∀ t s, P t s → Q r t s) : Triple c P (check r) Q :=
  fun m hm => h m.now m.db hm

/-- **Sequencing.** An error of the first program is the error of both. -/
theorem triple_bind {f : α → Program σ ε β} {R : Except ε α → Int → σ → Prop}
    {Q : Except ε β → Int → σ → Prop} (hp : Triple c P p R)
    (hf : ∀ a, Triple c (R (.ok a)) (f a) Q)
    (he : ∀ e t s, R (.error e) t s → Q (.error e) t s) : Triple c P (p >>= f) Q := by
  intro m hm
  have hR := hp m hm
  change Q (bind p f c m).1 (bind p f c m).2.now (bind p f c m).2.db
  rw [bind]
  cases hrun : p c m with
  | mk r m' =>
      rw [hrun] at hR
      cases r with
      | ok a => exact hf a m' hR
      | error e => exact he e _ _ hR

/-- The clock does not go back. -/
theorem triple_clock {Q : Except ε Int → Int → σ → Prop}
    (h : ∀ t t' s, P t s → t ≤ t' → Q (.ok t') t' s) :
    Triple c P (clock : Program σ ε Int) Q := by
  intro m hm
  exact h m.now _ m.db hm (Int.le_add_of_nonneg_right (Int.natCast_nonneg _))

/-- **Statements.** Each outcome has to meet the postcondition. -/
theorem triple_statement {failure : ε} {f : Int → σ → σ × Except ε α}
    (h : ∀ t t' s, P t s → t ≤ t' →
      Q (f t' s).2 t' (f t' s).1 ∧ Q (.error failure) t' s ∧ Q (.error failure) t' (f t' s).1) :
    Triple c P (statement failure f) Q := by
  intro m hm
  obtain ⟨hdone, hrefused, hlost⟩ :=
    h m.now _ m.db hm (Int.le_add_of_nonneg_right (Int.natCast_nonneg (c.elapsed m.steps)))
  simp only [statement, next]
  cases c.fate m.steps with
  | done => exact hdone
  | refused => exact hrefused
  | lost => exact hlost

/-- A read leaves the state; it may fail instead. -/
theorem triple_query {failure : ε} {f : Int → σ → Except ε α}
    (h : ∀ t t' s, P t s → t ≤ t' → Q (f t' s) t' s ∧ Q (.error failure) t' s) :
    Triple c P (query failure f) Q := by
  apply triple_statement
  intro t t' s hs ht
  obtain ⟨hdone, hrefused⟩ := h t t' s hs ht
  exact ⟨hdone, hrefused, hrefused⟩

/-- **Transactions.** What the program leaves is there after the commit, though its answer may be
lost; in all other cases the database is the one of the `BEGIN`. -/
theorem triple_transaction {P : σ → Prop} {R : Except ε α → Int → σ → Prop} {begun committed : ε}
    (hp : Triple c (fun _ s => P s) p R)
    (hcommit : ∀ a t t' s, R (.ok a) t s → t ≤ t' → Q (.ok a) t' s ∧ Q (.error committed) t' s)
    (hback : ∀ e t s, P s → Q (.error e) t s) :
    Triple c (fun _ s => P s) (transaction begun committed p) Q := by
  intro m hm
  have hbegun : P (query begun (fun _ _ => (.ok () : Except ε Unit)) c m).2.db :=
    triple_query (P := fun _ s => P s) (Q := fun _ _ s => P s) (fun _ _ _ hs _ => ⟨hs, hs⟩) m hm
  rw [transaction]
  cases hquery : query begun (fun _ _ => (.ok () : Except ε Unit)) c m with
  | mk r m₁ =>
      rw [hquery] at hbegun
      cases r with
      | error e => exact hback e _ _ hbegun
      | ok _ =>
          have hbody := hp m₁ hbegun
          simp only
          cases hrun : p c m₁ with
          | mk r m₂ =>
              rw [hrun] at hbody
              cases r with
              | error e => exact hback e _ _ hbegun
              | ok a =>
                  obtain ⟨hdone, hlost⟩ := hcommit a _ (next c m₂).now _ hbody
                    (Int.le_add_of_nonneg_right (Int.natCast_nonneg (c.elapsed m₂.steps)))
                  simp only
                  cases c.fate m₂.steps with
                  | done => exact hdone
                  | refused => exact hback committed _ _ hbegun
                  | lost => exact hlost

/-- What is attempted counts as done, whether it failed or not. -/
theorem triple_attempt {Q : Except ε Unit → Int → σ → Prop}
    (h : Triple c P p fun _ t s => Q (.ok ()) t s) : Triple c P (attempt p) Q :=
  fun m hm => h m hm

end Rules

/-! ## What holds of an answer -/

/-- When the program answers, its answer and the database meet `Q`. -/
def Answers (c : Course) (P : Int → σ → Prop) (p : Program σ ε α) (Q : α → Int → σ → Prop) : Prop :=
  Triple c P p fun r t s => ∀ a, r = .ok a → Q a t s

section Answers

variable {c : Course} {P : Int → σ → Prop} {p : Program σ ε α} {Q : α → Int → σ → Prop}

theorem answers_pure {a : α} (h : ∀ t s, P t s → Q a t s) :
    Answers c P (pure a : Program σ ε α) Q := by
  apply triple_pure
  rintro t s hs _ ⟨rfl⟩
  exact h t s hs

/-- The rule of composition, for runs that answer. -/
theorem answers_bind {f : α → Program σ ε β} {Q' : β → Int → σ → Prop} (hp : Answers c P p Q)
    (hf : ∀ a, Answers c (Q a) (f a) Q') : Answers c P (p >>= f) Q' := by
  refine triple_bind hp (fun a => ?_) fun e t s _ b hb => nomatch hb
  exact Triple.pre (hf a) fun t s hs => hs a rfl

/-- A statement that answers has done what it does. -/
theorem answers_statement {failure : ε} {f : Int → σ → σ × Except ε α}
    (h : ∀ t t' s, P t s → t ≤ t' → ∀ a, (f t' s).2 = .ok a → Q a t' (f t' s).1) :
    Answers c P (statement failure f) Q := by
  apply triple_statement
  intro t t' s hs ht
  exact ⟨h t t' s hs ht, fun a ha => (nomatch ha), fun a ha => (nomatch ha)⟩

/-- A query leaves the database, and answers what it reads. -/
theorem answers_query {failure : ε} {f : Int → σ → Except ε α}
    (h : ∀ t t' s, P t s → t ≤ t' → ∀ a, f t' s = .ok a → Q a t' s) :
    Answers c P (query failure f) Q :=
  answers_statement h

end Answers

/-! ## What a program leaves alone -/

/-- The program keeps `I`, whatever it answers. -/
def Stays (c : Course) (I : σ → Prop) (p : Program σ ε α) : Prop :=
  Triple c (fun _ s => I s) p fun _ _ s => I s

section Stays

variable {c : Course} {I : σ → Prop} {p : Program σ ε α}

theorem stays_pure (a : α) : Stays c I (pure a : Program σ ε α) :=
  triple_pure fun _ _ hs => hs

theorem stays_fail (e : ε) : Stays c I (fail e : Program σ ε α) :=
  triple_fail fun _ _ hs => hs

theorem stays_check (r : Except ε α) : Stays c I (check r : Program σ ε α) :=
  triple_check fun _ _ hs => hs

/-- An invariant of both parts is one of the whole. -/
theorem stays_bind {f : α → Program σ ε β} (hp : Stays c I p) (hf : ∀ a, Stays c I (f a)) :
    Stays c I (p >>= f) :=
  triple_bind hp hf fun _ _ _ hs => hs

theorem stays_clock : Stays c I (clock : Program σ ε Int) :=
  triple_clock fun _ _ _ hs _ => hs

/-- A statement that keeps the invariant does so when it fails, too. -/
theorem stays_statement {failure : ε} {f : Int → σ → σ × Except ε α}
    (h : ∀ t s, I s → I (f t s).1) : Stays c I (statement failure f) :=
  triple_statement fun _ t' s hs _ => ⟨h t' s hs, hs, h t' s hs⟩

theorem stays_query {failure : ε} {f : Int → σ → Except ε α} : Stays c I (query failure f) :=
  triple_query fun _ _ _ hs _ => ⟨hs, hs⟩

/-- A transaction keeps what its statements keep, and so does its rollback. -/
theorem stays_transaction {begun committed : ε} (hp : Stays c I p) :
    Stays c I (transaction begun committed p) :=
  triple_transaction hp (fun _ _ _ _ hs _ => ⟨hs, hs⟩) fun _ _ _ hs => hs

end Stays

/-! ## How a program fails -/

/-- Every error that the program ends with meets `B`. -/
def Fails (c : Course) (B : ε → Prop) (p : Program σ ε α) : Prop :=
  Triple c (fun _ _ => True) p fun r _ _ => ∀ e, r = .error e → B e

section Fails

variable {c : Course} {B : ε → Prop} {p : Program σ ε α}

theorem fails_pure (a : α) : Fails c B (pure a : Program σ ε α) :=
  triple_pure fun _ _ _ _ he => by cases he

theorem fails_fail {e : ε} (h : B e) : Fails c B (fail e : Program σ ε α) :=
  triple_fail fun _ _ _ _ he => by cases he; exact h

theorem fails_check {r : Except ε α} (h : ∀ e, r = .error e → B e) :
    Fails c B (check r : Program σ ε α) :=
  triple_check fun _ _ _ => h

theorem fails_clock : Fails c B (clock : Program σ ε Int) :=
  triple_clock fun _ _ _ _ _ _ he => by cases he

/-- The errors of a whole are those of its parts. -/
theorem fails_bind {f : α → Program σ ε β} (hp : Fails c B p) (hf : ∀ a, Fails c B (f a)) :
    Fails c B (p >>= f) :=
  triple_bind (R := fun r _ _ => ∀ e, r = .error e → B e) hp
    (fun a => (hf a).pre fun _ _ _ => trivial) fun e _ _ he e' heq => by
      cases heq
      exact he e rfl

/-- A statement has its own errors, and that of a failed one. -/
theorem fails_statement {failure : ε} {f : Int → σ → σ × Except ε α} (hfailure : B failure)
    (h : ∀ t s e, (f t s).2 = .error e → B e) : Fails c B (statement failure f) := by
  have hlost : ∀ e, (.error failure : Except ε α) = .error e → B e := by
    rintro e ⟨rfl⟩
    exact hfailure
  exact triple_statement fun _ t s _ _ => ⟨h t s, hlost, hlost⟩

theorem fails_query {failure : ε} {f : Int → σ → Except ε α} (hfailure : B failure)
    (h : ∀ t s e, f t s = .error e → B e) : Fails c B (query failure f) :=
  fails_statement hfailure h

/-- A transaction adds the errors of its beginning and its commit. -/
theorem fails_transaction {begun committed : ε} (hbegun : B begun) (hcommitted : B committed)
    (hp : Fails c B p) : Fails c B (transaction begun committed p) := by
  intro m _ e he
  rw [transaction] at he
  cases hquery : query begun (fun _ _ => (.ok () : Except ε Unit)) c m with
  | mk r m₁ =>
      have hfirst : ∀ e, r = .error e → B e := by
        intro e hr
        have h := fails_query (c := c) (σ := σ) (f := fun _ _ => (.ok () : Except ε Unit)) hbegun
          (fun _ _ _ h => by cases h) m trivial e
        rw [hquery] at h
        exact h hr
      rw [hquery] at he
      cases r with
      | error e' =>
          cases he
          exact hfirst e rfl
      | ok _ =>
          simp only at he
          cases hrun : p c m₁ with
          | mk r₂ m₂ =>
              have hbody := hp m₁ trivial
              rw [hrun] at he hbody
              cases r₂ with
              | error e' =>
                  cases he
                  exact hbody e rfl
              | ok a =>
                  simp only at he
                  cases hfate : c.fate m₂.steps <;> rw [hfate] at he <;> cases he <;>
                    exact hcommitted

end Fails

/-! ## What a program does when nothing fails -/

/-- Along the course without failures the program leaves and answers what `f` says. -/
def Does (p : Program σ ε α) (f : Int → σ → σ × Except ε α) : Prop :=
  ∀ m, (p Course.still m).2.db = (f m.now m.db).1 ∧ (p Course.still m).1 = (f m.now m.db).2 ∧
    (p Course.still m).2.now = m.now

section Does

variable {p : Program σ ε α} {f : Int → σ → σ × Except ε α}

/-- Nothing fails and nobody interferes. -/
theorem next_still (m : Moment σ) : next Course.still m = ⟨m.db, m.now, m.steps + 1⟩ := by
  rw [next, Course.still, Int.natCast_zero, Int.add_zero]

theorem Does.congr {f' : Int → σ → σ × Except ε α} (h : Does p f) (hf : ∀ t s, f t s = f' t s) :
    Does p f' := by
  intro m
  rw [← hf m.now m.db]
  exact h m

theorem does_pure (a : α) : Does (pure a : Program σ ε α) fun _ s => (s, .ok a) :=
  fun _ => ⟨rfl, rfl, rfl⟩

theorem does_fail (e : ε) : Does (fail e : Program σ ε α) fun _ s => (s, .error e) :=
  fun _ => ⟨rfl, rfl, rfl⟩

theorem does_check (r : Except ε α) : Does (check r : Program σ ε α) fun _ s => (s, r) :=
  fun _ => ⟨rfl, rfl, rfl⟩

theorem does_clock : Does (clock : Program σ ε Int) fun t s => (s, .ok t) := by
  intro m
  simp [clock, next_still]

theorem does_statement (failure : ε) (f : Int → σ → σ × Except ε α) :
    Does (statement failure f) f := by
  intro m
  simp only [statement, next_still]
  exact ⟨rfl, rfl, rfl⟩

theorem does_query (failure : ε) (f : Int → σ → Except ε α) :
    Does (query failure f) fun t s => (s, f t s) :=
  does_statement failure _

/-- What two programs do together, the second on the state that the first leaves. -/
theorem does_bind {q : α → Program σ ε β} {g : α → Int → σ → σ × Except ε β} (hp : Does p f)
    (hq : ∀ a, Does (q a) (g a)) :
    Does (p >>= q) fun t s =>
      match f t s with
      | (s, .ok a) => g a t s
      | (s, .error e) => (s, .error e) := by
  intro m
  obtain ⟨hdb, hanswer, hnow⟩ := hp m
  change (bind p q Course.still m).2.db = _ ∧ (bind p q Course.still m).1 = _ ∧
    (bind p q Course.still m).2.now = _
  rw [bind]
  cases hrun : p Course.still m with
  | mk r m' =>
      rw [hrun] at hdb hanswer hnow
      cases hf : f m.now m.db with
      | mk s' r' =>
          simp only [hf] at hdb hanswer ⊢
          subst hanswer
          cases r with
          | error e => exact ⟨hdb, rfl, hnow⟩
          | ok a =>
              have h := hq a m'
              rw [hdb, hnow] at h
              exact h

/-- What a choice does. -/
theorem does_ite {p' : Program σ ε α} {f' : Int → σ → σ × Except ε α} {b : Prop} [Decidable b]
    (hp : Does p f) (hp' : Does p' f') :
    Does (if b then p else p') fun t s => if b then f t s else f' t s := by
  by_cases hb : b
  · simp only [if_pos hb]
    exact hp
  · simp only [if_neg hb]
    exact hp'

/-- What an attempt does; its error is gone. -/
theorem does_attempt (hp : Does p f) : Does (attempt p) fun t s => ((f t s).1, .ok ()) :=
  fun m => ⟨(hp m).1, rfl, (hp m).2.2⟩

/-- A transaction whose program fails leaves the database of its `BEGIN`. -/
theorem does_transaction (begun committed : ε) (hp : Does p f) :
    Does (transaction begun committed p) fun t s =>
      match f t s with
      | (s', .ok a) => (s', .ok a)
      | (_, .error e) => (s, .error e) := by
  intro m
  obtain ⟨hdb, hanswer, hnow⟩ := hp ⟨m.db, m.now, m.steps + 1⟩
  have hbegun : query begun (fun _ _ => (.ok () : Except ε Unit)) Course.still m =
      (.ok (), ⟨m.db, m.now, m.steps + 1⟩) := by
    simp only [query, statement, next_still]
    rfl
  simp only [transaction, hbegun]
  cases hrun : p Course.still ⟨m.db, m.now, m.steps + 1⟩ with
  | mk r m' =>
      rw [hrun] at hdb hanswer hnow
      cases hf : f m.now m.db with
      | mk s' r' =>
          simp only [hf] at hdb hanswer ⊢
          subst hanswer
          cases r with
          | error e => exact ⟨rfl, rfl, hnow⟩
          | ok a =>
              simp only [next_still]
              exact ⟨hdb, rfl, hnow⟩

end Does

end Program

end AnyPlayerSync.Foundation
