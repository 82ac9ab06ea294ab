import Mathlib.Tactic.Common

/-!
# Machines, runs and schedules

A machine has an initial state and a partial step. A step consumes an action (the scheduler's
choice together with every input it supplies, clock readings included) and reports an event. A run
keeps its events, latest first, so an invariant may speak about the past (`RunIf.invariant`).
`RunIf C` restricts the runs to those whose steps all met a condition `C` on the history and the
state before the step.

`exec` follows a schedule and skips the actions that are not enabled; what it reaches is a run
(`run_exec`).

A trace is a run that keeps its steps whole, with the states between which each took place, for
properties that speak about a point in time between two events. A continuation is the same from any
state on (`After`), for what holds from some moment of a run.

The last section is the unwinding argument for isolation. When the actions of an owner read and
change only the owner's view, and leave the views of all others alone, deleting the other owners'
actions from any schedule changes nothing that the owner observes (`observe_purge`).
-/

set_option autoImplicit false

namespace AnyPlayerSync.Foundation

universe u v w x y

/-- A machine. `step s a = none` means that the action `a` is not enabled in `s`. -/
structure Machine (σ : Type u) (α : Type v) (ε : Type w) where
  init : σ
  step : σ → α → Option (σ × ε)

namespace Machine

variable {σ : Type u} {α : Type v} {ε : Type w} (M : Machine σ α ε)

/-! ## Runs -/

/-- `M.RunIf C h s`: a run ends in `s` with the history `h`, latest event first, and each of its
steps met `C` on the history and the state before it and on the event it reported. -/
inductive RunIf (C : List ε → σ → ε → Prop) : List ε → σ → Prop
  | start : RunIf C [] M.init
  | step {h : List ε} {s s' : σ} {a : α} {e : ε} :
      RunIf C h s → M.step s a = some (s', e) → C h s e → RunIf C (e :: h) s'

/-- Runs without a condition on the steps. -/
abbrev Run : List ε → σ → Prop := M.RunIf fun _ _ _ => True

variable {M} {C : List ε → σ → ε → Prop}

/-- A condition that every step implies may be dropped or weakened. -/
theorem RunIf.mono {D : List ε → σ → ε → Prop} (hCD : ∀ h s e, C h s e → D h s e)
    {h : List ε} {s : σ} (hr : M.RunIf C h s) : M.RunIf D h s := by
  induction hr with
  | start => exact .start
  | step _ hs hc ih => exact .step ih hs (hCD _ _ _ hc)

theorem RunIf.run {h : List ε} {s : σ} (hr : M.RunIf C h s) : M.Run h s :=
  hr.mono fun _ _ _ _ => trivial

/-- **Invariant rule.** What holds at the start and is kept by each step that meets the condition
holds of every run. -/
theorem RunIf.invariant {I : List ε → σ → Prop} (h0 : I [] M.init)
    (hstep : ∀ h s a s' e, M.RunIf C h s → I h s → M.step s a = some (s', e) → C h s e →
      I (e :: h) s')
    {h : List ε} {s : σ} (hr : M.RunIf C h s) : I h s := by
  induction hr with
  | start => exact h0
  | step hr hs hc ih => exact hstep _ _ _ _ _ hr ih hs hc

/-- What each step's event satisfies together with the history before it, every event of a run
does with the events before it. -/
theorem RunIf.forall_steps {P : ε → List ε → Prop}
    (hstep : ∀ h s a s' e, M.RunIf C h s → M.step s a = some (s', e) → C h s e → P e h)
    {h : List ε} {s : σ} (hr : M.RunIf C h s) :
    ∀ later e earlier, h = later ++ e :: earlier → P e earlier := by
  refine hr.invariant (I := fun h _ => ∀ later e earlier, h = later ++ e :: earlier → P e earlier)
    (fun later e earlier heq => absurd heq.symm (by simp)) ?_
  intro h s a s' e hr ih hs hc later e' earlier heq
  cases later with
  | nil =>
      obtain ⟨rfl, rfl⟩ := List.cons.inj heq
      exact hstep _ s a s' _ hr hs hc
  | cons _ later => exact ih later e' earlier (List.cons.inj heq).2

/-- What every step's event satisfies, all events of a run satisfy. -/
theorem RunIf.forall_events {P : ε → Prop}
    (hstep : ∀ h s a s' e, M.RunIf C h s → M.step s a = some (s', e) → C h s e → P e)
    {h : List ε} {s : σ} (hr : M.RunIf C h s) : ∀ e ∈ h, P e := by
  intro e he
  obtain ⟨later, earlier, heq⟩ := List.append_of_mem he
  exact hr.forall_steps (P := fun e _ => P e) hstep later e earlier heq

/-! ## Executing a schedule -/

variable (M)

/-- Follow a schedule from a history and a state. An action that is not enabled is skipped. -/
def exec : List ε × σ → List α → List ε × σ
  | c, [] => c
  | (h, s), a :: as =>
      match M.step s a with
      | none => exec (h, s) as
      | some (s', e) => exec (e :: h, s') as

variable {M}

/-- Executing a schedule extends a run. -/
theorem run_exec_from :
    ∀ (as : List α) {h : List ε} {s : σ}, M.Run h s →
      M.Run (M.exec (h, s) as).1 (M.exec (h, s) as).2
  | [], _, _, hr => hr
  | a :: as, h, s, hr => by
      rw [exec]
      cases hs : M.step s a with
      | none => exact run_exec_from as hr
      | some p =>
          obtain ⟨s', e⟩ := p
          exact run_exec_from as (.step hr hs trivial)

/-- Executing a schedule from the initial state is a run. -/
theorem run_exec (as : List α) : M.Run (M.exec ([], M.init) as).1 (M.exec ([], M.init) as).2 :=
  run_exec_from as .start

section Conditions

variable (M) (C)

/-- Every step of a schedule meets the condition. -/
def meets [∀ h s e, Decidable (C h s e)] : List ε × σ → List α → Bool
  | _, [] => true
  | (h, s), a :: as =>
      match M.step s a with
      | none => meets (h, s) as
      | some (s', e) => decide (C h s e) && meets (e :: h, s') as

variable {M} {C} [∀ h s e, Decidable (C h s e)]

theorem runIf_exec_from :
    ∀ (as : List α) {h : List ε} {s : σ}, M.RunIf C h s → M.meets C (h, s) as = true →
      M.RunIf C (M.exec (h, s) as).1 (M.exec (h, s) as).2
  | [], _, _, hr, _ => hr
  | a :: as, h, s, hr, hm => by
      rw [exec]
      rw [meets] at hm
      cases hs : M.step s a with
      -- a skipped action is no step, so it owes no condition
      | none =>
          rw [hs] at hm
          exact runIf_exec_from as hr hm
      | some p =>
          obtain ⟨s', e⟩ := p
          rw [hs] at hm
          obtain ⟨hc, hm⟩ := Bool.and_eq_true_iff.1 hm
          exact runIf_exec_from as (.step hr hs (of_decide_eq_true hc)) hm

/-- Executing a schedule whose steps meet the condition is a run that meets it. -/
theorem runIf_exec {as : List α} (hm : M.meets C ([], M.init) as = true) :
    M.RunIf C (M.exec ([], M.init) as).1 (M.exec ([], M.init) as).2 :=
  runIf_exec_from as .start hm

end Conditions

/-! ## Traces -/

/-- One step of a run. -/
structure Step (σ : Type u) (α : Type v) (ε : Type w) where
  before : σ
  action : α
  event : ε
  after : σ

section Traces

variable (M)

/-- `M.Trace l s`: a run ends in `s` with the steps `l`, latest step first. -/
inductive Trace : List (Step σ α ε) → σ → Prop
  | start : Trace [] M.init
  | step {l : List (Step σ α ε)} {s s' : σ} {a : α} {e : ε} :
      Trace l s → M.step s a = some (s', e) → Trace (⟨s, a, e, s'⟩ :: l) s'

variable {M} {l : List (Step σ α ε)} {s : σ}

/-- The events of a trace are the history of a run. -/
theorem Trace.run (ht : M.Trace l s) : M.Run (l.map Step.event) s := by
  induction ht with
  | start => exact .start
  | step _ hs ih => exact .step ih hs trivial

/-- What holds at the start and is kept by each step holds of every trace. -/
theorem Trace.invariant {I : List (Step σ α ε) → σ → Prop} (h0 : I [] M.init)
    (hstep : ∀ l s a s' e, M.Trace l s → I l s → M.step s a = some (s', e) →
      I (⟨s, a, e, s'⟩ :: l) s')
    (ht : M.Trace l s) : I l s := by
  induction ht with
  | start => exact h0
  | step ht hs ih => exact hstep _ _ _ _ _ ht ih hs

/-- Each step of a trace starts where a shorter trace ends. -/
theorem Trace.mem (ht : M.Trace l s) : ∀ st ∈ l,
    ∃ earlier, M.Trace earlier st.before ∧
      M.step st.before st.action = some (st.after, st.event) := by
  induction ht with
  | start => exact fun st hst => nomatch hst
  | @step l s s' a e ht hs ih =>
      intro st hst
      rcases List.mem_cons.1 hst with rfl | hst
      · exact ⟨l, ht, hs⟩
      · exact ih st hst

/-- What each step keeps, all steps after it keep. -/
theorem Trace.grows {R : σ → σ → Prop} (hrefl : ∀ s, R s s)
    (htrans : ∀ s s' s'', R s s' → R s' s'' → R s s'')
    (hstep : ∀ s a s' e, M.step s a = some (s', e) → R s s') (ht : M.Trace l s) :
    ∀ st ∈ l, R st.before st.after ∧ R st.after s := by
  induction ht with
  | start => exact fun st hst => nomatch hst
  | @step l s s' a e ht hs ih =>
      have hlast := hstep s a s' e hs
      intro st hst
      rcases List.mem_cons.1 hst with rfl | hst
      · exact ⟨hlast, hrefl s'⟩
      · exact ⟨(ih st hst).1, htrans _ _ _ (ih st hst).2 hlast⟩

/-- Two ways of counting the steps of a trace agree when they agree on every step that can be
taken. -/
theorem Trace.count_eq {p q : Step σ α ε → Bool} (ht : M.Trace l s)
    (hpq : ∀ earlier st, M.Trace earlier st.before →
      M.step st.before st.action = some (st.after, st.event) → p st = q st) :
    (l.filter p).length = (l.filter q).length := by
  have hmem : ∀ st ∈ l, p st = q st := by
    intro st hst
    obtain ⟨earlier, hearlier, hstep⟩ := ht.mem st hst
    exact hpq earlier st hearlier hstep
  rw [List.filter_congr hmem]

/-- What is counted one way is counted in one of two others. -/
theorem Trace.count_le_add {p q r : Step σ α ε → Bool} (ht : M.Trace l s)
    (hpqr : ∀ st, M.step st.before st.action = some (st.after, st.event) → p st = true →
      q st = true ∨ r st = true) :
    (l.filter p).length ≤ (l.filter q).length + (l.filter r).length := by
  induction ht with
  | start => exact Nat.le_refl 0
  | @step l s s' a e ht hs ih =>
      have hlast := hpqr ⟨s, a, e, s'⟩ hs
      simp only [List.filter_cons]
      split_ifs <;> simp_all <;> omega

variable (M)

/-- Follow a schedule and keep the steps. -/
def trace : List (Step σ α ε) × σ → List α → List (Step σ α ε) × σ
  | c, [] => c
  | (l, s), a :: as =>
      match M.step s a with
      | none => trace (l, s) as
      | some (s', e) => trace (⟨s, a, e, s'⟩ :: l, s') as

variable {M}

theorem trace_from :
    ∀ (as : List α) {l : List (Step σ α ε)} {s : σ}, M.Trace l s →
      M.Trace (M.trace (l, s) as).1 (M.trace (l, s) as).2
  | [], _, _, ht => ht
  | a :: as, l, s, ht => by
      rw [trace]
      cases hs : M.step s a with
      | none => exact trace_from as ht
      | some p =>
          obtain ⟨s', e⟩ := p
          exact trace_from as (.step ht hs)

/-- Following a schedule from the initial state is a trace. -/
theorem trace_exec (as : List α) :
    M.Trace (M.trace ([], M.init) as).1 (M.trace ([], M.init) as).2 :=
  trace_from as .start

/-- The steps of a schedule take its actions. -/
theorem action_mem_of_trace (as : List α) : ∀ {l : List (Step σ α ε)} {s : σ},
    ∀ st ∈ (M.trace (l, s) as).1, st ∈ l ∨ st.action ∈ as := by
  induction as with
  | nil => exact fun st hst => Or.inl hst
  | cons a as ih =>
      intro l s st hst
      rw [trace] at hst
      cases hs : M.step s a with
      | none =>
          rw [hs] at hst
          exact (ih st hst).imp_right (List.mem_cons_of_mem a)
      | some p =>
          rw [hs] at hst
          rcases ih st hst with hmem | hmem
          · rcases List.mem_cons.1 hmem with rfl | hmem
            · exact Or.inr List.mem_cons_self
            · exact Or.inl hmem
          · exact Or.inr (List.mem_cons_of_mem a hmem)

/-- The latest step of a schedule, known by what `f` shows of it. -/
theorem trace_head {β : Type x} {f : Step σ α ε → β} {b : β} (as : List α)
    (h : (M.trace ([], M.init) as).1.head?.map f = some b) :
    ∃ st l, M.Trace (st :: l) st.after ∧ f st = b := by
  have ht := trace_exec (M := M) as
  generalize M.trace ([], M.init) as = p at h ht
  obtain ⟨steps, s⟩ := p
  replace ht : M.Trace steps s := ht
  cases ht with
  | start => cases h
  | step ht hs => exact ⟨_, _, .step ht hs, Option.some.inj h⟩

end Traces

/-! ## Continuations -/

section Continuations

variable (M)

/-- `M.After s₀ l s`: the steps `l`, latest step first, lead from `s₀` to `s`. -/
inductive After (s₀ : σ) : List (Step σ α ε) → σ → Prop
  | start : After s₀ [] s₀
  | step {l : List (Step σ α ε)} {s s' : σ} {a : α} {e : ε} :
      After s₀ l s → M.step s a = some (s', e) → After s₀ (⟨s, a, e, s'⟩ :: l) s'

variable {M} {s₀ s : σ} {l : List (Step σ α ε)}

/-- A run goes on with the events of the steps after it. -/
theorem After.run {h : List ε} (ha : M.After s₀ l s) (hr : M.Run h s₀) :
    M.Run (l.map Step.event ++ h) s := by
  induction ha with
  | start => exact hr
  | step _ hs ih => exact .step ih hs trivial

/-- **Invariant rule.** What holds at first and is kept by each step whose own steps before it met
the condition holds after all steps that meet it. -/
theorem After.invariant {C : Step σ α ε → Prop} {I : List (Step σ α ε) → σ → Prop} (h0 : I [] s₀)
    (hstep : ∀ l s a s' e, M.After s₀ l s → I l s → M.step s a = some (s', e) →
      C ⟨s, a, e, s'⟩ → I (⟨s, a, e, s'⟩ :: l) s')
    (ha : M.After s₀ l s) (hc : ∀ st ∈ l, C st) : I l s := by
  induction ha with
  | start => exact h0
  | step ha hs ih =>
      obtain ⟨hlast, hbefore⟩ := List.forall_mem_cons.1 hc
      exact hstep _ _ _ _ _ ha (ih hbefore) hs hlast

theorem after_from :
    ∀ (as : List α) {l : List (Step σ α ε)} {s : σ}, M.After s₀ l s →
      M.After s₀ (M.trace (l, s) as).1 (M.trace (l, s) as).2
  | [], _, _, ha => ha
  | a :: as, l, s, ha => by
      rw [trace]
      cases hs : M.step s a with
      | none => exact after_from as ha
      | some p =>
          obtain ⟨s', e⟩ := p
          exact after_from as (.step ha hs)

/-- Following a schedule from a state leads from it. -/
theorem after_trace (s₀ : σ) (as : List α) :
    M.After s₀ (M.trace ([], s₀) as).1 (M.trace ([], s₀) as).2 :=
  after_from as .start

end Continuations

/-! ## Isolation of owners -/

section Owners

variable {U : Type x} {V : Type y}

variable (M) in
/-- The state after an action; unchanged when the action is not enabled. -/
def next (s : σ) (a : α) : σ := ((M.step s a).map Prod.fst).getD s

theorem next_of_none {s : σ} {a : α} (h : M.step s a = none) : M.next s a = s := by
  simp [next, h]

theorem next_of_some {s s' : σ} {a : α} {e : ε} (h : M.step s a = some (s', e)) :
    M.next s a = s' := by
  simp [next, h]

variable (M) in
/-- What owner `u` observes along a schedule: for each of its own actions, the event it caused
(none when the action was not enabled) and its view of the state afterwards. -/
def observe [DecidableEq U] (owner : α → U) (view : U → σ → V) (u : U) :
    σ → List α → List (Option ε × V)
  | _, [] => []
  | s, a :: as =>
      if owner a = u then
        ((M.step s a).map Prod.snd, view u (M.next s a)) :: observe owner view u (M.next s a) as
      else observe owner view u (M.next s a) as

variable (M) in
/-- Each owner's actions read and change its own view only. -/
structure Separated (owner : α → U) (view : U → σ → V) : Prop where
  /-- An action and its event are determined by its owner's view. -/
  reads_own : ∀ {s t : σ} {a : α}, view (owner a) s = view (owner a) t →
    (M.step s a).map (fun p => (view (owner a) p.1, p.2)) =
      (M.step t a).map (fun p => (view (owner a) p.1, p.2))
  /-- An action leaves the view of every other owner as it was. -/
  keeps_others : ∀ {s s' : σ} {a : α} {e : ε} {u : U}, owner a ≠ u → M.step s a = some (s', e) →
    view u s' = view u s

variable {owner : α → U} {view : U → σ → V}

theorem Separated.view_next_other (hM : M.Separated owner view) {s : σ} {a : α} {u : U}
    (ha : owner a ≠ u) : view u (M.next s a) = view u s := by
  cases hs : M.step s a with
  | none => rw [next_of_none hs]
  | some p =>
      obtain ⟨s', e⟩ := p
      rw [next_of_some hs]
      exact hM.keeps_others ha hs

theorem Separated.own_step (hM : M.Separated owner view) {s t : σ} {a : α}
    (hst : view (owner a) s = view (owner a) t) :
    (M.step s a).map Prod.snd = (M.step t a).map Prod.snd ∧
      view (owner a) (M.next s a) = view (owner a) (M.next t a) := by
  have hstep := hM.reads_own hst
  cases hs : M.step s a with
  | none =>
      rw [hs, Option.map_none, eq_comm, Option.map_eq_none_iff] at hstep
      rw [hstep, next_of_none hs, next_of_none hstep]
      exact ⟨rfl, hst⟩
  | some p =>
      obtain ⟨s', e⟩ := p
      cases ht : M.step t a with
      | none => rw [hs, ht] at hstep; cases hstep
      | some q =>
          obtain ⟨t', f⟩ := q
          rw [hs, ht] at hstep
          simp only [Option.map_some, Option.some.injEq, Prod.mk.injEq] at hstep
          rw [next_of_some hs, next_of_some ht]
          exact ⟨by simp [hstep.2], hstep.1⟩

/-- **Isolation.** What an owner observes along a schedule is what it observes when every other
owner's actions are deleted. The two runs may start in any two states with one view of the owner. -/
theorem Separated.observe_purge [DecidableEq U] (hM : M.Separated owner view) (u : U) :
    ∀ (as : List α) {s t : σ}, view u s = view u t →
      M.observe owner view u s as =
        M.observe owner view u t (as.filter fun a => owner a = u)
  | [], _, _, _ => rfl
  | a :: as, s, t, hst => by
      -- an own action acts alike in both runs; another's leaves the view, so `t` may stay behind
      by_cases ha : owner a = u
      · subst ha
        obtain ⟨he, hv⟩ := hM.own_step hst
        rw [List.filter_cons_of_pos (by simp), observe, observe, if_pos rfl, if_pos rfl, he, hv,
          observe_purge hM _ as hv]
      · rw [List.filter_cons_of_neg (by simpa using ha), observe, if_neg ha]
        exact observe_purge hM u as ((hM.view_next_other ha).trans hst)

end Owners

end Machine

end AnyPlayerSync.Foundation
