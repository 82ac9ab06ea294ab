import AnyPlayerSync.Foundation.Machine

/-!
# Components of a machine

A component of a machine is a part of its state that moves as another machine does. Each step of the
whole is a step of the component, which reports the component's event, or leaves it as it is. Then
every run of the whole is a run of the component, on the events that belong to it
(`Component.run`), under each condition that its own steps meet.
-/

set_option autoImplicit false

namespace AnyPlayerSync.Foundation.Machine

universe u v w x y z

variable {σ : Type u} {α : Type v} {ε : Type w} {τ : Type x} {β : Type y} {δ : Type z}

/-- What a step of the whole does to the component. -/
def Follows (N : Machine τ β δ) (t t' : τ) : Option δ → Prop
  | some d => ∃ b, N.step t b = some (t', d)
  | none => t' = t

/-- The condition of the component on the steps that belong to it. -/
def OnPart (part : σ → τ) (event : ε → Option δ) (D : List δ → τ → δ → Prop) (h : List ε) (s : σ)
    (e : ε) : Prop :=
  ∀ d, event e = some d → D (h.filterMap event) (part s) d

/-- The component of a machine that `part` shows, with the events that `event` shows. -/
structure Component (M : Machine σ α ε) (N : Machine τ β δ) (part : σ → τ)
    (event : ε → Option δ) : Prop where
  start : part M.init = N.init
  step : ∀ {h : List ε} {s s' : σ} {a : α} {e : ε}, M.Run h s → M.step s a = some (s', e) →
    N.Follows (part s) (part s') (event e)

variable {M : Machine σ α ε} {N : Machine τ β δ} {part : σ → τ} {event : ε → Option δ}

/-- **Runs of the whole are runs of the component.** -/
theorem Component.runIf (hc : M.Component N part event) {D : List δ → τ → δ → Prop} {h : List ε}
    {s : σ} (hr : M.RunIf (OnPart part event D) h s) : N.RunIf D (h.filterMap event) (part s) := by
  induction hr with
  | start =>
      rw [hc.start]
      exact .start
  | @step h s s' a e hr hs hcond ih =>
      have hfollows := hc.step hr.run hs
      cases hevent : event e with
      | none =>
          rw [hevent] at hfollows
          rw [List.filterMap_cons_none hevent, show part s' = part s from hfollows]
          exact ih
      | some d =>
          rw [hevent] at hfollows
          obtain ⟨b, hb⟩ := hfollows
          rw [List.filterMap_cons_some hevent]
          exact .step ih hb (hcond d hevent)

theorem Component.run (hc : M.Component N part event) {h : List ε} {s : σ} (hr : M.Run h s) :
    N.Run (h.filterMap event) (part s) :=
  hc.runIf (hr.mono fun _ _ _ _ _ _ => trivial)

end AnyPlayerSync.Foundation.Machine
