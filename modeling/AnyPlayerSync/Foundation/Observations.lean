import AnyPlayerSync.Foundation.Machine

/-!
# Observing a cell that only moves forward

A part of the state (the cell) holds at most one value. Events show values of the cell, and some
events write it. When every write moves the cell to a later value, everything that a run shows is
in order: a value shown later is the same value or a later one, and a write shows a strictly later
one (`Advances.ordered`).
-/

set_option autoImplicit false

namespace AnyPlayerSync.Foundation

universe u v w x

namespace Machine

variable {σ : Type u} {α : Type v} {ε : Type w} {ρ : Type x}

/-- Along the runs that meet `C`, the events `shown` show the contents of the cell right after
them, and only the events `write` change it, to a later value in the order `lt`. -/
structure Advances (M : Machine σ α ε) (C : List ε → σ → ε → Prop) (cell : σ → Option ρ)
    (shown : ε → Option ρ) (write : ε → Prop) (lt : ρ → ρ → Prop) : Prop where
  trans : ∀ {x y z}, lt x y → lt y z → lt x z
  keeps : ∀ {h s a s' e}, M.RunIf C h s → M.step s a = some (s', e) → C h s e → ¬ write e →
    cell s' = cell s ∧ ∀ x, shown e = some x → cell s = some x
  moves : ∀ {h s a s' e}, M.RunIf C h s → M.step s a = some (s', e) → C h s e → write e →
    ∃ y, cell s' = some y ∧ shown e = some y ∧ ∀ x, cell s = some x → lt x y

/-- The order of what two events show, the later one first. -/
def InOrder (shown : ε → Option ρ) (write : ε → Prop) (lt : ρ → ρ → Prop) (later earlier : ε) :
    Prop :=
  ∀ y x, shown later = some y → shown earlier = some x → lt x y ∨ (x = y ∧ ¬ write later)

variable {M : Machine σ α ε} {C : List ε → σ → ε → Prop} {cell : σ → Option ρ}
  {shown : ε → Option ρ} {write : ε → Prop} {lt : ρ → ρ → Prop}

/-- What a run has shown lies at or before the contents of the cell. -/
theorem Advances.shown_le (hA : M.Advances C cell shown write lt) {h : List ε} {s : σ}
    (hr : M.RunIf C h s) :
    ∀ e ∈ h, ∀ x, shown e = some x → ∃ y, cell s = some y ∧ (lt x y ∨ x = y) := by
  refine hr.invariant (I := fun h s => ∀ e ∈ h, ∀ x, shown e = some x →
    ∃ y, cell s = some y ∧ (lt x y ∨ x = y)) (fun e he => nomatch he) ?_
  intro h s a s' e hr ih hs hc e' he' x hx
  -- a write moves the cell past everything shown so far, any other event leaves it
  by_cases hw : write e
  · obtain ⟨y, hy, hey, hlt⟩ := hA.moves hr hs hc hw
    refine ⟨y, hy, ?_⟩
    rcases List.mem_cons.1 he' with rfl | he'
    · exact Or.inr (Option.some.inj (hx.symm.trans hey))
    · obtain ⟨z, hz, hxz⟩ := ih e' he' x hx
      rcases hxz with hxz | rfl
      · exact Or.inl (hA.trans hxz (hlt z hz))
      · exact Or.inl (hlt x hz)
  · obtain ⟨hcell, hshown⟩ := hA.keeps hr hs hc hw
    rw [hcell]
    rcases List.mem_cons.1 he' with rfl | he'
    · exact ⟨x, hshown x hx, Or.inr rfl⟩
    · exact ih e' he' x hx

/-- **Everything shown is in order.** -/
theorem Advances.ordered (hA : M.Advances C cell shown write lt) {h : List ε} {s : σ}
    (hr : M.RunIf C h s) : h.Pairwise (InOrder shown write lt) := by
  refine hr.invariant (I := fun h _ => h.Pairwise (InOrder shown write lt)) List.Pairwise.nil ?_
  intro h s a s' e hr ih hs hc
  refine List.Pairwise.cons (fun e' he' y x hy hx => ?_) ih
  obtain ⟨z, hz, hxz⟩ := hA.shown_le hr e' he' x hx
  by_cases hw : write e
  · obtain ⟨y', -, hy', hlt⟩ := hA.moves hr hs hc hw
    cases hy.symm.trans hy'
    rcases hxz with hxz | rfl
    · exact Or.inl (hA.trans hxz (hlt z hz))
    · exact Or.inl (hlt x hz)
  · obtain ⟨-, hshown⟩ := hA.keeps hr hs hc hw
    cases hz.symm.trans (hshown y hy)
    exact hxz.imp_right fun hxz => ⟨hxz, hw⟩

/-- Two events of an ordered history are one event, or related in one of the two orders. -/
theorem rel_of_mem {R : ε → ε → Prop} {h : List ε} (hR : h.Pairwise R) {e e' : ε} (he : e ∈ h)
    (he' : e' ∈ h) : R e e' ∨ R e' e ∨ e = e' := by
  induction hR with
  | nil => cases he
  | @cons first rest hfirst _ ih =>
      rcases List.mem_cons.1 he with h1 | h1 <;> rcases List.mem_cons.1 he' with h2 | h2
      · exact Or.inr (Or.inr (h1.trans h2.symm))
      · exact Or.inl (h1 ▸ hfirst e' h2)
      · exact Or.inr (Or.inl (h2 ▸ hfirst e h1))
      · exact ih h1 h2

end Machine

end AnyPlayerSync.Foundation
