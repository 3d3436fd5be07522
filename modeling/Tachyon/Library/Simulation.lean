import Mathlib.Logic.Basic

/-!
# Simulation between labelled systems

Two systems that make steps under the same labels. When every step of the first can be
followed by the second under a relation of their states, every run of the first is a run
of the second.
-/

namespace Simulation

variable {State State' Label : Type*}

/-- A run under a list of labels. -/
inductive Runs (step : State → Label → State → Prop) : State → List Label → State → Prop where
  | nil (s : State) : Runs step s [] s
  | cons {s s' s'' : State} {l : Label} {ls : List Label} (first : step s l s')
      (rest : Runs step s' ls s'') : Runs step s (l :: ls) s''

variable {step : State → Label → State → Prop} {step' : State' → Label → State' → Prop}
  {s s' : State} {t : State'} {ls : List Label}

/-- The second system can follow every step of the first, and the states stay related. -/
def Follows (step : State → Label → State → Prop) (step' : State' → Label → State' → Prop)
    (related : State → State' → Prop) : Prop :=
  ∀ s l s' t, related s t → step s l s' → ∃ t', step' t l t' ∧ related s' t'

/-- A system that can follow every step can follow every run. -/
theorem Follows.run {related : State → State' → Prop} (h : Follows step step' related)
    (hst : related s t) (hrun : Runs step s ls s') : ∃ t', Runs step' t ls t' ∧ related s' t' := by
  induction hrun generalizing t with
  | nil s => exact ⟨t, .nil t, hst⟩
  | cons first _ ih =>
    obtain ⟨t₁, hfirst, hrelated⟩ := h _ _ _ _ hst first
    obtain ⟨t', hrest, hlast⟩ := ih hrelated
    exact ⟨t', .cons hfirst hrest, hlast⟩

end Simulation
