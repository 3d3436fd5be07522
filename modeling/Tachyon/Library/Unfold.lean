import Mathlib.Data.Nat.Notation

/-!
# Unfolded sequences

A step from a state gives an item and the next state, or nothing. The sequence unfolded from
a state has the items of the steps from there to the first that gives nothing; where every
step gives an item there is no end, and nothing is unfolded.
-/

namespace Unfold

variable {σ α : Type} {step : σ → Option (α × σ)} {s s' last last' : σ} {x : α}
  {items items' : List α}

/-- From a state on the steps give some items, and from the last state they give nothing. -/
inductive Unfolds (step : σ → Option (α × σ)) : σ → List α → σ → Prop where
  | done {s : σ} (hstep : step s = none) : Unfolds step s [] s
  | next {s s' last : σ} {x : α} {items : List α} (hstep : step s = some (x, s'))
      (hrest : Unfolds step s' items last) : Unfolds step s (x :: items) last

theorem unfolds_of_none (hstep : step s = none) :
    Unfolds step s items last ↔ items = [] ∧ last = s := by
  constructor
  · intro h
    cases h with
    | done _ => exact ⟨rfl, rfl⟩
    | next hnext _ => exact absurd (hstep.symm.trans hnext).symm (Option.some_ne_none _)
  · rintro ⟨rfl, rfl⟩
    exact .done hstep

theorem unfolds_of_some (hstep : step s = some (x, s')) :
    Unfolds step s items last ↔ ∃ rest, items = x :: rest ∧ Unfolds step s' rest last := by
  constructor
  · intro h
    cases h with
    | done hnone => exact absurd (hnone.symm.trans hstep).symm (Option.some_ne_none _)
    | next hnext hrest =>
      cases Option.some.inj (hstep.symm.trans hnext)
      exact ⟨_, rfl, hrest⟩
  · rintro ⟨rest, rfl, hrest⟩
    exact .next hstep hrest

/-- The items and the last state are determined. -/
theorem Unfolds.unique (h : Unfolds step s items last) (h' : Unfolds step s items' last') :
    items = items' ∧ last = last' := by
  induction h generalizing items' with
  | done hstep =>
    obtain ⟨rfl, rfl⟩ := (unfolds_of_none hstep).mp h'
    exact ⟨rfl, rfl⟩
  | next hstep _ ih =>
    obtain ⟨rest, rfl, hrest⟩ := (unfolds_of_some hstep).mp h'
    obtain ⟨rfl, rfl⟩ := ih hrest
    exact ⟨rfl, rfl⟩

end Unfold
