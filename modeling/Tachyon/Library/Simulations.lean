import Mathlib.Algebra.GroupWithZero.Nat

/-!
# Runs whose steps are not determined

A system answers each call in one of several ways. One system can answer as another
does where each answer can be followed by an equal one, for as long as what the calls
cost stays within a budget.
-/

namespace Simulations

variable {State Call Answer : Type}

/-- The answers that a list of calls may get. -/
inductive CanRun (step : State → Call → Answer → State → Prop) :
    State → List Call → List Answer → Prop
  | nil (s : State) : CanRun step s [] []
  | cons {s s' : State} {call : Call} {calls : List Call} {answer : Answer}
      {answers : List Answer} (first : step s call answer s')
      (rest : CanRun step s' calls answers) : CanRun step s (call :: calls) (answer :: answers)

/-- Every answer in one state can be given in the other, and the states stay related with what
is left of the budget. -/
def Follows (step : State → Call → Answer → State → Prop) (cost : Call → ℕ)
    (Related : ℕ → State → State → Prop) : Prop :=
  ∀ budget call answer s s' t, Related (cost call + budget) s t → step s call answer s' →
    ∃ t', step t call answer t' ∧ Related budget s' t'

variable {step : State → Call → Answer → State → Prop} {cost : Call → ℕ}
  {Related : ℕ → State → State → Prop} {s t : State} {calls : List Call} {answers : List Answer}

/-- Related states answer alike until the budget is spent. -/
theorem CanRun.follow (hfollows : Follows step cost Related) {budget : ℕ}
    (hrelated : Related ((calls.map cost).sum + budget) s t) (hrun : CanRun step s calls answers) :
    CanRun step t calls answers := by
  induction hrun generalizing t with
  | nil s => exact .nil t
  | @cons s s' call calls answer answers first rest ih =>
    rw [List.map_cons, List.sum_cons, Nat.add_assoc] at hrelated
    obtain ⟨t', ht', hnext⟩ := hfollows _ call answer s s' t hrelated first
    exact .cons ht' (ih hnext)

end Simulations
