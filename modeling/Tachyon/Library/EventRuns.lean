import Mathlib.Data.Option.Basic

/-!
# Runs of an executable transition function

A system is a function from a state and an event to the next state, `none` where the
event cannot happen. Conditions on the steps and properties of the states of a run
are related here once, for any system.
-/

namespace EventRuns

variable {State Event : Type}

/-- The state after a list of events, if each of them can happen. -/
def run (step : State → Event → Option State) : State → List Event → Option State
  | s, [] => some s
  | s, e :: es => (step s e).bind fun s' => run step s' es

/-- Every step of the run meets a condition on its state and event. -/
def EachStep (step : State → Event → Option State) (C : State → Event → Prop) :
    State → List Event → Prop
  | _, [] => True
  | s, e :: es => ∀ s', step s e = some s' → C s e ∧ EachStep step C s' es

/-- Every state of the run has a property. -/
def EachState (step : State → Event → Option State) (P : State → Prop) :
    State → List Event → Prop
  | s, [] => P s
  | s, e :: es => P s ∧ ∀ s', step s e = some s' → EachState step P s' es

variable {step : State → Event → Option State} {C : State → Event → Prop}
  {Inv P : State → Prop} {s s' : State} {e : Event} {es es' : List Event}

instance EachStep.decidable [∀ s e, Decidable (C s e)] :
    (s : State) → (es : List Event) → Decidable (EachStep step C s es)
  | _, [] => isTrue trivial
  | s, e :: es =>
    match h : step s e with
    | none => isTrue fun s' hs' => by
        rw [h] at hs'
        cases hs'
    | some s₁ =>
      have : Decidable (EachStep step C s₁ es) := EachStep.decidable s₁ es
      decidable_of_iff (C s e ∧ EachStep step C s₁ es)
        ⟨fun hc s' hs' => by
          rw [h] at hs'
          cases hs'
          exact hc, fun hc => hc s₁ h⟩

/-- A guarded step happens when its guard holds. -/
theorem guard_bind_eq_some {α : Type} {p : Prop} [Decidable p] {x : Option α} {a : α} :
    (guard p >>= fun _ => x) = some a ↔ p ∧ x = some a := by
  by_cases h : p <;> simp [h, guard]

@[simp] theorem run_nil : run step s [] = some s := rfl

theorem run_cons : run step s (e :: es) = some s' ↔ ∃ s₁, step s e = some s₁ ∧
    run step s₁ es = some s' := Option.bind_eq_some_iff

theorem run_append : run step s (es ++ es') = (run step s es).bind fun s₁ => run step s₁ es' := by
  induction es generalizing s with
  | nil => rfl
  | cons e es ih =>
    simp only [List.cons_append, run]
    cases step s e with
    | none => rfl
    | some s₁ => exact ih

/-- What holds of the events of a run in any state holds of each of its steps. -/
theorem EachStep.of_mem (h : ∀ e ∈ es, ∀ s, C s e) : EachStep step C s es := by
  induction es generalizing s with
  | nil => exact trivial
  | cons e es ih =>
    exact fun s' _ => ⟨h e List.mem_cons_self s, ih fun e' he' => h e' (List.mem_cons_of_mem e he')⟩

/-- What holds of every step holds of each step of a run. -/
theorem EachStep.of_forall (h : ∀ s e, C s e) : EachStep step C s es :=
  .of_mem fun e _ s => h s e

/-- What holds of the events of a run holds of each of its steps. -/
theorem EachStep.and_of_mem {allowed : Event → Prop} (h : EachStep step C s es)
    (hallowed : ∀ e ∈ es, allowed e) : EachStep step (fun s e => allowed e ∧ C s e) s es := by
  induction es generalizing s with
  | nil => exact trivial
  | cons e es ih =>
    intro s₁ hs₁
    obtain ⟨hc, hrest⟩ := h s₁ hs₁
    exact ⟨⟨hallowed e List.mem_cons_self, hc⟩,
      ih hrest fun e' he' => hallowed e' (List.mem_cons_of_mem e he')⟩

/-- What every step that meets the condition preserves holds at the end of a run of such
steps. -/
theorem run_invariant (hstep : ∀ s e s', Inv s → C s e → step s e = some s' → Inv s')
    (hs : Inv s) (hsteps : EachStep step C s es) (hrun : run step s es = some s') : Inv s' := by
  induction es generalizing s with
  | nil =>
    obtain rfl := Option.some.inj hrun
    exact hs
  | cons e es ih =>
    obtain ⟨s₁, hs₁, hrun⟩ := run_cons.mp hrun
    obtain ⟨hc, hrest⟩ := hsteps s₁ hs₁
    exact ih (hstep s e s₁ hs hc hs₁) hrest hrun

/-- What every step that meets the condition preserves holds in every state of a run of such
steps. -/
theorem EachStep.eachState (hstep : ∀ s e s', Inv s → C s e → step s e = some s' → Inv s')
    (hs : Inv s) (hsteps : EachStep step C s es) : EachState step Inv s es := by
  induction es generalizing s with
  | nil => exact hs
  | cons e es ih =>
    refine ⟨hs, fun s₁ hs₁ => ?_⟩
    obtain ⟨hc, hrest⟩ := hsteps s₁ hs₁
    exact ih (hstep s e s₁ hs hc hs₁) hrest

theorem EachState.imp (h : EachState step Inv s es) (himp : ∀ s, Inv s → P s) :
    EachState step P s es := by
  induction es generalizing s with
  | nil => exact himp s h
  | cons e es ih => exact ⟨himp s h.1, fun s₁ hs₁ => ih (h.2 s₁ hs₁)⟩

/-- Where a second system can follow every step that meets the condition, it can follow every
run of such steps. -/
theorem run_follows {State' : Type} {step' : State' → Event → Option State'}
    {Related : State → State' → Prop}
    (hstep : ∀ s t e s', Inv s → Related s t → C s e → step s e = some s' →
      Inv s' ∧ ∃ t', step' t e = some t' ∧ Related s' t')
    (hs : Inv s) {t : State'} (hrelated : Related s t) (hsteps : EachStep step C s es)
    (hrun : run step s es = some s') : ∃ t', run step' t es = some t' ∧ Related s' t' := by
  induction es generalizing s t with
  | nil =>
    obtain rfl := Option.some.inj hrun
    exact ⟨t, rfl, hrelated⟩
  | cons e es ih =>
    obtain ⟨s₁, hs₁, hrun⟩ := run_cons.mp hrun
    obtain ⟨hc, hrest⟩ := hsteps s₁ hs₁
    obtain ⟨hinv, t₁, ht₁, hrelated⟩ := hstep s t e s₁ hs hrelated hc hs₁
    obtain ⟨t', ht', hlast⟩ := ih hinv hrelated hrest hrun
    exact ⟨t', run_cons.mpr ⟨t₁, ht₁, ht'⟩, hlast⟩

/-- A run in two parts has the steps of both. -/
theorem EachStep.append (h : EachStep step C s (es ++ es')) (hrun : run step s es = some s') :
    EachStep step C s es ∧ EachStep step C s' es' := by
  induction es generalizing s with
  | nil =>
    obtain rfl := Option.some.inj hrun
    exact ⟨trivial, h⟩
  | cons e es ih =>
    obtain ⟨s₁, hs₁, hrun⟩ := run_cons.mp hrun
    obtain ⟨hc, hrest⟩ := h s₁ hs₁
    obtain ⟨hfirst, hlast⟩ := ih hrest hrun
    refine ⟨fun s₂ hs₂ => ?_, hlast⟩
    obtain rfl := Option.some.inj (hs₁.symm.trans hs₂)
    exact ⟨hc, hfirst⟩

/-- A run whose two parts meet a condition meets it. -/
theorem EachStep.concat (h : EachStep step C s es)
    (hrest : ∀ s', run step s es = some s' → EachStep step C s' es') :
    EachStep step C s (es ++ es') := by
  induction es generalizing s with
  | nil => exact hrest s rfl
  | cons e es ih =>
    intro s₁ hs₁
    obtain ⟨hc, hfirst⟩ := h s₁ hs₁
    exact ⟨hc, ih hfirst fun s' hs' => hrest s' (run_cons.mpr ⟨s₁, hs₁, hs'⟩)⟩

/-- Under an invariant, one condition on the steps of a run follows from another. -/
theorem EachStep.imp {D : State → Event → Prop} (h : EachStep step C s es)
    (hstep : ∀ s e s', Inv s → C s e → step s e = some s' → D s e ∧ Inv s') (hs : Inv s) :
    EachStep step D s es := by
  induction es generalizing s with
  | nil => exact trivial
  | cons e es ih =>
    intro s₁ hs₁
    obtain ⟨hc, hrest⟩ := h s₁ hs₁
    obtain ⟨hd, hinv⟩ := hstep s e s₁ hs hc hs₁
    exact ⟨hd, ih hrest hinv⟩

/-- A property of every state, in the first state of the run. -/
theorem EachState.first (h : EachState step P s es) : P s := by
  cases es with
  | nil => exact h
  | cons e es => exact h.1

/-- A property of every state, in the last state of the run. -/
theorem EachState.last (h : EachState step P s es) (hrun : run step s es = some s') : P s' := by
  induction es generalizing s with
  | nil =>
    obtain rfl := Option.some.inj hrun
    exact h
  | cons e es ih =>
    obtain ⟨s₁, hs₁, hrun⟩ := run_cons.mp hrun
    exact ih (h.2 s₁ hs₁) hrun

/-- Where a step of the allowed events keeps the property exactly when it meets the
condition, a run of them keeps it in every state exactly when all its steps meet the
condition. -/
theorem eachState_iff_eachStep {allowed : Event → Prop}
    (hstep : ∀ s e s', allowed e → Inv s → P s → step s e = some s' → Inv s' ∧ (P s' ↔ C s e))
    (hallowed : ∀ e ∈ es, allowed e) (hs : Inv s) (hP : P s) :
    EachState step P s es ↔ EachStep step C s es := by
  induction es generalizing s with
  | nil => exact ⟨fun _ => trivial, fun _ => hP⟩
  | cons e es ih =>
    have he := hallowed e List.mem_cons_self
    have hrest : ∀ e' ∈ es, allowed e' := fun e' he' => hallowed e' (List.mem_cons_of_mem e he')
    constructor
    · rintro ⟨-, hafter⟩ s₁ hs₁
      obtain ⟨hinv, hiff⟩ := hstep s e s₁ he hs hP hs₁
      have hstates := hafter s₁ hs₁
      have hP₁ := hstates.first
      exact ⟨hiff.mp hP₁, (ih hrest hinv hP₁).mp hstates⟩
    · intro hsteps
      refine ⟨hP, fun s₁ hs₁ => ?_⟩
      obtain ⟨hc, hafter⟩ := hsteps s₁ hs₁
      obtain ⟨hinv, hiff⟩ := hstep s e s₁ he hs hP hs₁
      exact (ih hrest hinv (hiff.mpr hc)).mpr hafter

end EventRuns
