import Tachyon.Library.Resumption

/-!
# What a program asks for

A condition on the requests alone, which every request of a program meets whatever the world
has become when it is asked. Nothing is assumed of the others and nothing is owed to them.
-/

namespace Resumption

variable {Op : Type} {Ans : Op → Type} {α γ ε World : Type}
  {handle : (op : Op) → World → Ans op → World → Prop} {meets : Op → Prop}

/-- The requests meet a condition; the world may change at any time. -/
def asking (meets : Op → Prop) : Contract Op World where
  rely := fun _ _ => True
  guar := fun _ _ => True
  issue := fun op _ => meets op
  rely_refl := fun _ => trivial
  rely_trans := fun _ _ => trivial

/-- Every request of the program meets the condition, and a success is as said. -/
def Issues (handle : (op : Op) → World → Ans op → World → Prop) (meets : Op → Prop)
    (p : ExceptT ε (Prog Ans) α) (Q : α → Prop) : Prop :=
  ∀ w, Ensures handle (asking meets) p w (fun a _ => Q a) fun _ => True

variable {p : ExceptT ε (Prog Ans) α} {f : α → ExceptT ε (Prog Ans) γ} {Q Q' : α → Prop}
  {R : γ → Prop}

theorem Issues.mono (h : Issues handle meets p Q) (hQ : ∀ a, Q a → Q' a) :
    Issues handle meets p Q' := fun w => (h w).mono fun a _ => hQ a

theorem Issues.pure {a : α} (h : Q a) :
    Issues handle meets (pure a : ExceptT ε (Prog Ans) α) Q :=
  fun _ => Ensures.pure h fun _ _ _ h => h

theorem Issues.throw {e : ε} : Issues handle meets (throw e : ExceptT ε (Prog Ans) α) Q :=
  fun _ => Ensures.throw trivial fun _ _ _ h => h

theorem Issues.bind (h : Issues handle meets p Q) (hf : ∀ a, Q a → Issues handle meets (f a) R) :
    Issues handle meets (p >>= f) R :=
  fun w => (h w).bind (fun _ _ _ h => h) fun a w' ha => hf a ha w'

/-- A request is answered in some world. -/
theorem Issues.request {op : Op} (h : meets op) :
    Issues handle meets (request op : ExceptT ε (Prog Ans) (Ans op))
      fun x => ∃ w w', handle op w x w' := by
  intro w w' hrely
  refine ⟨h, fun x w'' hx => ⟨trivial, ?_⟩⟩
  intro w₃ hrely
  refine ⟨fun a ha => ?_, fun _ _ => trivial⟩
  cases ha
  exact ⟨w', w'', hx⟩

/-- The requests of a composition are those of its first part and some more. -/
theorem Issues.of_bind (h : Issues handle meets (p >>= f) R) :
    Issues handle meets p fun _ => True := by
  intro w
  have hw := h w
  unfold Ensures at hw ⊢
  change (p.run >>= ExceptT.bindCont f).Safe _ _ _ _ at hw
  generalize p.run = q at hw
  induction q generalizing w with
  | done a => exact fun _ _ => ⟨fun _ _ => trivial, fun _ _ => trivial⟩
  | call op k ih =>
    intro w' hrely
    obtain ⟨hissue, hnext⟩ := hw w' hrely
    exact ⟨hissue, fun x w'' hx => ⟨trivial, ih x w'' (hnext x w'' hx).2⟩⟩

/-- What follows a request is one composition. -/
theorem request_bind_assoc {op : Op} {f : Ans op → ExceptT ε (Prog Ans) α}
    {g : α → ExceptT ε (Prog Ans) γ} :
    ((Resumption.request op >>= f) >>= g) = Resumption.request op >>= fun x => f x >>= g := rfl

/-- The first request meets the condition. -/
theorem Issues.meets_of_request {op : Op} {f : Ans op → ExceptT ε (Prog Ans) γ}
    (h : Issues handle meets (Resumption.request op >>= f) R) (w : World) : meets op :=
  (h w w trivial).1

/-- What follows an answer that may be given meets the condition too. -/
theorem Issues.answer {op : Op} {f : Ans op → ExceptT ε (Prog Ans) γ} {x : Ans op} {w w' : World}
    (h : Issues handle meets (Resumption.request op >>= f) R) (hx : handle op w x w') :
    Issues handle meets (f x) R := by
  intro w₁
  have hnext : Ensures handle (asking meets) (f x) w' _ _ := ((h w w trivial).2 x w' hx).2
  exact Prog.Safe.rely hnext trivial

/-- Every request of a program meets the condition. -/
def Asks (handle : (op : Op) → World → Ans op → World → Prop) (meets : Op → Prop)
    (p : Prog Ans α) : Prop :=
  ∀ w, p.Safe handle (asking meets) (fun _ _ => True) w

theorem Asks.done (a : α) : Asks handle meets (.done a : Prog Ans α) := fun _ _ _ => trivial

theorem Asks.ask_bind {op : Op} {f : Ans op → Prog Ans α} (h : meets op)
    (hf : ∀ x, Asks handle meets (f x)) : Asks handle meets (Prog.ask op >>= f) :=
  fun _ _ _ => ⟨h, fun x w _ => ⟨trivial, hf x w⟩⟩

theorem Asks.bind {p : Prog Ans α} {f : α → Prog Ans γ} (h : Asks handle meets p)
    (hf : ∀ a, Asks handle meets (f a)) : Asks handle meets (p >>= f) :=
  fun w => (h w).bind fun a w' _ => hf a w'

theorem Issues.asks (h : Issues handle meets p Q) : Asks handle meets p.run :=
  fun w => Prog.Safe.mono (h w) fun _ _ _ => trivial

theorem Asks.meets_of_call {op : Op} {k : Ans op → Prog Ans α}
    (h : Asks handle meets (.call op k)) (w : World) : meets op := (h w w trivial).1

/-- What follows an answer meets the condition too. -/
theorem Asks.answer {op : Op} {k : Ans op → Prog Ans α} {x : Ans op} {w w' : World}
    (h : Asks handle meets (.call op k)) (hx : handle op w x w') : Asks handle meets (k x) :=
  fun _ => (((h w w trivial).2 x w' hx).2).rely trivial

end Resumption
