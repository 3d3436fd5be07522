import Mathlib.Logic.Function.Basic
import Mathlib.Logic.Relation

/-!
# Programs that wait for answers

A program either is finished or asks its environment for something and goes on
with the answer. Several of them run interleaved over one shared world, one
answered request at a time. The rely and guarantee rules here reduce a statement
about every interleaving to one statement about each program alone.
-/

namespace Resumption

/-- A program over the requests `Op`, where request `op` is answered by an `Ans op`. -/
inductive Prog {Op : Type} (Ans : Op → Type) (α : Type) : Type where
  /-- Finished with a result. -/
  | done (a : α)
  /-- Ask `op` and go on with the answer. -/
  | call (op : Op) (k : Ans op → Prog Ans α)

variable {Op : Type} {Ans : Op → Type} {α γ ε ι σ World : Type}

/-- Sequential composition. -/
def Prog.bind : Prog Ans α → (α → Prog Ans γ) → Prog Ans γ
  | .done a, f => f a
  | .call op k, f => .call op fun x => (k x).bind f

instance : Monad (Prog Ans) where
  pure := .done
  bind := Prog.bind

@[simp] theorem Prog.pure_eq (a : α) : (pure a : Prog Ans α) = .done a := rfl

@[simp] theorem Prog.done_bind (a : α) (f : α → Prog Ans γ) : (.done a >>= f) = f a := rfl

@[simp] theorem Prog.call_bind (op : Op) (k : Ans op → Prog Ans α) (f : α → Prog Ans γ) :
    (.call op k >>= f) = .call op fun x => k x >>= f := rfl

theorem Prog.bind_assoc {δ : Type} (p : Prog Ans α) (f : α → Prog Ans γ) (g : γ → Prog Ans δ) :
    (p >>= f) >>= g = p >>= fun a => f a >>= g := by
  induction p with
  | done a => rfl
  | call op k ih => exact congrArg (Prog.call op) (funext ih)

/-- Ask and return the answer. -/
def Prog.ask (op : Op) : Prog Ans (Ans op) := .call op .done

/-- Ask from a program that can fail; the answer itself is no failure. -/
def request (op : Op) : ExceptT ε (Prog Ans) (Ans op) :=
  ExceptT.mk (.call op fun x => .done (.ok x))

/-- The result and the last state of a program answered by a fixed handler. -/
def Prog.exec (h : (op : Op) → σ → Ans op × σ) : Prog Ans α → σ → α × σ
  | .done a, s => (a, s)
  | .call op k, s => (k (h op s).1).exec h (h op s).2

theorem Prog.exec_bind (h : (op : Op) → σ → Ans op × σ) (p : Prog Ans α) (f : α → Prog Ans γ)
    (s : σ) : (p >>= f).exec h s = (f (p.exec h s).1).exec h (p.exec h s).2 := by
  induction p generalizing s with
  | done a => rfl
  | call op k ih => exact ih _ _

theorem Prog.exec_ask_bind (h : (op : Op) → σ → Ans op × σ) (op : Op) (f : Ans op → Prog Ans α)
    (s : σ) : (Prog.ask op >>= f).exec h s = (f (h op s).1).exec h (h op s).2 := rfl

/-- What every answer preserves, a whole run preserves. -/
theorem Prog.exec_preserves {h : (op : Op) → σ → Ans op × σ} {R : σ → σ → Prop}
    (hrefl : ∀ s, R s s) (htrans : ∀ {s s' s''}, R s s' → R s' s'' → R s s'')
    (hstep : ∀ op s, R s (h op s).2) (p : Prog Ans α) (s : σ) : R s (p.exec h s).2 := by
  induction p generalizing s with
  | done a => exact hrefl s
  | call op k ih => exact htrans (hstep op s) (ih _ _)

section

variable (handle : (op : Op) → World → Ans op → World → Prop)

/-- A program run alone from a world returns a value and leaves a world behind. -/
inductive Prog.Returns : Prog Ans α → World → α → World → Prop where
  | done (a : α) (w : World) : Returns (.done a) w a w
  | call {op : Op} {k : Ans op → Prog Ans α} {w w' w'' : World} {x : Ans op} {a : α}
      (hx : handle op w x w') (hk : Returns (k x) w' a w'') : Returns (.call op k) w a w''

/-- A program run alone and cut off, perhaps before it is finished, leaves a world behind. -/
inductive Prog.CutOff : Prog Ans α → World → World → Prop where
  | here (p : Prog Ans α) (w : World) : CutOff p w w
  | call {op : Op} {k : Ans op → Prog Ans α} {w w' w'' : World} {x : Ans op}
      (hx : handle op w x w') (hk : CutOff (k x) w' w'') : CutOff (.call op k) w w''

/-- One program of a pool has its request answered. -/
inductive PoolStep [DecidableEq ι] :
    (ι → Prog Ans α) × World → (ι → Prog Ans α) × World → Prop where
  | call {threads : ι → Prog Ans α} {w w' : World} {i : ι} {op : Op} {k : Ans op → Prog Ans α}
      {x : Ans op} (hi : threads i = .call op k) (hx : handle op w x w') :
      PoolStep (threads, w) (Function.update threads i (k x), w')

end

/-- What a program may count on and what it owes: `rely` is what the others do between
its steps, `guar` what each of its own steps does, `issue` what holds when it asks. -/
structure Contract (Op World : Type) where
  rely : World → World → Prop
  guar : World → World → Prop
  issue : Op → World → Prop
  rely_refl : ∀ w, rely w w
  rely_trans : ∀ {w w' w''}, rely w w' → rely w' w'' → rely w w''

variable {handle : (op : Op) → World → Ans op → World → Prop} {c : Contract Op World}

/-- The program keeps its contract from this world on and ends in `post`. -/
def Prog.Safe (handle : (op : Op) → World → Ans op → World → Prop) (c : Contract Op World)
    (post : α → World → Prop) : Prog Ans α → World → Prop
  | .done a, w => ∀ w', c.rely w w' → post a w'
  | .call op k, w => ∀ w', c.rely w w' →
      c.issue op w' ∧ ∀ x w'', handle op w' x w'' → c.guar w' w'' ∧ (k x).Safe handle c post w''

/-- Steps of the others do not break a contract. -/
theorem Prog.Safe.rely {post : α → World → Prop} {p : Prog Ans α} {w w' : World}
    (h : p.Safe handle c post w) (hrely : c.rely w w') : p.Safe handle c post w' := by
  cases p with
  | done a => exact fun w'' h' => h w'' (c.rely_trans hrely h')
  | call op k => exact fun w'' h' => h w'' (c.rely_trans hrely h')

theorem Prog.Safe.post_of_done {post : α → World → Prop} {a : α} {w : World}
    (h : (Prog.done a : Prog Ans α).Safe handle c post w) : post a w :=
  h w (c.rely_refl w)

theorem Prog.Safe.issue_of_call {post : α → World → Prop} {op : Op} {k : Ans op → Prog Ans α}
    {w : World} (h : (Prog.call op k).Safe handle c post w) : c.issue op w :=
  (h w (c.rely_refl w)).1

theorem Prog.Safe.mono {post post' : α → World → Prop} {p : Prog Ans α} {w : World}
    (h : p.Safe handle c post w) (hpost : ∀ a w, post a w → post' a w) :
    p.Safe handle c post' w := by
  induction p generalizing w with
  | done a => exact fun w' h' => hpost a w' (h w' h')
  | call op k ih =>
    intro w' hrely
    obtain ⟨hissue, hstep⟩ := h w' hrely
    exact ⟨hissue, fun x w'' hx => ⟨(hstep x w'' hx).1, ih x (hstep x w'' hx).2⟩⟩

theorem Prog.Safe.bind {mid : α → World → Prop} {post : γ → World → Prop} {p : Prog Ans α}
    {f : α → Prog Ans γ} {w : World} (h : p.Safe handle c mid w)
    (hf : ∀ a w, mid a w → (f a).Safe handle c post w) : (p >>= f).Safe handle c post w := by
  induction p generalizing w with
  | done a => exact hf a w h.post_of_done
  | call op k ih =>
    intro w' hrely
    obtain ⟨hissue, hstep⟩ := h w' hrely
    exact ⟨hissue, fun x w'' hx => ⟨(hstep x w'' hx).1, ih x (hstep x w'' hx).2⟩⟩

/-- A program that keeps its contract, run alone, ends in its postcondition. -/
theorem Prog.Safe.returns {post : α → World → Prop} {p : Prog Ans α} {w w' : World} {a : α}
    (h : p.Safe handle c post w) (hret : p.Returns handle w a w') : post a w' := by
  induction hret with
  | done a w => exact h.post_of_done
  | call hx hk ih => exact ih ((h _ (c.rely_refl _)).2 _ _ hx).2

/-- A program that nothing runs beside ends in what all its runs end in. -/
theorem Prog.Safe.and_returns {post Q : α → World → Prop} {p : Prog Ans α} {w : World}
    (halone : ∀ w w', c.rely w w' → w = w') (h : p.Safe handle c post w)
    (hret : ∀ a w', p.Returns handle w a w' → Q a w') :
    p.Safe handle c (fun a w' => post a w' ∧ Q a w') w := by
  induction p generalizing w with
  | done a =>
    intro w' hrely
    obtain rfl := halone w w' hrely
    exact ⟨h w hrely, hret a w (.done a w)⟩
  | call op k ih =>
    intro w' hrely
    obtain rfl := halone w w' hrely
    obtain ⟨hissue, hstep⟩ := h w hrely
    refine ⟨hissue, fun x w'' hx => ⟨(hstep x w'' hx).1, ih x (hstep x w'' hx).2 ?_⟩⟩
    exact fun a w' hrun => hret a w' (.call hx hrun)

/-- What a program guarantees of the world after each of its steps holds wherever it is cut
off. -/
theorem Prog.Safe.cutOff {post : α → World → Prop} {P : World → Prop} {p : Prog Ans α}
    {w w' : World} (h : p.Safe handle c post w) (hguar : ∀ w w', c.guar w w' → P w')
    (hcut : p.CutOff handle w w') (hw : P w) : P w' := by
  induction hcut with
  | here p w => exact hw
  | call hx _ ih =>
    obtain ⟨hstep, hnext⟩ := (h _ (c.rely_refl _)).2 _ _ hx
    exact ih hnext (hguar _ _ hstep)

/-- What every answer preserves, a program run alone preserves. -/
theorem Prog.Returns.preserves {P : World → Prop} {p : Prog Ans α} {w w' : World} {a : α}
    (hstep : ∀ op w x w', handle op w x w' → P w → P w') (h : p.Returns handle w a w')
    (hw : P w) : P w' := by
  induction h with
  | done a w => exact hw
  | call hx hk ih => exact ih (hstep _ _ _ _ hx hw)

/-- Every answer a fixed handler gives is one the world allows, so its run is a run. -/
theorem Prog.exec_returns {h : (op : Op) → World → Ans op × World}
    (hh : ∀ op w, handle op w (h op w).1 (h op w).2) (p : Prog Ans α) (w : World) :
    p.Returns handle w (p.exec h w).1 (p.exec h w).2 := by
  induction p generalizing w with
  | done a => exact .done a w
  | call op k ih => exact .call (hh op w) (ih _ _)

section Pool

variable [DecidableEq ι] {contracts : ι → Contract Op World} {posts : ι → α → World → Prop}
  {threads threads' : ι → Prog Ans α} {w w' : World}

/-- One step of a pool keeps every program's contract, when what each program
guarantees is what the others rely on. -/
theorem pool_step_safe
    (hcompat : ∀ i j w w', i ≠ j → (contracts i).guar w w' → (contracts j).rely w w')
    (hsafe : ∀ i, (threads i).Safe handle (contracts i) (posts i) w)
    (hstep : PoolStep handle (threads, w) (threads', w')) :
    (∃ i, (contracts i).guar w w') ∧
      ∀ i, (threads' i).Safe handle (contracts i) (posts i) w' := by
  cases hstep with
  | call hi hx =>
    rename_i i op k x
    have hown := hsafe i
    rw [hi] at hown
    obtain ⟨hguar, hnext⟩ := (hown w ((contracts i).rely_refl w)).2 x w' hx
    refine ⟨⟨i, hguar⟩, fun j => ?_⟩
    by_cases hij : j = i
    · subst hij
      rw [Function.update_self]
      exact hnext
    · rw [Function.update_of_ne hij]
      exact (hsafe j).rely (hcompat i j w w' (fun h => hij h.symm) hguar)

/-- Running one program of a pool alone to its end is a run of the pool. -/
theorem pool_returns {a : α} {i : ι} (hi : (threads i).Returns handle w a w') :
    Relation.ReflTransGen (PoolStep handle) (threads, w)
      (Function.update threads i (.done a), w') := by
  generalize hp : threads i = p at hi
  induction hi generalizing threads with
  | done a w =>
    have hsame : Function.update threads i (.done a) = threads := by
      rw [← hp, Function.update_eq_self]
    rw [hsame]
  | @call op k w w₁ w' x a hx _ ih =>
    have hrest := @ih (Function.update threads i (k x)) (Function.update_self _ _ _)
    rw [Function.update_idem] at hrest
    exact .head (PoolStep.call hp hx) hrest

/-- Running one program of a pool to its end, answered by a fixed handler, is a run of the pool. -/
theorem pool_exec {h : (op : Op) → World → Ans op × World}
    (hh : ∀ op w, handle op w (h op w).1 (h op w).2) (threads : ι → Prog Ans α) (i : ι)
    (w : World) : Relation.ReflTransGen (PoolStep handle) (threads, w)
      (Function.update threads i (.done ((threads i).exec h w).1), ((threads i).exec h w).2) :=
  pool_returns (Prog.exec_returns hh (threads i) w)

end Pool

/-! ### Programs that can fail -/

/-- The steps of the others do not falsify `P`. -/
def Contract.Stable (c : Contract Op World) (P : World → Prop) : Prop :=
  ∀ w w', c.rely w w' → P w → P w'

theorem ok_bind (a : α) (f : α → ExceptT ε (Prog Ans) γ) :
    ((pure a : ExceptT ε (Prog Ans) α) >>= f) = f a := rfl

theorem error_bind (e : ε) (f : α → ExceptT ε (Prog Ans) γ) :
    ((throw e : ExceptT ε (Prog Ans) α) >>= f) = throw e := rfl

/-- A failing program answered by a fixed handler. -/
def runWith (h : (op : Op) → σ → Ans op × σ) (p : ExceptT ε (Prog Ans) α) (s : σ) :
    Except ε α × σ := p.run.exec h s

section RunWith

variable {h : (op : Op) → σ → Ans op × σ} {s : σ}

@[simp] theorem runWith_pure (a : α) :
    runWith h (pure a : ExceptT ε (Prog Ans) α) s = (.ok a, s) := rfl

@[simp] theorem runWith_throw (e : ε) :
    runWith h (throw e : ExceptT ε (Prog Ans) α) s = (.error e, s) := rfl

@[simp] theorem runWith_request_bind (op : Op) (f : Ans op → ExceptT ε (Prog Ans) α) :
    runWith h (request op >>= f) s = runWith h (f (h op s).1) (h op s).2 := rfl

theorem runWith_bind_ok {p : ExceptT ε (Prog Ans) α} {f : α → ExceptT ε (Prog Ans) γ} {a : α}
    {s' : σ} (hp : runWith h p s = (.ok a, s')) : runWith h (p >>= f) s = runWith h (f a) s' := by
  have hbind := Prog.exec_bind h p.run (ExceptT.bindCont f) s
  rw [show p.run.exec h s = (.ok a, s') from hp] at hbind
  exact hbind

theorem runWith_bind_error {p : ExceptT ε (Prog Ans) α} {f : α → ExceptT ε (Prog Ans) γ} {e : ε}
    {s' : σ} (hp : runWith h p s = (.error e, s')) : runWith h (p >>= f) s = (.error e, s') := by
  have hbind := Prog.exec_bind h p.run (ExceptT.bindCont f) s
  rw [show p.run.exec h s = (.error e, s') from hp] at hbind
  exact hbind

end RunWith

/-- A failing program run alone ends with a result. -/
def Yields (handle : (op : Op) → World → Ans op → World → Prop) (p : ExceptT ε (Prog Ans) α)
    (w : World) (result : Except ε α) (w' : World) : Prop := p.run.Returns handle w result w'

section Yields

variable {w w' : World} {a : α}

theorem Prog.Returns.bind_inv {p : Prog Ans α} {f : α → Prog Ans γ} {c : γ}
    (h : (p >>= f).Returns handle w c w') :
    ∃ a w₁, p.Returns handle w a w₁ ∧ (f a).Returns handle w₁ c w' := by
  induction p generalizing w with
  | done a => exact ⟨a, w, .done a w, h⟩
  | call op k ih =>
    cases h with
    | call hx hk =>
      obtain ⟨a, w₁, hp, hf⟩ := ih _ hk
      exact ⟨a, w₁, .call hx hp, hf⟩

theorem Prog.Returns.bind {p : Prog Ans α} {f : α → Prog Ans γ} {c : γ} {w₁ : World}
    (hp : p.Returns handle w a w₁) (hf : (f a).Returns handle w₁ c w') :
    (p >>= f).Returns handle w c w' := by
  induction hp with
  | done a w => exact hf
  | call hx _ ih => exact .call hx (ih hf)

theorem yields_pure {b : α} :
    Yields handle (pure a : ExceptT ε (Prog Ans) α) w (.ok b) w' ↔ b = a ∧ w = w' := by
  constructor
  · intro h
    cases h
    exact ⟨rfl, rfl⟩
  · rintro ⟨rfl, rfl⟩
    exact .done _ _

theorem not_yields_throw {e : ε} : ¬Yields handle (throw e : ExceptT ε (Prog Ans) α) w (.ok a) w' :=
  fun h => by cases h

/-- A composition succeeds when both parts do. -/
theorem yields_bind {p : ExceptT ε (Prog Ans) α} {f : α → ExceptT ε (Prog Ans) γ} {c : γ} :
    Yields handle (p >>= f) w (.ok c) w' ↔
      ∃ a w₁, Yields handle p w (.ok a) w₁ ∧ Yields handle (f a) w₁ (.ok c) w' := by
  constructor
  · intro h
    obtain ⟨result, w₁, hp, hf⟩ := Prog.Returns.bind_inv h
    cases result with
    | ok a => exact ⟨a, w₁, hp, hf⟩
    | error e => cases hf
  · rintro ⟨a, w₁, hp, hf⟩
    exact Prog.Returns.bind hp hf

theorem yields_request {op : Op} {x : Ans op} :
    Yields handle (request op : ExceptT ε (Prog Ans) (Ans op)) w (.ok x) w' ↔
      handle op w x w' := by
  constructor
  · intro h
    cases h with
    | call hx hk =>
      cases hk
      exact hx
  · intro hx
    exact .call hx (.done _ _)

end Yields

/-- The failing program keeps its contract; a success ends in `post`, a failure in `fail`. -/
def Ensures (handle : (op : Op) → World → Ans op → World → Prop) (c : Contract Op World)
    (p : ExceptT ε (Prog Ans) α) (w : World) (post : α → World → Prop) (fail : World → Prop) :
    Prop :=
  p.run.Safe handle c (fun r w' => (∀ a, r = .ok a → post a w') ∧ ∀ e, r = .error e → fail w') w

section Ensures

variable {post : α → World → Prop} {fail : World → Prop} {w : World}

theorem Ensures.pure {a : α} (h : post a w) (hstable : c.Stable (post a)) :
    Ensures handle c (pure a : ExceptT ε (Prog Ans) α) w post fail := by
  intro w' hrely
  refine ⟨fun b hb => ?_, fun e he => nomatch he⟩
  cases hb
  exact hstable w w' hrely h

theorem Ensures.throw {e : ε} (h : fail w) (hstable : c.Stable fail) :
    Ensures handle c (throw e : ExceptT ε (Prog Ans) α) w post fail := by
  intro w' hrely
  refine ⟨fun b hb => ?_, fun _ _ => hstable w w' hrely h⟩
  cases hb

theorem Ensures.bind {mid : α → World → Prop} {post : γ → World → Prop}
    {p : ExceptT ε (Prog Ans) α} {f : α → ExceptT ε (Prog Ans) γ}
    (h : Ensures handle c p w mid fail) (hfail : c.Stable fail)
    (hf : ∀ a w, mid a w → Ensures handle c (f a) w post fail) :
    Ensures handle c (p >>= f) w post fail := by
  refine Prog.Safe.bind h fun r w' hr => ?_
  cases r with
  | ok a => exact hf a w' (hr.1 a rfl)
  | error e =>
    intro w'' hrely
    refine ⟨fun b hb => ?_, fun _ _ => hfail w' w'' hrely (hr.2 e rfl)⟩
    cases hb

/-- Asking and going on keeps the contract when going on from every allowed answer does. -/
theorem Ensures.request_bind {op : Op} {f : Ans op → ExceptT ε (Prog Ans) α}
    (h : ∀ w', c.rely w w' → c.issue op w' ∧ ∀ x w'', handle op w' x w'' →
      c.guar w' w'' ∧ Ensures handle c (f x) w'' post fail) :
    Ensures handle c (request op >>= f) w post fail := h

theorem Ensures.mono {post' : α → World → Prop} {p : ExceptT ε (Prog Ans) α}
    (h : Ensures handle c p w post fail) (hpost : ∀ a w, post a w → post' a w) :
    Ensures handle c p w post' fail :=
  Prog.Safe.mono h fun _ w hr => ⟨fun a ha => hpost a w (hr.1 a ha), hr.2⟩

end Ensures

end Resumption
