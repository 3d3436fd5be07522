import Tachyon.Library.Resumption
import Mathlib.Data.DFinsupp.WellFounded
import Mathlib.SetTheory.Ordinal.Rank

/-!
# What every run comes to

A property is inevitable when no run avoids it: no run stops before it holds and no
run goes on for ever without it. Programs are well-founded trees, so a pool of finitely
many of them has a variant that every answered request makes smaller.
-/

namespace Resumption

variable {Op : Type} {Ans : Op → Type} {α γ ε ι σ World : Type}

/-- Every run from the state comes to one with the property. -/
inductive Inevitable (step : σ → σ → Prop) (P : σ → Prop) : σ → Prop where
  | now {s : σ} (h : P s) : Inevitable step P s
  | later {s : σ} (hstep : ∃ s', step s s') (hall : ∀ s', step s s' → Inevitable step P s') :
      Inevitable step P s

section

variable {step : σ → σ → Prop} {P Q Inv : σ → Prop} {s s' : σ}

/-- States that can step as long as the property fails, under a variant that gets smaller. -/
theorem Inevitable.of_variant {V : Type*} {r : V → V → Prop} (hr : WellFounded r) (variant : σ → V)
    (hprogress : ∀ s, Inv s → P s ∨ ∃ s', step s s')
    (hstep : ∀ s s', Inv s → step s s' → P s' ∨ Inv s' ∧ r (variant s') (variant s))
    (hs : Inv s) : Inevitable step P s := by
  generalize hv : variant s = v
  induction v using hr.induction generalizing s with
  | _ v ih =>
    subst hv
    rcases hprogress s hs with hP | hnext
    · exact .now hP
    · refine .later hnext fun s' hs' => ?_
      rcases hstep s s' hs hs' with hP | ⟨hinv, hsmaller⟩
      · exact .now hP
      · exact ih _ hsmaller hinv rfl

theorem Inevitable.mono (h : Inevitable step P s) (hPQ : ∀ s, P s → Q s) :
    Inevitable step Q s := by
  induction h with
  | now h => exact .now (hPQ _ h)
  | later hstep _ ih => exact .later hstep ih

end

/-! ### The variant of a pool -/

/-- What a program goes on with once its request is answered. -/
inductive Prog.Next : Prog Ans α → Prog Ans α → Prop where
  | answer (op : Op) (k : Ans op → Prog Ans α) (x : Ans op) : Next (k x) (.call op k)

theorem Prog.next_wellFounded : WellFounded (Prog.Next : Prog Ans α → Prog Ans α → Prop) := by
  refine ⟨fun p => ?_⟩
  induction p with
  | done a => exact ⟨_, fun _ h => nomatch h⟩
  | call op k ih =>
    refine ⟨_, fun q h => ?_⟩
    cases h with
    | answer _ _ x => exact ih x

instance : IsWellFounded (Prog Ans α) Prog.Next := ⟨Prog.next_wellFounded⟩

/-- An ordinal that every answer makes smaller. -/
noncomputable def Prog.rank (p : Prog Ans α) : Ordinal := IsWellFounded.rank Prog.Next p

theorem Prog.rank_answer (op : Op) (k : Ans op → Prog Ans α) (x : Ans op) :
    (k x).rank < (Prog.call op k).rank :=
  IsWellFounded.rank_lt_of_rel (.answer op k x)

/-- The ranks of the programs of a pool. -/
noncomputable def poolRank (threads : ι → Prog Ans α) (i : ι) : Ordinal := (threads i).rank

/-- An answer makes the ranks of a pool smaller. -/
theorem poolRank_answer [DecidableEq ι] {threads : ι → Prog Ans α} {i : ι} {op : Op}
    {k : Ans op → Prog Ans α} (hi : threads i = .call op k) (x : Ans op) :
    poolRank (Function.update threads i (k x)) < poolRank threads := by
  have hlt : (k x).rank < (threads i).rank := hi ▸ Prog.rank_answer op k x
  refine Pi.lt_def.mpr ⟨fun j => ?_, i, ?_⟩
  · unfold poolRank
    by_cases hj : j = i
    · rw [hj, Function.update_self]
      exact hlt.le
    · rw [Function.update_of_ne hj]
  · unfold poolRank
    rwa [Function.update_self]

/-! ### Which requests a program makes -/

/-- Whatever the answers, the program makes no other requests. -/
def Prog.AsksOnly (allowed : Op → Prop) : Prog Ans α → Prop
  | .done _ => True
  | .call op k => allowed op ∧ ∀ x, (k x).AsksOnly allowed

/-- Under these answers the program takes a slot only while it holds none, and holds none
at its end. -/
def Prog.Brackets (answers : (op : Op) → Ans op → Prop) (takes gives : Op → Bool) :
    Bool → Prog Ans α → Prop
  | held, .done _ => held = false
  | held, .call op k => (takes op = true → held = false) ∧
      ∀ x, answers op x → (k x).Brackets answers takes gives (takes op || held && !gives op)

section

variable {allowed allowed' : Op → Prop} {answers : (op : Op) → Ans op → Prop}
  {takes gives : Op → Bool} {held : Bool}

theorem Prog.asksOnly_of_forall (h : ∀ op, allowed op) (p : Prog Ans α) : p.AsksOnly allowed := by
  induction p with
  | done a => exact trivial
  | call op k ih => exact ⟨h op, ih⟩

theorem Prog.AsksOnly.mono {p : Prog Ans α} (h : p.AsksOnly allowed)
    (himp : ∀ op, allowed op → allowed' op) : p.AsksOnly allowed' := by
  induction p with
  | done a => exact trivial
  | call op k ih => exact ⟨himp op h.1, fun x => ih x (h.2 x)⟩

theorem Prog.AsksOnly.ask_bind {op : Op} {f : Ans op → Prog Ans α} (h : allowed op)
    (hf : ∀ x, (f x).AsksOnly allowed) : (Prog.ask op >>= f).AsksOnly allowed := ⟨h, hf⟩

theorem Prog.AsksOnly.bind {p : Prog Ans α} {f : α → Prog Ans γ} (h : p.AsksOnly allowed)
    (hf : ∀ a, (f a).AsksOnly allowed) : (p >>= f).AsksOnly allowed := by
  induction p with
  | done a => exact hf a
  | call op k ih => exact ⟨h.1, fun x => ih x (h.2 x)⟩

theorem Prog.Brackets.ask_bind {op : Op} {f : Ans op → Prog Ans α}
    (h : takes op = true → held = false)
    (hf : ∀ x, answers op x → (f x).Brackets answers takes gives (takes op || held && !gives op)) :
    (Prog.ask op >>= f).Brackets answers takes gives held := ⟨h, hf⟩

/-- A part that has nothing to do with slots leaves the slot as it is. -/
theorem Prog.Brackets.bind {p : Prog Ans α} {f : α → Prog Ans γ}
    (h : p.AsksOnly fun op => takes op = false ∧ gives op = false)
    (hf : ∀ a, (f a).Brackets answers takes gives held) :
    (p >>= f).Brackets answers takes gives held := by
  induction p with
  | done a => exact hf a
  | call op k ih =>
    obtain ⟨⟨htakes, hgives⟩, hrest⟩ := h
    refine ⟨fun htakes' => by simp [htakes] at htakes', fun x _ => ?_⟩
    rw [htakes, hgives, Bool.not_false, Bool.and_true, Bool.false_or]
    exact ih x (hrest x)

end

/-- A failing program makes no other requests. -/
def AsksOnly (allowed : Op → Prop) (p : ExceptT ε (Prog Ans) α) : Prop := p.run.AsksOnly allowed

section

variable {allowed : Op → Prop}

theorem AsksOnly.pure (a : α) : AsksOnly allowed (pure a : ExceptT ε (Prog Ans) α) := trivial

theorem AsksOnly.throw (e : ε) : AsksOnly allowed (throw e : ExceptT ε (Prog Ans) α) := trivial

theorem AsksOnly.bind {p : ExceptT ε (Prog Ans) α} {f : α → ExceptT ε (Prog Ans) γ}
    (h : AsksOnly allowed p) (hf : ∀ a, AsksOnly allowed (f a)) : AsksOnly allowed (p >>= f) := by
  refine Prog.AsksOnly.bind h fun r => ?_
  cases r with
  | ok a => exact hf a
  | error e => exact trivial

theorem AsksOnly.request {op : Op} (h : allowed op) :
    AsksOnly allowed (request op : ExceptT ε (Prog Ans) (Ans op)) := ⟨h, fun _ => trivial⟩

end

/-! ### Programs that succeed -/

/-- Nothing is known of the others, and every request can be answered. -/
def Contract.answered (handle : (op : Op) → World → Ans op → World → Prop) :
    Contract Op World where
  rely := fun _ _ => True
  guar := fun _ _ => True
  issue := fun op w => ∃ x w', handle op w x w'
  rely_refl := fun _ => trivial
  rely_trans := fun _ _ => trivial

/-- Whatever the others do to the world, the program ends, and ends in `post`. -/
def Prog.Ends (handle : (op : Op) → World → Ans op → World → Prop) (p : Prog Ans α)
    (post : α → Prop) : Prop :=
  ∀ w, p.Safe handle (.answered handle) (fun a _ => post a) w

/-- The failing program ends with a success in `post`. -/
def Succeeds (handle : (op : Op) → World → Ans op → World → Prop)
    (p : ExceptT ε (Prog Ans) α) (post : α → Prop) : Prop :=
  p.run.Ends handle fun r => ∃ a, r = .ok a ∧ post a

section

variable {handle handle' : (op : Op) → World → Ans op → World → Prop} {post : α → Prop}
  {w w' : World}

theorem Prog.Ends.done {a : α} (h : post a) : (Prog.done a : Prog Ans α).Ends handle post :=
  fun _ _ _ => h

theorem Prog.Ends.of_done {a : α} (h : (Prog.done a : Prog Ans α).Ends handle post) (w : World) :
    post a :=
  (h w).post_of_done

theorem Prog.Ends.mono {post' : α → Prop} {p : Prog Ans α} (h : p.Ends handle post)
    (hpost : ∀ a, post a → post' a) : p.Ends handle post' :=
  fun w => (h w).mono fun a _ ha => hpost a ha

theorem Prog.Ends.bind {mid : α → Prop} {post : γ → Prop} {p : Prog Ans α} {f : α → Prog Ans γ}
    (h : p.Ends handle mid) (hf : ∀ a, mid a → (f a).Ends handle post) :
    (p >>= f).Ends handle post :=
  fun w => Prog.Safe.bind (h w) fun a w' ha => hf a ha w'

theorem Prog.Ends.ask_bind {op : Op} {f : Ans op → Prog Ans α}
    (hanswered : ∀ w, ∃ x w', handle op w x w')
    (hf : ∀ w x w', handle op w x w' → (f x).Ends handle post) :
    (Prog.ask op >>= f).Ends handle post :=
  fun _ w' _ => ⟨hanswered w', fun x w'' hx => ⟨trivial, hf w' x w'' hx w''⟩⟩

/-- A request of a program that ends can be answered, and the program goes on to its end. -/
theorem Prog.Ends.answer {op : Op} {k : Ans op → Prog Ans α}
    (h : (Prog.call op k).Ends handle post) (w : World) :
    (∃ x w', handle op w x w') ∧ ∀ x w', handle op w x w' → (k x).Ends handle post := by
  refine ⟨(h w w trivial).1, fun x w' hx w'' => ?_⟩
  have hrely : (Contract.answered handle).rely w' w'' := trivial
  exact ((h w w trivial).2 x w' hx).2.rely hrely

/-- A program whose requests can be answered has a run. -/
theorem Prog.Ends.exists_returns {p : Prog Ans α} (h : p.Ends handle post) (w : World) :
    ∃ a w', p.Returns handle w a w' ∧ post a := by
  induction p generalizing w with
  | done a => exact ⟨a, w, .done a w, (h w).post_of_done⟩
  | call op k ih =>
    obtain ⟨⟨x, w₁, hx⟩, hnext⟩ := h.answer w
    obtain ⟨a, w', hrun, hpost⟩ := ih x (hnext x w₁ hx) w₁
    exact ⟨a, w', .call hx hrun, hpost⟩

theorem Prog.Ends.returns {p : Prog Ans α} {a : α} (h : p.Ends handle post)
    (hrun : p.Returns handle w a w') : post a :=
  (h w).returns hrun

theorem Prog.Returns.mono {p : Prog Ans α} {a : α} (h : p.Returns handle w a w')
    (hhandle : ∀ op w x w', handle op w x w' → handle' op w x w') : p.Returns handle' w a w' := by
  induction h with
  | done a w => exact .done a w
  | call hx _ ih => exact .call (hhandle _ _ _ _ hx) ih

/-- A program that succeeds has a successful run. -/
theorem Succeeds.exists_yields {p : ExceptT ε (Prog Ans) α} (h : Succeeds handle p post)
    (w : World) : ∃ a w', Yields handle p w (.ok a) w' ∧ post a := by
  obtain ⟨r, w', hrun, a, rfl, hpost⟩ := Prog.Ends.exists_returns h w
  exact ⟨a, w', hrun, hpost⟩

theorem Succeeds.pure {a : α} (h : post a) :
    Succeeds handle (pure a : ExceptT ε (Prog Ans) α) post :=
  Prog.Ends.done ⟨a, rfl, h⟩

theorem Succeeds.mono {post' : α → Prop} {p : ExceptT ε (Prog Ans) α} (h : Succeeds handle p post)
    (hpost : ∀ a, post a → post' a) : Succeeds handle p post' :=
  Prog.Ends.mono h fun _ ⟨a, ha, hpost_a⟩ => ⟨a, ha, hpost a hpost_a⟩

theorem Succeeds.bind {mid : α → Prop} {post : γ → Prop} {p : ExceptT ε (Prog Ans) α}
    {f : α → ExceptT ε (Prog Ans) γ} (h : Succeeds handle p mid)
    (hf : ∀ a, mid a → Succeeds handle (f a) post) : Succeeds handle (p >>= f) post := by
  refine Prog.Ends.bind h ?_
  rintro r ⟨a, rfl, ha⟩
  exact hf a ha

theorem Succeeds.request_bind {op : Op} {f : Ans op → ExceptT ε (Prog Ans) α}
    (hanswered : ∀ w, ∃ x w', handle op w x w')
    (hf : ∀ w x w', handle op w x w' → Succeeds handle (f x) post) :
    Succeeds handle (request op >>= f) post :=
  Prog.Ends.ask_bind hanswered hf

end

end Resumption
