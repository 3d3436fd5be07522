import Mathlib.Data.List.Basic

/-!
# A channel that keeps the last value

Senders replace the value and receivers look at it when they come round to it, so a receiver
may miss a value but never the last one. The receiver remembers how many values it has seen.
-/

namespace WatchChannel

/-- The value, how many were sent, and whether the last sender is gone. -/
structure Channel (α : Type) where
  value : α
  version : ℕ
  closed : Bool
  deriving DecidableEq

/-- What happens on the side of the senders. -/
inductive SenderEvent (α : Type) where
  | send (a : α)
  /-- The last sender is dropped. -/
  | close
  deriving DecidableEq

variable {α : Type}

/-- A step of the senders; nobody is left to take one on a closed channel. -/
def Channel.step (c : Channel α) : SenderEvent α → Option (Channel α)
  | .send a => if c.closed then none else some { c with value := a, version := c.version + 1 }
  | .close => if c.closed then none else some { c with closed := true }

/-- What a wait for a change finds. -/
inductive Change where
  | changed
  | closed
  | pending
  deriving DecidableEq

/-- A wait for a change by a receiver that has seen so many values: a new value is found first,
the end of the channel second. -/
def Channel.change (c : Channel α) (seen : ℕ) : Change :=
  if seen ≠ c.version then .changed else if c.closed then .closed else .pending

variable {c c' : Channel α} {seen : ℕ} {e : SenderEvent α}

theorem change_eq_changed : c.change seen = .changed ↔ seen ≠ c.version := by
  unfold Channel.change
  split_ifs <;> simp_all

theorem change_eq_closed : c.change seen = .closed ↔ seen = c.version ∧ c.closed = true := by
  unfold Channel.change
  split_ifs <;> simp_all

theorem change_eq_pending : c.change seen = .pending ↔ seen = c.version ∧ c.closed = false := by
  unfold Channel.change
  split_ifs <;> simp_all

/-- How many values a step sends. -/
def SenderEvent.sends : SenderEvent α → ℕ
  | .send _ => 1
  | .close => 0

theorem Channel.version_step (h : c.step e = some c') : c'.version = c.version + e.sends := by
  cases e <;> simp only [Channel.step] at h <;> split_ifs at h <;>
    exact Option.some.inj h ▸ rfl

/-- A step that sends nothing leaves the value. -/
theorem Channel.value_step (h : c.step e = some c') (he : e.sends = 0) : c'.value = c.value := by
  cases e with
  | send a => simp [SenderEvent.sends] at he
  | close =>
    simp only [Channel.step] at h
    split_ifs at h
    exact Option.some.inj h ▸ rfl

theorem Channel.closed_step (h : c.step e = some c') :
    c'.closed = true ↔ c.closed = true ∨ e = .close := by
  cases e <;> simp only [Channel.step] at h <;> split_ifs at h with hc <;>
    · obtain rfl := Option.some.inj h
      simp [hc]

/-- The senders can follow one another from one channel to the other, each step being allowed. -/
inductive Channel.Later (allowed : Channel α → SenderEvent α → Prop) :
    Channel α → Channel α → Prop where
  | refl (c : Channel α) : Later allowed c c
  | step {c c' c'' : Channel α} {e : SenderEvent α} (he : allowed c e) (h : c.step e = some c')
      (hlater : Later allowed c' c'') : Later allowed c c''

variable {allowed : Channel α → SenderEvent α → Prop} {c'' : Channel α}

theorem Channel.Later.trans (h : c.Later allowed c') (h' : c'.Later allowed c'') :
    c.Later allowed c'' := by
  induction h with
  | refl c => exact h'
  | step he hstep _ ih => exact .step he hstep (ih h')

/-- What every allowed step keeps, the senders keep. -/
theorem Channel.Later.preserves {P : Channel α → Prop}
    (hstep : ∀ c e c', allowed c e → c.step e = some c' → P c → P c') (h : c.Later allowed c')
    (hc : P c) : P c' := by
  induction h with
  | refl c => exact hc
  | step he hs _ ih => exact ih (hstep _ _ _ he hs hc)

end WatchChannel
