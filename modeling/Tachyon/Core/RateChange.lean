import Tachyon.Core.RateLimit

/-!
# A change of the rate

`update_rate` counts what the old rate has allowed since the base time as the new debt, and moves
the base time to the present. What had been asked for is forgotten, and what was allowed and not
used is owed.
-/

namespace Tachyon

open EventRuns

namespace RateLimiter

/-- What the rate has allowed since the base time. -/
def allowance (l : RateLimiter) (now : ℕ) : ℕ := allowed (elapsed now l.baselineNs) l.bytesPerSec

/-- The deficit in bytes, as `acquire` computes it. -/
def deficit (l : RateLimiter) (now : ℕ) : ℤ := l.debt - l.allowance now

/-- How long `acquire` sleeps for a deficit. -/
def waitFor (rate : ℕ) (deficit : ℤ) : ℕ := wait rate deficit.toNat 0

/-- How long a call of `acquire` sleeps that nothing interrupts. -/
def acquireWait (l : RateLimiter) (bytes now : ℕ) : ℕ :=
  if l.bytesPerSec = 0 ∨ bytes = 0 then 0
  else wait l.bytesPerSec (wrappingAdd l.debt bytes) (l.allowance now)

/-- `update_rate` to a positive rate, as a whole. -/
def updateRate (l : RateLimiter) (bytesPerSec now : ℕ) : RateLimiter where
  baselineNs := asI64 now
  debt := if l.bytesPerSec = 0 then 0 else l.allowance now
  bytesPerSec := bytesPerSec

/-- The deficit is the one before, and an `acquire` right after waits for it and its own bytes at
the new rate. -/
structure Continuous (before after : RateLimiter) (bytesPerSec now : ℕ) : Prop where
  deficit : after.deficit now = before.deficit now
  wait : ∀ bytes, 0 < bytes → after.debt + bytes < u64Bound →
    after.acquireWait bytes now = waitFor bytesPerSec (before.deficit now + bytes)

/-- Since the present no time has passed. -/
theorem elapsed_self (now : ℕ) : elapsed now (asI64 now) = 0 := by
  have hzero : saturatingSubI64 (asI64 now) (asI64 now) = 0 := by
    unfold saturatingSubI64
    omega
  simp only [elapsed, hzero, asU64, Int.zero_emod, Int.toNat_zero]

theorem allowance_updateRate (l : RateLimiter) (bytesPerSec now : ℕ) :
    (l.updateRate bytesPerSec now).allowance now = 0 := by
  simp only [allowance, updateRate, elapsed_self, allowed, Nat.zero_mul, Nat.zero_div,
    Nat.zero_mod]

/-- The deficit after an update is what the old rate has allowed. -/
theorem deficit_updateRate {l : RateLimiter} (hrate : 0 < l.bytesPerSec) (bytesPerSec now : ℕ) :
    (l.updateRate bytesPerSec now).deficit now = l.allowance now := by
  rw [deficit, allowance_updateRate, updateRate, if_neg (Nat.ne_of_gt hrate), Nat.cast_zero,
    sub_zero]

/-- An update keeps the deficit exactly where twice as much was asked for as was allowed. -/
theorem continuous_updateRate_iff {l : RateLimiter} {bytesPerSec now : ℕ}
    (hrate : 0 < l.bytesPerSec) (hbps : 0 < bytesPerSec) :
    Continuous l (l.updateRate bytesPerSec now) bytesPerSec now ↔
      l.debt = 2 * l.allowance now := by
  have hafter := deficit_updateRate hrate bytesPerSec now
  constructor
  · intro h
    have hkept := h.deficit
    rw [hafter, deficit] at hkept
    omega
  · intro h
    have hdeficit : l.deficit now = l.allowance now := by
      rw [deficit]
      omega
    refine ⟨by rw [hafter, hdeficit], fun bytes hbytes hrange => ?_⟩
    have hdebt : (l.updateRate bytesPerSec now).debt = l.allowance now :=
      if_neg (Nat.ne_of_gt hrate)
    have hnever : ¬(bytesPerSec = 0 ∨ bytes = 0) := by omega
    rw [acquireWait, allowance_updateRate, wrappingAdd_of_lt hrange, hdebt, waitFor, hdeficit]
    change (if bytesPerSec = 0 ∨ bytes = 0 then 0 else _) = _
    rw [if_neg hnever, ← Nat.cast_add, Int.toNat_natCast]
    rfl

end RateLimiter

namespace LimiterSystem

/-- A call of `update_rate` from its beginning to its end, after the measurement that asks for
it. -/
def updateCall (s : LimiterSystem) (bytesPerSec now : ℕ) : List LimiterEvent :=
  .complete bytesPerSec :: List.replicate 6 (.update s.updates.length now)

/-- A call of `acquire` up to its sleep. -/
def acquireCall (s : LimiterSystem) (bytes now : ℕ) : List LimiterEvent :=
  .acquire bytes :: List.replicate 3 (.call s.calls.length now)

section Calls

variable {limiter : RateLimiter} {clock time : ℕ} {calls : List AcquireCall}
  {updates : List UpdatePhase} {events : List LimiterEvent}

theorem run_last_update (u : UpdatePhase) :
    run step ⟨limiter, clock, calls, updates ++ [u]⟩ (.update updates.length time :: events) =
      (updateStep ⟨limiter, clock, calls, updates ++ [u]⟩ updates.length time u).bind fun s =>
        run step s events := by
  simp [run, step]

theorem run_last_call (c : AcquireCall) :
    run step ⟨limiter, clock, calls ++ [c], updates⟩ (.call calls.length time :: events) =
      (callStep ⟨limiter, clock, calls ++ [c], updates⟩ calls.length c time).bind fun s =>
        run step s events := by
  simp [run, step]

end Calls

variable {s s' : LimiterSystem} {bytesPerSec bytes now : ℕ}

/-- The operations of `update_rate` one after another are `update_rate`. -/
theorem run_updateCall (hbps : 0 < bytesPerSec)
    (h : run step s (s.updateCall bytesPerSec now) = some s') :
    s'.limiter = s.limiter.updateRate bytesPerSec now := by
  obtain ⟨limiter, clock, calls, updates⟩ := s
  have hpos : bytesPerSec ≠ 0 := Nat.ne_of_gt hbps
  rw [updateCall, run, step, if_pos hbps, Option.bind_some] at h
  simp only [List.replicate, run_last_update, updateStep, setUpdate, List.set_append_right,
    Nat.le_refl, Nat.sub_self, List.set_cons_zero, Option.bind_some, if_neg hpos,
    Option.bind_eq_bind, Option.bind_assoc] at h
  obtain ⟨-, h⟩ := guard_bind_eq_some.mp h
  obtain rfl := Option.some.inj h
  simp only [RateLimiter.updateRate, RateLimiter.allowance, RateLimiter.setBaseline]

/-- A call of `acquire` that nothing interrupts sleeps as long as `acquireWait` says. -/
theorem run_acquireCall (hrate : 0 < s.limiter.bytesPerSec) (hbytes : 0 < bytes)
    (h : run step s (s.acquireCall bytes now) = some s') :
    s'.calls = s.calls ++ [⟨bytes, .sleeping s.limiter.debt now
      (now + s.limiter.acquireWait bytes now)⟩] := by
  obtain ⟨limiter, clock, calls, updates⟩ := s
  have hnever : ¬(limiter.bytesPerSec = 0 ∨ bytes = 0) := by
    change 0 < limiter.bytesPerSec at hrate
    omega
  rw [acquireCall, run, step, if_neg hnever, Option.bind_some] at h
  simp only [List.replicate, run_last_call, callStep, setCall, List.set_append_right,
    Nat.le_refl, Nat.sub_self, List.set_cons_zero, Option.bind_some,
    Option.bind_eq_bind, Option.bind_assoc] at h
  obtain ⟨-, h⟩ := guard_bind_eq_some.mp h
  obtain rfl := Option.some.inj h
  simp only [RateLimiter.acquireWait, RateLimiter.allowance, if_neg hnever]

/-- In whatever state a limiter is, an update to another rate keeps the deficit, and the waits that
come of it, exactly where twice as much was asked for as the old rate has allowed. -/
theorem update_continuous_iff (s s' : LimiterSystem) (bytesPerSec now : ℕ)
    (hrate : 0 < s.limiter.bytesPerSec) (hbps : 0 < bytesPerSec)
    (h : run step s (s.updateCall bytesPerSec now) = some s') :
    s.limiter.Continuous s'.limiter bytesPerSec now ↔
      s.limiter.debt = 2 * s.limiter.allowance now := by
  rw [run_updateCall hbps h]
  exact RateLimiter.continuous_updateRate_iff hrate hbps

/-- A limiter that has been asked for two seconds' worth at once. -/
theorem update_continuous_iff_twice :
    let s : LimiterSystem := ⟨⟨-nanosPerSec, 200, 100⟩, 0, [], []⟩
    ∃ s', run step s (s.updateCall 50 0) = some s' ∧
      (s.limiter.Continuous s'.limiter 50 0 ↔ s.limiter.debt = 2 * s.limiter.allowance 0) := by
  intro s
  have hrun : (run step s (s.updateCall 50 0)).isSome = true := by decide +kernel
  obtain ⟨s', hs'⟩ := Option.isSome_iff_exists.mp hrun
  exact ⟨s', hs', update_continuous_iff s s' 50 0 (by decide) (by decide) hs'⟩

/-- A fresh limiter that nobody has used owes a second's worth after an update. -/
theorem idle_time_owed : ¬∀ (r : ℕ) (events : List LimiterEvent) (s s' : LimiterSystem)
    (bytesPerSec now : ℕ), run step (new r) events = some s → 0 < s.limiter.bytesPerSec →
      0 < bytesPerSec → run step s (s.updateCall bytesPerSec now) = some s' →
      s.limiter.Continuous s'.limiter bytesPerSec now := by
  intro h
  have hrun : (run step (new 100) ((new 100).updateCall 50 0)).isSome = true := by decide +kernel
  obtain ⟨s', hs'⟩ := Option.isSome_iff_exists.mp hrun
  have hcontinuous := h 100 [] (new 100) s' 50 0 rfl (by decide) (by decide) hs'
  rw [run_updateCall (by decide) hs',
    RateLimiter.continuous_updateRate_iff (by decide) (by decide)] at hcontinuous
  exact absurd hcontinuous (by decide +kernel)

end LimiterSystem

end Tachyon
