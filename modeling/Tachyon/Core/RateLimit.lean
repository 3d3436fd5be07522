import Tachyon.Core.Machine
import Tachyon.Library.EventRuns
import Mathlib.Tactic.Linarith

/-!
# The rate limiter

`RateLimiter` counts what callers have asked for against what the rate has allowed since a base
time. Every atomic operation of `acquire` and `update_rate` is a step here, so that calls and
updates of any number of tasks interleave; a sleep lasts exactly as long as asked.
-/

namespace Tachyon

open EventRuns

/-- `RateLimiter`. Times are nanoseconds since its anchor. -/
structure RateLimiter where
  baselineNs : ℤ
  debt : ℕ
  bytesPerSec : ℕ

/-- A second, in nanoseconds. -/
def nanosPerSec : ℕ := 1000000000

/-- `MAX_ACQUIRE_WAIT_SECS`, in nanoseconds. -/
def maxAcquireWaitNs : ℕ := 5 * nanosPerSec

/-- `as i64`. -/
def asI64 (n : ℕ) : ℤ := (n : ℤ).bmod u64Bound

/-- `as u64`. -/
def asU64 (n : ℤ) : ℕ := (n % u64Bound).toNat

/-- `i64::saturating_sub`. -/
def saturatingSubI64 (a b : ℤ) : ℤ := max (-9223372036854775808) (min (a - b) 9223372036854775807)

namespace RateLimiter

def setBaseline (l : RateLimiter) (baselineNs : ℤ) : RateLimiter :=
  { l with baselineNs := baselineNs }

@[simp] theorem setBaseline_bytesPerSec (l : RateLimiter) (baselineNs : ℤ) :
    (l.setBaseline baselineNs).bytesPerSec = l.bytesPerSec := rfl

/-- `RateLimiter::new`. The base time is one second in the past. -/
def new (bytesPerSec : ℕ) : RateLimiter := ⟨-nanosPerSec, 0, bytesPerSec⟩

/-- The time since the base time. -/
def elapsed (now : ℕ) (baseline : ℤ) : ℕ := asU64 (saturatingSubI64 (asI64 now) baseline)

/-- The bytes that a rate allows in a time. -/
def allowed (elapsed rate : ℕ) : ℕ := elapsed * rate / nanosPerSec % u64Bound

/-- How long `acquire` sleeps. -/
def wait (rate totalDebt allowed : ℕ) : ℕ :=
  if totalDebt > allowed then
    let deficit := totalDebt - allowed
    let waitNs := deficit * nanosPerSec / rate % u64Bound
    min waitNs maxAcquireWaitNs
  else 0

end RateLimiter

/-- How far a call of `acquire` is. -/
inductive LimiterPhase where
  /-- The rate is loaded. -/
  | rated (rate : ℕ)
  /-- The bytes are added to the debt. -/
  | charged (rate oldDebt : ℕ)
  /-- The clock is read. -/
  | timed (rate oldDebt readAt : ℕ)
  /-- The base time is loaded, and the call sleeps, if it has to. -/
  | sleeping (oldDebt readAt deadline : ℕ)
  | returned (oldDebt readAt returnedAt : ℕ)

/-- A call of `acquire`. -/
structure AcquireCall where
  bytes : ℕ
  phase : LimiterPhase

/-- How far a call of `update_rate` is. -/
inductive UpdatePhase where
  | called (bytesPerSec : ℕ)
  /-- The old rate is loaded. -/
  | loaded (bytesPerSec oldRate : ℕ)
  /-- The clock is read. -/
  | timed (bytesPerSec oldRate now : ℕ)
  /-- The debt of the new base time is known. -/
  | converted (bytesPerSec now used : ℕ)
  /-- The base time is stored. -/
  | rebased (bytesPerSec used : ℕ)
  /-- The debt is stored. -/
  | settled (bytesPerSec : ℕ)
  | done

/-- The limiter and the calls of all tasks. -/
structure LimiterSystem where
  limiter : RateLimiter
  now : ℕ
  calls : List AcquireCall
  updates : List UpdatePhase

inductive LimiterEvent where
  /-- A task calls `acquire`, and the rate is loaded. -/
  | acquire (bytes : ℕ)
  /-- The next operation of a call of `acquire`. -/
  | call (k time : ℕ)
  /-- A fragment completes and its bandwidth is measured. -/
  | complete (bytesPerSec : ℕ)
  /-- The next operation of a call of `update_rate`. -/
  | update (k time : ℕ)

namespace LimiterSystem

def new (bytesPerSec : ℕ) : LimiterSystem := ⟨.new bytesPerSec, 0, [], []⟩

/-- A call goes on to its next phase. -/
def setCall (s : LimiterSystem) (k : ℕ) (c : AcquireCall) (phase : LimiterPhase) : LimiterSystem :=
  { s with calls := s.calls.set k { c with phase := phase } }

/-- The next operation of `acquire`. -/
def callStep (s : LimiterSystem) (k : ℕ) (c : AcquireCall) (time : ℕ) : Option LimiterSystem :=
  match c.phase with
  | .rated rate =>
    let s' := { s with
      limiter := { s.limiter with debt := wrappingAdd s.limiter.debt c.bytes } }
    some (s'.setCall k c (.charged rate s.limiter.debt))
  | .charged rate oldDebt => do
    guard (s.now ≤ time)
    some ({ s with now := time }.setCall k c (.timed rate oldDebt time))
  | .timed rate oldDebt readAt =>
    let elapsed := RateLimiter.elapsed readAt s.limiter.baselineNs
    let allowed := RateLimiter.allowed elapsed rate
    let totalDebt := wrappingAdd oldDebt c.bytes
    let deadline := readAt + RateLimiter.wait rate totalDebt allowed
    some (s.setCall k c (.sleeping oldDebt readAt deadline))
  | .sleeping oldDebt readAt deadline => do
    guard (s.now ≤ time ∧ time = deadline)
    some ({ s with now := time }.setCall k c (.returned oldDebt readAt time))
  | .returned _ _ _ => none

/-- An update goes on to its next phase. -/
def setUpdate (s : LimiterSystem) (k : ℕ) (u : UpdatePhase) : LimiterSystem :=
  { s with updates := s.updates.set k u }

/-- The next operation of `update_rate`. -/
def updateStep (s : LimiterSystem) (k : ℕ) (time : ℕ) : UpdatePhase → Option LimiterSystem
  | .called bytesPerSec => some (s.setUpdate k (.loaded bytesPerSec s.limiter.bytesPerSec))
  | .loaded bytesPerSec oldRate =>
    if bytesPerSec = 0 then
      let s' := { s with limiter := { s.limiter with bytesPerSec := 0 } }
      some (s'.setUpdate k .done)
    else do
      guard (s.now ≤ time)
      some ({ s with now := time }.setUpdate k (.timed bytesPerSec oldRate time))
  | .timed bytesPerSec oldRate now =>
    let used := if oldRate = 0 then 0
      else RateLimiter.allowed (RateLimiter.elapsed now s.limiter.baselineNs) oldRate
    some (s.setUpdate k (.converted bytesPerSec now used))
  | .converted bytesPerSec now used =>
    let s' := { s with limiter := s.limiter.setBaseline (asI64 now) }
    some (s'.setUpdate k (.rebased bytesPerSec used))
  | .rebased bytesPerSec used =>
    let s' := { s with limiter := { s.limiter with debt := used } }
    some (s'.setUpdate k (.settled bytesPerSec))
  | .settled bytesPerSec =>
    let s' := { s with limiter := { s.limiter with bytesPerSec := bytesPerSec } }
    some (s'.setUpdate k .done)
  | .done => none

/-- One atomic operation. A call for no bytes, or at no rate, returns at once, and a bandwidth of
zero is not fed back. -/
def step (s : LimiterSystem) : LimiterEvent → Option LimiterSystem
  | .acquire bytes =>
    let rate := s.limiter.bytesPerSec
    if rate = 0 ∨ bytes = 0 then some s
    else some { s with calls := s.calls ++ [⟨bytes, .rated rate⟩] }
  | .call k time => do s.callStep k (← s.calls[k]?) time
  | .complete bytesPerSec =>
    if bytesPerSec > 0 then some { s with updates := s.updates ++ [.called bytesPerSec] }
    else some s
  | .update k time => do s.updateStep k time (← s.updates[k]?)

end LimiterSystem

/-! ### The cap -/

/-- No update is for the rate zero. -/
def UpdatePhase.Positive : UpdatePhase → Prop
  | .called bytesPerSec | .loaded bytesPerSec _ | .timed bytesPerSec _ _
  | .converted bytesPerSec _ _ | .rebased bytesPerSec _ | .settled bytesPerSec => 0 < bytesPerSec
  | .done => True

namespace LimiterSystem

/-- A rate is in force, and it is at most the configured one. -/
def Capped (r : ℕ) (s : LimiterSystem) : Prop :=
  0 < s.limiter.bytesPerSec ∧ s.limiter.bytesPerSec ≤ r

def Positive (s : LimiterSystem) : Prop := ∀ u ∈ s.updates, u.Positive

/-- The bandwidth that `update_rate` stores, if the event is its store, is at most the rate. -/
def FeedsAtMost (r : ℕ) (s : LimiterSystem) : LimiterEvent → Prop
  | .update k _ => ∀ bytesPerSec, s.updates[k]? = some (.settled bytesPerSec) → bytesPerSec ≤ r
  | _ => True

section Steps

variable {s s' : LimiterSystem} {r k time : ℕ}

theorem callStep_spec {c : AcquireCall} (h : s.callStep k c time = some s') :
    s'.limiter.bytesPerSec = s.limiter.bytesPerSec ∧ s'.updates = s.updates := by
  unfold callStep at h
  split at h
  · cases h
    exact ⟨rfl, rfl⟩
  · obtain ⟨-, h⟩ := guard_bind_eq_some.mp h
    cases h
    exact ⟨rfl, rfl⟩
  · cases h
    exact ⟨rfl, rfl⟩
  · obtain ⟨-, h⟩ := guard_bind_eq_some.mp h
    cases h
    exact ⟨rfl, rfl⟩
  · cases h

/-- What an operation of `update_rate` for a bandwidth does to the rate. -/
theorem updateStep_spec {u : UpdatePhase} (hu : u.Positive) (h : s.updateStep k time u = some s') :
    (∃ u', u'.Positive ∧ s'.updates = s.updates.set k u') ∧
      ((∃ bytesPerSec, u = .settled bytesPerSec ∧ s'.limiter.bytesPerSec = bytesPerSec) ∨
        (∀ bytesPerSec, u ≠ .settled bytesPerSec) ∧
          s'.limiter.bytesPerSec = s.limiter.bytesPerSec) := by
  cases u with
  | called bytesPerSec =>
    obtain rfl := Option.some.inj h
    exact ⟨⟨.loaded bytesPerSec _, hu, rfl⟩, .inr ⟨by simp, rfl⟩⟩
  | loaded bytesPerSec oldRate =>
    have hpos : bytesPerSec ≠ 0 := Nat.ne_of_gt hu
    simp only [updateStep, if_neg hpos] at h
    obtain ⟨-, h⟩ := guard_bind_eq_some.mp h
    obtain rfl := Option.some.inj h
    exact ⟨⟨.timed bytesPerSec oldRate _, hu, rfl⟩, .inr ⟨by simp, rfl⟩⟩
  | timed bytesPerSec oldRate now =>
    obtain rfl := Option.some.inj h
    exact ⟨⟨.converted bytesPerSec now _, hu, rfl⟩, .inr ⟨by simp, rfl⟩⟩
  | converted bytesPerSec now used =>
    obtain rfl := Option.some.inj h
    exact ⟨⟨.rebased bytesPerSec used, hu, rfl⟩,
      .inr ⟨by simp, RateLimiter.setBaseline_bytesPerSec _ _⟩⟩
  | rebased bytesPerSec used =>
    obtain rfl := Option.some.inj h
    exact ⟨⟨.settled bytesPerSec, hu, rfl⟩, .inr ⟨by simp, rfl⟩⟩
  | settled bytesPerSec =>
    obtain rfl := Option.some.inj h
    exact ⟨⟨.done, trivial, rfl⟩, .inl ⟨bytesPerSec, rfl, rfl⟩⟩
  | done => cases h

/-- An operation keeps the cap if and only if it does not store a higher bandwidth. -/
theorem step_capped_iff {e : LimiterEvent} (hpos : s.Positive) (hcapped : s.Capped r)
    (h : s.step e = some s') : s'.Positive ∧ (s'.Capped r ↔ s.FeedsAtMost r e) := by
  cases e with
  | acquire bytes =>
    dsimp only [step] at h
    split at h
    · cases h
      exact ⟨hpos, iff_of_true hcapped trivial⟩
    · cases h
      exact ⟨hpos, iff_of_true hcapped trivial⟩
  | call k time =>
    obtain ⟨c, -, h⟩ := Option.bind_eq_some_iff.mp h
    obtain ⟨hrate, hupdates⟩ := callStep_spec h
    refine ⟨fun u hu => hpos u (hupdates ▸ hu), iff_of_true ?_ trivial⟩
    rwa [Capped, hrate]
  | complete bytesPerSec =>
    dsimp only [step] at h
    split at h
    case isTrue hmeasured =>
      cases h
      refine ⟨fun u hu => ?_, iff_of_true hcapped trivial⟩
      obtain hu | hu := List.mem_append.mp hu
      · exact hpos u hu
      · obtain rfl := List.mem_singleton.mp hu
        exact hmeasured
    case isFalse =>
      cases h
      exact ⟨hpos, iff_of_true hcapped trivial⟩
  | update k time =>
    obtain ⟨u, hu, h⟩ := Option.bind_eq_some_iff.mp h
    have hupos := hpos u (List.mem_of_getElem? hu)
    obtain ⟨⟨u', hu', hupdates⟩, hrate⟩ := updateStep_spec hupos h
    refine ⟨fun v hv => ?_, ?_⟩
    · rw [hupdates] at hv
      obtain hv | rfl := List.mem_or_eq_of_mem_set hv
      · exact hpos v hv
      · exact hu'
    · rw [FeedsAtMost, hu]
      obtain ⟨bytesPerSec, rfl, hrate⟩ | ⟨hother, hrate⟩ := hrate
      · rw [Capped, hrate]
        have hbps : 0 < bytesPerSec := hupos
        simp [hbps]
      · refine iff_of_true ?_ fun bytesPerSec hsettled =>
          absurd (Option.some.inj hsettled) (hother bytesPerSec)
        rwa [Capped, hrate]

end Steps

/-- In every interleaving of calls and updates the rate stays at most the configured one if and only
if no bandwidth that is fed back is above it. -/
theorem capped_iff_feedsAtMost (r : ℕ) (hr : 0 < r) (events : List LimiterEvent) :
    EachState step (Capped r) (new r) events ↔ EachStep step (FeedsAtMost r) (new r) events := by
  have hstep (s : LimiterSystem) (e : LimiterEvent) (s' : LimiterSystem) (_ : True)
      (hpos : s.Positive) (hcapped : s.Capped r) (h : s.step e = some s') :
      s'.Positive ∧ (s'.Capped r ↔ s.FeedsAtMost r e) := step_capped_iff hpos hcapped h
  exact eachState_iff_eachStep hstep (fun _ _ => trivial) (by simp [Positive, new])
    ⟨hr, Nat.le_refl r⟩

/-- A fragment measured at less than the rate is fed back. -/
theorem capped_iff_feedsAtMost_slower :
    EachState step (Capped 100) (new 100) (.complete 40 :: List.replicate 6 (.update 0 7)) ↔
      EachStep step (FeedsAtMost 100) (new 100)
        (.complete 40 :: List.replicate 6 (.update 0 7)) :=
  capped_iff_feedsAtMost 100 (by decide) _

/-- A fragment measured at ten times the configured rate raises it to that. -/
theorem rate_raised :
    ¬EachState step (Capped 100) (new 100)
      (.complete 1000 :: List.replicate 6 (.update 0 7)) := by
  intro h
  have hrun : (run step (new 100) (.complete 1000 :: List.replicate 6 (.update 0 7))).any
      (fun s => s.limiter.bytesPerSec = 1000) = true := by
    decide +kernel
  obtain ⟨s, hs, hrate⟩ := (Option.any_eq_true _ _).mp hrun
  have hcapped := (h.last hs).2
  have := of_decide_eq_true hrate
  omega

end LimiterSystem

end Tachyon
