import Tachyon.Core.RateLimit
import Tachyon.Library.DisjointIntervals

/-!
# What the limiter lets through in a window of time

At a fixed rate the debt is a line on which every call of `acquire` takes an interval, and the call
returns when the rate has come to its end, unless its wait is cut. Credit that nobody uses is never
lost.
-/

namespace Tachyon

open EventRuns DisjointIntervals

/-- What the limiter has granted since its base time, at a fixed rate. -/
def RateLimiter.granted (r readAt : ℕ) : ℕ := (readAt + nanosPerSec) * r / nanosPerSec

namespace AcquireCall

/-- The debt that the call found. -/
def oldDebt (c : AcquireCall) : Option ℕ :=
  match c.phase with
  | .rated _ => none
  | .charged _ oldDebt | .timed _ oldDebt _ | .sleeping oldDebt _ _ | .returned oldDebt _ _ =>
    some oldDebt

/-- When the call has returned. -/
def returnedAt (c : AcquireCall) : ℕ :=
  match c.phase with
  | .returned _ _ returnedAt => returnedAt
  | _ => 0

/-- What the call has added to the debt. -/
def owed (c : AcquireCall) : ℕ :=
  match c.phase with
  | .rated _ => 0
  | _ => c.bytes

/-- The call has returned inside the window. -/
def returnsWithin (start width : ℕ) (c : AcquireCall) : Bool :=
  match c.phase with
  | .returned _ _ returnedAt => start ≤ returnedAt && returnedAt ≤ start + width
  | _ => false

/-- The call has returned, and the wait it had to ask for is not above the maximum. -/
def uncut (r : ℕ) (c : AcquireCall) : Bool :=
  match c.phase with
  | .returned oldDebt readAt _ =>
    (oldDebt + c.bytes - RateLimiter.granted r readAt) * nanosPerSec / r ≤ maxAcquireWaitNs
  | _ => false

/-- The credit that the call found. -/
def unused (r : ℕ) (c : AcquireCall) : ℕ :=
  match c.phase with
  | .returned oldDebt readAt _ => RateLimiter.granted r readAt - oldDebt
  | _ => 0

/-- The clock of the call and what is granted at it fit in 64 bits. -/
def InRange (r : ℕ) (c : AcquireCall) : Prop :=
  ∀ oldDebt readAt returnedAt, c.phase = .returned oldDebt readAt returnedAt →
    readAt + nanosPerSec < 9223372036854775808 ∧ RateLimiter.granted r readAt < u64Bound

/-- The phases of a call at a fixed rate. -/
def AtRate (r : ℕ) (c : AcquireCall) : Prop :=
  match c.phase with
  | .rated rate | .charged rate _ | .timed rate _ _ => rate = r
  | .sleeping oldDebt readAt deadline | .returned oldDebt readAt deadline =>
    deadline = readAt + RateLimiter.wait r (wrappingAdd oldDebt c.bytes)
      (RateLimiter.allowed (RateLimiter.elapsed readAt (-nanosPerSec)) r)

end AcquireCall

namespace LimiterSystem

/-- The bytes of all calls. -/
def requested (s : LimiterSystem) : ℕ := (s.calls.map AcquireCall.bytes).sum

/-- No 64-bit quantity overflows. -/
def InRange (r : ℕ) (s : LimiterSystem) : Prop :=
  s.requested < u64Bound ∧ ∀ c ∈ s.calls, c.InRange r

/-- The calls that return inside the window. -/
def within (s : LimiterSystem) (start width : ℕ) : List AcquireCall :=
  s.calls.filter (AcquireCall.returnsWithin start width)

/-- Those of them whose wait is not cut. -/
def uncutWithin (s : LimiterSystem) (r start width : ℕ) : List AcquireCall :=
  (s.within start width).filter (AcquireCall.uncut r)

end LimiterSystem

/-- The limiter has a fixed rate. -/
def LimiterEvent.IsCall : LimiterEvent → Prop
  | .acquire _ | .call _ _ => True
  | .complete _ | .update _ _ => False

/-! ### One call -/

theorem RateLimiter.elapsed_new {readAt : ℕ}
    (h : readAt + nanosPerSec < 9223372036854775808) :
    elapsed readAt (-nanosPerSec) = readAt + nanosPerSec := by
  have hclock : asI64 readAt = readAt := by
    unfold asI64 u64Bound
    rw [Int.bmod_eq_of_le]
    · omega
    · omega
  unfold elapsed saturatingSubI64 asU64
  rw [hclock]
  unfold nanosPerSec u64Bound at *
  omega

namespace AcquireCall

variable {r oldDebt readAt returnedAt : ℕ} {c : AcquireCall}

theorem owed_le_bytes (c : AcquireCall) : c.owed ≤ c.bytes := by
  unfold owed
  split <;> omega

/-- A call that asked for a wait that is not cut has returned in time. -/
theorem timely {margin : ℕ} (hr : 0 < r) (hphase : c.phase = .returned oldDebt readAt returnedAt)
    (hrate : c.AtRate r) (hrange : c.InRange r) (huncut : c.uncut r = true)
    (hfits : oldDebt + c.bytes < u64Bound) (hbytes : c.bytes + 1 ≤ margin)
    (hunused : c.unused r + 1 ≤ margin) :
    (oldDebt + c.bytes) * nanosPerSec < (returnedAt + 1 + nanosPerSec) * r ∧
      (returnedAt + nanosPerSec) * r < (oldDebt + margin) * nanosPerSec := by
  obtain ⟨hclock, hgranted⟩ := hrange oldDebt readAt returnedAt hphase
  rw [AtRate, hphase] at hrate
  rw [uncut, hphase] at huncut
  rw [unused, hphase] at hunused
  have hdue := of_decide_eq_true huncut
  have hallowed : RateLimiter.allowed (RateLimiter.elapsed readAt (-nanosPerSec)) r =
      RateLimiter.granted r readAt := by
    rw [RateLimiter.elapsed_new hclock]
    exact Nat.mod_eq_of_lt hgranted
  dsimp only at hrate hunused
  rw [hallowed, wrappingAdd_of_lt hfits] at hrate
  have hunit : 0 < nanosPerSec := by decide
  have hlow : RateLimiter.granted r readAt * nanosPerSec ≤ (readAt + nanosPerSec) * r :=
    Nat.div_mul_le_self _ _
  have hhigh : (readAt + nanosPerSec) * r <
      (RateLimiter.granted r readAt + 1) * nanosPerSec := by
    rw [Nat.add_one_mul]
    exact Nat.lt_div_mul_add hunit
  by_cases hcredit : oldDebt + c.bytes ≤ RateLimiter.granted r readAt
  · have hwait : returnedAt = readAt := by
      rw [hrate, RateLimiter.wait, if_neg (by omega), Nat.add_zero]
    subst hwait
    constructor
    · calc (oldDebt + c.bytes) * nanosPerSec
          ≤ RateLimiter.granted r returnedAt * nanosPerSec := Nat.mul_le_mul_right _ hcredit
        _ ≤ (returnedAt + nanosPerSec) * r := hlow
        _ < (returnedAt + 1 + nanosPerSec) * r := Nat.mul_lt_mul_of_pos_right (by omega) hr
    · refine hhigh.trans_le (Nat.mul_le_mul_right _ ?_)
      omega
  · obtain ⟨deficit, hdeficit⟩ : ∃ d, oldDebt + c.bytes - RateLimiter.granted r readAt = d :=
      ⟨_, rfl⟩
    rw [hdeficit] at hdue
    have htotal : oldDebt + c.bytes = RateLimiter.granted r readAt + deficit := by omega
    have hwait : returnedAt = readAt + deficit * nanosPerSec / r := by
      have hsmall : deficit * nanosPerSec / r < u64Bound := by
        have : maxAcquireWaitNs < u64Bound := by decide
        omega
      rw [hrate, RateLimiter.wait, if_pos (by omega), hdeficit]
      dsimp only
      rw [Nat.mod_eq_of_lt hsmall, Nat.min_eq_left hdue]
    have hbelow : deficit * nanosPerSec < (deficit * nanosPerSec / r + 1) * r := by
      rw [Nat.add_one_mul]
      exact Nat.lt_div_mul_add hr
    have habove : deficit * nanosPerSec / r * r ≤ deficit * nanosPerSec := Nat.div_mul_le_self _ _
    constructor
    · calc (oldDebt + c.bytes) * nanosPerSec
          = RateLimiter.granted r readAt * nanosPerSec + deficit * nanosPerSec := by
            rw [htotal, Nat.add_mul]
        _ < (readAt + nanosPerSec) * r + (deficit * nanosPerSec / r + 1) * r := by omega
        _ = (returnedAt + 1 + nanosPerSec) * r := by
            rw [hwait, ← Nat.add_mul]
            congr 1
            omega
    · calc (returnedAt + nanosPerSec) * r
          = (readAt + nanosPerSec) * r + deficit * nanosPerSec / r * r := by
            rw [hwait, ← Nat.add_mul]
            congr 1
            omega
        _ < (RateLimiter.granted r readAt + 1) * nanosPerSec + deficit * nanosPerSec := by omega
        _ = (oldDebt + c.bytes + 1) * nanosPerSec := by
            rw [htotal, ← Nat.add_mul]
            congr 1
            omega
        _ ≤ (oldDebt + margin) * nanosPerSec := Nat.mul_le_mul_right _ (by omega)

end AcquireCall

/-! ### The debt of all calls -/

/-- A sum over a list of which one entry has changed. -/
theorem sum_map_set {α : Type} {l : List α} {k : ℕ} {a b : α} (f : α → ℕ) (h : l[k]? = some a) :
    ((l.set k b).map f).sum + f a = (l.map f).sum + f b := by
  induction l generalizing k with
  | nil => cases h
  | cons x l ih =>
    cases k with
    | zero =>
      obtain rfl := Option.some.inj h
      simp only [List.set_cons_zero, List.map_cons, List.sum_cons]
      omega
    | succ k =>
      have := ih h
      simp only [List.set_cons_succ, List.map_cons, List.sum_cons]
      omega

namespace LimiterSystem

/-- At a fixed rate, and while the debt has not overflowed, the calls have intervals of their own on
it. -/
structure Accounted (r : ℕ) (s : LimiterSystem) : Prop where
  rate : s.limiter.bytesPerSec = r
  baseline : s.limiter.baselineNs = -nanosPerSec
  debt : s.limiter.debt = (s.calls.map AcquireCall.owed).sum
  calls : ∀ c ∈ s.calls, c.AtRate r ∧ 0 < c.bytes
  ends : ∀ c ∈ s.calls, ∀ d, c.oldDebt = some d → d + c.bytes ≤ s.limiter.debt
  apart : ∀ (i j : ℕ) (c c' : AcquireCall), i ≠ j → s.calls[i]? = some c →
    s.calls[j]? = some c' → ∀ d d', c.oldDebt = some d → c'.oldDebt = some d' →
      d + c.bytes ≤ d' ∨ d' + c'.bytes ≤ d

theorem accounted_new (r : ℕ) : (new r).Accounted r where
  rate := rfl
  baseline := rfl
  debt := rfl
  calls := by simp [new]
  ends := by simp [new]
  apart := by simp [new]

section Steps

variable {s s' : LimiterSystem} {r k time : ℕ} {c : AcquireCall}

/-- An entry of a list of which one entry has changed. -/
theorem getElem?_set_cases {α : Type} {l : List α} {i : ℕ} {a b : α}
    (h : (l.set k b)[i]? = some a) : (i = k ∧ a = b) ∨ (i ≠ k ∧ l[i]? = some a) := by
  by_cases hi : i = k
  · subst hi
    obtain ⟨hlt, heq⟩ := List.getElem?_eq_some_iff.mp h
    rw [List.getElem_set_self] at heq
    exact .inl ⟨rfl, heq.symm⟩
  · rw [List.getElem?_set_ne (Ne.symm hi)] at h
    exact .inr ⟨hi, h⟩

/-- A call that goes on without a change of its debt. -/
theorem Accounted.setCall {phase : LimiterPhase} {now : ℕ} (h : s.Accounted r)
    (hc : s.calls[k]? = some c) (hrate : AcquireCall.AtRate r { c with phase := phase })
    (hdebt : AcquireCall.oldDebt { c with phase := phase } = c.oldDebt)
    (howed : AcquireCall.owed { c with phase := phase } = c.owed) :
    (LimiterSystem.setCall { s with now := now } k c phase).Accounted r := by
  have hmem := List.mem_of_getElem? hc
  refine ⟨h.rate, h.baseline, ?_, fun c' hc' => ?_, fun c' hc' d hd => ?_, ?_⟩
  · have hsum := sum_map_set AcquireCall.owed hc (b := { c with phase := phase })
    rw [howed] at hsum
    exact h.debt.trans (by simp only [LimiterSystem.setCall]; omega)
  · obtain hc' | rfl := List.mem_or_eq_of_mem_set hc'
    · exact h.calls c' hc'
    · exact ⟨hrate, (h.calls c hmem).2⟩
  · obtain hc' | rfl := List.mem_or_eq_of_mem_set hc'
    · exact h.ends c' hc' d hd
    · exact h.ends c hmem d (hdebt.symm.trans hd)
  · intro i j c₁ c₂ hij h₁ h₂ d d' hd hd'
    obtain ⟨rfl, rfl⟩ | ⟨-, hc₁⟩ := getElem?_set_cases h₁
    · obtain ⟨rfl, rfl⟩ | ⟨-, hc₂⟩ := getElem?_set_cases h₂
      · exact absurd rfl hij
      · exact h.apart i j c c₂ hij hc hc₂ d d' (hdebt.symm.trans hd) hd'
    · obtain ⟨rfl, rfl⟩ | ⟨-, hc₂⟩ := getElem?_set_cases h₂
      · exact h.apart i j c₁ c hij hc₁ hc d d' hd (hdebt.symm.trans hd')
      · exact h.apart i j c₁ c₂ hij hc₁ hc₂ d d' hd hd'

theorem owed_sum_le_requested : (s.calls.map AcquireCall.owed).sum ≤ s.requested :=
  List.sum_le_sum fun c _ => c.owed_le_bytes

/-- What a call does not owe yet is requested beside what is owed. -/
theorem owed_add_le_requested (hc : s.calls[k]? = some c) (howed : c.owed = 0) :
    (s.calls.map AcquireCall.owed).sum + c.bytes ≤ s.requested := by
  unfold requested
  generalize s.calls = calls at hc
  induction calls generalizing k with
  | nil => cases hc
  | cons c' calls ih =>
    have hrest : (calls.map AcquireCall.owed).sum ≤ (calls.map AcquireCall.bytes).sum :=
      List.sum_le_sum fun c'' _ => c''.owed_le_bytes
    have hfirst := c'.owed_le_bytes
    simp only [List.map_cons, List.sum_cons]
    cases k with
    | zero =>
      obtain rfl := Option.some.inj hc
      omega
    | succ k =>
      have := ih hc
      omega

/-- A call takes the next interval. -/
theorem Accounted.charge {rate : ℕ} (h : s.Accounted r) (hc : s.calls[k]? = some c)
    (hphase : c.phase = .rated rate) (hfits : s.requested < u64Bound) :
    (LimiterSystem.setCall
      { s with limiter := { s.limiter with debt := wrappingAdd s.limiter.debt c.bytes } }
      k c (.charged rate s.limiter.debt)).Accounted r := by
  have hmem := List.mem_of_getElem? hc
  have hrate : c.AtRate r := (h.calls c hmem).1
  have howed : c.owed = 0 := by rw [AcquireCall.owed, hphase]
  have hnext : wrappingAdd s.limiter.debt c.bytes = s.limiter.debt + c.bytes := by
    refine wrappingAdd_of_lt ?_
    have := owed_add_le_requested hc howed
    rw [h.debt]
    omega
  have hends (c' : AcquireCall) (hc' : c' ∈ s.calls) (d : ℕ) (hd : c'.oldDebt = some d) :=
    h.ends c' hc' d hd
  refine ⟨h.rate, h.baseline, ?_, fun c' hc' => ?_, fun c' hc' d hd => ?_, ?_⟩
  · have hsum := sum_map_set AcquireCall.owed hc
      (b := { c with phase := .charged rate s.limiter.debt })
    rw [howed] at hsum
    have hdebt := h.debt
    simp only [LimiterSystem.setCall, hnext]
    simp only [AcquireCall.owed] at hsum hdebt ⊢
    omega
  · obtain hc' | rfl := List.mem_or_eq_of_mem_set hc'
    · exact h.calls c' hc'
    · rw [AcquireCall.AtRate, hphase] at hrate
      exact ⟨hrate, (h.calls c hmem).2⟩
  · simp only [LimiterSystem.setCall, hnext]
    obtain hc' | rfl := List.mem_or_eq_of_mem_set hc'
    · have := hends c' hc' d hd
      omega
    · obtain rfl := Option.some.inj hd
      exact Nat.le_refl _
  · intro i j c₁ c₂ hij h₁ h₂ d d' hd hd'
    obtain ⟨rfl, rfl⟩ | ⟨-, hc₁⟩ := getElem?_set_cases h₁
    · obtain ⟨rfl, rfl⟩ | ⟨-, hc₂⟩ := getElem?_set_cases h₂
      · exact absurd rfl hij
      · obtain rfl := Option.some.inj hd
        exact .inr (hends c₂ (List.mem_of_getElem? hc₂) d' hd')
    · obtain ⟨rfl, rfl⟩ | ⟨-, hc₂⟩ := getElem?_set_cases h₂
      · obtain rfl := Option.some.inj hd'
        exact .inl (hends c₁ (List.mem_of_getElem? hc₁) d hd)
      · exact h.apart i j c₁ c₂ hij hc₁ hc₂ d d' hd hd'

theorem requested_setCall {phase : LimiterPhase} (hc : s.calls[k]? = some c) :
    (s.setCall k c phase).requested = s.requested := by
  have hsum := sum_map_set AcquireCall.bytes hc (b := { c with phase := phase })
  exact Nat.add_right_cancel hsum

/-- No step takes back what is requested. -/
theorem requested_mono {e : LimiterEvent} (he : e.IsCall) (h : s.step e = some s') :
    s.requested ≤ s'.requested := by
  cases e with
  | complete | update => exact he.elim
  | acquire bytes =>
    dsimp only [LimiterSystem.step] at h
    split at h
    · obtain rfl := Option.some.inj h
      exact Nat.le_refl _
    · obtain rfl := Option.some.inj h
      simp [requested]
  | call k time =>
    obtain ⟨c, hc, h⟩ := Option.bind_eq_some_iff.mp h
    refine Nat.le_of_eq ?_
    unfold callStep at h
    split at h
    · obtain rfl := Option.some.inj h
      exact (requested_setCall hc).symm
    · obtain ⟨-, h⟩ := guard_bind_eq_some.mp h
      obtain rfl := Option.some.inj h
      exact (requested_setCall hc).symm
    · obtain rfl := Option.some.inj h
      exact (requested_setCall hc).symm
    · obtain ⟨-, h⟩ := guard_bind_eq_some.mp h
      obtain rfl := Option.some.inj h
      exact (requested_setCall hc).symm
    · cases h

/-- A call begins. -/
theorem Accounted.acquire {bytes : ℕ} (h : s.Accounted r) (hbytes : bytes ≠ 0) :
    Accounted r { s with calls := s.calls ++ [⟨bytes, .rated s.limiter.bytesPerSec⟩] } := by
  have hcases {i : ℕ} {c : AcquireCall} {d : ℕ}
      (hc : (s.calls ++ [⟨bytes, .rated s.limiter.bytesPerSec⟩])[i]? = some c)
      (hd : c.oldDebt = some d) : s.calls[i]? = some c := by
    obtain hlt | hge := Nat.lt_or_ge i s.calls.length
    · rwa [List.getElem?_append_left hlt] at hc
    · rw [List.getElem?_append_right hge] at hc
      obtain rfl := List.mem_singleton.mp (List.mem_of_getElem? hc)
      cases hd
  refine ⟨h.rate, h.baseline, ?_, fun c hc => ?_, fun c hc d hd => ?_, ?_⟩
  · rw [h.debt]
    simp [AcquireCall.owed]
  · obtain hc | hc := List.mem_append.mp hc
    · exact h.calls c hc
    · obtain rfl := List.mem_singleton.mp hc
      exact ⟨h.rate, Nat.pos_of_ne_zero hbytes⟩
  · obtain hc | hc := List.mem_append.mp hc
    · exact h.ends c hc d hd
    · obtain rfl := List.mem_singleton.mp hc
      cases hd
  · intro i j c c' hij hc hc' d d' hd hd'
    exact h.apart i j c c' hij (hcases hc hd) (hcases hc' hd') d d' hd hd'

theorem Accounted.step {e : LimiterEvent} (he : e.IsCall)
    (hinv : s.requested < u64Bound → s.Accounted r) (h : s.step e = some s') :
    s'.requested < u64Bound → s'.Accounted r := by
  intro hfits
  have hbefore := (requested_mono he h).trans_lt hfits
  have hs := hinv hbefore
  cases e with
  | complete | update => exact he.elim
  | acquire bytes =>
    dsimp only [LimiterSystem.step] at h
    split at h
    · obtain rfl := Option.some.inj h
      exact hs
    case isFalse hsome =>
      obtain rfl := Option.some.inj h
      exact hs.acquire fun hbytes => hsome (.inr hbytes)
  | call k time =>
    obtain ⟨c, hc, h⟩ := Option.bind_eq_some_iff.mp h
    have hrate := (hs.calls c (List.mem_of_getElem? hc)).1
    cases hphase : c.phase with
    | rated rate =>
      rw [callStep, hphase] at h
      obtain rfl := Option.some.inj h
      exact hs.charge hc hphase hbefore
    | charged rate oldDebt =>
      rw [callStep, hphase] at h
      obtain ⟨-, h⟩ := guard_bind_eq_some.mp h
      obtain rfl := Option.some.inj h
      rw [AcquireCall.AtRate, hphase] at hrate
      refine hs.setCall hc hrate ?_ ?_
      · rw [AcquireCall.oldDebt, AcquireCall.oldDebt, hphase]
      · rw [AcquireCall.owed, AcquireCall.owed, hphase]
    | timed rate oldDebt readAt =>
      rw [callStep, hphase] at h
      obtain rfl := Option.some.inj h
      rw [AcquireCall.AtRate, hphase] at hrate
      obtain rfl : rate = r := hrate
      refine hs.setCall hc ?_ ?_ ?_
      · rw [AcquireCall.AtRate, hs.baseline]
      · rw [AcquireCall.oldDebt, AcquireCall.oldDebt, hphase]
      · rw [AcquireCall.owed, AcquireCall.owed, hphase]
    | sleeping oldDebt readAt deadline =>
      rw [callStep, hphase] at h
      obtain ⟨⟨-, htime⟩, h⟩ := guard_bind_eq_some.mp h
      obtain rfl := Option.some.inj h
      subst htime
      rw [AcquireCall.AtRate, hphase] at hrate
      refine hs.setCall hc hrate ?_ ?_
      · rw [AcquireCall.oldDebt, AcquireCall.oldDebt, hphase]
      · rw [AcquireCall.owed, AcquireCall.owed, hphase]
    | returned =>
      rw [callStep, hphase] at h
      cases h

/-- What an uncut call in the window is. -/
theorem mem_uncutWithin {start width : ℕ} :
    c ∈ s.uncutWithin r start width ↔ c ∈ s.calls ∧ c.uncut r = true ∧
      c.returnsWithin start width = true := by
  simp only [uncutWithin, within, List.mem_filter]
  tauto

/-- An uncut call has returned, with a debt of its own. -/
theorem phase_of_uncut (h : c.uncut r = true) :
    ∃ oldDebt readAt, c.phase = .returned oldDebt readAt c.returnedAt ∧
      c.oldDebt = some oldDebt := by
  unfold AcquireCall.uncut at h
  split at h
  case h_1 oldDebt readAt returnedAt hphase =>
    exact ⟨oldDebt, readAt, by rw [AcquireCall.returnedAt, hphase],
      by rw [AcquireCall.oldDebt, hphase]⟩
  case h_2 => cases h

/-- The uncut calls that return in a window of time. -/
theorem Accounted.window_lt {start width b credit : ℕ} (h : s.Accounted r) (hr : 0 < r)
    (hrange : s.InRange r)
    (hcalls : ∀ c ∈ s.uncutWithin r start width, c.bytes ≤ b ∧ c.unused r ≤ credit)
    (hcredit : r ≤ credit) :
    ((s.uncutWithin r start width).map AcquireCall.bytes).sum * nanosPerSec <
      (width + 1) * r + (credit + b) * nanosPerSec := by
  have hapart : (s.uncutWithin r start width).Pairwise
      (Apart (fun c => c.oldDebt.getD 0) AcquireCall.bytes) := by
    have hall : s.calls.Pairwise fun c c' => ∀ d d', c.oldDebt = some d → c'.oldDebt = some d' →
        d + c.bytes ≤ d' ∨ d' + c'.bytes ≤ d := by
      rw [List.pairwise_iff_getElem]
      intro i j hi hj hij
      exact h.apart i j _ _ (Nat.ne_of_lt hij) (List.getElem?_eq_getElem hi)
        (List.getElem?_eq_getElem hj)
    have hsublist : (s.uncutWithin r start width).Sublist s.calls :=
      List.filter_sublist.trans List.filter_sublist
    refine (hall.sublist hsublist).imp_of_mem fun {c c'} hc hc' happart => ?_
    obtain ⟨d, -, -, hd⟩ := phase_of_uncut (mem_uncutWithin.mp hc).2.1
    obtain ⟨d', -, -, hd'⟩ := phase_of_uncut (mem_uncutWithin.mp hc').2.1
    rw [Apart, hd, hd']
    exact happart d d' hd hd'
  have htimely : ∀ c ∈ s.uncutWithin r start width, Timely r nanosPerSec nanosPerSec (credit + b)
      (fun c => c.oldDebt.getD 0) AcquireCall.bytes AcquireCall.returnedAt c := by
    intro c hc
    obtain ⟨hmem, huncut, -⟩ := mem_uncutWithin.mp hc
    obtain ⟨oldDebt, readAt, hphase, hdebt⟩ := phase_of_uncut huncut
    obtain ⟨hrate, hpos⟩ := h.calls c hmem
    obtain ⟨hbytes, hunused⟩ := hcalls c hc
    have hfits : oldDebt + c.bytes < u64Bound := by
      have hend := h.ends c hmem oldDebt hdebt
      have howed := s.owed_sum_le_requested
      have hdue := h.debt
      have hrequested := hrange.1
      omega
    have hmargin : c.bytes + 1 ≤ credit + b ∧ c.unused r + 1 ≤ credit + b := by omega
    obtain ⟨hearly, hlate⟩ := AcquireCall.timely hr hphase hrate (hrange.2 c hmem) huncut hfits
      hmargin.1 hmargin.2
    exact ⟨by rwa [hdebt], by rwa [hdebt]⟩
  have hwindow : ∀ c ∈ s.uncutWithin r start width, ∀ c' ∈ s.uncutWithin r start width,
      c'.returnedAt ≤ c.returnedAt + width := by
    intro c hc c' hc'
    have hbetween {c : AcquireCall} (hc : c ∈ s.uncutWithin r start width) :
        start ≤ c.returnedAt ∧ c.returnedAt ≤ start + width := by
      obtain ⟨-, huncut, hwithin⟩ := mem_uncutWithin.mp hc
      obtain ⟨oldDebt, readAt, hphase, -⟩ := phase_of_uncut huncut
      rw [AcquireCall.returnsWithin, hphase] at hwithin
      simpa using hwithin
    have := hbetween hc
    have := hbetween hc'
    omega
  exact sum_length_lt hr hapart htimely hwindow

end Steps

/-- Calls for some bytes, one behind the other, up to the loading of the base time. -/
def callsAt (first bytes time : ℕ) (count : ℕ) : List LimiterEvent :=
  (List.range count).flatMap fun i =>
    [.acquire bytes, .call (first + i) time, .call (first + i) time, .call (first + i) time]

/-- The calls return. -/
def returnsAt (first time : ℕ) (count : ℕ) : List LimiterEvent :=
  (List.range count).map fun i => .call (first + i) time

/-- In the run, more bytes return in the window than the rate allows in it, in one second and in one
largest request. -/
def Exceeds (r b : ℕ) (events : List LimiterEvent) (start width : ℕ) : Prop :=
  ∃ s, run step (new r) events = some s ∧ (∀ c ∈ s.calls, c.bytes ≤ b) ∧
    width * r + (r + b) * nanosPerSec <
      ((s.within start width).map AcquireCall.bytes).sum * nanosPerSec

theorem exceeds_of_run {r b start width : ℕ} {events : List LimiterEvent}
    (h : ((run step (new r) events).any fun s => s.calls.all (fun c => c.bytes ≤ b) &&
      decide (width * r + (r + b) * nanosPerSec <
        ((s.within start width).map AcquireCall.bytes).sum * nanosPerSec)) = true) :
    Exceeds r b events start width := by
  obtain ⟨s, hs, h⟩ := (Option.any_eq_true _ _).mp h
  obtain ⟨hbytes, hsum⟩ := Bool.and_eq_true_iff.mp h
  refine ⟨s, hs, fun c hc => ?_, of_decide_eq_true hsum⟩
  exact of_decide_eq_true (List.all_eq_true.mp hbytes c hc)

end LimiterSystem

end Tachyon
