import Tachyon.Engine.Fragment
import Tachyon.Engine.SingleFragment

/-!
# The two backoffs

A fragment's delay before its next attempt is written twice: as a method of the
fragment record, and again inside the retry loop. Both take a power of two of the
attempt number, at most 1024 seconds, and subtract the leading bits of a hashed seed.
Here the shifts and subtractions are the checked ones, so a delay is proof that none
of them overflows.
-/

namespace Tachyon

/-- `FragmentRecord::backoff_duration`, in seconds. -/
def FragmentRecord.backoffDuration (r : FragmentRecord) (jitterSeed : Option ℕ) : Option ℕ := do
  let baseSecs ← checkedShl 1 (min r.retryCount 10)
  let jittered ← (match jitterSeed with
    | some seed =>
      if baseSecs > 1 then do
        let log2 := trailingZeros baseSecs
        let hash := wrappingMul seed 0x517cc1b727220a95
        let jitter ← checkedShr hash (← checkedSub 64 log2)
        pure (baseSecs - jitter)
      else pure baseSecs
    | none => pure baseSecs)
  pure (max jittered 1)

/-- The seed of the retry loop: another for each fragment and each attempt. -/
def jitterSeed (fragIndex attempt : ℕ) : ℕ :=
  wrappingAdd (wrappingMul fragIndex 0x9E3779B97F4A7C15) attempt

/-- The delay `execute_fragmented_download` computes inside its retry loop, in seconds, when
the server named none. -/
def loopBackoff (attempt seed : ℕ) : Option ℕ := do
  let baseSecs ← checkedShl 1 (min attempt 10)
  if baseSecs ≤ 1 then pure 1
  else do
    let log2 := trailingZeros baseSecs
    let hash := wrappingMul seed 0x517cc1b727220a95
    let jitter ← checkedShr hash (← checkedSub 64 log2)
    pure (max (baseSecs - jitter) 1)

/-- The jitter of a base of `2 ^ k` seconds: the leading `k` bits of the hashed seed. -/
def jitter (k seed : ℕ) : ℕ := wrappingMul seed 0x517cc1b727220a95 / 2 ^ (64 - k)

/-- `k` bits are below `2 ^ k`. -/
theorem jitter_lt {k : ℕ} (hk : k ≤ 64) (seed : ℕ) : jitter k seed < 2 ^ k := by
  have hhash : wrappingMul seed 0x517cc1b727220a95 < 2 ^ 64 := Nat.mod_lt _ (by decide)
  unfold jitter
  rw [Nat.div_lt_iff_lt_mul (Nat.two_pow_pos _), ← Nat.pow_add, Nat.add_sub_cancel' hk]
  exact hhash

/-- With a base of at least two seconds the amount of the shift is between 54 and 63. -/
theorem checkedShr_jitter {k : ℕ} (hpos : 0 < k) (hk : k ≤ 64) (seed : ℕ) :
    checkedShr (wrappingMul seed 0x517cc1b727220a95) (64 - k) = some (jitter k seed) :=
  checkedShr_of_lt (by omega)

theorem checkedSub_log2 {k : ℕ} (hk : k < 64) :
    checkedSub 64 (trailingZeros (2 ^ k)) = some (64 - k) := by
  rw [trailingZeros_two_pow hk]
  exact checkedSub_eq_some.mpr ⟨hk.le, rfl⟩

/-- The two-branched form both delays have: a second where there is nothing to jitter. -/
def jitteredSecs (n seed : ℕ) : ℕ :=
  if n = 0 then 1 else 2 ^ min n 10 - jitter (min n 10) seed

theorem jitteredSecs_bounds (n seed : ℕ) :
    1 ≤ jitteredSecs n seed ∧ jitteredSecs n seed ≤ 2 ^ min n 10 := by
  have hlt := jitter_lt (show min n 10 ≤ 64 by omega) seed
  unfold jitteredSecs
  split
  · exact ⟨le_rfl, Nat.one_le_two_pow⟩
  · omega

/-- The form of the loop: no jitter at a base of one second, and never less than a second. -/
theorem jitteredSecs_eq (n seed : ℕ) :
    (if 2 ^ min n 10 ≤ 1 then 1 else max (2 ^ min n 10 - jitter (min n 10) seed) 1) =
      jitteredSecs n seed := by
  have hbounds := jitteredSecs_bounds n seed
  unfold jitteredSecs at hbounds ⊢
  by_cases hn : n = 0
  · rw [if_pos hn, if_pos (by simp [hn])]
  · have hone : 1 < 2 ^ min n 10 := Nat.one_lt_two_pow (by omega)
    rw [if_neg hn] at hbounds ⊢
    rw [if_neg (by omega), Nat.max_eq_left hbounds.1]

section

variable (n seed : ℕ)

theorem baseSecs_eq : checkedShl 1 (min n 10) = some (2 ^ min n 10) := checkedShl_one (by omega)

/-- The loop's delay, all shifts and subtractions done. -/
theorem loopBackoff_eq : loopBackoff n seed = some (jitteredSecs n seed) := by
  have hbounds := jitteredSecs_bounds n seed
  unfold loopBackoff
  rw [baseSecs_eq, Option.bind_eq_bind, Option.bind_some]
  by_cases hn : n = 0
  · subst hn
    rfl
  · have hone : 1 < 2 ^ min n 10 := Nat.one_lt_two_pow (by omega)
    unfold jitteredSecs at hbounds ⊢
    rw [if_neg hn] at hbounds ⊢
    rw [if_neg (by omega)]
    simp only [checkedSub_log2 (show min n 10 < 64 by omega), Option.bind_some,
      checkedShr_jitter (show 0 < min n 10 by omega) (show min n 10 ≤ 64 by omega)]
    exact congrArg some (Nat.max_eq_left hbounds.1)

/-- The record's delay is the same number: its guard asks for more than one second where the
loop asks for at most one. -/
theorem FragmentRecord.backoffDuration_eq (r : FragmentRecord) (h : r.retryCount = n) :
    r.backoffDuration (some seed) = some (jitteredSecs n seed) := by
  have hbounds := jitteredSecs_bounds n seed
  unfold backoffDuration
  rw [h, baseSecs_eq, Option.bind_eq_bind, Option.bind_some]
  by_cases hn : n = 0
  · have hbase : 2 ^ min n 10 = 1 := by simp [hn]
    rw [jitteredSecs, if_pos hn]
    simp only [hbase]
    rfl
  · have hone : 2 ^ min n 10 > 1 := Nat.one_lt_two_pow (by omega)
    unfold jitteredSecs at hbounds ⊢
    rw [if_neg hn] at hbounds ⊢
    simp only [if_pos hone, checkedSub_log2 (show min n 10 < 64 by omega), Option.bind_some,
      checkedShr_jitter (show 0 < min n 10 by omega) (show min n 10 ≤ 64 by omega)]
    exact congrArg some (Nat.max_eq_left hbounds.1)

/-- For every attempt number and every seed the two copies give the same delay, between one
second and the base of the attempt, and no shift or subtraction of either overflows. -/
theorem backoffs_agree (r : FragmentRecord) :
    ∃ secs, loopBackoff n seed = some secs ∧
      FragmentRecord.backoffDuration { r with retryCount := n } (some seed) = some secs ∧
      1 ≤ secs ∧ secs ≤ 2 ^ min n 10 :=
  ⟨jitteredSecs n seed, loopBackoff_eq n seed, FragmentRecord.backoffDuration_eq n seed _ rfl,
    jitteredSecs_bounds n seed⟩

end

theorem jitterSeed_mul (fragIndex attempt k : ℕ) :
    wrappingMul (wrappingAdd (fragIndex * 0x9E3779B97F4A7C15) attempt) k =
      wrappingMul (jitterSeed fragIndex attempt) k := by
  unfold jitterSeed wrappingAdd wrappingMul
  rw [Nat.mod_add_mod]

/-- Where the server names no delay, the retry loop waits the jittered one with the seed of
the fragment and the attempt. -/
theorem retryBackoff_eq (fragIndex attempt : ℕ) {e : DownloadError}
    (he : ∀ secs, e ≠ .throttled (some secs)) :
    some (retryBackoff fragIndex attempt e) =
      loopBackoff attempt (jitterSeed fragIndex attempt) := by
  rw [loopBackoff_eq, ← jitteredSecs_eq, jitter, ← jitterSeed_mul]
  unfold retryBackoff
  split
  · exact absurd rfl (he _)
  · rfl

end Tachyon
