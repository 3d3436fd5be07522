import Mathlib.Data.Nat.Log
import Mathlib.Tactic.Ring

/-!
# Machine arithmetic

Lengths, offsets and counters are natural numbers here; where the code's 64-bit
arithmetic can overflow, the operation it uses is written out. The release build
has overflow checks off, so a plain addition wraps.
-/

namespace Tachyon

/-- One past the largest `u64`. -/
def u64Bound : ℕ := 2 ^ 64

/-- One past the largest `u32`. -/
def u32Bound : ℕ := 2 ^ 32

/-- `u64::checked_add`. -/
def checkedAdd (a b : ℕ) : Option ℕ := if a + b < u64Bound then some (a + b) else none

/-- `u32::checked_add`. -/
def checkedAdd32 (a b : ℕ) : Option ℕ := if a + b < u32Bound then some (a + b) else none

/-- `u64::checked_sub`. -/
def checkedSub (a b : ℕ) : Option ℕ := if b ≤ a then some (a - b) else none

/-- `+` on `u64` in a release build. -/
def wrappingAdd (a b : ℕ) : ℕ := (a + b) % u64Bound

/-- `u64::wrapping_mul`. -/
def wrappingMul (a b : ℕ) : ℕ := a * b % u64Bound

/-- `<<` on `u64`, with no result where the amount overflows. -/
def checkedShl (a amount : ℕ) : Option ℕ :=
  if amount < 64 then some (a * 2 ^ amount % u64Bound) else none

/-- `>>` on `u64`, with no result where the amount overflows. -/
def checkedShr (a amount : ℕ) : Option ℕ := if amount < 64 then some (a / 2 ^ amount) else none

/-- `u64::trailing_zeros`: the position of the lowest bit set, 64 where none is. -/
def trailingZeros (a : ℕ) : ℕ := ((List.range 64).find? fun i => a.testBit i).getD 64

/-- `u64::try_from` on a `usize`. -/
def tryFromUsize (a : ℕ) : Option ℕ := if a < u64Bound then some a else none

/-- `u64::div_ceil`. -/
def divCeil (a b : ℕ) : ℕ := if a % b = 0 then a / b else a / b + 1

/-- The nearest `f64` to a natural number, ties to even. Naturals below `2 ^ 53` are exact. -/
def roundF64 (n : ℕ) : ℕ :=
  if n < 2 ^ 53 then n
  else
    let unit := 2 ^ (Nat.log2 n - 52)
    let q := n / unit
    let r := n % unit
    if 2 * r < unit ∨ (2 * r = unit ∧ q % 2 = 0) then q * unit else (q + 1) * unit

theorem checkedAdd_eq_some {a b c : ℕ} :
    checkedAdd a b = some c ↔ a + b < u64Bound ∧ a + b = c := by
  unfold checkedAdd
  split <;> simp_all

theorem checkedSub_eq_some {a b c : ℕ} : checkedSub a b = some c ↔ b ≤ a ∧ a - b = c := by
  unfold checkedSub
  split <;> simp_all

theorem tryFromUsize_eq_some {a b : ℕ} : tryFromUsize a = some b ↔ a < u64Bound ∧ a = b := by
  unfold tryFromUsize
  split <;> simp_all

theorem wrappingAdd_of_lt {a b : ℕ} (h : a + b < u64Bound) : wrappingAdd a b = a + b :=
  Nat.mod_eq_of_lt h

theorem checkedShl_one {k : ℕ} (hk : k < 64) : checkedShl 1 k = some (2 ^ k) := by
  have hlt : 2 ^ k < u64Bound := Nat.pow_lt_pow_right (by decide) hk
  rw [checkedShl, if_pos hk, Nat.one_mul, Nat.mod_eq_of_lt hlt]

theorem checkedShr_of_lt {a amount : ℕ} (h : amount < 64) :
    checkedShr a amount = some (a / 2 ^ amount) :=
  if_pos h

theorem trailingZeros_two_pow {k : ℕ} (hk : k < 64) : trailingZeros (2 ^ k) = k := by
  have hfind : (List.range 64).find? (fun i => (2 ^ k).testBit i) = some k := by
    rw [List.find?_range_eq_some]
    refine ⟨Nat.testBit_two_pow_self, List.mem_range.mpr hk, fun j hj => ?_⟩
    rw [Nat.testBit_two_pow_of_ne (Nat.ne_of_gt hj), Bool.not_false]
  rw [trailingZeros, hfind, Option.getD_some]

/-- `divCeil` is the least number of blocks of size `b` that hold `a`. -/
theorem divCeil_le_iff {a b k : ℕ} (hb : 0 < b) : divCeil a b ≤ k ↔ a ≤ k * b := by
  have hdiv := Nat.div_add_mod a b
  have hmod := Nat.mod_lt a hb
  unfold divCeil
  constructor
  · intro h
    split at h
    · have := Nat.mul_le_mul_right b h
      rw [Nat.mul_comm (a / b)] at this
      omega
    · have := Nat.mul_le_mul_right b h
      rw [Nat.add_mul, Nat.mul_comm (a / b)] at this
      omega
  · intro h
    have hle : a / b ≤ k := Nat.div_le_of_le_mul (by rwa [Nat.mul_comm])
    split
    · exact hle
    · rename_i hne
      rcases Nat.lt_or_eq_of_le hle with hlt | heq
      · exact hlt
      · rw [heq, Nat.mul_comm b] at hdiv
        omega

theorem lt_divCeil_iff {a b k : ℕ} (hb : 0 < b) : k < divCeil a b ↔ k * b < a := by
  rw [← Nat.not_le, divCeil_le_iff hb, Nat.not_le]

end Tachyon
