import Mathlib.Data.Nat.Bitwise

/-!
# The exclusive-or of two numbers as their distance

Seen from one number, the others fall into classes by the first bit in which they differ from
it. The numbers that are closer to a target in that bit are those of the target's class.
-/

namespace XorMetric

variable {a x y t : ℕ}

/-- Two numbers with one first bit agree in it. -/
theorem xor_lt_of_log2_eq (hx : x ≠ 0) (hy : y ≠ 0) (h : x.log2 = y.log2) :
    x ^^^ y < 2 ^ x.log2 := by
  have hbit := Nat.testBit_log2 hx
  have hbit' := Nat.testBit_log2 hy
  rw [← h] at hbit'
  refine Nat.lt_pow_two_of_testBit _ fun i hi => ?_
  rw [Nat.testBit_xor]
  rcases hi.eq_or_lt with rfl | hlt
  · rw [hbit, hbit']
    rfl
  · have hpow : 2 ^ (x.log2 + 1) ≤ 2 ^ i := Nat.pow_le_pow_right (by decide) hlt
    have hlow : x < 2 ^ i := Nat.lt_of_lt_of_le Nat.lt_log2_self hpow
    have hlow' : y < 2 ^ i := by
      rw [h] at hpow
      exact Nat.lt_of_lt_of_le Nat.lt_log2_self hpow
    rw [Nat.testBit_lt_two_pow hlow, Nat.testBit_lt_two_pow hlow']
    rfl

/-- A number that differs from another below its first bit only has the same first bit. -/
theorem log2_eq_of_xor_lt (hx : x ≠ 0) (h : x ^^^ y < 2 ^ x.log2) : y ≠ 0 ∧ y.log2 = x.log2 := by
  have hy : y = x ^^^ (x ^^^ y) := by rw [← Nat.xor_assoc, Nat.xor_self, Nat.zero_xor]
  have hbit : y.testBit x.log2 = true := by
    rw [hy, Nat.testBit_xor, Nat.testBit_log2 hx, Nat.testBit_lt_two_pow h]
    rfl
  have hne : y ≠ 0 := by
    rintro rfl
    rw [Nat.zero_testBit] at hbit
    cases hbit
  have hlt : y < 2 ^ (x.log2 + 1) := by
    have hpow : 2 ^ x.log2 < 2 ^ (x.log2 + 1) := Nat.pow_lt_pow_right (by decide) (by omega)
    rw [hy]
    exact Nat.xor_lt_two_pow Nat.lt_log2_self (h.trans hpow)
  exact ⟨hne, (Nat.log2_eq_iff hne).mpr ⟨Nat.ge_two_pow_of_testBit hbit, hlt⟩⟩

/-- The way from one number to another over a third. -/
theorem xor_through (a x y : ℕ) : (a ^^^ x) ^^^ (a ^^^ y) = x ^^^ y := by
  rw [Nat.xor_comm a x, Nat.xor_assoc, ← Nat.xor_assoc a a, Nat.xor_self, Nat.zero_xor]

/-- Seen from `a`, the numbers that are closer to the target than its first bit are those of
the target's class. -/
theorem xor_lt_iff (ht : a ≠ t) :
    y ^^^ t < 2 ^ (a ^^^ t).log2 ↔ y ≠ a ∧ (a ^^^ y).log2 = (a ^^^ t).log2 := by
  have hne : a ^^^ t ≠ 0 := Nat.xor_ne_zero_iff.mpr ht
  have hway : y ^^^ t = (a ^^^ t) ^^^ (a ^^^ y) := by rw [xor_through, Nat.xor_comm]
  rw [hway]
  constructor
  · intro h
    obtain ⟨hy, hlog⟩ := log2_eq_of_xor_lt hne h
    exact ⟨Ne.symm (Nat.xor_ne_zero_iff.mp hy), hlog⟩
  · rintro ⟨hy, hlog⟩
    exact xor_lt_of_log2_eq hne (Nat.xor_ne_zero_iff.mpr (Ne.symm hy)) hlog.symm

end XorMetric
