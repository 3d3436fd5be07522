import Mathlib.Data.Nat.Bitwise

/-!
# Big-endian numbers and their distances

A list of bytes, most significant first, as a number: the order of byte strings of one
length is that of the numbers, and their exclusive or that of the numbers. The distance of
two numbers is their exclusive or; which of two numbers is closer to a third is decided by
the bit in which the two first differ.
-/

namespace BigEndian

/-- The number of a byte string. -/
def value : List UInt8 → ℕ
  | [] => 0
  | b :: bs => 2 ^ (8 * bs.length) * b.toNat + value bs

/-- The bytes of one string are those of the other or come before them. -/
def le : List UInt8 → List UInt8 → Bool
  | [], _ => true
  | _ :: _, [] => false
  | a :: as, b :: bs => a < b || (a == b && le as bs)

/-- The zero bits at the front of a byte. -/
def byteLeadingZeros (b : UInt8) : ℕ := if b = 0 then 8 else 7 - b.toNat.log2

/-- The zero bits at the front. -/
def leadingZeros : List UInt8 → ℕ
  | [] => 0
  | b :: bs => if b = 0 then 8 + leadingZeros bs else byteLeadingZeros b

variable {as bs : List UInt8}

theorem value_lt (bs : List UInt8) : value bs < 2 ^ (8 * bs.length) := by
  induction bs with
  | nil => decide
  | cons b bs ih =>
    have hb : b.toNat < 256 := b.toNat_lt
    have hpow : 2 ^ (8 * (bs.length + 1)) = 2 ^ (8 * bs.length) * 256 := by
      rw [Nat.mul_add, pow_add]
      rfl
    have hle := Nat.mul_le_mul_left (2 ^ (8 * bs.length)) (Nat.succ_le_of_lt hb)
    rw [value, List.length_cons, hpow]
    rw [Nat.mul_succ] at hle
    omega

/-- Byte strings of one length with one number are the same. -/
theorem value_injective (hlength : as.length = bs.length) (h : value as = value bs) : as = bs := by
  induction as generalizing bs with
  | nil => exact (List.length_eq_zero_iff.mp hlength.symm).symm
  | cons a as ih =>
    cases bs with
    | nil => cases hlength
    | cons b bs =>
      have htail : as.length = bs.length := Nat.succ.inj hlength
      have ha := value_lt as
      have hb := value_lt bs
      rw [value, value, htail] at h
      rw [htail] at ha
      have hdiv := congrArg (· / 2 ^ (8 * bs.length)) h
      have hmod := congrArg (· % 2 ^ (8 * bs.length)) h
      simp only [Nat.mul_add_div (Nat.two_pow_pos _), Nat.div_eq_of_lt ha, Nat.div_eq_of_lt hb,
        Nat.add_zero] at hdiv
      simp only [Nat.mul_add_mod, Nat.mod_eq_of_lt ha, Nat.mod_eq_of_lt hb] at hmod
      rw [UInt8.toNat_inj.mp hdiv, ih htail hmod]

/-- Byte strings of one length are ordered as their numbers. -/
theorem le_iff (hlength : as.length = bs.length) : le as bs = true ↔ value as ≤ value bs := by
  induction as generalizing bs with
  | nil =>
    obtain rfl := List.length_eq_zero_iff.mp hlength.symm
    exact iff_of_true rfl (le_refl _)
  | cons a as ih =>
    cases bs with
    | nil => cases hlength
    | cons b bs =>
      have htail : as.length = bs.length := Nat.succ.inj hlength
      have ha := value_lt as
      have hb := value_lt bs
      rw [le, value, value, htail, Bool.or_eq_true, Bool.and_eq_true, decide_eq_true_iff,
        beq_iff_eq, ih htail, UInt8.lt_iff_toNat_lt]
      rw [htail] at ha
      generalize 2 ^ (8 * bs.length) = p at ha hb
      rcases Nat.lt_trichotomy a.toNat b.toNat with hlt | heq | hgt
      · have hle : p * a.toNat + p ≤ p * b.toNat := by
          rw [← Nat.mul_succ]
          exact Nat.mul_le_mul_left p hlt
        exact iff_of_true (Or.inl hlt) (by omega)
      · obtain rfl := UInt8.toNat_inj.mp heq
        simp
      · have hle : p * b.toNat + p ≤ p * a.toNat := by
          rw [← Nat.mul_succ]
          exact Nat.mul_le_mul_left p hgt
        refine iff_of_false ?_ (by omega)
        rintro (hlt | ⟨rfl, -⟩)
        · omega
        · omega

/-- The exclusive or of byte strings of one length is that of their numbers. -/
theorem value_xor (hlength : as.length = bs.length) :
    value (List.zipWith (· ^^^ ·) as bs) = value as ^^^ value bs := by
  induction as generalizing bs with
  | nil =>
    obtain rfl := List.length_eq_zero_iff.mp hlength.symm
    rfl
  | cons a as ih =>
    cases bs with
    | nil => cases hlength
    | cons b bs =>
      have htail : as.length = bs.length := Nat.succ.inj hlength
      have ha := value_lt as
      have hb := value_lt bs
      rw [htail] at ha
      have hzip : (List.zipWith (· ^^^ ·) as bs).length = bs.length := by
        rw [List.length_zipWith, htail, Nat.min_self]
      rw [List.zipWith_cons_cons, value, value, value, hzip, htail, ih htail, UInt8.toNat_xor]
      refine Nat.eq_of_testBit_eq fun i => ?_
      rw [Nat.testBit_xor, Nat.testBit_two_pow_mul_add _ (Nat.xor_lt_two_pow ha hb),
        Nat.testBit_two_pow_mul_add _ ha, Nat.testBit_two_pow_mul_add _ hb]
      split <;> rw [Nat.testBit_xor]

/-- The highest bit that is set lies in the first byte that is not zero. -/
theorem log2_value_cons {b : UInt8} (hb : b ≠ 0) :
    (value (b :: bs)).log2 = 8 * bs.length + b.toNat.log2 := by
  have hv := value_lt bs
  have hne : b.toNat ≠ 0 := fun h => hb (UInt8.toNat_inj.mp h)
  have hlow := Nat.mul_le_mul_left (2 ^ (8 * bs.length)) (Nat.log2_self_le hne)
  have hhigh : b.toNat + 1 ≤ 2 ^ (b.toNat.log2 + 1) := Nat.lt_log2_self
  have hhigh := Nat.mul_le_mul_left (2 ^ (8 * bs.length)) hhigh
  have hpos := Nat.two_pow_pos (8 * bs.length)
  rw [← pow_add] at hlow hhigh
  rw [Nat.mul_succ] at hhigh
  have hvalue : value (b :: bs) = 2 ^ (8 * bs.length) * b.toNat + value bs := rfl
  have hpow := Nat.mul_le_mul_left (2 ^ (8 * bs.length)) (Nat.one_le_iff_ne_zero.mpr hne)
  rw [Nat.log2_eq_iff (by omega)]
  rw [← Nat.add_assoc] at hhigh
  omega

/-- The zero bits at the front and the highest bit that is set make up the length. -/
theorem leadingZeros_add_log2 (h : value bs ≠ 0) :
    leadingZeros bs + (value bs).log2 + 1 = 8 * bs.length := by
  induction bs with
  | nil => exact absurd rfl h
  | cons b bs ih =>
    by_cases hb : b = 0
    · subst hb
      have hvalue : value (0 :: bs) = value bs := by simp [value]
      rw [hvalue] at h ⊢
      have htail := ih h
      rw [leadingZeros, if_pos rfl, List.length_cons]
      omega
    · have hne : b.toNat ≠ 0 := fun h => hb (UInt8.toNat_inj.mp h)
      have hlog : b.toNat.log2 < 8 := (Nat.log2_lt hne).mpr b.toNat_lt
      rw [log2_value_cons hb, leadingZeros, if_neg hb, byteLeadingZeros, if_neg hb,
        List.length_cons]
      omega

theorem leadingZeros_of_value_eq_zero (h : value bs = 0) : leadingZeros bs = 8 * bs.length := by
  induction bs with
  | nil => rfl
  | cons b bs ih =>
    have hb : b = 0 := by
      have hpos := Nat.two_pow_pos (8 * bs.length)
      rw [value, Nat.add_eq_zero_iff, Nat.mul_eq_zero] at h
      exact UInt8.toNat_inj.mp (h.1.resolve_left (by omega))
    rw [value, Nat.add_eq_zero_iff] at h
    rw [leadingZeros, if_pos hb, ih h.2, List.length_cons]
    omega

/-- The zeros at the front are those of whole bytes and of the first other byte. -/
theorem leadingZeros_replicate_append {b : UInt8} (hb : b ≠ 0) (n : ℕ) :
    leadingZeros (List.replicate n 0 ++ b :: bs) = 8 * n + byteLeadingZeros b := by
  induction n with
  | zero => rw [List.replicate_zero, List.nil_append, leadingZeros, if_neg hb, Nat.mul_zero,
      Nat.zero_add]
  | succ n ih =>
    rw [List.replicate_succ, List.cons_append, leadingZeros, if_pos rfl, ih]
    omega

/-- A byte string with a bit set is made of bytes of zeros, another byte, and the rest. -/
theorem exists_eq_replicate_append (h : leadingZeros bs < 8 * bs.length) :
    ∃ b rest, b ≠ 0 ∧ bs = List.replicate (leadingZeros bs / 8) 0 ++ b :: rest ∧
      byteLeadingZeros b = leadingZeros bs % 8 := by
  induction bs with
  | nil => exact absurd h (lt_irrefl 0)
  | cons b bs ih =>
    by_cases hb : b = 0
    · subst hb
      have hzeros : leadingZeros (0 :: bs) = 8 + leadingZeros bs := if_pos rfl
      rw [hzeros, List.length_cons] at h
      obtain ⟨c, rest, hc, hbs, hlow⟩ := ih (by omega)
      have hdiv : (8 + leadingZeros bs) / 8 = leadingZeros bs / 8 + 1 := by omega
      refine ⟨c, rest, hc, ?_, ?_⟩
      · rw [hzeros, hdiv, List.replicate_succ, List.cons_append, ← hbs]
      · rw [hzeros, hlow]
        omega
    · have hne : b.toNat ≠ 0 := fun h => hb (UInt8.toNat_inj.mp h)
      have hzeros : leadingZeros (b :: bs) = byteLeadingZeros b := if_neg hb
      have hlt : byteLeadingZeros b < 8 := by
        rw [byteLeadingZeros, if_neg hb]
        omega
      refine ⟨b, bs, hb, ?_, ?_⟩
      · rw [hzeros, Nat.div_eq_of_lt hlt]
        rfl
      · rw [hzeros, Nat.mod_eq_of_lt hlt]

/-! ### Distances -/

section Distance

variable {x y d : ℕ}

/-- Of two numbers the one with the higher first bit is closer to a third exactly when the
third has that bit too. -/
theorem xor_lt_xor_iff (hx : x ≠ 0) (h : y < 2 ^ x.log2) :
    x ^^^ d < y ^^^ d ↔ d.testBit x.log2 = true := by
  have habove (j : ℕ) (hj : x.log2 < j) : x.testBit j = y.testBit j := by
    have hpow : 2 ^ (x.log2 + 1) ≤ 2 ^ j := Nat.pow_le_pow_right (by decide) hj
    have hlt : 2 ^ x.log2 < 2 ^ j := Nat.pow_lt_pow_right (by decide) hj
    rw [Nat.testBit_lt_two_pow (Nat.lt_of_lt_of_le Nat.lt_log2_self hpow),
      Nat.testBit_lt_two_pow (h.trans hlt)]
  have hbit := Nat.testBit_log2 hx
  have hbit' := Nat.testBit_lt_two_pow h
  have hdiffer (j : ℕ) (hj : x.log2 < j) : (x ^^^ d).testBit j = (y ^^^ d).testBit j := by
    rw [Nat.testBit_xor, Nat.testBit_xor, habove j hj]
  cases hd : d.testBit x.log2 with
  | true =>
    refine iff_of_true ?_ rfl
    refine Nat.lt_of_testBit x.log2 ?_ ?_ hdiffer
    · rw [Nat.testBit_xor, hbit, hd]
      rfl
    · rw [Nat.testBit_xor, hbit', hd]
      rfl
  | false =>
    refine iff_of_false ?_ Bool.false_ne_true
    refine not_lt_of_gt (Nat.lt_of_testBit x.log2 ?_ ?_ fun j hj => (hdiffer j hj).symm)
    · rw [Nat.testBit_xor, hbit', hd]
      rfl
    · rw [Nat.testBit_xor, hbit, hd]
      rfl

end Distance

end BigEndian
