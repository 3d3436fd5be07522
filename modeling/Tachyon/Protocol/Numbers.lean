import Tachyon.Protocol.ProbeNames

/-!
# Numbers in text

`str::parse` of the unsigned integers: digits, possibly after a plus sign, of a number the type
holds.
-/

namespace Tachyon

/-- The text behind a plus sign, or all of it. -/
def withoutPlus : List Char → List Char
  | '+' :: digits => digits
  | digits => digits

/-- `str::parse` of an unsigned integer below a bound. -/
def parseUnsigned (bound : ℕ) (text : List Char) : Option ℕ :=
  let digits := withoutPlus text
  let value := Nat.ofDigitChars 10 digits 0
  if digits.isEmpty || !digits.all Char.isDigit then none
  else if value < bound then some value
  else none

/-- `str::parse::<u32>`. -/
def parseU32 (text : List Char) : Option UInt32 := (parseUnsigned (2 ^ 32) text).map .ofNat

section

variable {bound : ℕ} {digits : List Char}

theorem withoutPlus_cons {c : Char} {rest : List Char} (h : c ≠ '+') :
    withoutPlus (c :: rest) = c :: rest := by
  unfold withoutPlus
  split
  · rename_i heq
    exact absurd (List.cons.inj heq).1 h
  · rfl

/-- Digits are read as the number they write. -/
theorem parseUnsigned_digits (hne : digits ≠ []) (hdigits : ∀ c ∈ digits, c.isDigit = true)
    (hlt : Nat.ofDigitChars 10 digits 0 < bound) :
    parseUnsigned bound digits = some (Nat.ofDigitChars 10 digits 0) := by
  obtain ⟨c, rest, rfl⟩ := List.exists_cons_of_ne_nil hne
  have hplus : c ≠ '+' := by
    rintro rfl
    exact absurd (hdigits _ List.mem_cons_self) (by decide)
  have hall : (c :: rest).all Char.isDigit = true := List.all_eq_true.mpr hdigits
  unfold parseUnsigned
  rw [withoutPlus_cons hplus]
  simp only [hall, List.isEmpty_cons, Bool.not_true, Bool.or_self, Bool.false_eq_true, if_false,
    if_pos hlt]

/-- Nothing is read from a text that begins with neither a sign nor a digit. -/
theorem parseUnsigned_eq_none {c : Char} {rest : List Char} (hplus : c ≠ '+')
    (hdigit : c.isDigit = false) : parseUnsigned bound (c :: rest) = none := by
  unfold parseUnsigned
  rw [withoutPlus_cons hplus]
  simp only [List.all_cons, hdigit, Bool.false_and, Bool.not_false, Bool.or_true, if_true]

theorem parseU64_eq (text : List Char) :
    parseU64 (String.ofList text) = (parseUnsigned (2 ^ 64) text).map .ofNat := by
  have hvalue : parseU64 (String.ofList text) =
      if (withoutPlus text).isEmpty || !(withoutPlus text).all Char.isDigit then none
      else if Nat.ofDigitChars 10 (withoutPlus text) 0 < 2 ^ 64 then
        some (UInt64.ofNat (Nat.ofDigitChars 10 (withoutPlus text) 0))
      else none := by
    unfold parseU64
    rw [String.toList_ofList]
    rfl
  rw [hvalue]
  unfold parseUnsigned
  dsimp only
  split_ifs <;> rfl

end

theorem isDigit_not_isWhitespace {c : Char} (h : c.isDigit = true) : isWhitespace c = false := by
  have hbounds : 48 ≤ c.toNat ∧ c.toNat ≤ 57 := by
    rw [Char.isDigit, Bool.and_eq_true, decide_eq_true_eq, decide_eq_true_eq] at h
    exact h
  unfold isWhitespace
  simp only [Bool.or_eq_false_iff, Bool.and_eq_false_iff, decide_eq_false_iff_not,
    beq_eq_false_iff_ne]
  omega

theorem trim_token {word : List Char} (h : Token word) : trim word = word := by
  have hwords : ∀ word' ∈ [word], Token word' := fun _ hmem => List.mem_singleton.mp hmem ▸ h
  have hdrop := dropWhile_intercalate hwords
  have hrdrop := rdropWhile_intercalate hwords
  rw [List.intercalate_singleton] at hdrop hrdrop
  rw [trim, hdrop, hrdrop]

end Tachyon
