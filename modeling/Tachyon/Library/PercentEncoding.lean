import Tachyon.Library.Utf8

/-!
# Percent-encoding

Characters of a set are written as the bytes of their UTF-8 form, each as a percent
sign and two hexadecimal digits. Decoding reads back every such triple, also those
that were in the text before.
-/

namespace PercentEncoding

open Utf8

/-- The value of a hexadecimal digit. -/
def hexValue (c : Char) : Option ℕ :=
  if '0' ≤ c ∧ c ≤ '9' then some (c.toNat - 0x30)
  else if 'A' ≤ c ∧ c ≤ 'F' then some (c.toNat - 0x37)
  else if 'a' ≤ c ∧ c ≤ 'f' then some (c.toNat - 0x57)
  else none

/-- The digit of a value below 16. -/
def hexDigit (n : ℕ) : Char := if n < 10 then Char.ofNat (0x30 + n) else Char.ofNat (0x37 + n)

/-- The byte two digits stand for. -/
def escaped (high low : Char) : Option UInt8 := do
  let h ← hexValue high
  let l ← hexValue low
  some (UInt8.ofNat (h * 16 + l))

/-- The UTF-8 bytes of a text, with every escape read as its byte. -/
def decodedBytes : List Char → List UInt8
  | '%' :: high :: low :: rest =>
    match escaped high low with
    | some byte => byte :: decodedBytes rest
    | none => 0x25 :: decodedBytes (high :: low :: rest)
  | c :: rest => String.utf8EncodeChar c ++ decodedBytes rest
  | [] => []

/-- The escape of a byte. -/
def escape (byte : UInt8) : List Char :=
  ['%', hexDigit (byte.toNat / 16), hexDigit (byte.toNat % 16)]

/-- A character, escaped where it belongs to the set. -/
def encodeChar (set : Char → Bool) (c : Char) : List Char :=
  if set c then (String.utf8EncodeChar c).flatMap escape else [c]

/-- A text with the characters of the set escaped. -/
def percentEncode (set : Char → Bool) (text : List Char) : List Char :=
  text.flatMap (encodeChar set)

/-- A set that leaves escapes as they are. -/
structure KeepsEscapes (set : Char → Bool) : Prop where
  percent : set '%' = false
  digits : ∀ c, (hexValue c).isSome = true → set c = false

/-- Hexadecimal digits are ASCII characters. -/
theorem lt_of_hexValue {c : Char} {n : ℕ} (h : hexValue c = some n) : c.toNat < 0x80 := by
  unfold hexValue at h
  split at h
  · rename_i hle
    exact Nat.lt_of_le_of_lt hle.2 (by decide)
  · split at h
    · rename_i hle
      exact Nat.lt_of_le_of_lt hle.2 (by decide)
    · split at h
      · rename_i hle
        exact Nat.lt_of_le_of_lt hle.2 (by decide)
      · cases h

section Decode

variable {c high low : Char} {byte : UInt8} {text rest : List Char}

theorem decodedBytes_escape (h : escaped high low = some byte) :
    decodedBytes ('%' :: high :: low :: rest) = byte :: decodedBytes rest := by
  rw [decodedBytes, h]

/-- A percent sign that begins no escape. -/
theorem decodedBytes_percent
    (h : ∀ high low after, rest = high :: low :: after → escaped high low = none) :
    decodedBytes ('%' :: rest) = 0x25 :: decodedBytes rest := by
  match rest with
  | [] => rfl
  | [d] => rfl
  | high :: low :: after => rw [decodedBytes, h high low after rfl]

theorem decodedBytes_cons (hc : c ≠ '%') :
    decodedBytes (c :: rest) = String.utf8EncodeChar c ++ decodedBytes rest := by
  rw [decodedBytes]
  intro high low after hpercent
  exact absurd hpercent hc

/-- Without percent signs there is nothing to decode. -/
theorem decodedBytes_of_not_mem (h : '%' ∉ text) : decodedBytes text = encode text := by
  induction text with
  | nil => rfl
  | cons c rest ih =>
    have hc : c ≠ '%' := by
      rintro rfl
      exact h List.mem_cons_self
    rw [decodedBytes_cons hc, ih fun hrest => h (List.mem_cons_of_mem _ hrest), encode_cons]

/-- Decoding takes no bytes more, and as many only where it changes nothing. -/
theorem length_decodedBytes_le (text : List Char) :
    (decodedBytes text).length ≤ (encode text).length ∧
      ((decodedBytes text).length = (encode text).length → decodedBytes text = encode text) := by
  have hpercent (rest : List Char) : encode ('%' :: rest) = 0x25 :: encode rest := rfl
  induction text using decodedBytes.induct with
  | case1 high low rest byte hescaped ih =>
    rw [decodedBytes_escape hescaped, hpercent, encode_cons, encode_cons]
    have hhigh := high.utf8Size_pos
    have hlow := low.utf8Size_pos
    simp only [List.length_cons, List.length_append, String.length_utf8EncodeChar]
    omega
  | case2 high low rest hescaped ih =>
    have hnone : ∀ high' low' after, high :: low :: rest = high' :: low' :: after →
        escaped high' low' = none := by
      rintro high' low' after h
      obtain ⟨rfl, rfl, rfl⟩ := List.cons_eq_cons.mp h |>.imp_right List.cons_eq_cons.mp
      exact hescaped
    rw [decodedBytes_percent hnone, hpercent]
    simp only [List.length_cons, List.cons.injEq, true_and, Nat.add_right_cancel_iff,
      Nat.add_le_add_iff_right]
    exact ih
  | case3 c rest hnot ih =>
    rw [decodedBytes.eq_2 _ _ hnot, encode_cons]
    simp only [List.length_append, Nat.add_left_cancel_iff, Nat.add_le_add_iff_left,
      List.append_cancel_left_eq]
    exact ih
  | case4 => exact ⟨Nat.le_refl _, fun _ => rfl⟩

/-- The escape of a byte is read as the byte. -/
theorem decodedBytes_escape_append (byte : UInt8) (rest : List Char) :
    decodedBytes (escape byte ++ rest) = byte :: decodedBytes rest := by
  refine decodedBytes_escape ?_
  have hall : ∀ n < 256, escaped (hexDigit (n / 16)) (hexDigit (n % 16)) =
      some (UInt8.ofNat n) := by
    decide +kernel
  rw [hall byte.toNat (UInt8.toNat_lt byte), UInt8.ofNat_toNat]

theorem decodedBytes_flatMap_escape (bytes : List UInt8) (rest : List Char) :
    decodedBytes (bytes.flatMap escape ++ rest) = bytes ++ decodedBytes rest := by
  induction bytes with
  | nil => rfl
  | cons byte bytes ih =>
    rw [List.flatMap_cons, List.append_assoc, decodedBytes_escape_append, ih, List.cons_append]

end Decode

section Encode

variable {set : Char → Bool} {c : Char} {text rest : List Char}

theorem percentEncode_cons (c : Char) (text : List Char) :
    percentEncode set (c :: text) = encodeChar set c ++ percentEncode set text :=
  List.flatMap_cons

theorem encodeChar_of_not (h : set c = false) : encodeChar set c = [c] := by
  unfold encodeChar
  rw [h]
  rfl

theorem percentEncode_cons_of_not (h : set c = false) :
    percentEncode set (c :: text) = c :: percentEncode set text := by
  rw [percentEncode_cons, encodeChar_of_not h]
  rfl

/-- A character of the set is escaped from the first one on. -/
theorem encodeChar_of_mem (h : set c = true) : ∃ after, encodeChar set c = '%' :: after := by
  unfold encodeChar
  rw [if_pos h]
  cases hbytes : String.utf8EncodeChar c with
  | nil =>
    have hsize := c.utf8Size_pos
    rw [← String.length_utf8EncodeChar, hbytes] at hsize
    cases hsize
  | cons byte bytes => exact ⟨_, rfl⟩

/-- A text whose encoding begins with something else than an escape begins with that. -/
theorem eq_cons_of_percentEncode {after : List Char} (h : percentEncode set text = c :: after)
    (hc : c ≠ '%') : ∃ rest, text = c :: rest ∧ percentEncode set rest = after := by
  match text with
  | [] => cases h
  | d :: rest =>
    cases hd : set d with
    | true =>
      obtain ⟨after', hencode⟩ := encodeChar_of_mem hd
      rw [percentEncode_cons, hencode] at h
      exact absurd (List.cons_eq_cons.mp h).1.symm hc
    | false =>
      rw [percentEncode_cons_of_not hd] at h
      obtain ⟨rfl, hrest⟩ := List.cons_eq_cons.mp h
      exact ⟨rest, rfl, hrest⟩

theorem percentEncode_eq_nil (h : percentEncode set text = []) : text = [] := by
  match text with
  | [] => rfl
  | d :: rest =>
    cases hd : set d with
    | true =>
      obtain ⟨after', hencode⟩ := encodeChar_of_mem hd
      rw [percentEncode_cons, hencode] at h
      cases h
    | false =>
      rw [percentEncode_cons_of_not hd] at h
      cases h

theorem hexValue_percent : hexValue '%' = none := by decide

/-- Digits that make an escape are none of the set's. -/
theorem KeepsEscapes.of_escaped (h : KeepsEscapes set) {high low : Char} {byte : UInt8}
    (hescaped : escaped high low = some byte) : set high = false ∧ set low = false := by
  obtain ⟨n, hhigh, hrest⟩ := Option.bind_eq_some_iff.mp hescaped
  obtain ⟨m, hlow, -⟩ := Option.bind_eq_some_iff.mp hrest
  exact ⟨h.digits high (by rw [hhigh]; rfl), h.digits low (by rw [hlow]; rfl)⟩

/-- Encoding makes no escape of a text that begins with none. -/
theorem escaped_percentEncode
    (hnone : ∀ high low after, text = high :: low :: after → escaped high low = none)
    {high low : Char} {after : List Char} (h : percentEncode set text = high :: low :: after) :
    escaped high low = none := by
  by_cases hhigh : high = '%'
  · rw [hhigh, escaped, hexValue_percent]
    rfl
  · obtain ⟨rest, rfl, hrest⟩ := eq_cons_of_percentEncode h hhigh
    by_cases hlow : low = '%'
    · rw [hlow, escaped, hexValue_percent]
      cases hexValue high with
      | none => rfl
      | some n => rfl
    · obtain ⟨rest, rfl, -⟩ := eq_cons_of_percentEncode hrest hlow
      exact hnone high low rest rfl

/-- Decoding a text and decoding its encoding give the same bytes. -/
theorem decodedBytes_percentEncode (hset : KeepsEscapes set) (text : List Char) :
    decodedBytes (percentEncode set text) = decodedBytes text := by
  induction text using decodedBytes.induct with
  | case1 high low rest byte hescaped ih =>
    obtain ⟨hhigh, hlow⟩ := hset.of_escaped hescaped
    rw [percentEncode_cons_of_not hset.percent, percentEncode_cons_of_not hhigh,
      percentEncode_cons_of_not hlow, decodedBytes_escape hescaped, decodedBytes_escape hescaped,
      ih]
  | case2 high low rest hescaped ih =>
    have hnone : ∀ high' low' after, high :: low :: rest = high' :: low' :: after →
        escaped high' low' = none := by
      rintro high' low' after h
      obtain ⟨rfl, rfl, rfl⟩ := List.cons_eq_cons.mp h |>.imp_right List.cons_eq_cons.mp
      exact hescaped
    rw [percentEncode_cons_of_not hset.percent, decodedBytes_percent hnone,
      decodedBytes_percent fun _ _ _ h => escaped_percentEncode hnone h, ih]
  | case3 c rest hnot ih =>
    rw [decodedBytes.eq_2 _ _ hnot]
    cases hc : set c with
    | true =>
      rw [percentEncode_cons]
      unfold encodeChar
      rw [if_pos hc, decodedBytes_flatMap_escape, ih]
    | false =>
      rw [percentEncode_cons_of_not hc]
      by_cases hpercent : c = '%'
      · subst hpercent
        have hnone : ∀ high low after, rest = high :: low :: after → escaped high low = none :=
          fun high low after h => (hnot high low after rfl h).elim
        rw [decodedBytes_percent fun _ _ _ h => escaped_percentEncode hnone h, ih]
        rfl
      · rw [decodedBytes_cons hpercent, ih]
  | case4 => rfl

end Encode

end PercentEncoding
