import Mathlib.Data.List.Basic

/-!
# Reading UTF-8 with replacement

A lossy reader of bytes: every character that can be read is, and what cannot be read is
replaced, one replacement for each broken beginning of a character. Text that was encoded
is read back as it was.
-/

namespace Utf8

/-- The bytes of a text. -/
def encode (text : List Char) : List UInt8 := text.flatMap String.utf8EncodeChar

/-- The character at the front of the bytes. -/
def decodeFirst (bytes : List UInt8) : Option Char := ByteArray.utf8DecodeChar? bytes.toByteArray 0

/-- A byte that continues a character. -/
def isContinuation (byte : UInt8) : Bool := 0x80 ≤ byte && byte ≤ 0xBF

/-- The second byte may follow the first one in a character. -/
def secondFits (first second : UInt8) : Bool :=
  if first = 0xE0 then 0xA0 ≤ second && second ≤ 0xBF
  else if first = 0xED then 0x80 ≤ second && second ≤ 0x9F
  else if first = 0xF0 then 0x90 ≤ second && second ≤ 0xBF
  else if first = 0xF4 then 0x80 ≤ second && second ≤ 0x8F
  else 0xC2 ≤ first && first ≤ 0xF4 && isContinuation second

/-- How much one replacement stands for, where no character can be read: the bytes that
would begin one, at least the first. -/
def brokenLength : List UInt8 → ℕ
  | first :: second :: rest =>
    if secondFits first second then
      match rest with
      | third :: _ => if isContinuation third then 3 else 2
      | [] => 2
    else 1
  | _ => 1

/-- The reader, for as many characters as the bound allows. -/
def decodeLossyUpTo : ℕ → List UInt8 → List Char
  | 0, _ => []
  | _, [] => []
  | bound + 1, bytes =>
    match decodeFirst bytes with
    | some c => c :: decodeLossyUpTo bound (bytes.drop c.utf8Size)
    | none => '\uFFFD' :: decodeLossyUpTo bound (bytes.drop (brokenLength bytes))

/-- The text that can be read from the bytes. -/
def decodeLossy (bytes : List UInt8) : List Char := decodeLossyUpTo bytes.length bytes

theorem encode_cons (c : Char) (text : List Char) :
    encode (c :: text) = String.utf8EncodeChar c ++ encode text := List.flatMap_cons

/-- What holds of the ASCII characters one by one. -/
theorem forall_ascii {P : Char → Prop} (h : ∀ n < 0x80, P (Char.ofNat n)) {c : Char}
    (hc : c.toNat < 0x80) : P c := by
  rw [← Char.ofNat_toNat c]
  exact h c.toNat hc

/-- An ASCII character is one byte. -/
theorem encodeChar_ascii {c : Char} (h : c.toNat < 0x80) :
    String.utf8EncodeChar c = [UInt8.ofNat c.toNat] := by
  have hall : ∀ n < 0x80, String.utf8EncodeChar (Char.ofNat n) =
      [UInt8.ofNat (Char.ofNat n).toNat] := by decide
  exact @forall_ascii (fun c => String.utf8EncodeChar c = [UInt8.ofNat c.toNat]) hall c h

theorem length_le_encode (text : List Char) : text.length ≤ (encode text).length := by
  induction text with
  | nil => exact Nat.zero_le 0
  | cons c text ih =>
    have hpos := c.utf8Size_pos
    rw [encode_cons, List.length_append, String.length_utf8EncodeChar, List.length_cons]
    omega

/-- The character in front of other bytes is read. -/
theorem decodeFirst_encode (c : Char) (bytes : List UInt8) :
    decodeFirst (String.utf8EncodeChar c ++ bytes) = some c := by
  unfold decodeFirst
  rw [List.toByteArray_append]
  exact ByteArray.utf8DecodeChar?_utf8EncodeChar_append

theorem decodeLossyUpTo_encode {bound : ℕ} {text : List Char} (hbound : text.length ≤ bound) :
    decodeLossyUpTo bound (encode text) = text := by
  induction text generalizing bound with
  | nil =>
    cases bound with
    | zero => rfl
    | succ bound => rfl
  | cons c text ih =>
    cases bound with
    | zero => simp at hbound
    | succ bound =>
      have hlength : text.length ≤ bound := by
        rw [List.length_cons] at hbound
        omega
      have hdrop : (String.utf8EncodeChar c ++ encode text).drop c.utf8Size = encode text := by
        rw [← String.length_utf8EncodeChar, List.drop_left]
      have hread := decodeFirst_encode c (encode text)
      rw [encode_cons]
      cases hbytes : String.utf8EncodeChar c ++ encode text with
      | nil => simp [String.utf8EncodeChar_ne_nil] at hbytes
      | cons first rest =>
        rw [← hbytes, decodeLossyUpTo, hread]
        · dsimp only
          rw [hdrop, ih hlength]
        · rw [hbytes]
          exact List.cons_ne_nil first rest

/-- Encoded text is read back. -/
theorem decodeLossy_encode (text : List Char) : decodeLossy (encode text) = text :=
  decodeLossyUpTo_encode (length_le_encode text)

example : decodeLossy [0x61, 0xE4, 0xB8, 0xFF, 0xC3, 0xA9] = ['a', '\uFFFD', '\uFFFD', 'é'] := by
  decide

/-- The bytes of a string are its encoded characters. -/
theorem toByteArray_encode (s : String) : (encode s.toList).toByteArray = s.toByteArray :=
  String.utf8Encode_toList

/-- The bytes of a string read strictly give the string. -/
theorem fromUTF8?_encode (s : String) :
    String.fromUTF8? (encode s.toList).toByteArray = some s := by
  rw [toByteArray_encode, String.fromUTF8?, dif_pos s.isValidUTF8]
  rfl

theorem toList_loop (bytes : ByteArray) (i : ℕ) (before : List UInt8) :
    ByteArray.toList.loop bytes i before = before.reverse ++ bytes.data.toList.drop i := by
  induction hn : bytes.size - i generalizing i before with
  | zero =>
    have hle : ¬i < bytes.size := by omega
    have hnil : bytes.data.toList.drop i = [] := List.drop_eq_nil_of_le (by
      rw [Array.length_toList, ByteArray.size_data]
      omega)
    rw [ByteArray.toList.loop, if_neg hle, hnil, List.append_nil]
  | succ n ih =>
    have hlt : i < bytes.size := by omega
    have hdata : i < bytes.data.toList.length := by
      rw [Array.length_toList, ByteArray.size_data]
      exact hlt
    have hget : bytes.get! i = bytes.data.toList[i] := by simp [ByteArray.get!, hlt]
    rw [ByteArray.toList.loop, if_pos hlt, ih _ _ (by omega), List.reverse_cons, List.append_assoc,
      List.drop_eq_getElem_cons hdata, hget]
    rfl

/-- The bytes of a string as a list. -/
theorem toList_toUTF8 (s : String) : s.toUTF8.toList = encode s.toList := by
  have hbytes : s.toUTF8.data.toList = encode s.toList := by
    change s.toByteArray.data.toList = _
    rw [← toByteArray_encode, List.toList_data_toByteArray]
  rw [ByteArray.toList, toList_loop, List.reverse_nil, List.drop_zero, List.nil_append, hbytes]

end Utf8
