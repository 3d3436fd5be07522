import Tachyon.Library.Reader
import Tachyon.Library.Utf8
import Mathlib.Algebra.GroupWithZero.Nat

/-!
# Numbers of variable length

A number is written in groups of seven bits, the lowest first; every byte but the last has
its highest bit set. Words of a fixed size, truth values and strings are written through it.
-/

namespace Varint

/-- The bytes of a number. -/
def write (n : ℕ) : List UInt8 :=
  if n < 128 then [UInt8.ofNat n] else UInt8.ofNat (n % 128 + 128) :: write (n / 128)
termination_by n
decreasing_by omega

/-- The number in front of the input. -/
def read : List UInt8 → Option (ℕ × List UInt8)
  | [] => none
  | byte :: input =>
    if byte.toNat < 128 then some (byte.toNat, input)
    else (read input).map fun result => (byte.toNat - 128 + 128 * result.1, result.2)

/-- Numbers as varints. -/
def nat : Codec UInt8 ℕ := ⟨write, read⟩

theorem nat_roundTrips : nat.RoundTrips := by
  intro n
  induction n using Nat.strongRecOn with
  | ind n ih =>
    intro rest
    change read (write n ++ rest) = some (n, rest)
    rw [write]
    split
    · rename_i hlt
      have hbyte : (UInt8.ofNat n).toNat = n := by simp; omega
      simp only [List.singleton_append, read, hbyte, if_pos hlt]
    · rename_i hle
      have hbyte : (UInt8.ofNat (n % 128 + 128)).toNat = n % 128 + 128 := by simp; omega
      have hrest : read (write (n / 128) ++ rest) = some (n / 128, rest) :=
        ih (n / 128) (by omega) rest
      have hvalue : n % 128 + 128 - 128 + 128 * (n / 128) = n := by omega
      rw [List.cons_append, read, hbyte, if_neg (by omega), hrest, Option.map_some, hvalue]

/-- The values that are read from a code; the others are refused. -/
def restrict {α β : Type} (c : Codec UInt8 α) (encode : β → α) (decode : α → Option β) :
    Codec UInt8 β where
  write b := c.write (encode b)
  read input := (c.read input).bind fun result => (decode result.1).map fun b => (b, result.2)

theorem restrict_roundTrips {α β : Type} {c : Codec UInt8 α} {encode : β → α}
    {decode : α → Option β} (hc : c.RoundTrips) (h : ∀ b, decode (encode b) = some b) :
    (restrict c encode decode).RoundTrips := by
  intro b rest
  simp only [restrict, hc (encode b) rest, Option.bind_some, h b, Option.map_some]

/-- A byte as it is. -/
def byte : Codec UInt8 UInt8 where
  write b := [b]
  read
    | [] => none
    | b :: input => some (b, input)

theorem byte_roundTrips : byte.RoundTrips := fun _ _ => rfl

/-- Words of 32 bits. -/
def u32 : Codec UInt8 UInt32 :=
  restrict nat UInt32.toNat fun n => if n < 2 ^ 32 then some (UInt32.ofNat n) else none

theorem u32_roundTrips : u32.RoundTrips :=
  restrict_roundTrips nat_roundTrips fun b => by rw [if_pos b.toNat_lt, UInt32.ofNat_toNat]

/-- Words of 64 bits. -/
def u64 : Codec UInt8 UInt64 :=
  restrict nat UInt64.toNat fun n => if n < 2 ^ 64 then some (UInt64.ofNat n) else none

theorem u64_roundTrips : u64.RoundTrips :=
  restrict_roundTrips nat_roundTrips fun b => by rw [if_pos b.toNat_lt, UInt64.ofNat_toNat]

/-- A truth value as a byte. -/
def bool : Codec UInt8 Bool :=
  restrict byte (fun b => if b then 1 else 0)
    fun b => if b = 0 then some false else if b = 1 then some true else none

theorem bool_roundTrips : bool.RoundTrips :=
  restrict_roundTrips byte_roundTrips fun b => by cases b <;> rfl

/-- A string as the length of its bytes and the bytes. -/
def str : Codec UInt8 String where
  write s := nat.write (Utf8.encode s.toList).length ++ Utf8.encode s.toList
  read input := (nat.read input).bind fun result =>
    if result.1 ≤ result.2.length then
      (String.fromUTF8? (result.2.take result.1).toByteArray).map fun s =>
        (s, result.2.drop result.1)
    else none

theorem str_roundTrips : str.RoundTrips := by
  intro s rest
  have hlength := nat_roundTrips (Utf8.encode s.toList).length (Utf8.encode s.toList ++ rest)
  have hle : (Utf8.encode s.toList).length ≤ (Utf8.encode s.toList ++ rest).length := by simp
  simp only [str, List.append_assoc, hlength, Option.bind_some, if_pos hle]
  rw [List.take_left, List.drop_left, Utf8.fromUTF8?_encode, Option.map_some]

end Varint
