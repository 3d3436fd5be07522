import Tachyon.Core.Error
import Tachyon.Core.Machine
import Tachyon.Library.ByteFile
import Mathlib.Data.List.Permutation
import Mathlib.Data.Nat.Bitwise
import Mathlib.Data.UInt

/-!
# Aligned writes

The default `write_at_aligned` rounds the range of the data outwards to the alignment and fills
what it adds with zeros. Whatever stood in those bytes is lost.
-/

namespace Tachyon

open ByteFile

/-- `u64::is_power_of_two` -/
def isPowerOfTwo (n : UInt64) : Bool := (List.range 64).any fun k => n.toNat = 2 ^ k

/-- `write_at` of a storage with the content `Content`. -/
abbrev WriteAt (Content : Type) :=
  UInt64 → List UInt8 → Content → DownloadResult ℕ × Content

/-- A storage that writes all it is given. -/
def WriteAt.Full (writeAt : WriteAt (List UInt8)) : Prop :=
  ∀ offset data file, writeAt offset data file = (.ok data.length, pwrite file offset.toNat data)

/-- `vec![0u8; len]`. More than `isize::MAX` bytes are a panic. -/
def zeroVec (len : ℕ) : Option (List UInt8) :=
  if len < 2 ^ 63 then some (List.replicate len 0) else none

/-- `copy_from_slice` into a part of a vector. A range that does not fit is a panic. -/
def copyFromSlice (target : List UInt8) (start : ℕ) (data : List UInt8) : Option (List UInt8) :=
  if start + data.length ≤ target.length then
    some (target.take start ++ data ++ target.drop (start + data.length))
  else none

/-- `AsyncStorage::write_at_aligned`; nothing where it panics. -/
def writeAtAligned {Content : Type} (writeAt : WriteAt Content) (offset : UInt64)
    (data : List UInt8) (alignment : UInt64) (content : Content) :
    Option (DownloadResult ℕ × Content) :=
  if !isPowerOfTwo alignment then none
  else if data.isEmpty then some (.ok 0, content)
  else do
    let alignMask := alignment - 1
    let alignedOffset := offset &&& ~~~alignMask
    let frontPad := (offset - alignedOffset).toNat
    let totalLen := frontPad + data.length
    let paddedLen := ((UInt64.ofNat totalLen + alignMask) &&& ~~~alignMask).toNat
    let padded ← copyFromSlice (← zeroVec paddedLen) frontPad data
    let (written, content) := writeAt alignedOffset padded content
    some (written.map fun written => min (written - frontPad) data.length, content)

/-- The last multiple of `a` up to `n`. -/
def roundDown (a n : ℕ) : ℕ := n / a * a

/-- The first multiple of `a` from `n` on. -/
def roundUp (a n : ℕ) : ℕ := (n + (a - 1)) / a * a

/-- The buffer of an aligned write is not too large for one allocation. -/
def FitsAllocation (alignment offset : UInt64) (data : List UInt8) : Prop :=
  roundUp alignment.toNat (offset.toNat + data.length) - roundDown alignment.toNat offset.toNat <
    2 ^ 63

/-- After an aligned write the data stand where they should, zeros around them up to the bounds
of the alignment, and what was outside of these. -/
structure WrittenAligned (a offset : ℕ) (data file file' : List UInt8) : Prop where
  stored : StoredAt file' offset data
  zeros : data ≠ [] → ∀ i, roundDown a offset ≤ i → i < roundUp a (offset + data.length) →
    i < offset ∨ offset + data.length ≤ i → file'[i]? = some 0
  kept : KeepsOutside (roundDown a offset) (roundUp a (offset + data.length)) file file'

section Rounding

variable {a n m : ℕ}

theorem roundDown_le (a n : ℕ) : roundDown a n ≤ n := Nat.div_mul_le_self n a

theorem le_roundUp (ha : 0 < a) (n : ℕ) : n ≤ roundUp a n := by
  have hmod := Nat.div_add_mod (n + (a - 1)) a
  have hlt := Nat.mod_lt (n + (a - 1)) ha
  rw [Nat.mul_comm] at hmod
  unfold roundUp
  omega

theorem roundUp_lt (ha : 0 < a) (n : ℕ) : roundUp a n < n + a := by
  have hle := Nat.div_mul_le_self (n + (a - 1)) a
  unfold roundUp
  omega

theorem roundDown_of_dvd (h : a ∣ n) : roundDown a n = n := Nat.div_mul_cancel h

theorem roundUp_of_dvd (ha : 0 < a) (h : a ∣ n) : roundUp a n = n := by
  obtain ⟨k, rfl⟩ := h
  have hdiv : (a * k + (a - 1)) / a = k := by
    rw [Nat.mul_add_div ha, Nat.div_eq_of_lt (by omega), Nat.add_zero]
  rw [roundUp, hdiv, Nat.mul_comm]

/-- Rounding goes on from a multiple. -/
theorem roundUp_add (ha : 0 < a) (n m : ℕ) :
    roundUp a (roundDown a n + m) = roundDown a n + roundUp a m := by
  unfold roundUp roundDown
  rw [Nat.add_assoc, Nat.mul_comm (n / a) a, Nat.mul_add_div ha, Nat.add_mul, Nat.mul_comm a]

/-- What is padded in front is rounded up to the whole of the aligned range. -/
theorem roundUp_padded (ha : 0 < a) (n m : ℕ) :
    roundUp a (n - roundDown a n + m) = roundUp a (n + m) - roundDown a n := by
  have hdown := roundDown_le a n
  have hsum : roundDown a n + (n - roundDown a n + m) = n + m := by omega
  have hadd := roundUp_add ha n (n - roundDown a n + m)
  rw [hsum] at hadd
  omega

theorem le_roundUp_of_pos (ha : 0 < a) (hn : 0 < n) : a ≤ roundUp a n := by
  unfold roundUp
  exact Nat.le_mul_of_pos_left a ((Nat.one_le_div_iff ha).mpr (by omega))

end Rounding

/-! ### The mask -/

theorem exists_of_isPowerOfTwo {alignment : UInt64} (h : isPowerOfTwo alignment = true) :
    ∃ k < 64, alignment.toNat = 2 ^ k := by
  obtain ⟨k, hk, heq⟩ := List.any_eq_true.mp h
  exact ⟨k, List.mem_range.mp hk, of_decide_eq_true heq⟩

theorem pos_of_isPowerOfTwo {alignment : UInt64} (h : isPowerOfTwo alignment = true) :
    0 < alignment.toNat := by
  obtain ⟨k, -, hk⟩ := exists_of_isPowerOfTwo h
  rw [hk]
  exact Nat.two_pow_pos k

theorem toNat_mask {alignment : UInt64} (h : isPowerOfTwo alignment = true) :
    (alignment - 1).toNat = alignment.toNat - 1 := by
  have hone : 1 ≤ alignment := UInt64.le_iff_toNat_le.mpr (pos_of_isPowerOfTwo h)
  rw [UInt64.toNat_sub_of_le _ _ hone]
  rfl

/-- Without the bits of the mask, a number is rounded down. -/
theorem toNat_and_not_mask {alignment : UInt64} (h : isPowerOfTwo alignment = true) (x : UInt64) :
    (x &&& ~~~(alignment - 1)).toNat = roundDown alignment.toNat x.toNat := by
  obtain ⟨k, hk, hpow⟩ := exists_of_isPowerOfTwo h
  have hmask := toNat_mask h
  rw [hpow] at hmask
  have hsmall : 2 ^ k - 1 < 2 ^ 64 := by
    have := Nat.pow_lt_pow_right (a := 2) (by decide) hk
    omega
  have hnot : (~~~(alignment - 1)).toNat = 2 ^ 64 - (2 ^ k - 1 + 1) := by
    rw [UInt64.toNat_not, hmask]
    change 2 ^ 64 - 1 - (2 ^ k - 1) = _
    omega
  rw [UInt64.toNat_and, hnot, roundDown, hpow]
  apply Nat.eq_of_testBit_eq
  intro i
  rw [Nat.testBit_and, Nat.testBit_two_pow_sub_succ hsmall, Nat.testBit_two_pow_sub_one,
    Nat.testBit_mul_two_pow, Nat.testBit_div_two_pow]
  by_cases hik : i < k
  · simp [hik, Nat.not_le.mpr hik]
  · have hsum : i - k + k = i := by omega
    by_cases hi : i < 64
    · simp [hik, hi, Nat.not_lt.mp hik]
    · have hzero : x.toNat.testBit i = false := by
        apply Nat.testBit_lt_two_pow
        exact Nat.lt_of_lt_of_le x.toNat_lt (Nat.pow_le_pow_right (by decide) (by omega))
      simp [hi, hsum, hzero]

/-- The bytes to write are rounded up with the mask. -/
theorem toNat_padded {alignment : UInt64} (h : isPowerOfTwo alignment = true) {n : ℕ} (hn : 0 < n)
    (hfits : roundUp alignment.toNat n < 2 ^ 63) :
    ((UInt64.ofNat n + (alignment - 1)) &&& ~~~(alignment - 1)).toNat =
      roundUp alignment.toNat n := by
  have hpos := pos_of_isPowerOfTwo h
  have hle := le_roundUp hpos n
  have hwhole := le_roundUp_of_pos hpos hn
  rw [toNat_and_not_mask h, UInt64.toNat_add, toNat_mask h, UInt64.toNat_ofNat',
    Nat.mod_eq_of_lt (a := n) (by omega), Nat.mod_eq_of_lt (by omega)]
  rfl

/-- Data copied between zeros. -/
theorem copyFromSlice_zeros {front len : ℕ} {data : List UInt8} (h : front + data.length ≤ len) :
    copyFromSlice (List.replicate len 0) front data =
      some (List.replicate front 0 ++ data ++ List.replicate (len - (front + data.length)) 0) := by
  have hfits : front + data.length ≤ (List.replicate len (0 : UInt8)).length := by
    rwa [List.length_replicate]
  rw [copyFromSlice, if_pos hfits, List.take_replicate, List.drop_replicate,
    Nat.min_eq_left (by omega)]

/-! ### One write -/

section Write

variable {writeAt : WriteAt (List UInt8)} {offset alignment : UInt64} {data file file' : List UInt8}

/-- What a write of some data comes to, where its buffer can be allocated: the zeros in front, the
data and the zeros behind them are written. -/
theorem writeAtAligned_eq (hfull : writeAt.Full) (halign : isPowerOfTwo alignment = true)
    (hne : data ≠ []) (hfits : FitsAllocation alignment offset data) :
    writeAtAligned writeAt offset data alignment file = some (.ok data.length,
      pwrite file (roundDown alignment.toNat offset.toNat)
        (List.replicate (offset.toNat - roundDown alignment.toNat offset.toNat) 0 ++ data ++
          List.replicate (roundUp alignment.toNat (offset.toNat + data.length) -
            (offset.toNat + data.length)) 0)) := by
  have hpos := pos_of_isPowerOfTwo halign
  have haligned := toNat_and_not_mask halign offset
  have hdown := roundDown_le alignment.toNat offset.toNat
  have hup := le_roundUp hpos (offset.toNat + data.length)
  have hlength := List.length_pos_of_ne_nil hne
  have hsize := hfits
  rw [FitsAllocation] at hsize
  -- the padding in front
  have hfront : (offset - (offset &&& ~~~(alignment - 1))).toNat =
      offset.toNat - roundDown alignment.toNat offset.toNat := by
    rw [UInt64.toNat_sub_of_le, haligned]
    rw [UInt64.le_iff_toNat_le, haligned]
    exact hdown
  -- the length of the buffer
  have hround := roundUp_padded hpos offset.toNat data.length
  generalize hlo : roundDown alignment.toNat offset.toNat = lo at *
  generalize hhi : roundUp alignment.toNat (offset.toNat + data.length) = hi at *
  have hpadded := toNat_padded halign (n := offset.toNat - lo + data.length) (by omega)
    (by omega)
  rw [hround] at hpadded
  have hcopy := @copyFromSlice_zeros (offset.toNat - lo) (hi - lo) data (by omega)
  have htail : hi - lo - (offset.toNat - lo + data.length) = hi - (offset.toNat + data.length) := by
    omega
  rw [htail] at hcopy
  have hempty : data.isEmpty = false := by simpa using hne
  have hwrite (offset : UInt64) (data file : List UInt8) :
      writeAt offset data file = (.ok data.length, pwrite file offset.toNat data) := hfull _ _ _
  unfold writeAtAligned
  rw [halign, hempty]
  simp only [Bool.not_true, Bool.false_eq_true, if_false, hfront, hpadded, zeroVec, if_pos hsize]
  simp only [Option.bind_eq_bind, Option.bind_some, hcopy, hwrite, haligned]
  have hcount : min ((List.replicate (offset.toNat - lo) (0 : UInt8) ++ data ++
      List.replicate (hi - (offset.toNat + data.length)) 0).length - (offset.toNat - lo))
        data.length = data.length := by
    simp only [List.length_append, List.length_replicate]
    omega
  rw [Except.map, hcount]

/-- The zeros, the data and the zeros stand between the bounds of the alignment. -/
theorem writtenAligned_pwrite {a offset : ℕ} (ha : 0 < a) :
    WrittenAligned a offset data file
      (pwrite file (roundDown a offset) (List.replicate (offset - roundDown a offset) 0 ++ data ++
        List.replicate (roundUp a (offset + data.length) - (offset + data.length)) 0)) := by
  have hdown := roundDown_le a offset
  have hup := le_roundUp ha (offset + data.length)
  generalize hlo : roundDown a offset = lo at *
  generalize hhi : roundUp a (offset + data.length) = hi at *
  generalize hpadded : List.replicate (offset - lo) 0 ++ data ++
    List.replicate (hi - (offset + data.length)) 0 = padded
  have hlength : padded.length = hi - lo := by
    rw [← hpadded]
    simp only [List.length_append, List.length_replicate]
    omega
  have hall := storedAt_pwrite_self file lo padded
  have hparts := hall
  rw [← hpadded, storedAt_append, storedAt_append, List.length_append, List.length_replicate,
    hpadded] at hparts
  obtain ⟨⟨hfront, hdata⟩, hback⟩ := hparts
  rw [Nat.add_sub_cancel' hdown] at hdata
  refine ⟨hdata, fun _ i hge hlt hout => ?_, ?_⟩
  case refine_2 =>
    rw [hlo, hhi]
    exact pwrite_keepsOutside (Nat.le_refl lo) (by omega)
  rw [hlo] at hge
  rw [hhi] at hlt
  rcases hout with hout | hout
  · have hzero := hfront (i - lo) (by rw [List.length_replicate]; omega)
    rwa [Nat.add_sub_cancel' hge, List.getElem_replicate] at hzero
  · have hzero := hback (i - (offset + data.length)) (by rw [List.length_replicate]; omega)
    have hindex : lo + (offset - lo + data.length) + (i - (offset + data.length)) = i := by omega
    rwa [hindex, List.getElem_replicate] at hzero

/-- An aligned write leaves its data, and says how long they are. -/
theorem exists_writtenAligned (hfull : writeAt.Full) (halign : isPowerOfTwo alignment = true)
    (hfits : FitsAllocation alignment offset data) (file : List UInt8) :
    ∃ file', writeAtAligned writeAt offset data alignment file = some (.ok data.length, file') ∧
      WrittenAligned alignment.toNat offset.toNat data file file' := by
  by_cases hne : data = []
  · subst hne
    refine ⟨file, ?_, ⟨storedAt_nil file _, fun h => absurd rfl h, KeepsOutside.refl _ _ file⟩⟩
    unfold writeAtAligned
    rw [halign]
    rfl
  · exact ⟨_, writeAtAligned_eq hfull halign hne hfits,
      writtenAligned_pwrite (pos_of_isPowerOfTwo halign)⟩

end Write

/-! ### Writes side by side -/

/-- Aligned writes one after another. -/
def writeAllAligned {Content : Type} (writeAt : WriteAt Content) (alignment : UInt64)
    (writes : List (UInt64 × List UInt8)) (content : Content) : Option Content :=
  writes.foldlM (fun content write =>
    (writeAtAligned writeAt write.1 write.2 alignment content).map Prod.snd) content

/-- A storage that keeps its file in memory. -/
def memoryWriteAt : WriteAt (List UInt8) :=
  fun offset data file => (.ok data.length, pwrite file offset.toNat data)

end Tachyon
