import Mathlib.Data.List.Basic

/-!
# A buffer that is written round and round

The place of a value in the buffer is its number in the sequence, modulo the size. From this
one fact everything that is read out of the buffer is a part of the latest values.
-/

namespace RollingWindow

variable {α : Type}

/-- The last values of a sequence, at most so many. -/
def lastValues (size : ℕ) (xs : List α) : List α := xs.drop (xs.length - size)

/-- A buffer with the place to write next and how many places are filled holds the latest
values of a sequence. -/
structure Holds (size : ℕ) (buffer : List α) (writeIndex count : ℕ) (xs : List α) : Prop where
  length : buffer.length = size
  writeIndex : writeIndex = xs.length % size
  count : count = min xs.length size
  slot : ∀ j < xs.length, xs.length ≤ j + size → buffer[j % size]? = xs[j]?

section

variable {size writeIndex count : ℕ} {buffer xs : List α} {x : α}

theorem length_lastValues : (lastValues size xs).length = min xs.length size := by
  rw [lastValues, List.length_drop]
  omega

theorem lastValues_of_le (h : xs.length ≤ size) : lastValues size xs = xs := by
  rw [lastValues, Nat.sub_eq_zero_of_le h, List.drop_zero]

/-- With one more value a full window loses its first. -/
theorem lastValues_concat (h : size ≤ xs.length) (hpos : 0 < size) :
    lastValues size (xs ++ [x]) = (lastValues size xs).tail ++ [x] := by
  unfold lastValues
  rw [List.length_append, List.length_singleton, List.tail_drop,
    List.drop_append_of_le_length (by omega)]
  congr 2
  omega

/-- Numbers less than the size apart have different places. -/
theorem eq_of_mod_eq {i j : ℕ} (hij : i % size = j % size) (hlt : i < j + size)
    (hgt : j < i + size) : i = j := by
  have hi := Nat.div_add_mod i size
  have hj := Nat.div_add_mod j size
  rcases Nat.lt_trichotomy (i / size) (j / size) with hless | hsame | hmore
  · have hstep := Nat.mul_le_mul_left size (Nat.succ_le_of_lt hless)
    rw [Nat.mul_succ] at hstep
    omega
  · rw [hsame] at hi
    omega
  · have hstep := Nat.mul_le_mul_left size (Nat.succ_le_of_lt hmore)
    rw [Nat.mul_succ] at hstep
    omega

theorem holds_nil (h : buffer.length = size) : Holds size buffer 0 0 [] where
  length := h
  writeIndex := (Nat.zero_mod size).symm
  count := (Nat.zero_min size).symm
  slot _ hj := absurd hj (Nat.not_lt_zero _)

theorem Holds.push (h : Holds size buffer writeIndex count xs) (hpos : 0 < size) :
    Holds size (buffer.set writeIndex x) ((writeIndex + 1) % size)
      (if count = size then count else count + 1) (xs ++ [x]) where
  length := by rw [List.length_set, h.length]
  writeIndex := by
    rw [h.writeIndex, List.length_append, List.length_singleton, Nat.mod_add_mod]
  count := by
    have hcount := h.count
    rw [List.length_append, List.length_singleton]
    split <;> omega
  slot j hj hin := by
    rw [List.length_append, List.length_singleton] at hj hin
    rcases Nat.lt_or_eq_of_le (Nat.le_of_lt_succ hj) with hold | rfl
    · have hne : writeIndex ≠ j % size := by
        rw [h.writeIndex]
        intro heq
        have hsame := eq_of_mod_eq heq (by omega) (by omega)
        omega
      rw [List.getElem?_set_ne hne, List.getElem?_append_left hold]
      exact h.slot j hold (by omega)
    · rw [← h.writeIndex, List.getElem?_set_self, List.getElem?_concat_length]
      rw [h.length, h.writeIndex]
      exact Nat.mod_lt _ hpos

/-- What is read from the oldest place on are the latest values in their order. -/
theorem Holds.read (h : Holds size buffer writeIndex count xs) {i : ℕ} (hi : i < count) :
    buffer[((if count = size then writeIndex else 0) + i) % size]? = (lastValues size xs)[i]? := by
  have hcount := h.count
  rw [lastValues, List.getElem?_drop]
  have hplace : ((if count = size then writeIndex else 0) + i) % size =
      (xs.length - size + i) % size := by
    split
    · rename_i hfull
      have hlength : xs.length = xs.length - size + size := by omega
      rw [h.writeIndex, Nat.mod_add_mod]
      calc (xs.length + i) % size = (xs.length - size + i + size) % size := by
            congr 1
            omega
        _ = (xs.length - size + i) % size := Nat.add_mod_right _ _
    · rename_i hpart
      have hstart : xs.length - size = 0 := by omega
      rw [hstart]
  rw [hplace]
  exact h.slot _ (by omega) (by omega)

/-- The place to write next holds the oldest value of a full window. -/
theorem Holds.oldest (h : Holds size buffer writeIndex count xs) (hfull : count = size)
    (hpos : 0 < size) : buffer[writeIndex]? = (lastValues size xs).head? := by
  have hread := h.read (i := 0) (by omega)
  rw [if_pos hfull, Nat.add_zero, Nat.mod_eq_of_lt, ← List.head?_eq_getElem?] at hread
  · exact hread
  · rw [h.writeIndex]
    exact Nat.mod_lt _ hpos

/-- The place before it holds the last value. -/
theorem Holds.newest (h : Holds size buffer writeIndex count xs) (hsome : xs ≠ [])
    (hpos : 0 < size) : buffer[(writeIndex + (size - 1)) % size]? = xs.getLast? := by
  have hlength := List.length_pos_iff.mpr hsome
  have hplace : (writeIndex + (size - 1)) % size = (xs.length - 1) % size := by
    rw [h.writeIndex, Nat.mod_add_mod]
    calc (xs.length + (size - 1)) % size = (xs.length - 1 + size) % size := by
          congr 1
          omega
      _ = (xs.length - 1) % size := Nat.add_mod_right _ _
  rw [hplace, h.slot _ (by omega) (by omega), List.getLast?_eq_getElem?]

/-- The other places of a full window hold its later values. -/
theorem Holds.others (h : Holds size buffer writeIndex count xs) (hfull : count = size)
    (hpos : 0 < size) {v : α} : (∃ i < size, i ≠ writeIndex ∧ buffer[i]? = some v) ↔
      v ∈ (lastValues size xs).tail := by
  have hcount := h.count
  have hread (i : ℕ) (hi : i < size) :
      buffer[(writeIndex + i) % size]? = (lastValues size xs)[i]? := by
    have hread := h.read (i := i) (by omega)
    rwa [if_pos hfull] at hread
  have hwrite : writeIndex < size := by
    rw [h.writeIndex]
    exact Nat.mod_lt _ hpos
  rw [← List.drop_one, List.mem_iff_getElem?]
  constructor
  · rintro ⟨i, hi, hne, hv⟩
    -- the number of the value in the window: how far its place is from the oldest
    have hplace : (writeIndex + (i + size - writeIndex) % size) % size = i := by
      rw [Nat.add_mod_mod]
      have hsum : writeIndex + (i + size - writeIndex) = i + size := by omega
      rw [hsum, Nat.add_mod_right, Nat.mod_eq_of_lt hi]
    have hfar : 1 ≤ (i + size - writeIndex) % size := by
      rw [Nat.one_le_iff_ne_zero]
      intro hzero
      rw [hzero, Nat.add_zero, Nat.mod_eq_of_lt hwrite] at hplace
      exact hne hplace.symm
    have hv' := hread _ (Nat.mod_lt (i + size - writeIndex) hpos)
    rw [hplace, hv] at hv'
    refine ⟨(i + size - writeIndex) % size - 1, ?_⟩
    rw [List.getElem?_drop, Nat.add_sub_cancel' hfar, hv']
  · rintro ⟨k, hk⟩
    rw [List.getElem?_drop] at hk
    have hin : 1 + k < size := by
      have hlt := (List.getElem?_eq_some_iff.mp hk).1
      rw [length_lastValues] at hlt
      omega
    refine ⟨(writeIndex + (1 + k)) % size, Nat.mod_lt _ hpos, fun heq => ?_,
      (hread _ hin).trans hk⟩
    have hself : (writeIndex + (1 + k)) % size = writeIndex % size := by
      rw [heq, Nat.mod_eq_of_lt hwrite]
    have hsame := eq_of_mod_eq hself (by omega) (by omega)
    omega

end

end RollingWindow
