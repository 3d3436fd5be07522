import Mathlib.Data.List.Basic

/-!
# Files written by position

A file is the list of its bytes. A positional write replaces the bytes at its
offset, extends the file where it ends beyond it, and fills a gap between the
old end and the offset with zeros. What a list of writes leaves behind is stated
with `StoredAt`, which says that a block of bytes stands at an offset.
-/

namespace ByteFile

variable {β : Type*} [Zero β]

/-- A positional write: empty data changes nothing, other data replaces or extends. -/
def pwrite (file : List β) (offset : ℕ) : List β → List β
  | [] => file
  | b :: data =>
    file.take offset ++ List.replicate (offset - file.length) 0 ++ (b :: data) ++
      file.drop (offset + (b :: data).length)

/-- Setting the length: a longer file is cut, a shorter one is filled with zeros. -/
def setLen (file : List β) (size : ℕ) : List β :=
  file.take size ++ List.replicate (size - file.length) 0

/-- Reserving space: a shorter file is filled with zeros, a longer one is left alone. -/
def reserve (file : List β) (size : ℕ) : List β :=
  file ++ List.replicate (size - file.length) 0

omit [Zero β] in
/-- The bytes `data` stand in the file from `offset` on. -/
def StoredAt (file : List β) (offset : ℕ) (data : List β) : Prop :=
  ∀ i, (h : i < data.length) → file[offset + i]? = some data[i]

/-- Nothing was written outside `lo ≤ i < hi`: bytes that were there stay, and from
`hi` on the file is the same. Below `lo` a gap may have been filled. -/
def KeepsOutside (lo hi : ℕ) (file file' : List β) : Prop :=
  (∀ i b, i < lo ∨ hi ≤ i → file[i]? = some b → file'[i]? = some b) ∧
  ∀ i, hi ≤ i → file'[i]? = file[i]?

@[simp] theorem pwrite_nil (file : List β) (offset : ℕ) : pwrite file offset [] = file := rfl

theorem pwrite_cons (file : List β) (offset : ℕ) (b : β) (data : List β) :
    pwrite file offset (b :: data) =
      file.take offset ++ List.replicate (offset - file.length) 0 ++ (b :: data) ++
        file.drop (offset + (b :: data).length) := rfl

private theorem length_filled (file : List β) (offset : ℕ) :
    (file.take offset ++ List.replicate (offset - file.length) 0).length = offset := by
  simp only [List.length_append, List.length_take, List.length_replicate]
  omega

theorem getElem?_pwrite_inside {file data : List β} {offset i : ℕ}
    (hlo : offset ≤ i) (hhi : i < offset + data.length) :
    (pwrite file offset data)[i]? = data[i - offset]? := by
  cases data with
  | nil => simp at hhi; omega
  | cons b data =>
    rw [pwrite_cons]
    rw [List.getElem?_append_left, List.getElem?_append_right, length_filled]
    · rw [length_filled]; exact hlo
    · rw [List.length_append, length_filled]; exact hhi

/-- From the end of the written block on, the file is unchanged. -/
theorem getElem?_pwrite_above {file data : List β} {offset i : ℕ}
    (h : offset + data.length ≤ i) : (pwrite file offset data)[i]? = file[i]? := by
  cases data with
  | nil => rfl
  | cons b data =>
    rw [pwrite_cons]
    have hlength : (file.take offset ++ List.replicate (offset - file.length) 0 ++
        (b :: data)).length = offset + (b :: data).length := by
      rw [List.length_append, length_filled]
    rw [List.getElem?_append_right (by omega), hlength, List.getElem?_drop]
    congr 1
    omega

/-- Bytes present below the written block stay. -/
theorem getElem?_pwrite_below {file data : List β} {offset i : ℕ} {b : β}
    (h : i < offset) (hb : file[i]? = some b) : (pwrite file offset data)[i]? = some b := by
  cases data with
  | nil => exact hb
  | cons c data =>
    obtain ⟨hi, _⟩ := List.getElem?_eq_some_iff.mp hb
    rw [pwrite_cons]
    rw [List.append_assoc, List.append_assoc, List.getElem?_append_left, List.getElem?_take,
      if_pos h, hb]
    rw [List.length_take]
    omega

/-- A write at the end of a file appends to it. -/
theorem pwrite_length (file data : List β) : pwrite file file.length data = file ++ data := by
  cases data with
  | nil => exact (List.append_nil file).symm
  | cons b data =>
    have hbeyond : file.drop (file.length + (b :: data).length) = [] :=
      List.drop_eq_nil_of_le (Nat.le_add_right _ _)
    rw [pwrite_cons, List.take_length, Nat.sub_self, List.replicate_zero, List.append_nil,
      hbeyond, List.append_nil]

/-- Writing on behind the part of a file already replaced replaces more of it. -/
theorem pwrite_replaced (file xs ys : List β) :
    pwrite (xs ++ file.drop xs.length) xs.length ys =
      (xs ++ ys) ++ file.drop (xs ++ ys).length := by
  cases ys with
  | nil => simp
  | cons b ys =>
    have hshort : xs.length - (xs ++ file.drop xs.length).length = 0 := by
      rw [List.length_append]
      omega
    have hbehind : (xs ++ file.drop xs.length).drop (xs.length + (b :: ys).length) =
        file.drop (xs ++ b :: ys).length := by
      rw [List.drop_append, List.drop_drop, List.drop_eq_nil_of_le (Nat.le_add_right _ _),
        List.nil_append, List.length_append, Nat.add_sub_cancel_left]
    rw [pwrite_cons, hshort, hbehind, List.take_left, List.replicate_zero, List.append_nil]

/-- A write inside a region keeps everything outside of it. -/
theorem pwrite_keepsOutside {file data : List β} {lo hi offset : ℕ}
    (hlo : lo ≤ offset) (hhi : offset + data.length ≤ hi) :
    KeepsOutside lo hi file (pwrite file offset data) := by
  refine ⟨fun i b hi' hb => ?_, fun i hi' => getElem?_pwrite_above (by omega)⟩
  rcases hi' with hi' | hi'
  · exact getElem?_pwrite_below (by omega) hb
  · rw [getElem?_pwrite_above (by omega)]
    exact hb

omit [Zero β] in
theorem KeepsOutside.refl (lo hi : ℕ) (file : List β) : KeepsOutside lo hi file file :=
  ⟨fun _ _ _ hb => hb, fun _ _ => rfl⟩

omit [Zero β] in
theorem KeepsOutside.mono {lo hi lo' hi' : ℕ} {file file' : List β}
    (h : KeepsOutside lo hi file file') (hlo : lo' ≤ lo) (hhi : hi ≤ hi') :
    KeepsOutside lo' hi' file file' := by
  refine ⟨fun i b hi => h.1 i b ?_, fun i hi => h.2 i (by omega)⟩
  omega

omit [Zero β] in
theorem storedAt_nil (file : List β) (offset : ℕ) : StoredAt file offset [] :=
  fun i hi => absurd hi (Nat.not_lt_zero i)

omit [Zero β] in
/-- Two blocks stored one after the other are their concatenation stored. -/
theorem storedAt_append {file xs ys : List β} {offset : ℕ} :
    StoredAt file offset (xs ++ ys) ↔
      StoredAt file offset xs ∧ StoredAt file (offset + xs.length) ys := by
  constructor
  · intro h
    refine ⟨fun i hi => ?_, fun i hi => ?_⟩
    · rw [h i (by rw [List.length_append]; omega), List.getElem_append_left]
    · have := h (xs.length + i) (by rw [List.length_append]; omega)
      rw [List.getElem_append_right (by omega)] at this
      simpa [Nat.add_assoc] using this
  · rintro ⟨hxs, hys⟩ i hi
    rw [List.length_append] at hi
    by_cases hlt : i < xs.length
    · rw [List.getElem_append_left hlt]
      exact hxs i hlt
    · rw [List.getElem_append_right (by omega)]
      have := hys (i - xs.length) (by omega)
      rwa [Nat.add_assoc, Nat.add_sub_cancel' (by omega : xs.length ≤ i)] at this

omit [Zero β] in
theorem storedAt_append_left (data rest : List β) : StoredAt (data ++ rest) 0 data := by
  intro i hi
  rw [Nat.zero_add, List.getElem?_append_left hi]
  exact List.getElem?_eq_getElem hi

/-- A write leaves its data at its offset. -/
theorem storedAt_pwrite_self (file : List β) (offset : ℕ) (data : List β) :
    StoredAt (pwrite file offset data) offset data := by
  intro i hi
  rw [getElem?_pwrite_inside (by omega) (by omega), Nat.add_sub_cancel_left]
  exact List.getElem?_eq_getElem hi

omit [Zero β] in
/-- A stored block survives any change outside a region it does not meet. -/
theorem StoredAt.of_keepsOutside {file file' data : List β} {offset lo hi : ℕ}
    (h : StoredAt file offset data) (hkeep : KeepsOutside lo hi file file')
    (hdisjoint : offset + data.length ≤ lo ∨ hi ≤ offset) : StoredAt file' offset data :=
  fun i hi' => hkeep.1 _ _ (by omega) (h i hi')

/-- Writing right behind a stored block stores the concatenation. -/
theorem StoredAt.pwrite_append {file xs : List β} {offset : ℕ} (h : StoredAt file offset xs)
    (ys : List β) : StoredAt (pwrite file (offset + xs.length) ys) offset (xs ++ ys) := by
  have hkeep : KeepsOutside (offset + xs.length) (offset + xs.length + ys.length) file
      (pwrite file (offset + xs.length) ys) := pwrite_keepsOutside (Nat.le_refl _) (Nat.le_refl _)
  exact storedAt_append.mpr
    ⟨h.of_keepsOutside hkeep (Or.inl (Nat.le_refl _)), storedAt_pwrite_self _ _ _⟩

omit [Zero β] in
/-- A block stored in a file lies within the file. -/
theorem StoredAt.length_le {file data : List β} {offset : ℕ} (h : StoredAt file offset data)
    (hne : data ≠ []) : offset + data.length ≤ file.length := by
  have hpos : 0 < data.length := List.length_pos_iff.mpr hne
  have hlast := h (data.length - 1) (by omega)
  obtain ⟨hlt, _⟩ := List.getElem?_eq_some_iff.mp hlast
  omega

omit [Zero β] in
/-- A block is stored where slices of it that cover it are. -/
theorem storedAt_of_slices {file data : List β}
    (h : ∀ i < data.length, ∃ lo len, lo ≤ i ∧ i < lo + len ∧
      StoredAt file lo ((data.drop lo).take len)) : StoredAt file 0 data := by
  intro i hi
  obtain ⟨lo, len, hlo, hlen, hstored⟩ := h i hi
  have hslice : i - lo < ((data.drop lo).take len).length := by
    rw [List.length_take, List.length_drop]
    omega
  have hbyte := hstored (i - lo) hslice
  rw [Nat.add_sub_cancel' hlo] at hbyte
  rw [Nat.zero_add, hbyte, List.getElem_take, List.getElem_drop]
  simp only [Nat.add_sub_cancel' hlo]

omit [Zero β] in
/-- Reading a block back gives its bytes. -/
theorem storedAt_iff_slice {file data : List β} {offset : ℕ} :
    StoredAt file offset data ↔ (file.drop offset).take data.length = data := by
  constructor
  · intro h
    apply List.ext_getElem?
    intro i
    rw [List.getElem?_take]
    by_cases hi : i < data.length
    · rw [if_pos hi, List.getElem?_drop, h i hi, List.getElem?_eq_getElem hi]
    · rw [if_neg hi, List.getElem?_eq_none (by omega)]
  · intro h i hi
    have := congrArg (fun l => l[i]?) h
    simpa [List.getElem?_take, hi, List.getElem?_drop] using this

omit [Zero β] in
/-- Only one list of its length stands at an offset. -/
theorem StoredAt.unique {file a b : List β} {offset : ℕ} (ha : StoredAt file offset a)
    (hb : StoredAt file offset b) (hlength : a.length = b.length) : a = b := by
  apply List.ext_getElem hlength
  intro i hi hi'
  exact Option.some.inj ((ha i hi).symm.trans (hb i hi'))

omit [Zero β] in
/-- A file whose first bytes are `data` is `data` followed by the rest. -/
theorem StoredAt.eq_append_drop {file data : List β} (h : StoredAt file 0 data) :
    file = data ++ file.drop data.length := by
  have hslice := storedAt_iff_slice.mp h
  rw [List.drop_zero] at hslice
  conv_lhs => rw [← List.take_append_drop data.length file, hslice]

@[simp] theorem length_setLen (file : List β) (size : ℕ) : (setLen file size).length = size := by
  simp only [setLen, List.length_append, List.length_take, List.length_replicate]
  omega

@[simp] theorem length_reserve (file : List β) (size : ℕ) :
    (reserve file size).length = max file.length size := by
  simp only [reserve, List.length_append, List.length_replicate]
  omega

end ByteFile
