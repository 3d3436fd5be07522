import Mathlib.Data.List.Pairwise
import Mathlib.Data.List.Perm.Basic
import Tachyon.Library.ByteFile
import Tachyon.Library.DisjointIntervals

/-!
# Sequences of writes

Writes to one file that do not meet can be done in any order, and a write that goes on where
another ended can be joined to it.
-/

namespace ByteFile

section Blocks

variable {β : Type}

/-- The block of bytes covers a position. -/
def Covers (block : ℕ × List β) (i : ℕ) : Prop := block.1 ≤ i ∧ i < block.1 + block.2.length

instance (block : ℕ × List β) (i : ℕ) : Decidable (Covers block i) :=
  inferInstanceAs (Decidable (_ ∧ _))

/-- Neither of two blocks covers a position of the other. -/
def Apart (a b : ℕ × List β) : Prop := ∀ i, Covers a i → ¬Covers b i

instance : Std.Symm (Apart (β := β)) := ⟨fun _ _ h i hb ha => h i ha hb⟩

/-- Blocks with some bytes that are apart stand one behind the other. -/
theorem Apart.le_or_le {a b : ℕ × List β} (h : Apart a b) (ha : a.2 ≠ []) (hb : b.2 ≠ []) :
    a.1 + a.2.length ≤ b.1 ∨ b.1 + b.2.length ≤ a.1 := by
  have hapos := List.length_pos_iff.mpr ha
  have hbpos := List.length_pos_iff.mpr hb
  have hmax := h (max a.1 b.1)
  unfold Covers at hmax
  omega

/-- How many of the blocks cover a position. -/
def timesWritten (blocks : List (ℕ × List β)) (i : ℕ) : ℕ := blocks.countP fun b => Covers b i

theorem timesWritten_cons (block : ℕ × List β) (blocks : List (ℕ × List β)) (i : ℕ) :
    timesWritten (block :: blocks) i =
      timesWritten blocks i + if Covers block i then 1 else 0 := by
  unfold timesWritten
  rw [List.countP_cons]
  simp only [decide_eq_true_eq]

theorem timesWritten_pos {blocks : List (ℕ × List β)} {i : ℕ} :
    0 < timesWritten blocks i ↔ ∃ b ∈ blocks, Covers b i := by
  unfold timesWritten
  simp only [List.countP_pos_iff, decide_eq_true_eq]

/-- Blocks that are apart cover no position twice. -/
theorem timesWritten_le_one {blocks : List (ℕ × List β)} (h : blocks.Pairwise Apart) (i : ℕ) :
    timesWritten blocks i ≤ 1 := by
  induction blocks with
  | nil => exact Nat.zero_le 1
  | cons a blocks ih =>
    obtain ⟨ha, hrest⟩ := List.pairwise_cons.mp h
    rw [timesWritten_cons]
    by_cases hcovers : Covers a i
    · have hnone : timesWritten blocks i = 0 :=
        List.countP_eq_zero.mpr fun b hb => by
          rw [decide_eq_true_iff]
          exact ha b hb i hcovers
      rw [hnone, if_pos hcovers]
    · rw [if_neg hcovers]
      exact ih hrest

/-- The bytes of all blocks. -/
def sumLengths (blocks : List (ℕ × List β)) : ℕ := (blocks.map fun b => b.2.length).sum

theorem sumLengths_filter (blocks : List (ℕ × List β)) :
    sumLengths (blocks.filter fun b => !b.2.isEmpty) = sumLengths blocks := by
  induction blocks with
  | nil => rfl
  | cons a blocks ih =>
    obtain ⟨offset, data⟩ := a
    cases data with
    | nil =>
      rw [List.filter_cons_of_neg (by simp), ih]
      exact (Nat.zero_add _).symm
    | cons b data =>
      rw [List.filter_cons_of_pos (by simp)]
      exact congrArg (data.length + 1 + ·) ih

/-- Blocks that are apart have no more bytes than there is room for them. -/
theorem sumLengths_le {blocks : List (ℕ × List β)} {bound : ℕ} (h : blocks.Pairwise Apart)
    (hbound : ∀ b ∈ blocks, b.1 + b.2.length ≤ bound) : sumLengths blocks ≤ bound := by
  rw [← sumLengths_filter]
  have hmem : ∀ b ∈ blocks.filter (fun b => !b.2.isEmpty), b ∈ blocks ∧ b.2 ≠ [] := by
    intro b hb
    obtain ⟨hb, hne⟩ := List.mem_filter.mp hb
    exact ⟨hb, by simpa using hne⟩
  have hapart : (blocks.filter fun b => !b.2.isEmpty).Pairwise
      (DisjointIntervals.Apart Prod.fst fun b => b.2.length) :=
    (h.filter _).imp_of_mem fun ha hb hapart =>
      hapart.le_or_le (hmem _ ha).2 (hmem _ hb).2
  exact DisjointIntervals.sum_length_le hapart (fun _ _ => Nat.zero_le _)
    fun b hb => hbound b (hmem b hb).1

end Blocks

section Writes

variable {β : Type} [Zero β] {file data xs ys : List β} {offset i : ℕ}

/-- Below a written block the file is filled with zeros. -/
theorem getElem?_pwrite_lt (hne : data ≠ []) (h : i < offset) :
    (pwrite file offset data)[i]? = some (file[i]?.getD 0) := by
  cases hi : file[i]? with
  | some b => exact getElem?_pwrite_below h hi
  | none =>
    obtain ⟨b, data, rfl⟩ := List.exists_cons_of_ne_nil hne
    have hlen := List.getElem?_eq_none_iff.mp hi
    rw [pwrite_cons, List.append_assoc, List.append_assoc, List.getElem?_append_right]
    · rw [List.getElem?_append_left, List.getElem?_replicate, if_pos]
      · rfl
      · rw [List.length_take]
        omega
      · rw [List.length_take, List.length_replicate]
        omega
    · rw [List.length_take]
      omega

/-- A write of some bytes, position by position. -/
theorem getElem?_pwrite (hne : data ≠ []) :
    (pwrite file offset data)[i]? =
      if i < offset then some (file[i]?.getD 0)
      else if i < offset + data.length then data[i - offset]?
      else file[i]? := by
  by_cases hlo : i < offset
  · rw [if_pos hlo, getElem?_pwrite_lt hne hlo]
  · rw [if_neg hlo]
    by_cases hhi : i < offset + data.length
    · rw [if_pos hhi, getElem?_pwrite_inside (by omega) hhi]
    · rw [if_neg hhi, getElem?_pwrite_above (by omega)]

/-- A write that goes on where another ended. -/
theorem pwrite_append (file : List β) (offset : ℕ) (xs ys : List β) :
    pwrite file offset (xs ++ ys) = pwrite (pwrite file offset xs) (offset + xs.length) ys := by
  by_cases hxs : xs = []
  · rw [hxs]
    rfl
  by_cases hys : ys = []
  · rw [hys, List.append_nil]
    rfl
  apply List.ext_getElem?
  intro i
  have happend : xs ++ ys ≠ [] := fun h => hxs (List.append_eq_nil_iff.mp h).1
  rw [getElem?_pwrite happend, getElem?_pwrite hys, getElem?_pwrite hxs, List.length_append]
  by_cases hlo : i < offset
  · rw [if_pos hlo, if_pos (by omega), if_pos hlo]
    rfl
  by_cases hmid : i < offset + xs.length
  · have hget : i - offset < xs.length := by omega
    rw [if_neg hlo, if_pos (by omega), if_pos hmid, if_neg hlo, if_pos hmid,
      List.getElem?_append_left hget, List.getElem?_eq_getElem hget]
    rfl
  · rw [if_neg hlo, if_neg hmid, ← Nat.add_assoc]
    by_cases hhi : i < offset + xs.length + ys.length
    · rw [if_pos hhi, if_pos hhi, List.getElem?_append_right (by omega), Nat.sub_sub]
    · rw [if_neg hhi, if_neg hhi, if_neg hlo, if_neg hmid]

/-- A write and one behind it can be swapped. -/
theorem pwrite_comm_of_le {p : ℕ} (h : offset + xs.length ≤ p) (file : List β) :
    pwrite (pwrite file offset xs) p ys = pwrite (pwrite file p ys) offset xs := by
  by_cases hxs : xs = []
  · rw [hxs]
    rfl
  by_cases hys : ys = []
  · rw [hys]
    rfl
  apply List.ext_getElem?
  intro i
  rw [getElem?_pwrite hys, getElem?_pwrite hxs, getElem?_pwrite hxs, getElem?_pwrite hys]
  by_cases hlo : i < offset
  · rw [if_pos hlo, if_pos hlo, if_pos (by omega), if_pos (by omega)]
  by_cases hmid : i < offset + xs.length
  · have hget : i - offset < xs.length := by omega
    rw [if_neg hlo, if_pos hmid, if_neg hlo, if_pos hmid, if_pos (by omega),
      List.getElem?_eq_getElem hget]
    rfl
  · rw [if_neg hlo, if_neg hmid, if_neg hlo, if_neg hmid]

/-- Writes of blocks that are apart can be swapped. -/
theorem pwrite_comm {a b : ℕ × List β} (h : Apart a b) (file : List β) :
    pwrite (pwrite file a.1 a.2) b.1 b.2 = pwrite (pwrite file b.1 b.2) a.1 a.2 := by
  by_cases ha : a.2 = []
  · rw [ha]
    rfl
  by_cases hb : b.2 = []
  · rw [hb]
    rfl
  rcases h.le_or_le ha hb with hle | hle
  · exact pwrite_comm_of_le hle file
  · exact (pwrite_comm_of_le hle file).symm

/-- The file after a list of writes. -/
def writeAll (file : List β) (blocks : List (ℕ × List β)) : List β :=
  blocks.foldl (fun file block => pwrite file block.1 block.2) file

@[simp] theorem writeAll_nil (file : List β) : writeAll file [] = file := rfl

@[simp] theorem writeAll_cons (file : List β) (block : ℕ × List β) (blocks : List (ℕ × List β)) :
    writeAll file (block :: blocks) = writeAll (pwrite file block.1 block.2) blocks := rfl

theorem writeAll_append (file : List β) (blocks more : List (ℕ × List β)) :
    writeAll file (blocks ++ more) = writeAll (writeAll file blocks) more :=
  List.foldl_append

/-- Blocks that are apart can be written in any order. -/
theorem writeAll_perm {blocks blocks' : List (ℕ × List β)} (h : blocks.Pairwise Apart)
    (hperm : blocks.Perm blocks') (file : List β) :
    writeAll file blocks = writeAll file blocks' := by
  refine hperm.foldl_eq' (fun a ha b hb file => ?_) file
  by_cases heq : a = b
  · rw [heq]
  · exact pwrite_comm (h.forall ha hb heq) file

/-! ### Joining writes -/

/-- The writes have the same effect on every file, write each position as often, and as many
bytes. -/
structure SameWrites (blocks blocks' : List (ℕ × List β)) : Prop where
  file : ∀ file, writeAll file blocks = writeAll file blocks'
  times : ∀ i, timesWritten blocks i = timesWritten blocks' i
  length : sumLengths blocks = sumLengths blocks'

namespace SameWrites

variable {blocks blocks' more more' last : List (ℕ × List β)}

theorem refl (blocks : List (ℕ × List β)) : SameWrites blocks blocks :=
  ⟨fun _ => rfl, fun _ => rfl, rfl⟩

theorem symm (h : SameWrites blocks blocks') : SameWrites blocks' blocks :=
  ⟨fun file => (h.file file).symm, fun i => (h.times i).symm, h.length.symm⟩

theorem trans (h : SameWrites blocks blocks') (h' : SameWrites blocks' last) :
    SameWrites blocks last :=
  ⟨fun file => (h.file file).trans (h'.file file), fun i => (h.times i).trans (h'.times i),
    h.length.trans h'.length⟩

/-- Blocks that are apart, in any order. -/
theorem of_perm (h : blocks.Pairwise Apart) (hperm : blocks.Perm blocks') :
    SameWrites blocks blocks' :=
  ⟨writeAll_perm h hperm, fun _ => hperm.countP_eq _, (hperm.map _).sum_eq⟩

theorem append (h : SameWrites blocks blocks') (hmore : SameWrites more more') :
    SameWrites (blocks ++ more) (blocks' ++ more') where
  file file := by rw [writeAll_append, writeAll_append, h.file, hmore.file]
  times i := by
    unfold timesWritten
    rw [List.countP_append, List.countP_append]
    exact congrArg₂ _ (h.times i) (hmore.times i)
  length := by
    unfold sumLengths
    rw [List.map_append, List.map_append, List.sum_append, List.sum_append]
    exact congrArg₂ _ h.length hmore.length

/-- An empty block writes nothing. -/
theorem nil (offset : ℕ) : SameWrites [(offset, ([] : List β))] [] where
  file _ := rfl
  times i := by
    have hnot : ¬Covers (offset, ([] : List β)) i := by
      unfold Covers
      simp only [List.length_nil]
      omega
    rw [timesWritten_cons, if_neg hnot, Nat.add_zero]
  length := rfl

/-- An empty block at the end writes nothing. -/
theorem append_nil (blocks : List (ℕ × List β)) (offset : ℕ) :
    SameWrites (blocks ++ [(offset, [])]) blocks := by
  have h := (refl blocks).append (nil offset)
  rwa [List.append_nil] at h

/-- A block that goes on where another ended. -/
theorem join (offset : ℕ) (xs ys : List β) :
    SameWrites [(offset, xs), (offset + xs.length, ys)] [(offset, xs ++ ys)] where
  file file := (pwrite_append file offset xs ys).symm
  times i := by
    simp only [timesWritten_cons]
    by_cases hleft : Covers (offset, xs) i
    · have hjoined : Covers (offset, xs ++ ys) i := by
        simp only [Covers, List.length_append] at hleft ⊢
        omega
      have hright : ¬Covers (offset + xs.length, ys) i := by
        simp only [Covers] at hleft ⊢
        omega
      rw [if_neg hright, if_pos hleft, if_pos hjoined]
    · have hjoined : Covers (offset, xs ++ ys) i ↔ Covers (offset + xs.length, ys) i := by
        simp only [Covers, List.length_append] at hleft ⊢
        omega
      by_cases hright : Covers (offset + xs.length, ys) i
      · rw [if_pos hright, if_neg hleft, if_pos (hjoined.mpr hright)]
      · rw [if_neg hright, if_neg hleft, if_neg (fun h => hright (hjoined.mp h))]
  length := by
    unfold sumLengths
    simp only [List.map_cons, List.map_nil, List.sum_cons, List.sum_nil, List.length_append]
    omega

end SameWrites

end Writes

end ByteFile
