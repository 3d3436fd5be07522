import Tachyon.Engine.Planner

/-!
# What a plan is

A plan cuts the file into consecutive pieces and leaves nothing out, whatever the
scheduler suggests. How many pieces it has is another matter: the count is estimated with the
rounded-down quotient and the loop makes the rounded-up number, so a file a little longer than a
million pieces passes the limit.
-/

namespace Tachyon

/-- The plan lists consecutive pieces that make up the file, none of them begun. -/
structure Partitions (plan : List FragmentInfo) (fileSize : ℕ) : Prop where
  indices : plan.map FragmentInfo.index = List.range plan.length
  nonempty : ∀ f ∈ plan, 0 < f.size
  sized : ∀ f ∈ plan, f.end_ + 1 = f.start + f.size
  untouched : ∀ f ∈ plan, f.downloaded = 0
  ordered : plan.Pairwise fun f g => f.end_ < g.start
  covers : ∀ x, (∃ f ∈ plan, f.start ≤ x ∧ x ≤ f.end_) ↔ x < fileSize

theorem partitions_nil : Partitions [] 0 where
  indices := rfl
  nonempty := by simp
  sized := by simp
  untouched := by simp
  ordered := List.Pairwise.nil
  covers := by simp

/-- The pieces of a cut, one after the other, each as its place says. -/
private theorem piece_bounds {fileSize size i : ℕ} (hsize : 0 < size)
    (hi : i < divCeil fileSize size) :
    i * size < fileSize ∧ (fragmentAt fileSize size i).start = i * size ∧
      (fragmentAt fileSize size i).end_ + 1 = min (i * size + size) fileSize ∧
      (fragmentAt fileSize size i).size = min (i * size + size) fileSize - i * size := by
  have hlt := (lt_divCeil_iff hsize).mp hi
  exact ⟨hlt, fragmentAt_bounds hlt hsize⟩

/-- The pieces of a cut come in the order of their bytes. -/
theorem cutInto_ordered {fileSize size : ℕ} (hsize : 0 < size) :
    (cutInto fileSize size).Pairwise fun f g => f.end_ < g.start := by
  unfold cutInto
  rw [List.pairwise_map]
  apply List.pairwise_lt_range.imp_of_mem
  intro i j hi hj hij
  obtain ⟨-, -, hend, -⟩ := piece_bounds hsize (List.mem_range.mp hi)
  obtain ⟨-, hstart, -, -⟩ := piece_bounds hsize (List.mem_range.mp hj)
  have hmul : i * size + size ≤ j * size := by
    rw [← Nat.succ_mul]
    exact Nat.mul_le_mul_right size hij
  omega

/-- A file cut at the multiples of a size is partitioned by the cut. -/
theorem cutInto_partitions {fileSize size : ℕ} (hsize : 0 < size) :
    Partitions (cutInto fileSize size) fileSize where
  indices := by
    rw [cutInto_length]
    simp only [cutInto, List.map_map]
    exact List.map_id _
  nonempty := by
    intro f hf
    obtain ⟨i, hi, rfl⟩ := mem_cutInto.mp hf
    obtain ⟨hlt, -, -, hlength⟩ := piece_bounds hsize hi
    omega
  sized := by
    intro f hf
    obtain ⟨i, hi, rfl⟩ := mem_cutInto.mp hf
    obtain ⟨hlt, hstart, hend, hlength⟩ := piece_bounds hsize hi
    omega
  untouched := by
    intro f hf
    obtain ⟨i, -, rfl⟩ := mem_cutInto.mp hf
    rfl
  ordered := cutInto_ordered hsize
  covers := by
    intro x
    constructor
    · rintro ⟨f, hf, -, hx⟩
      obtain ⟨i, hi, rfl⟩ := mem_cutInto.mp hf
      obtain ⟨hlt, -, hend, -⟩ := piece_bounds hsize hi
      omega
    · intro hx
      obtain ⟨f, hf, hstart, hlt⟩ := exists_mem_cutInto hsize hx
      refine ⟨f, hf, hstart, ?_⟩
      obtain ⟨i, hi, rfl⟩ := mem_cutInto.mp hf
      obtain ⟨-, hstart', hend, hlength⟩ := piece_bounds hsize hi
      omega

/-- Only the empty file has a plan without fragments. -/
theorem Partitions.eq_nil_iff {plan : List FragmentInfo} {fileSize : ℕ}
    (h : Partitions plan fileSize) : plan = [] ↔ fileSize = 0 := by
  constructor
  · rintro rfl
    by_contra hne
    obtain ⟨f, hf, -⟩ := (h.covers 0).mpr (by omega)
    exact List.not_mem_nil hf
  · rintro rfl
    apply List.eq_nil_iff_forall_not_mem.mpr
    intro f hf
    have hbound := h.sized f hf
    have hsize := h.nonempty f hf
    have hlt := (h.covers f.start).mp ⟨f, hf, Nat.le_refl _, by omega⟩
    exact Nat.not_lt_zero _ hlt

/-! ### Every call returns -/

section Returns

variable {bandwidthBps : ℕ} {config : SchedulerConfig} {fileSize : ℕ} {supportsRange : Bool}
  {suggestedFragSize : Option ℕ}

/-- `clamp` panics on crossed bounds only. -/
theorem computeFragmentSize_isSome (hbounds : config.minFragmentSize ≤ config.maxFragmentSize) :
    ∃ size, computeFragmentSize fileSize bandwidthBps config = some size := by
  unfold computeFragmentSize
  split
  · exact ⟨0, rfl⟩
  · rw [if_neg (Nat.not_lt.mpr hbounds)]
    exact ⟨_, rfl⟩

theorem fragSize_isSome (hbounds : config.minFragmentSize ≤ config.maxFragmentSize) :
    ∃ size, fragSize bandwidthBps config fileSize suggestedFragSize = some size := by
  cases suggestedFragSize with
  | none => exact computeFragmentSize_isSome hbounds
  | some size =>
    by_cases hpos : size > 0
    · exact ⟨size, if_pos hpos⟩
    · obtain ⟨computed, hcomputed⟩ :=
        @computeFragmentSize_isSome bandwidthBps config fileSize hbounds
      exact ⟨computed, (if_neg hpos).trans hcomputed⟩

theorem cutSize_isSome (hbounds : config.minFragmentSize ≤ config.maxFragmentSize) :
    ∃ size, cutSize bandwidthBps config fileSize supportsRange suggestedFragSize = some size := by
  cases supportsRange with
  | false => exact ⟨fileSize, rfl⟩
  | true =>
    obtain ⟨size, hsize⟩ :=
      @fragSize_isSome bandwidthBps config fileSize suggestedFragSize hbounds
    by_cases hzero : size = 0
    · exact ⟨fileSize, by simp [cutSize, hsize, hzero]⟩
    · exact ⟨effectiveFragSize fileSize size, by simp [cutSize, hsize, hzero]⟩

end Returns

/-- A piece lies in the file, so the sums of the loop that makes it stay in `u64`. -/
theorem Partitions.fits {plan : List FragmentInfo} {fileSize : ℕ} (h : Partitions plan fileSize)
    {f : FragmentInfo} (hf : f ∈ plan) : f.start + f.size ≤ fileSize := by
  have hbound := h.sized f hf
  have hsize := h.nonempty f hf
  have hlt := (h.covers f.end_).mp ⟨f, hf, by omega, Nat.le_refl _⟩
  omega

/-- With uncrossed bounds in the configuration every call returns, and what it returns
partitions the file. -/
theorem planFragments_partitions (bandwidthBps : ℕ) (config : SchedulerConfig)
    (fileSize : UInt64) (supportsRange : Bool) (suggestedFragSize : Option ℕ)
    (hbounds : config.minFragmentSize ≤ config.maxFragmentSize) :
    ∃ plan, planFragments bandwidthBps config fileSize.toNat supportsRange suggestedFragSize =
        some plan ∧
      Partitions plan fileSize.toNat ∧ (∀ f ∈ plan, f.start + f.size ≤ fileSize.toNat) ∧
      (plan = [] ↔ fileSize = 0) := by
  have hzero : fileSize = 0 ↔ fileSize.toNat = 0 := by
    rw [← UInt64.toNat_inj]
    rfl
  rcases Nat.eq_zero_or_pos fileSize.toNat with hfile | hfile
  · refine ⟨[], ?_, ?_, by simp, ?_⟩
    · rw [hfile]
      rfl
    · rw [hfile]
      exact partitions_nil
    · rw [hzero]
      exact ⟨fun _ => hfile, fun _ => rfl⟩
  · obtain ⟨size, hsize⟩ :=
      @cutSize_isSome bandwidthBps config fileSize.toNat supportsRange suggestedFragSize hbounds
    have hpartitions := @cutInto_partitions fileSize.toNat size (cutSize_pos hfile hsize)
    refine ⟨cutInto fileSize.toNat size, ?_, hpartitions, ?_, ?_⟩
    · rw [planFragments_eq_cutInto hfile fileSize.toNat_lt, hsize]
      rfl
    · intro f hf
      exact hpartitions.fits hf
    · rw [hzero]
      exact hpartitions.eq_nil_iff

/-- The default configuration, with no suggestion and the longest file. -/
theorem planFragments_partitions_default :
    ∃ plan, planFragments 0 SchedulerConfig.default (18446744073709551615 : UInt64).toNat true
        none = some plan ∧
      Partitions plan (18446744073709551615 : UInt64).toNat ∧
      (∀ f ∈ plan, f.start + f.size ≤ (18446744073709551615 : UInt64).toNat) ∧
      (plan = [] ↔ (18446744073709551615 : UInt64) = 0) :=
  planFragments_partitions 0 SchedulerConfig.default 18446744073709551615 true none (by decide)

/-! ### How many pieces a plan has -/

/-- The file is longer than a million pieces of the chosen size and shorter than a million and
one. -/
def OnePieceTooMany (bandwidthBps : ℕ) (config : SchedulerConfig) (fileSize : ℕ)
    (supportsRange : Bool) (suggestedFragSize : Option ℕ) : Prop :=
  supportsRange = true ∧ ∃ size, fragSize bandwidthBps config fileSize suggestedFragSize =
    some size ∧ maxFragmentCount * size < fileSize ∧ fileSize < (maxFragmentCount + 1) * size

/-- The whole file as one piece keeps the limit. -/
private theorem divCeil_self_le {fileSize : ℕ} (hfile : 0 < fileSize) :
    divCeil fileSize fileSize ≤ maxFragmentCount := by
  have hone := (divCeil_le_iff hfile).mpr (show fileSize ≤ 1 * fileSize by omega)
  exact Nat.le_trans hone (by decide)

/-- The estimate of the count keeps the limit, but for one piece too many. -/
theorem divCeil_effectiveFragSize_le_iff {fileSize size : ℕ} (hsize : 0 < size) :
    divCeil fileSize (effectiveFragSize fileSize size) ≤ maxFragmentCount ↔
      ¬(maxFragmentCount * size < fileSize ∧ fileSize < (maxFragmentCount + 1) * size) := by
  have hestimate : fileSize / size > maxFragmentCount ↔
      (maxFragmentCount + 1) * size ≤ fileSize := Nat.le_div_iff_mul_le hsize
  have hgrow : (maxFragmentCount + 1) * size = maxFragmentCount * size + size :=
    Nat.succ_mul maxFragmentCount size
  unfold effectiveFragSize
  by_cases hmany : fileSize / size > maxFragmentCount
  · have hlong := hestimate.mp hmany
    have hcount : 0 < maxFragmentCount := by decide
    have hpos : 0 < divCeil fileSize maxFragmentCount := (lt_divCeil_iff hcount).mpr (by omega)
    have hle := (divCeil_le_iff hcount).mp (Nat.le_refl (divCeil fileSize maxFragmentCount))
    rw [if_pos hmany, divCeil_le_iff hpos, Nat.mul_comm]
    omega
  · have hshort : ¬(maxFragmentCount + 1) * size ≤ fileSize := fun h => hmany (hestimate.mpr h)
    rw [if_neg hmany, divCeil_le_iff hsize]
    omega

/-- A plan keeps the limit on the number of fragments unless the file is longer than a
million pieces and shorter than a million and one. -/
theorem planFragments_length_le_iff (bandwidthBps : ℕ) (config : SchedulerConfig)
    (fileSize : UInt64) (supportsRange : Bool) (suggestedFragSize : Option ℕ) :
    (∀ plan, planFragments bandwidthBps config fileSize.toNat supportsRange suggestedFragSize =
        some plan → plan.length ≤ maxFragmentCount) ↔
      ¬OnePieceTooMany bandwidthBps config fileSize.toNat supportsRange suggestedFragSize := by
  rcases Nat.eq_zero_or_pos fileSize.toNat with hfile | hfile
  · have hempty : planFragments bandwidthBps config 0 supportsRange suggestedFragSize =
        some [] := rfl
    rw [hfile, hempty]
    simp [OnePieceTooMany]
  · rw [planFragments_eq_cutInto hfile fileSize.toNat_lt]
    cases supportsRange with
    | false =>
      have hle := divCeil_self_le hfile
      simp [cutSize, OnePieceTooMany, hle]
    | true =>
      cases hsize : fragSize bandwidthBps config fileSize.toNat suggestedFragSize with
      | none => simp [cutSize, OnePieceTooMany, hsize]
      | some size =>
        by_cases hzero : size = 0
        · have hle := divCeil_self_le hfile
          simp [cutSize, OnePieceTooMany, hsize, hzero, hle]
        · have hiff := @divCeil_effectiveFragSize_le_iff fileSize.toNat size (by omega)
          simpa [cutSize, OnePieceTooMany, hsize, hzero] using hiff

/-- With the default configuration a file one byte longer than a million of the largest
fragments has a million and one. -/
theorem planFragments_passes_limit :
    ∃ plan, planFragments 0 SchedulerConfig.default 67108864000001 true none = some plan ∧
      plan.length = 1000001 := by
  have hcut : cutSize 0 SchedulerConfig.default 67108864000001 true none = some 67108864 := by
    decide
  refine ⟨cutInto 67108864000001 67108864, ?_, ?_⟩
  · rw [planFragments_eq_cutInto (by decide) (by decide), hcut]
    rfl
  · rw [cutInto_length]
    decide

end Tachyon
