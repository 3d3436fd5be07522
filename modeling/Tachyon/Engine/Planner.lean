import Tachyon.Core.Types

/-!
# Planning fragments

`plan_fragments` cuts a file into consecutive fragments of one size, the last one
shorter. The size comes from the scheduler's suggestion or from
`compute_fragment_size`, and grows where it would give too many fragments. Every
plan is therefore `cutInto`, the file cut at the multiples of its `cutSize`.
-/

namespace Tachyon

/-- `compute_fragment_size`. `none` is the panic of `clamp` on crossed bounds. The
bandwidth factors 2.0, 1.5 and 1.0 are counted in halves. -/
def computeFragmentSize (fileSize bandwidthBps : ℕ) (config : SchedulerConfig) : Option ℕ :=
  if fileSize = 0 then some 0
  else
    let base := fileSize / max config.defaultTargetFragments 1
    let bandwidthHalves :=
      if bandwidthBps > config.highBandwidthThreshold then 4
      else if bandwidthBps > config.mediumBandwidthThreshold then 3
      else 2
    -- the product is rounded once more, and the cast back to u64 saturates
    let adjusted := min (roundF64 (roundF64 base * bandwidthHalves) / 2) (u64Bound - 1)
    if config.minFragmentSize > config.maxFragmentSize then none
    else some (max config.minFragmentSize (min adjusted config.maxFragmentSize))

/-- `MAX_FRAGMENT_COUNT`. -/
def maxFragmentCount : ℕ := 1000000

/-- The fragment size before the count is limited: a positive suggestion, else the computed one. -/
def fragSize (bandwidthBps : ℕ) (config : SchedulerConfig) (fileSize : ℕ)
    (suggestedFragSize : Option ℕ) : Option ℕ :=
  match suggestedFragSize with
  | some size => if size > 0 then some size else computeFragmentSize fileSize bandwidthBps config
  | none => computeFragmentSize fileSize bandwidthBps config

/-- `effective_frag_size`: larger where the size would give too many fragments. -/
def effectiveFragSize (fileSize fragSize : ℕ) : ℕ :=
  if fileSize / fragSize > maxFragmentCount then divCeil fileSize maxFragmentCount else fragSize

/-- The loop of `plan_fragments`, one fragment an iteration. Every iteration moves
`offset` forward, so `fuel = fileSize` iterations are enough. -/
def planLoop (fileSize effectiveFragSize : ℕ) : ℕ → ℕ → ℕ → Option (List FragmentInfo)
  | 0, _, _ => some []
  | fuel + 1, offset, index =>
    if offset < fileSize then do
      let remaining := fileSize - offset
      let size := min remaining effectiveFragSize
      let fragment ← FragmentInfo.new index offset (offset + size - 1) size
      let index' ← checkedAdd32 index 1
      let fragments ← planLoop fileSize effectiveFragSize fuel (offset + size) index'
      some (fragment :: fragments)
    else some []

/-- `DownloadOrchestrator::plan_fragments`. `none` is a panic. -/
def planFragments (bandwidthBps : ℕ) (config : SchedulerConfig) (fileSize : ℕ)
    (supportsRange : Bool) (suggestedFragSize : Option ℕ) : Option (List FragmentInfo) :=
  if fileSize = 0 then some []
  else if !supportsRange then do
    let fragment ← FragmentInfo.new 0 0 (fileSize - 1) fileSize
    some [fragment]
  else do
    let size ← fragSize bandwidthBps config fileSize suggestedFragSize
    if size = 0 then do
      let fragment ← FragmentInfo.new 0 0 (fileSize - 1) fileSize
      some [fragment]
    else planLoop fileSize (effectiveFragSize fileSize size) fileSize 0 0

/-! ### The plan in closed form -/

/-- Fragment `i` of a file cut at the multiples of `size`. -/
def fragmentAt (fileSize size i : ℕ) : FragmentInfo where
  index := i
  start := i * size
  end_ := min ((i + 1) * size) fileSize - 1
  size := min ((i + 1) * size) fileSize - i * size
  downloaded := 0
  hash := none

/-- A file cut at the multiples of `size`. -/
def cutInto (fileSize size : ℕ) : List FragmentInfo :=
  (List.range (divCeil fileSize size)).map (fragmentAt fileSize size)

/-- The size at whose multiples a plan cuts the file: the whole file where ranges are
not supported or no positive size is found. -/
def cutSize (bandwidthBps : ℕ) (config : SchedulerConfig) (fileSize : ℕ) (supportsRange : Bool)
    (suggestedFragSize : Option ℕ) : Option ℕ :=
  if !supportsRange then some fileSize
  else do
    let size ← fragSize bandwidthBps config fileSize suggestedFragSize
    if size = 0 then some fileSize else some (effectiveFragSize fileSize size)

@[simp] theorem cutInto_length (fileSize size : ℕ) :
    (cutInto fileSize size).length = divCeil fileSize size := by
  simp [cutInto]

theorem cutInto_getElem? {fileSize size i : ℕ} (h : i < divCeil fileSize size) :
    (cutInto fileSize size)[i]? = some (fragmentAt fileSize size i) := by
  simp [cutInto, h]

theorem mem_cutInto {fileSize size : ℕ} {f : FragmentInfo} :
    f ∈ cutInto fileSize size ↔
      ∃ i, i < divCeil fileSize size ∧ f = fragmentAt fileSize size i := by
  simp only [cutInto, List.mem_map, List.mem_range, eq_comm]

/-- The ends of a fragment, in the form the range arithmetic uses. -/
theorem fragmentAt_bounds {fileSize size i : ℕ} (h : i * size < fileSize) (hsize : 0 < size) :
    (fragmentAt fileSize size i).start = i * size ∧
    (fragmentAt fileSize size i).end_ + 1 = min (i * size + size) fileSize ∧
    (fragmentAt fileSize size i).size = min (i * size + size) fileSize - i * size := by
  have hmul : (i + 1) * size = i * size + size := Nat.succ_mul i size
  refine ⟨rfl, ?_, by simp only [fragmentAt, hmul]⟩
  simp only [fragmentAt, hmul]
  omega

/-- Every byte of the file is in a fragment of its cut. -/
theorem exists_mem_cutInto {fileSize size x : ℕ} (hsize : 0 < size) (hx : x < fileSize) :
    ∃ f ∈ cutInto fileSize size, f.start ≤ x ∧ x < f.start + f.size := by
  have hdiv := Nat.div_add_mod x size
  have hmod := Nat.mod_lt x hsize
  rw [Nat.mul_comm] at hdiv
  have hlt : x / size * size < fileSize := by omega
  obtain ⟨hstart, -, hlength⟩ := fragmentAt_bounds hlt hsize
  refine ⟨fragmentAt fileSize size (x / size), ?_, by omega, by omega⟩
  exact mem_cutInto.mpr ⟨x / size, (lt_divCeil_iff hsize).mpr hlt, rfl⟩

/-- With at most a million and one fragments, no index leaves `u32`. -/
theorem divCeil_effectiveFragSize_le {fileSize size : ℕ} (hsize : 0 < size) :
    divCeil fileSize (effectiveFragSize fileSize size) ≤ maxFragmentCount + 1 := by
  unfold effectiveFragSize
  split
  · rename_i hmany
    have hpos : 0 < divCeil fileSize maxFragmentCount := by
      have hfile : 0 < fileSize := by
        rcases Nat.eq_zero_or_pos fileSize with h | h
        · rw [h, Nat.zero_div] at hmany
          omega
        · exact h
      exact (lt_divCeil_iff (by decide)).mpr (by omega)
    have hle := (divCeil_le_iff (show 0 < maxFragmentCount by decide)).mp
      (Nat.le_refl (divCeil fileSize maxFragmentCount))
    refine (divCeil_le_iff hpos).mpr ?_
    rw [Nat.add_mul, Nat.mul_comm maxFragmentCount]
    omega
  · rename_i hfew
    refine (divCeil_le_iff hsize).mpr ?_
    have hdiv := Nat.div_add_mod fileSize size
    have hmod := Nat.mod_lt fileSize hsize
    have hmul := Nat.mul_le_mul_right size (Nat.le_of_not_lt hfew)
    rw [Nat.mul_comm size] at hdiv
    rw [Nat.add_mul]
    omega

theorem effectiveFragSize_pos {fileSize size : ℕ} (hfile : 0 < fileSize) (hsize : 0 < size) :
    0 < effectiveFragSize fileSize size := by
  unfold effectiveFragSize
  split
  · exact (lt_divCeil_iff (by decide)).mpr (by omega)
  · exact hsize

/-- The loop, started at a multiple of the size, lists the fragments from there on. -/
theorem planLoop_eq {fileSize size : ℕ} (hsize : 0 < size) (hbound : fileSize < u64Bound)
    (hcount : divCeil fileSize size < u32Bound) {fuel i : ℕ} (hfuel : fileSize ≤ fuel + i * size)
    (hi : i ≤ divCeil fileSize size) :
    planLoop fileSize size fuel (min (i * size) fileSize) i =
      some ((List.range' i (divCeil fileSize size - i)).map (fragmentAt fileSize size)) := by
  induction fuel generalizing i with
  | zero =>
    have hdone := (divCeil_le_iff hsize).mpr (show fileSize ≤ i * size by omega)
    have hzero : divCeil fileSize size - i = 0 := by omega
    simp [planLoop, hzero]
  | succ fuel ih =>
    rcases Nat.lt_or_ge (i * size) fileSize with hlt | hge
    · have hlti := (lt_divCeil_iff hsize).mpr hlt
      have hmin : min (i * size) fileSize = i * size := Nat.min_eq_left (by omega)
      have hstep : (i + 1) * size = i * size + size := Nat.succ_mul i size
      have hnew : FragmentInfo.new i (i * size)
          (i * size + min (fileSize - i * size) size - 1) (min (fileSize - i * size) size) =
          some (fragmentAt fileSize size i) := by
        rw [FragmentInfo.new_eq_some (by omega) (by omega)]
        simp only [fragmentAt, hstep, Option.some.injEq, FragmentInfo.mk.injEq, and_true, true_and]
        omega
      have hindex : checkedAdd32 i 1 = some (i + 1) := by
        unfold checkedAdd32
        rw [if_pos (by omega)]
      have hoffset : i * size + min (fileSize - i * size) size = min ((i + 1) * size) fileSize := by
        omega
      rw [hoffset] at hnew
      have hrest := @ih (i + 1) (by omega) hlti
      have hrange : divCeil fileSize size - i = divCeil fileSize size - (i + 1) + 1 := by omega
      rw [hrange, List.range'_succ]
      simp [planLoop, hmin, hlt, hnew, hindex, hoffset, hrest]
    · have hdone := (divCeil_le_iff hsize).mpr hge
      have hzero : divCeil fileSize size - i = 0 := by omega
      simp [planLoop, hzero, Nat.min_eq_right hge]

/-- One fragment over the whole file is the file cut at its own size. -/
theorem cutInto_self {fileSize : ℕ} (hfile : 0 < fileSize) :
    cutInto fileSize fileSize = [⟨0, 0, fileSize - 1, fileSize, 0, none⟩] := by
  have hcount : divCeil fileSize fileSize = 1 := by
    unfold divCeil
    rw [Nat.mod_self, if_pos rfl, Nat.div_self hfile]
  simp [cutInto, hcount, fragmentAt]

/-- A plan is the file cut at the multiples of its `cutSize`. -/
theorem planFragments_eq_cutInto {bandwidthBps : ℕ} {config : SchedulerConfig} {fileSize : ℕ}
    {supportsRange : Bool} {suggestedFragSize : Option ℕ} (hfile : 0 < fileSize)
    (hbound : fileSize < u64Bound) :
    planFragments bandwidthBps config fileSize supportsRange suggestedFragSize =
      (cutSize bandwidthBps config fileSize supportsRange suggestedFragSize).map
        (cutInto fileSize) := by
  have hne : fileSize ≠ 0 := by omega
  have hwhole : FragmentInfo.new 0 0 (fileSize - 1) fileSize =
      some ⟨0, 0, fileSize - 1, fileSize, 0, none⟩ :=
    FragmentInfo.new_eq_some (by omega) (by omega)
  cases supportsRange with
  | false => simp [planFragments, cutSize, hne, hwhole, cutInto_self hfile]
  | true =>
    cases hsize : fragSize bandwidthBps config fileSize suggestedFragSize with
    | none => simp [planFragments, cutSize, hne, hsize]
    | some size =>
      by_cases hzero : size = 0
      · simp [planFragments, cutSize, hne, hsize, hzero, hwhole, cutInto_self hfile]
      · have hpos := effectiveFragSize_pos hfile (show 0 < size by omega)
        have hcount := @divCeil_effectiveFragSize_le fileSize size (by omega)
        have hu32 : maxFragmentCount + 1 < u32Bound := by decide
        have hloop := @planLoop_eq fileSize (effectiveFragSize fileSize size) hpos hbound
          (by omega) fileSize 0 (by omega) (by omega)
        simp only [Nat.zero_mul, Nat.zero_min, Nat.sub_zero] at hloop
        simp [planFragments, cutSize, hne, hsize, hzero, hloop, cutInto, List.range_eq_range']

/-- The size at which a plan cuts is positive. -/
theorem cutSize_pos {bandwidthBps : ℕ} {config : SchedulerConfig} {fileSize : ℕ}
    {supportsRange : Bool} {suggestedFragSize : Option ℕ} {size : ℕ} (hfile : 0 < fileSize)
    (h : cutSize bandwidthBps config fileSize supportsRange suggestedFragSize = some size) :
    0 < size := by
  cases supportsRange with
  | false =>
    simp [cutSize] at h
    omega
  | true =>
    cases hsize : fragSize bandwidthBps config fileSize suggestedFragSize with
    | none => simp [cutSize, hsize] at h
    | some s =>
      by_cases hzero : s = 0
      · simp [cutSize, hsize, hzero] at h
        omega
      · have hpos := effectiveFragSize_pos hfile (show 0 < s by omega)
        simp [cutSize, hsize, hzero] at h
        omega

end Tachyon
