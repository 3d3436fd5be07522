import Tachyon.Io.AlignedWrite
import Tachyon.Library.DisjointWrites

/-!
# The write pipeline

`write_batch` sorts its segments, joins those that follow one another, and writes what that gives.
-/

namespace Tachyon

open ByteFile

/-- A segment of a batch: where its bytes go, and the bytes. -/
abbrev Segment := UInt64 × List UInt8

/-- `sort_unstable_by_key`. What has the same key may come in any order. -/
structure UnstableSort where
  sortBy : (key : ℕ → UInt64) → List ℕ → List ℕ
  perm : ∀ key l, (sortBy key l).Perm l
  sorted : ∀ key l, (sortBy key l).Pairwise fun i j => key i ≤ key j

/-- A semaphore when a call comes to it: its free permits, and those that calls before it hold, in
the order in which they are given back. -/
structure Permits where
  available : ℕ
  held : List ℕ

namespace Permits

/-- `acquire_many`; nothing where it waits for ever. -/
def acquireMany (n : ℕ) : (available : ℕ) → (held : List ℕ) → Option Permits
  | available, [] => if n ≤ available then some ⟨available - n, []⟩ else none
  | available, permits :: held =>
    if n ≤ available then some ⟨available - n, permits :: held⟩
    else acquireMany n (available + permits) held

def release (p : Permits) (n : ℕ) : Permits := { p with available := p.available + n }

/-- All permits. -/
def total (p : Permits) : ℕ := p.available + p.held.sum

end Permits

/-- `WritePipeline`, for a storage with the content `Content`. -/
structure WritePipeline (Content : Type) where
  writeAt : WriteAt Content
  semaphoreCapacity : ℕ
  maxPending : ℕ
  bufferSize : ℕ

/-- The batch that is being joined, and those before it. -/
structure Merging where
  mergedStart : UInt64
  mergedEnd : UInt64
  mergedData : List UInt8
  batches : List Segment

namespace Merging

def first (segment : Segment) : Merging where
  mergedStart := segment.1
  mergedEnd := segment.1 + UInt64.ofNat segment.2.length
  mergedData := segment.2
  batches := []

/-- A pass of the loop of `plan_batches`. -/
def step (flushThreshold : ℕ) (m : Merging) (segment : Segment) : Merging :=
  let (off, data) := segment
  let len := UInt64.ofNat data.length
  if off = m.mergedEnd ∧ len > 0 then
    let mergedData := m.mergedData ++ data
    if mergedData.length ≥ flushThreshold then
      { mergedStart := off + len
        mergedEnd := off + len
        mergedData := []
        batches := m.batches ++ [(m.mergedStart, mergedData)] }
    else { m with mergedEnd := m.mergedEnd + len, mergedData := mergedData }
  else
    { mergedStart := off
      mergedEnd := off + len
      mergedData := data
      batches := m.batches ++ [(m.mergedStart, m.mergedData)] }

/-- What the loop leaves is a batch of its own. -/
def finish (m : Merging) : List Segment :=
  if m.mergedData.isEmpty then m.batches else m.batches ++ [(m.mergedStart, m.mergedData)]

/-- The loop of `plan_batches`; an index behind the segments is a panic. -/
def loop (segments : List Segment) (flushThreshold : ℕ) : List ℕ → Merging → Option Merging
  | [], m => some m
  | idx :: rest, m => do
    let segment ← segments[idx]?
    loop segments flushThreshold rest (m.step flushThreshold segment)

end Merging

/-- `plan_batches` -/
def planBatches (segments : List Segment) (sortedIndices : List ℕ) (flushThreshold : ℕ) :
    Option (List Segment) :=
  if segments.isEmpty then some []
  else
    match sortedIndices with
    | [] => none
    | firstIdx :: rest => do
      let m ← Merging.loop segments flushThreshold rest (.first (← segments[firstIdx]?))
      some m.finish

namespace WritePipeline

variable {Content : Type}

def new (writeAt : WriteAt Content) (bufferSize capacity : ℕ) : WritePipeline Content :=
  ⟨writeAt, capacity, 64, bufferSize⟩

def withMaxPending (p : WritePipeline Content) (maxPending : ℕ) : WritePipeline Content :=
  { p with maxPending := max maxPending 1 }

/-- `write` -/
def write (p : WritePipeline Content) (offset : UInt64) (data : List UInt8) (permits : Permits)
    (content : Content) : Option (DownloadResult ℕ × Content × Permits) := do
  let permits ← Permits.acquireMany 1 permits.available permits.held
  let (written, content) := p.writeAt offset data content
  some (written, content, permits.release 1)

/-- The writing loop of `write_batch`. -/
def writeBatches (p : WritePipeline Content) :
    List Segment → (totalWritten : ℕ) → Content → DownloadResult ℕ × Content
  | [], totalWritten, content => (.ok totalWritten, content)
  | (startOffset, data) :: rest, totalWritten, content =>
    match p.writeAt startOffset data content with
    | (.error e, content) => (.error e, content)
    | (.ok written, content) =>
      p.writeBatches rest (wrappingAdd totalWritten written) content

/-- The indices of the segments, in the order of their offsets. -/
def sortedIndices (sort : UnstableSort) (segments : List Segment) : List ℕ :=
  if segments.length > 1 then
    sort.sortBy (fun i => (segments[i]?.map Prod.fst).getD 0) (List.range segments.length)
  else [0]

/-- How many permits `write_batch` asks for. Counts are cut down to `u32`. -/
def writeCount (p : WritePipeline Content) (batches : List Segment) : ℕ :=
  let rawCount := max batches.length 1 % u32Bound
  max (min rawCount (p.semaphoreCapacity % u32Bound)) 1

/-- `write_batch`. The product of two `usize` wraps. -/
def writeBatch (p : WritePipeline Content) (sort : UnstableSort) (segments : List Segment)
    (permits : Permits) (content : Content) : Option (DownloadResult ℕ × Content × Permits) :=
  if segments.isEmpty then some (.ok 0, content, permits)
  else do
    let flushThreshold := p.maxPending * p.bufferSize % u64Bound
    let batches ← planBatches segments (sortedIndices sort segments) flushThreshold
    let permits ← Permits.acquireMany (p.writeCount batches) permits.available permits.held
    let (result, content) := p.writeBatches batches 0 content
    some (result, content, permits.release (p.writeCount batches))

/-- The segments one after the other, each with `write`. -/
def writeEach (p : WritePipeline Content) :
    List Segment → Permits → Content → Option (DownloadResult ℕ × Content × Permits)
  | [], permits, content => some (.ok 0, content, permits)
  | (offset, data) :: rest, permits, content => do
    match ← p.write offset data permits content with
    | (.error e, content, permits) => some (.error e, content, permits)
    | (.ok written, content, permits) =>
      let (total, content, permits) ← p.writeEach rest permits content
      some (total.map (written + ·), content, permits)

/-- The pipeline over the same storage, with the writes it was asked for. -/
def recorded (p : WritePipeline (List UInt8)) :
    WritePipeline (List UInt8 × List Segment) where
  writeAt offset data content :=
    let (written, file) := p.writeAt offset data content.1
    (written, file, content.2 ++ [(offset, data)])
  semaphoreCapacity := p.semaphoreCapacity
  maxPending := p.maxPending
  bufferSize := p.bufferSize

end WritePipeline

/-- The block of the file that a segment is for. -/
def Segment.block (segment : Segment) : ℕ × List UInt8 := (segment.1.toNat, segment.2)

/-- The segments do not meet, and none reaches the end of the offsets. -/
structure DisjointSegments (segments : List Segment) : Prop where
  apart : (segments.map Segment.block).Pairwise Apart
  fits : ∀ segment ∈ segments, segment.1.toNat + segment.2.length < u64Bound

/-! ### Permits -/

namespace Permits

/-- A call that does not ask for more than there are comes to its permits, once others have given
back theirs. -/
theorem exists_acquireMany {n available : ℕ} {held : List ℕ} (h : n ≤ available + held.sum) :
    ∃ p, acquireMany n available held = some p ∧ p.total + n = available + held.sum := by
  induction held generalizing available with
  | nil =>
    rw [List.sum_nil] at h
    refine ⟨⟨available - n, []⟩, if_pos h, ?_⟩
    simp only [total, List.sum_nil]
    omega
  | cons permits held ih =>
    rw [acquireMany]
    rw [List.sum_cons] at h ⊢
    by_cases hn : n ≤ available
    · refine ⟨_, if_pos hn, ?_⟩
      simp only [total, List.sum_cons]
      omega
    · obtain ⟨p, hp, htotal⟩ := ih (by omega : n ≤ available + permits + held.sum)
      exact ⟨p, by rw [if_neg hn, hp], by omega⟩

/-- A call that gives its permits back leaves them all. -/
theorem exists_acquire {p : Permits} {n : ℕ} (h : n ≤ p.total) :
    ∃ p', acquireMany n p.available p.held = some p' ∧ (p'.release n).total = p.total := by
  obtain ⟨p', hp', htotal⟩ := exists_acquireMany h
  refine ⟨p', hp', ?_⟩
  simp only [total, release] at htotal ⊢
  omega

end Permits

/-! ### The plan -/

theorem toNat_add_length {off : UInt64} {data : List UInt8}
    (h : off.toNat + data.length < u64Bound) :
    (off + UInt64.ofNat data.length).toNat = off.toNat + data.length := by
  unfold u64Bound at h
  rw [UInt64.toNat_add, UInt64.toNat_ofNat', Nat.mod_eq_of_lt (by omega : data.length < 2 ^ 64),
    Nat.mod_eq_of_lt h]

namespace Merging

variable {m : Merging} {segment : Segment} (flushThreshold : ℕ)

/-- The batches and the one that is being joined. -/
def blocks (m : Merging) : List (ℕ × List UInt8) :=
  (m.batches ++ [(m.mergedStart, m.mergedData)]).map Segment.block

/-- The batch that is being joined ends where it should. -/
def Tight (m : Merging) : Prop :=
  m.mergedEnd.toNat = m.mergedStart.toNat + m.mergedData.length

theorem tight_first (h : segment.1.toNat + segment.2.length < u64Bound) :
    (first segment).Tight := toNat_add_length h

theorem blocks_eq (m : Merging) :
    m.blocks = m.batches.map Segment.block ++ [(m.mergedStart.toNat, m.mergedData)] :=
  List.map_append

/-- A pass of the loop takes in the segment. -/
theorem step_blocks (hm : m.Tight) (h : segment.1.toNat + segment.2.length < u64Bound) :
    (m.step flushThreshold segment).Tight ∧
      SameWrites (m.blocks ++ [segment.block]) (m.step flushThreshold segment).blocks := by
  obtain ⟨off, data⟩ := segment
  have hend := toNat_add_length h
  unfold Tight at hm
  unfold step
  dsimp only
  by_cases hjoin : off = m.mergedEnd ∧ UInt64.ofNat data.length > 0
  · have hoff : off.toNat = m.mergedStart.toNat + m.mergedData.length := by rw [hjoin.1, hm]
    -- the two are one block, with or without an empty one behind it
    have hjoined : SameWrites (m.blocks ++ [Segment.block (off, data)])
        (m.batches.map Segment.block ++ [(m.mergedStart.toNat, m.mergedData ++ data)]) := by
      have hblock : Segment.block (off, data) =
          (m.mergedStart.toNat + m.mergedData.length, data) := by rw [← hoff]; rfl
      rw [blocks_eq, hblock, List.append_assoc]
      exact (SameWrites.refl _).append (.join _ _ _)
    rw [if_pos hjoin]
    by_cases hflush : (m.mergedData ++ data).length ≥ flushThreshold
    · rw [if_pos hflush]
      refine ⟨rfl, hjoined.trans ?_⟩
      rw [blocks_eq, List.map_append]
      exact (SameWrites.append_nil _ _).symm
    · rw [if_neg hflush]
      refine ⟨?_, hjoined.trans (by rw [blocks_eq]; exact .refl _)⟩
      unfold Tight
      dsimp only
      rw [← hjoin.1, hend, hoff, List.length_append, Nat.add_assoc]
  · rw [if_neg hjoin]
    refine ⟨hend, ?_⟩
    rw [blocks_eq _, blocks_eq _, List.map_append]
    exact SameWrites.refl _

/-- The loop takes in all the segments it comes to. -/
theorem loop_blocks {segments : List Segment} {indices : List ℕ} (hm : m.Tight)
    (hfits : ∀ segment ∈ segments, segment.1.toNat + segment.2.length < u64Bound)
    (hindices : ∀ idx ∈ indices, idx < segments.length) :
    ∃ m', loop segments flushThreshold indices m = some m' ∧
      SameWrites (m.blocks ++ (indices.filterMap (segments[·]?)).map Segment.block) m'.blocks := by
  induction indices generalizing m with
  | nil => exact ⟨m, rfl, by rw [List.filterMap_nil, List.map_nil, List.append_nil]; exact .refl _⟩
  | cons idx rest ih =>
    have hidx := List.getElem?_eq_getElem (hindices idx List.mem_cons_self)
    obtain ⟨htight, hstep⟩ := step_blocks flushThreshold hm
      (hfits _ (List.getElem_mem (hindices idx List.mem_cons_self)))
    obtain ⟨m', hloop, hrest⟩ := ih htight fun i hi => hindices i (List.mem_cons_of_mem _ hi)
    refine ⟨m', by rw [loop, hidx]; exact hloop, ?_⟩
    rw [List.filterMap_cons_some hidx, List.map_cons, ← List.singleton_append, ← List.append_assoc]
    exact (hstep.append (.refl _)).trans hrest

theorem finish_blocks (m : Merging) : SameWrites m.blocks (m.finish.map Segment.block) := by
  unfold finish
  by_cases hempty : m.mergedData.isEmpty = true
  · rw [if_pos hempty, blocks_eq, List.isEmpty_iff.mp hempty]
    exact SameWrites.append_nil _ _
  · rw [if_neg hempty]
    exact .refl _

end Merging

/-- The segments, picked in any order. -/
theorem perm_pick {segments : List Segment} {indices : List ℕ}
    (h : indices.Perm (List.range segments.length)) :
    (indices.filterMap (segments[·]?)).Perm segments := by
  have hmap : (List.range segments.length).map (segments[·]?) = segments.map some := by
    apply List.ext_getElem
    · rw [List.length_map, List.length_map, List.length_range]
    · intro i hi _
      rw [List.length_map, List.length_range] at hi
      rw [List.getElem_map, List.getElem_map, List.getElem_range, List.getElem?_eq_getElem hi]
  have hrange : (List.range segments.length).filterMap (segments[·]?) = segments := by
    have hid := congrArg (List.filterMap id) hmap
    rwa [List.filterMap_map, List.filterMap_map, Function.id_comp, Function.id_comp,
      List.filterMap_some] at hid
  have hperm := h.filterMap (segments[·]?)
  rwa [hrange] at hperm

/-- The indices are those of the segments, in some order. -/
theorem perm_sortedIndices (sort : UnstableSort) {segments : List Segment} (hne : segments ≠ []) :
    (WritePipeline.sortedIndices sort segments).Perm (List.range segments.length) := by
  unfold WritePipeline.sortedIndices
  by_cases hmany : segments.length > 1
  · rw [if_pos hmany]
    exact sort.perm _ _
  · have hpos := List.length_pos_iff.mpr hne
    rw [if_neg hmany, (by omega : segments.length = 1)]
    exact .refl _

/-- The planned batches write what the segments do. -/
theorem planBatches_same (sort : UnstableSort) (flushThreshold : ℕ) {segments : List Segment}
    (hne : segments ≠ []) (hdisjoint : DisjointSegments segments) :
    ∃ batches, planBatches segments (WritePipeline.sortedIndices sort segments) flushThreshold =
        some batches ∧
      SameWrites (segments.map Segment.block) (batches.map Segment.block) := by
  have hperm := perm_sortedIndices sort hne
  have hsegments := perm_pick hperm
  unfold planBatches
  rw [if_neg (by rwa [List.isEmpty_iff])]
  cases hindices : WritePipeline.sortedIndices sort segments with
  | nil =>
    rw [hindices] at hsegments
    exact absurd hsegments.nil_eq.symm hne
  | cons idx rest =>
    have hlt : ∀ i ∈ idx :: rest, i < segments.length := fun i hi =>
      List.mem_range.mp (hperm.mem_iff.mp (hindices ▸ hi))
    have hidx := List.getElem?_eq_getElem (hlt idx List.mem_cons_self)
    obtain ⟨m, hloop, hblocks⟩ := Merging.loop_blocks flushThreshold
      (Merging.tight_first (hdisjoint.fits _ (List.getElem_mem (hlt idx List.mem_cons_self))))
      hdisjoint.fits fun i hi => hlt i (List.mem_cons_of_mem _ hi)
    rw [hindices, List.filterMap_cons_some hidx] at hsegments
    refine ⟨m.finish, ?_, ?_⟩
    · dsimp only
      rw [hidx, Option.bind_eq_bind, Option.bind_some, hloop]
      rfl
    · exact (SameWrites.of_perm hdisjoint.apart (hsegments.symm.map _)).trans
        (hblocks.trans m.finish_blocks)

/-! ### The writes -/

namespace WritePipeline

variable {p : WritePipeline (List UInt8)} {batches segments : List Segment} {file : List UInt8}
  {total : ℕ}

theorem writeBatches_full (hfull : p.writeAt.Full)
    (h : total + sumLengths (batches.map Segment.block) < u64Bound) :
    p.writeBatches batches total file =
      (.ok (total + sumLengths (batches.map Segment.block)),
        writeAll file (batches.map Segment.block)) := by
  induction batches generalizing total file with
  | nil => rfl
  | cons segment rest ih =>
    obtain ⟨startOffset, data⟩ := segment
    have hsum : sumLengths (((startOffset, data) :: rest).map Segment.block) =
        data.length + sumLengths (rest.map Segment.block) := rfl
    rw [hsum] at h ⊢
    rw [writeBatches, hfull]
    dsimp only
    rw [wrappingAdd_of_lt (by omega), ih (by omega), Nat.add_assoc]
    rfl

/-- The recording pipeline does the same, and keeps what it wrote. -/
theorem writeBatches_recorded (hfull : p.writeAt.Full) (written : List Segment)
    (h : total + sumLengths (batches.map Segment.block) < u64Bound) :
    p.recorded.writeBatches batches total (file, written) =
      (.ok (total + sumLengths (batches.map Segment.block)),
        writeAll file (batches.map Segment.block), written ++ batches) := by
  induction batches generalizing total file written with
  | nil => rw [List.append_nil]; rfl
  | cons segment rest ih =>
    obtain ⟨startOffset, data⟩ := segment
    have hsum : sumLengths (((startOffset, data) :: rest).map Segment.block) =
        data.length + sumLengths (rest.map Segment.block) := rfl
    rw [hsum] at h ⊢
    have hcall : p.recorded.writeAt startOffset data (file, written) =
        (.ok data.length, pwrite file startOffset.toNat data,
          written ++ [(startOffset, data)]) := by
      simp only [recorded, hfull startOffset data file]
    rw [writeBatches, hcall]
    dsimp only
    rw [wrappingAdd_of_lt (by omega), ih _ (by omega), Nat.add_assoc, List.append_assoc]
    rfl

/-- Each segment written alone. -/
theorem writeEach_full (hfull : p.writeAt.Full) (hcapacity : 1 ≤ p.semaphoreCapacity)
    {permits : Permits} (hpermits : permits.total = p.semaphoreCapacity) :
    ∃ permits', p.writeEach segments permits file =
        some (.ok (sumLengths (segments.map Segment.block)),
          writeAll file (segments.map Segment.block), permits') ∧
      permits'.total = p.semaphoreCapacity := by
  induction segments generalizing permits file with
  | nil => exact ⟨permits, rfl, hpermits⟩
  | cons segment rest ih =>
    obtain ⟨offset, data⟩ := segment
    obtain ⟨acquired, hacquired, htotal⟩ := Permits.exists_acquire (hpermits ▸ hcapacity)
    have hwrite : p.write offset data permits file =
        some (.ok data.length, pwrite file offset.toNat data, acquired.release 1) := by
      rw [write, hacquired, Option.bind_eq_bind, Option.bind_some, hfull]
    obtain ⟨permits', hrest, htotal'⟩ :=
      @ih (pwrite file offset.toNat data) _ (htotal.trans hpermits)
    refine ⟨permits', ?_, htotal'⟩
    rw [writeEach, hwrite, Option.bind_eq_bind, Option.bind_some]
    dsimp only
    rw [hrest]
    rfl

/-- The batch never asks for more permits than there are. -/
theorem writeCount_le {Content : Type} (p : WritePipeline Content)
    (hcapacity : 1 ≤ p.semaphoreCapacity) : p.writeCount batches ≤ p.semaphoreCapacity := by
  have hmod := Nat.mod_le p.semaphoreCapacity u32Bound
  unfold writeCount
  dsimp only
  omega

theorem writeBatch_eq {Content : Type} {p : WritePipeline Content} {sort : UnstableSort}
    {permits acquired : Permits} (content : Content) (hne : segments ≠ [])
    (hplan : planBatches segments (sortedIndices sort segments)
      (p.maxPending * p.bufferSize % u64Bound) = some batches)
    (hacquired : Permits.acquireMany (p.writeCount batches) permits.available permits.held =
      some acquired) :
    p.writeBatch sort segments permits content =
      some ((p.writeBatches batches 0 content).1, (p.writeBatches batches 0 content).2,
        acquired.release (p.writeCount batches)) := by
  rw [writeBatch, if_neg (by rwa [List.isEmpty_iff])]
  dsimp only
  rw [hplan, Option.bind_eq_bind, Option.bind_some, hacquired]
  rfl

end WritePipeline

/-! ### The batch -/

/-- `write_batch` ends, whatever permits other writes hold, with the file that the segments written
one by one give in any order, and writes every byte of theirs exactly once. -/
theorem write_batch_eq_writes (p : WritePipeline (List UInt8)) (hfull : p.writeAt.Full)
    (hcapacity : 1 ≤ p.semaphoreCapacity) (sort : UnstableSort) (segments : List Segment)
    (hdisjoint : DisjointSegments segments) (permits : Permits)
    (hpermits : permits.total = p.semaphoreCapacity) (file : List UInt8) :
    ∃ file' written permits',
      p.writeBatch sort segments permits file =
        some (.ok (sumLengths (segments.map Segment.block)), file', permits') ∧
      p.recorded.writeBatch sort segments permits (file, []) =
        some (.ok (sumLengths (segments.map Segment.block)), (file', written), permits') ∧
      permits'.total = p.semaphoreCapacity ∧
      (∀ i, timesWritten (written.map Segment.block) i ≤ 1 ∧
        (timesWritten (written.map Segment.block) i = 1 ↔
          ∃ segment ∈ segments, Covers segment.block i)) ∧
      ∀ order, order.Perm segments → ∀ permits, permits.total = p.semaphoreCapacity →
        ∃ permits', p.writeEach order permits file =
          some (.ok (sumLengths (segments.map Segment.block)), file', permits') := by
  have heach : ∀ order, order.Perm segments → ∀ permits, permits.total = p.semaphoreCapacity →
      ∃ permits', p.writeEach order permits file =
        some (.ok (sumLengths (segments.map Segment.block)),
          writeAll file (segments.map Segment.block), permits') := by
    intro order horder permits hpermits
    obtain ⟨permits', heach, -⟩ := p.writeEach_full hfull hcapacity hpermits
    have hsame := SameWrites.of_perm hdisjoint.apart (horder.symm.map Segment.block)
    exact ⟨permits', by rw [heach, hsame.file, hsame.length]⟩
  have htimes : ∀ i, timesWritten (segments.map Segment.block) i ≤ 1 ∧
      (timesWritten (segments.map Segment.block) i = 1 ↔
        ∃ segment ∈ segments, Covers segment.block i) := by
    intro i
    have hle := timesWritten_le_one hdisjoint.apart i
    have hpos : 0 < timesWritten (segments.map Segment.block) i ↔
        ∃ segment ∈ segments, Covers segment.block i := by
      rw [timesWritten_pos]
      simp only [List.mem_map, exists_exists_and_eq_and]
    refine ⟨hle, ?_⟩
    rw [← hpos]
    omega
  by_cases hne : segments = []
  · subst hne
    exact ⟨file, [], permits, rfl, rfl, hpermits, htimes, heach⟩
  · obtain ⟨batches, hplan, hsame⟩ :=
      planBatches_same sort (p.maxPending * p.bufferSize % u64Bound) hne hdisjoint
    obtain ⟨acquired, hacquired, htotal⟩ :=
      Permits.exists_acquire (hpermits.symm ▸ p.writeCount_le hcapacity)
    have hlength : 0 + sumLengths (batches.map Segment.block) < u64Bound := by
      have hbound : sumLengths (segments.map Segment.block) ≤ u64Bound - 1 := by
        refine sumLengths_le hdisjoint.apart fun b hb => ?_
        obtain ⟨segment, hsegment, rfl⟩ := List.mem_map.mp hb
        have := hdisjoint.fits segment hsegment
        simp only [Segment.block]
        omega
      have hpos : 0 < u64Bound := by decide
      rw [hsame.length] at hbound
      omega
    refine ⟨writeAll file (segments.map Segment.block), batches, _, ?_, ?_, htotal.trans hpermits,
      fun i => hsame.times i ▸ htimes i, heach⟩
    · rw [WritePipeline.writeBatch_eq file hne hplan hacquired,
        WritePipeline.writeBatches_full hfull hlength, Nat.zero_add, hsame.file, hsame.length]
    · have hrecorded := WritePipeline.writeBatch_eq (p := p.recorded) (file, []) hne hplan hacquired
      rw [hrecorded, WritePipeline.writeBatches_recorded hfull [] hlength, Nat.zero_add,
        hsame.file, hsame.length]
      rfl

/-- A stable sort is one. -/
def stableSort : UnstableSort where
  sortBy key l := l.mergeSort fun i j => key i ≤ key j
  perm _ l := l.mergeSort_perm _
  sorted key l := by
    have hsorted : (l.mergeSort fun i j => key i ≤ key j).Pairwise
        fun i j => decide (key i ≤ key j) = true :=
      List.pairwise_mergeSort (by simpa using fun _ _ _ => UInt64.le_trans)
        (by simpa using fun _ _ => UInt64.le_total _ _) l
    exact hsorted.imp of_decide_eq_true

/-- Two halves of a file, the second one first, while another write holds the only permit. -/
theorem write_batch_eq_writes_halves :
    ∃ file' permits', ((WritePipeline.new memoryWriteAt 8 1).withMaxPending 2).writeBatch stableSort
      [(2, [3, 4]), (0, [1, 2])] ⟨0, [1]⟩ [] = some (.ok 4, file', permits') := by
  have hdisjoint : DisjointSegments [(2, [3, 4]), (0, [1, 2])] := by
    constructor
    · simp only [List.map_cons, List.map_nil, List.pairwise_pair]
      intro i hbehind hbefore
      have hlo : 2 ≤ i := hbehind.1
      have hhi : i < 0 + 2 := hbefore.2
      omega
    · intro segment hsegment
      simp only [List.mem_cons, List.not_mem_nil, or_false] at hsegment
      rcases hsegment with rfl | rfl <;> decide
  obtain ⟨file', -, permits', hbatch, -⟩ := write_batch_eq_writes
    ((WritePipeline.new memoryWriteAt 8 1).withMaxPending 2) (fun _ _ _ => rfl) le_rfl stableSort
    [(2, [3, 4]), (0, [1, 2])] hdisjoint ⟨0, [1]⟩ rfl []
  exact ⟨file', permits', hbatch⟩

end Tachyon
