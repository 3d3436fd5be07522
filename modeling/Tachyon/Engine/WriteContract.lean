import Tachyon.Engine.SingleFragment
import Tachyon.Engine.FullDownload
import Tachyon.Io.Uring
import Tachyon.Library.IssuedRequests

/-!
# What the storage back ends ask of a write

The engine writes batches of 256 KiB and more at whatever offset a fragment starts, or the chunks
of the network as they come. One back end takes whole sectors only, another at most one of its
buffers. This module says for which downloads every write of the engine is one they take.
-/

namespace Tachyon

open Resumption

/-- The system the program is built for. -/
inductive TargetOs where
  | windows
  | linux
  | other
  deriving DecidableEq, Repr

/-- A storage back end in its ready state. -/
inductive StorageBackend where
  | tokioFile
  /-- `WinFile` with NO_BUFFERING. -/
  | winFile
  | iocp
  | ioUring (config : IoUringConfig)

/-- `DynStorage::open_with_strategy`, where `opens` says whether a back end can be opened. -/
def openWithStrategy (target : TargetOs) (opens : StorageBackend → DownloadResult Unit) :
    IoStrategy → DownloadResult StorageBackend
  | .standard => (opens .tokioFile).map fun _ => .tokioFile
  | .winAligned =>
    if target = .windows then (opens .winFile).map fun _ => .winFile
    else (opens .tokioFile).map fun _ => .tokioFile
  | .iocp =>
    if target = .windows then
      match opens .iocp with
      | .ok _ => .ok .iocp
      | .error _ => (opens .tokioFile).map fun _ => .tokioFile
    else (opens .tokioFile).map fun _ => .tokioFile
  | .ioUring =>
    -- `init` is an error everywhere else
    if target = .linux then
      match opens (.ioUring .default) with
      | .ok _ => .ok (.ioUring .default)
      | .error _ => (opens .tokioFile).map fun _ => .tokioFile
    else (opens .tokioFile).map fun _ => .tokioFile

/-- `SECTOR_SIZE`. -/
def sectorSize : ℕ := 512

/-- `validate_fixed_buffer_write_len`. -/
def validateFixedBufferWriteLen (len bufferLen : ℕ) : DownloadResult Unit :=
  if len > bufferLen then
    .error (.io .invalidInput
      s!"io_uring write length {len} exceeds fixed buffer size {bufferLen}")
  else if len > u32Bound - 1 then
    .error (.io .invalidInput
      s!"io_uring write length {len} exceeds single-op u32 length limit {u32Bound - 1}")
  else .ok ()

namespace StorageBackend

/-- What the `write_at` of a back end checks before it writes. -/
def checkWrite (backend : StorageBackend) (offset len : ℕ) : DownloadResult Unit :=
  match backend with
  | .tokioFile | .iocp => .ok ()
  | .winFile =>
    if offset % sectorSize ≠ 0 then
      .error (.io .invalidInput
        s!"NO_BUFFERING 模式下偏移量 {offset} 未对齐到 {sectorSize} 字节")
    else if len % sectorSize ≠ 0 then
      .error (.io .invalidInput
        s!"NO_BUFFERING 模式下数据长度 {len} 未对齐到 {sectorSize} 字节")
    else .ok ()
  | .ioUring config => validateFixedBufferWriteLen len config.bufferSize

/-- The back end takes writes of that length there. -/
def Accepts (backend : StorageBackend) (offset len : ℕ) : Prop :=
  match backend with
  | .tokioFile | .iocp => True
  | .winFile => sectorSize ∣ offset ∧ sectorSize ∣ len
  | .ioUring config => len ≤ config.bufferSize ∧ len < u32Bound

/-- A write request passes the check of the back end. -/
def Meets (backend : StorageBackend) : Request → Prop
  | .writeAt offset data | .writeAtRaced offset data =>
    backend.checkWrite offset data.length = .ok ()
  | _ => True

/-- What a write can report that is cut short: without buffering these are whole sectors. -/
def Reports (backend : StorageBackend) (written : ℕ) : Prop :=
  match backend with
  | .winFile => sectorSize ∣ written
  | _ => True

end StorageBackend

/-- The stream brings `size` bytes in chunks of any lengths, if it does not break off before. -/
def ChunksOf (size : ℕ) (items : List Item) : Prop :=
  (deliveredBytes items).length ≤ size ∧
    (EndsCleanly items → (deliveredBytes items).length = size)

/-- The bytes a download of the whole file may write: a file of unknown length is cut at the
limit. -/
def fullLimit (expectedSize : Option UInt64) (maxFullStreamBytes : UInt64) (size : ℕ) : ℕ :=
  match expectedSize with
  | some _ => size
  | none => min size maxFullStreamBytes.toNat

namespace StorageBackend

/-- A server that delivers what it is asked for of a file, before the back end. -/
def environment (backend : StorageBackend) (size : ℕ) : Environment where
  writes := fun _ _ result => ∀ n, result = .ok n → backend.Reports n
  ranges := fun start end_ items => ChunksOf (end_ - start + 1) items
  fulls := fun items => ChunksOf size items

/-- Every write the program issues to the back end passes its check. -/
def AcceptsWritesOf {α : Type} (backend : StorageBackend) (size : ℕ) (p : Engine α) : Prop :=
  Issues (Handles (backend.environment size)) backend.Meets p fun _ => True

/-- The fragments every batch of which the back end takes. -/
def FitsFragment (backend : StorageBackend) (start len : ℕ) : Prop :=
  match backend with
  | .tokioFile | .iocp => True
  | .winFile => sectorSize ∣ start ∧ sectorSize ∣ len ∧ len ≤ writeBatchBytes
  | .ioUring config => len ≤ config.bufferSize ∧ len < u32Bound

/-- The files every chunk of which the back end takes, by the bytes that are written at most. -/
def FitsFull (backend : StorageBackend) (limit : ℕ) : Prop :=
  match backend with
  | .tokioFile | .iocp => True
  | .winFile => limit = 0
  | .ioUring config => limit ≤ config.bufferSize ∧ limit < u32Bound

variable {backend : StorageBackend} {start len offset size : ℕ} {items : List Item}

theorem checkWrite_eq_ok : backend.checkWrite offset len = .ok () ↔ backend.Accepts offset len := by
  cases backend with
  | tokioFile => simp [checkWrite, Accepts]
  | iocp => simp [checkWrite, Accepts]
  | winFile =>
    simp only [checkWrite, Accepts, Nat.dvd_iff_mod_eq_zero]
    split
    case isTrue h => simp [h]
    case isFalse h =>
      split
      case isTrue h' => simp [h']
      case isFalse h' => simp_all
  | ioUring config =>
    simp only [checkWrite, Accepts, validateFixedBufferWriteLen]
    have hbound : 0 < u32Bound := by decide
    split
    case isTrue h => simp [h]
    case isFalse h =>
      split
      case isTrue h' => simp; omega
      case isFalse h' => simp; omega

/-- What is left of a write that was cut short is taken too. -/
theorem Accepts.rest {n : ℕ} (h : backend.Accepts offset len) (hn : backend.Reports n) :
    backend.Accepts (offset + n) (len - n) := by
  cases backend with
  | tokioFile => trivial
  | iocp => trivial
  | winFile => exact ⟨Nat.dvd_add h.1 hn, Nat.dvd_sub h.2 hn⟩
  | ioUring config =>
    simp only [Accepts] at h ⊢
    omega

/-- A batch is the first one, which starts where the fragment starts, or comes behind a whole
batch. -/
theorem FitsFragment.accepts_batch {flushed n : ℕ} (h : backend.FitsFragment start len)
    (hroom : flushed + n ≤ len) (hflushed : flushed = 0 ∨ writeBatchBytes ≤ flushed) (hn : 0 < n)
    (hbatch : writeBatchBytes ≤ n ∨ flushed + n = len) : backend.Accepts (start + flushed) n := by
  cases backend with
  | tokioFile => trivial
  | iocp => trivial
  | winFile =>
    obtain ⟨hstart, hlen, hle⟩ := h
    obtain rfl : flushed = 0 := by omega
    obtain rfl : n = len := by omega
    exact ⟨hstart, hlen⟩
  | ioUring config =>
    simp only [FitsFragment, Accepts] at h ⊢
    omega

theorem FitsFull.accepts_chunk {limit pos n : ℕ} (h : backend.FitsFull limit)
    (hn : pos + n ≤ limit) : backend.Accepts pos n := by
  cases backend with
  | tokioFile => trivial
  | iocp => trivial
  | winFile =>
    obtain rfl : limit = 0 := h
    obtain rfl : pos = 0 := by omega
    obtain rfl : n = 0 := by omega
    exact ⟨Nat.dvd_zero _, Nat.dvd_zero _⟩
  | ioUring config =>
    simp only [FitsFull, Accepts] at h ⊢
    omega

/-! ### Every write of a download that fits -/

theorem issues_request (op : Request) (h : backend.Meets op) :
    Issues (Handles (backend.environment size)) backend.Meets (request op : Engine (Answer op))
      fun answer => ∃ w w', Handles (backend.environment size) op w answer w' :=
  Issues.request h

/-- A batch that is taken is taken to its end, however often the write is cut short. -/
theorem writeAllLoop_issues {fuel pos totalWritten : ℕ} {batch : Bytes}
    (h : backend.Accepts pos batch.length) (hfuel : batch.length ≤ fuel) :
    Issues (Handles (backend.environment size)) backend.Meets
      (writeAllLoop fuel pos totalWritten batch) fun n => n = totalWritten + batch.length := by
  induction fuel generalizing pos totalWritten batch with
  | zero => exact Issues.pure (by omega)
  | succ fuel ih =>
    unfold writeAllLoop
    split
    case isTrue hempty => exact Issues.pure (by simp [List.isEmpty_iff.mp hempty])
    case isFalse hempty =>
    refine (issues_request (.writeAtRaced pos batch) (checkWrite_eq_ok.mpr h)).bind ?_
    rintro result ⟨w, w', hresult⟩
    refine issues_fromSelected.bind ?_
    rintro written rfl
    obtain ⟨hreports, k, hk, hwritten, -⟩ := hresult
    obtain rfl := hwritten written rfl
    split
    case isTrue hzero => exact Issues.throw
    case isFalse hzero =>
    refine issues_orThrow.bind fun writtenU64 hu64 => ?_
    obtain ⟨-, rfl⟩ := tryFromUsize_eq_some.mp hu64
    refine issues_orThrow.bind fun pos' hpos => ?_
    obtain ⟨-, rfl⟩ := checkedAdd_eq_some.mp hpos
    refine issues_orThrow.bind fun total' htotal => ?_
    obtain ⟨-, rfl⟩ := checkedAdd_eq_some.mp htotal
    have hrest := h.rest (hreports written rfl)
    rw [← List.length_drop] at hrest
    refine (ih hrest (by simp; omega)).mono ?_
    rintro n rfl
    simp
    omega

theorem flushBatch_issues {text : String} {fragIndex expectedLen pos totalWritten : ℕ}
    {batch : Bytes} (h : backend.Accepts pos batch.length) :
    Issues (Handles (backend.environment size)) backend.Meets
      (flushBatch text fragIndex expectedLen pos totalWritten batch)
      fun n => n = batch.length := by
  unfold flushBatch
  refine issues_orThrow.bind fun batchLen _ => issues_orThrow.bind fun attempted _ => ?_
  split
  case isTrue => exact Issues.throw
  case isFalse => exact (writeAllLoop_issues h (Nat.le_refl _)).mono fun n hn => by omega

/-- The bytes of a fragment on their way: those in the file, those in the buffer, and those still
to come. -/
structure Collected (start len : ℕ) (items : List Item) (c : FragmentCursor) (flushed : ℕ) :
    Prop where
  pos : c.pos = start + flushed
  room : flushed + c.writeBuf.length + (deliveredBytes items).length ≤ len
  full : EndsCleanly items → flushed + c.writeBuf.length + (deliveredBytes items).length = len
  batches : flushed = 0 ∨ writeBatchBytes ≤ flushed

theorem Collected.batch {c : FragmentCursor} {flushed : ℕ} (h : Collected start len items c flushed)
    (hfits : backend.FitsFragment start len) (hpos : 0 < c.writeBuf.length)
    (hbatch : writeBatchBytes ≤ c.writeBuf.length ∨ items = []) :
    backend.Accepts c.pos c.writeBuf.length := by
  have hroom := h.room
  rw [h.pos]
  refine hfits.accepts_batch (by omega) h.batches hpos (hbatch.imp_right ?_)
  rintro rfl
  simpa [deliveredBytes] using h.full (by simp [EndsCleanly])

theorem chunkLoop_issues {fragIndex expectedLen flushed : ℕ} {c : FragmentCursor}
    (hfits : backend.FitsFragment start len) (h : Collected start len items c flushed) :
    Issues (Handles (backend.environment size)) backend.Meets
      (chunkLoop fragIndex expectedLen items c)
      fun c' => ∃ flushed', Collected start len [] c' flushed' := by
  induction items generalizing c flushed with
  | nil => exact Issues.pure ⟨flushed, h⟩
  | cons item items ih =>
    unfold chunkLoop
    refine (issues_request .waitControl trivial).bind fun _ _ => ?_
    refine issues_fromResult.bind fun _ _ => issues_fromResult.bind ?_
    rintro chunk rfl
    have hmore : Collected start len items { c with writeBuf := c.writeBuf ++ chunk } flushed := by
      have hroom := h.room
      have hfull := h.full
      simp only [deliveredBytes, List.length_append] at hroom hfull
      refine ⟨h.pos, by simp; omega, fun hclean => ?_, h.batches⟩
      have hlen := hfull fun item hitem => by
        rcases List.mem_cons.mp hitem with rfl | hitem
        · exact ⟨chunk, rfl⟩
        · exact hclean item hitem
      simp
      omega
    dsimp only
    split
    case isFalse => exact ih ⟨hmore.pos, hmore.room, hmore.full, hmore.batches⟩
    case isTrue hbatch =>
    have hpos : 0 < writeBatchBytes := by decide
    have hn := hmore.batch hfits (by dsimp only; omega) (Or.inl hbatch)
    refine (flushBatch_issues hn).bind ?_
    rintro w rfl
    refine issues_orThrow.bind fun pos' hpos' => ?_
    obtain ⟨-, rfl⟩ := checkedAdd_eq_some.mp hpos'
    refine (issues_request (.limiterAcquire _) trivial).bind fun _ _ => ?_
    have hreport : Issues (Handles (backend.environment size)) backend.Meets
        (reportProgress fragIndex (wrappingAdd c.chunkCount 1)
          (wrappingAdd c.totalWritten (c.writeBuf ++ chunk).length)) fun _ => True := by
      unfold reportProgress
      split
      case isTrue =>
        exact (issues_request (.sendProgress _) trivial).bind fun _ _ => Issues.pure trivial
      case isFalse => exact Issues.pure trivial
    refine hreport.bind fun _ _ => ?_
    obtain ⟨hat, hroom, hfull, -⟩ := hmore
    dsimp only at hat hroom hfull
    have hflushed : Collected start len items ⟨c.pos + (c.writeBuf ++ chunk).length,
        wrappingAdd c.totalWritten (c.writeBuf ++ chunk).length, wrappingAdd c.chunkCount 1, []⟩
        (flushed + (c.writeBuf ++ chunk).length) := by
      refine ⟨by simp only [hat, Nat.add_assoc], by simpa using hroom, fun hclean => ?_,
        Or.inr (by omega)⟩
      simpa using hfull hclean
    exact ih hflushed

theorem flushRest_issues {fragIndex expectedLen flushed : ℕ} {c : FragmentCursor}
    (hfits : backend.FitsFragment start len) (h : Collected start len [] c flushed) :
    Issues (Handles (backend.environment size)) backend.Meets
      (flushRest fragIndex expectedLen c) fun _ => True := by
  unfold flushRest
  split
  case isTrue => exact Issues.pure trivial
  case isFalse hempty =>
    have hpos : 0 < c.writeBuf.length := List.length_pos_iff.mpr (by simpa using hempty)
    refine (flushBatch_issues (h.batch hfits hpos (Or.inr rfl))).bind fun w _ => ?_
    exact (issues_request (.limiterAcquire w) trivial).bind fun _ _ => Issues.pure trivial

/-- Every write of a fragment that fits is taken. -/
theorem FitsFragment.downloadSingleFragment {index end_ : ℕ}
    (hfits : backend.FitsFragment start (end_ - start + 1)) :
    backend.AcceptsWritesOf size (downloadSingleFragment index start end_) := by
  unfold Tachyon.downloadSingleFragment AcceptsWritesOf
  refine (issues_request .waitControl trivial).bind fun _ _ => issues_fromResult.bind fun _ _ => ?_
  refine (issues_request .acquirePool trivial).bind fun _ _ => issues_fromResult.bind fun _ _ => ?_
  refine (issues_request (.openRange start end_) trivial).bind ?_
  rintro stream ⟨w, w', hstream⟩
  refine issues_fromSelected.bind ?_
  rintro items rfl
  obtain ⟨⟨hroom, hfull⟩, -⟩ := hstream
  refine issues_orThrow.bind fun expectedLen _ => ?_
  have hnone : Collected start (end_ - start + 1) items ⟨start, 0, 0, []⟩ 0 :=
    ⟨rfl, by simpa using hroom, by simpa using hfull, Or.inl rfl⟩
  refine (chunkLoop_issues hfits hnone).bind ?_
  rintro cursor ⟨flushed, hcursor⟩
  refine (flushRest_issues hfits hcursor).bind fun totalWritten _ => ?_
  split
  case isTrue => exact Issues.throw
  case isFalse =>
    refine (issues_request .elapsed trivial).bind fun elapsed _ => ?_
    exact (issues_request (.sendProgress _) trivial).bind fun _ _ => Issues.pure trivial

theorem fullLoop_issues {expectedSize : Option UInt64} {maxFullStreamBytes : UInt64} {pos : ℕ}
    (hfits : backend.FitsFull (fullLimit expectedSize maxFullStreamBytes size))
    (hsize : size < u64Bound) (hroom : pos + (deliveredBytes items).length ≤ size) :
    Issues (Handles (backend.environment size)) backend.Meets
      (fullLoop expectedSize maxFullStreamBytes items pos) fun _ => True := by
  induction items generalizing pos with
  | nil => exact Issues.pure trivial
  | cons item items ih =>
    unfold fullLoop
    refine (issues_request .waitControl trivial).bind fun _ _ => ?_
    refine issues_fromResult.bind fun _ _ => issues_fromResult.bind ?_
    rintro chunk rfl
    simp only [deliveredBytes, List.length_append] at hroom
    refine issues_orThrow.bind fun chunkLen hlen => ?_
    obtain ⟨-, rfl⟩ := tryFromUsize_eq_some.mp hlen
    refine issues_fromResult.bind fun _ hcheck => ?_
    have hlimit : pos + chunk.length ≤ fullLimit expectedSize maxFullStreamBytes size := by
      cases expectedSize with
      | some _ => simp only [fullLimit]; omega
      | none =>
        have hadd : checkedAdd pos chunk.length = some (pos + chunk.length) :=
          checkedAdd_eq_some.mpr ⟨by omega, rfl⟩
        simp only [checkFullStreamLimit, hadd] at hcheck
        split at hcheck
        case isTrue => cases hcheck
        case isFalse hle =>
          simp only [fullLimit]
          omega
    have hmeets := checkWrite_eq_ok.mpr (hfits.accepts_chunk hlimit)
    refine (issues_request (.writeAt pos chunk) hmeets).bind ?_
    rintro result ⟨w, w', -, k, hk, hwritten, -⟩
    refine issues_fromResult.bind ?_
    rintro written rfl
    obtain rfl := hwritten written rfl
    refine (issues_request (.limiterAcquire written) trivial).bind fun _ _ => ih ?_
    rw [wrappingAdd_of_lt (by omega)]
    omega

theorem completeFirst_issues {fragments : List FragmentRecord} {pos : ℕ} :
    Issues (Handles (backend.environment size)) backend.Meets (completeFirst fragments pos)
      fun _ => True := by
  unfold completeFirst
  split
  case h_1 => exact Issues.pure trivial
  case h_2 frag rest =>
    have hrest : ∀ frag' : FragmentRecord, Issues (Handles (backend.environment size))
        backend.Meets (do
          let elapsed ← request .elapsed
          let frag'' ← fromResult (frag'.completeDownloadFast pos elapsed)
          pure (frag'' :: rest) : Engine (List FragmentRecord)) fun _ => True := fun frag' =>
      (issues_request .elapsed trivial).bind fun _ _ =>
        issues_fromResult.bind fun _ _ => Issues.pure trivial
    dsimp only
    split
    case isTrue => exact issues_fromResult.bind fun frag' _ => hrest frag'
    case isFalse => exact hrest frag

/-- Every write of a whole file that fits is taken. -/
theorem FitsFull.executeFullDownload {expectedSize : Option UInt64} {maxFullStreamBytes : UInt64}
    {host : DownloadResult String} {storageReady : Bool} {fragments : List FragmentRecord}
    (hfits : (∃ h, host = .ok h) → storageReady = true →
      backend.FitsFull (fullLimit expectedSize maxFullStreamBytes size))
    (hsize : size < u64Bound) :
    backend.AcceptsWritesOf size
      (executeFullDownload expectedSize maxFullStreamBytes host storageReady fragments) := by
  unfold Tachyon.executeFullDownload AcceptsWritesOf
  refine (issues_request .waitControl trivial).bind fun _ _ => issues_fromResult.bind fun _ _ => ?_
  refine issues_fromResult.bind fun h hhost => ?_
  refine (issues_request .acquirePool trivial).bind fun _ _ => issues_fromResult.bind fun _ _ => ?_
  refine (issues_request .openFull trivial).bind ?_
  rintro stream ⟨w, w', hstream⟩
  refine issues_fromSelected.bind ?_
  rintro items rfl
  obtain ⟨⟨hroom, -⟩, -⟩ := hstream
  cases storageReady with
  | false => exact Issues.throw
  | true =>
    have hnone : 0 + (deliveredBytes items).length ≤ size := by simpa using hroom
    refine (fullLoop_issues (hfits ⟨h, hhost⟩ rfl) hsize hnone).bind fun pos _ => ?_
    unfold finishFullDownload
    split
    case h_1 => exact completeFirst_issues
    case h_2 =>
      split
      case isTrue => exact Issues.throw
      case isFalse => exact completeFirst_issues

/-! ### A download that does not fit -/

theorem accepts_of_flushBatch {text : String} {fragIndex expectedLen pos : ℕ} {batch : Bytes}
    {f : ℕ → Engine α} {R : α → Prop}
    (h : Issues (Handles (backend.environment size)) backend.Meets
      (flushBatch text fragIndex expectedLen pos 0 batch >>= f) R)
    (hpos : 0 < batch.length) (hle : batch.length ≤ expectedLen) (hlen : expectedLen < u64Bound) :
    backend.Accepts pos batch.length := by
  have hbatch := h.of_bind
  have hu64 : tryFromUsize batch.length = some batch.length :=
    tryFromUsize_eq_some.mpr ⟨by omega, rfl⟩
  have hadd : checkedAdd 0 batch.length = some batch.length :=
    checkedAdd_eq_some.mpr ⟨by omega, by omega⟩
  have hempty : batch.isEmpty = false := by simpa using List.length_pos_iff.mp hpos
  obtain ⟨fuel, hfuel⟩ : ∃ fuel, batch.length = fuel + 1 := ⟨batch.length - 1, by omega⟩
  simp only [Tachyon.flushBatch, hu64, hadd, orThrow_some, ok_bind, gt_iff_lt,
    Nat.not_lt.mpr hle, if_false, writeAllAt] at hbatch
  rw [hfuel] at hbatch
  simp only [writeAllLoop, hempty, Bool.false_eq_true, if_false] at hbatch
  exact checkWrite_eq_ok.mp (hbatch.meets_of_request (.initial []))

/-- The first batch of a fragment: a chunk of the batch size or more, or the only one. -/
theorem AcceptsWritesOf.first_batch {index end_ : ℕ} {chunk : Bytes}
    (h : backend.AcceptsWritesOf size (downloadSingleFragment index start end_))
    (hle : start ≤ end_) (hbound : end_ - start + 1 < u64Bound)
    (hstream : ChunksOf (end_ - start + 1) (.ok chunk :: items)) (hpos : 0 < chunk.length)
    (hbatch : writeBatchBytes ≤ chunk.length ∨ items = []) :
    backend.Accepts start chunk.length := by
  have hchunk : chunk.length ≤ end_ - start + 1 := by
    have hroom := hstream.1
    simp only [deliveredBytes, List.length_append] at hroom
    omega
  have hsub : checkedSub end_ start = some (end_ - start) := checkedSub_eq_some.mpr ⟨hle, rfl⟩
  have hadd : checkedAdd (end_ - start) 1 = some (end_ - start + 1) :=
    checkedAdd_eq_some.mpr ⟨hbound, rfl⟩
  have hcontrol := h.answer (x := .ok ()) (w := .initial []) rfl
  have hpermit := hcontrol.answer (x := .ok ()) (w := .initial []) rfl
  have hopened : Handles (backend.environment size) (.openRange start end_) (.initial [])
      (.finished (.ok (.ok chunk :: items)))
      ((World.initial []).serve start end_ (.ok chunk :: items)) := ⟨hstream, rfl⟩
  have hloop := hpermit.answer hopened
  simp only [fromSelected, fromResult_ok, ok_bind, hsub, hadd, Option.bind_some, orThrow_some,
    chunkLoop, List.nil_append, request_bind_assoc] at hloop
  have hrest := hloop.answer (x := .ok ()) (w := .initial []) rfl
  by_cases hlong : writeBatchBytes ≤ chunk.length
  · simp only [fromResult_ok, ok_bind, ge_iff_le, if_pos hlong] at hrest
    exact accepts_of_flushBatch hrest.of_bind hpos hchunk hbound
  · obtain rfl := hbatch.resolve_left hlong
    have hempty : chunk.isEmpty = false := by simpa using List.length_pos_iff.mp hpos
    simp only [fromResult_ok, ok_bind, ge_iff_le, if_neg hlong, chunkLoop, flushRest, hempty,
      Bool.false_eq_true, if_false] at hrest
    exact accepts_of_flushBatch hrest.of_bind hpos hchunk hbound

/-- The first chunk of a whole file. -/
theorem AcceptsWritesOf.first_chunk {expectedSize : Option UInt64} {maxFullStreamBytes : UInt64}
    {host : String} {fragments : List FragmentRecord} {chunk : Bytes}
    (h : backend.AcceptsWritesOf size
      (executeFullDownload expectedSize maxFullStreamBytes (.ok host) true fragments))
    (hsize : size < u64Bound) (hstream : ChunksOf size (.ok chunk :: items))
    (hlimit : chunk.length ≤ fullLimit expectedSize maxFullStreamBytes size) :
    backend.Accepts 0 chunk.length := by
  have hchunk : chunk.length ≤ size := by
    have hroom := hstream.1
    simp only [deliveredBytes, List.length_append] at hroom
    omega
  have hu64 : tryFromUsize chunk.length = some chunk.length :=
    tryFromUsize_eq_some.mpr ⟨by omega, rfl⟩
  have hcheck : checkFullStreamLimit expectedSize maxFullStreamBytes 0 chunk.length = .ok () := by
    cases expectedSize with
    | some _ => rfl
    | none =>
      have hadd : checkedAdd 0 chunk.length = some chunk.length :=
        checkedAdd_eq_some.mpr ⟨by omega, by omega⟩
      simp only [fullLimit] at hlimit
      simp only [checkFullStreamLimit, hadd]
      rw [if_neg (by omega)]
  have hcontrol := h.answer (x := .ok ()) (w := .initial []) rfl
  have hpermit := hcontrol.answer (x := .ok ()) (w := .initial []) rfl
  have hopened : Handles (backend.environment size) .openFull (.initial [])
      (.finished (.ok (.ok chunk :: items))) (.initial []) := ⟨hstream, rfl⟩
  have hloop := hpermit.answer hopened
  simp only [fromSelected, fromResult_ok, ok_bind, Bool.not_true, Bool.false_eq_true, if_false,
    fullLoop, request_bind_assoc] at hloop
  have hwrite := hloop.answer (x := .ok ()) (w := .initial []) rfl
  simp only [fromResult_ok, ok_bind, hu64, orThrow_some, hcheck, request_bind_assoc] at hwrite
  exact checkWrite_eq_ok.mp (hwrite.meets_of_request (.initial []))

/-- A stream in two chunks, the second of which may be empty. -/
theorem chunksOf_replicate {n : ℕ} (h : n ≤ size) :
    ChunksOf size [.ok (List.replicate n 0), .ok (List.replicate (size - n) 0)] := by
  simp only [ChunksOf, deliveredBytes, List.length_append, List.length_replicate, List.length_nil]
  exact ⟨by omega, fun _ => by omega⟩

theorem chunksOf_single : ChunksOf size [.ok (List.replicate size 0)] := by
  simp [ChunksOf, deliveredBytes]

theorem fragment_accepted_iff {index end_ : ℕ} (hle : start ≤ end_)
    (hbound : end_ - start + 1 < u64Bound) :
    backend.AcceptsWritesOf size (Tachyon.downloadSingleFragment index start end_) ↔
      backend.FitsFragment start (end_ - start + 1) := by
  refine ⟨fun h => ?_, FitsFragment.downloadSingleFragment⟩
  have hwhole := h.first_batch hle hbound chunksOf_single (by simp) (Or.inr rfl)
  rw [List.length_replicate] at hwhole
  cases backend with
  | tokioFile => trivial
  | iocp => trivial
  | ioUring config => exact hwhole
  | winFile =>
    refine ⟨hwhole.1, hwhole.2, ?_⟩
    by_contra hlong
    -- One byte more than a batch in the first chunk.
    have hfirst := h.first_batch hle hbound
      (chunksOf_replicate (n := writeBatchBytes + 1) (by omega)) (by simp) (Or.inl (by simp))
    rw [List.length_replicate] at hfirst
    exact absurd hfirst.2 (by decide)

theorem full_accepted_iff {expectedSize : Option UInt64} {maxFullStreamBytes : UInt64}
    {host : DownloadResult String} {storageReady : Bool} {fragments : List FragmentRecord}
    (hsize : size < u64Bound) :
    backend.AcceptsWritesOf size (Tachyon.executeFullDownload expectedSize maxFullStreamBytes host
        storageReady fragments) ↔
      ((∃ h, host = .ok h) → storageReady = true →
        backend.FitsFull (fullLimit expectedSize maxFullStreamBytes size)) := by
  refine ⟨?_, fun hfits => FitsFull.executeFullDownload hfits hsize⟩
  rintro h ⟨hostname, rfl⟩ rfl
  have hlimit : fullLimit expectedSize maxFullStreamBytes size ≤ size := by
    unfold fullLimit
    split <;> omega
  have hfirst : ∀ n ≤ fullLimit expectedSize maxFullStreamBytes size, backend.Accepts 0 n := by
    intro n hn
    have hchunk := h.first_chunk hsize (chunksOf_replicate (n := n) (by omega)) (by simpa using hn)
    rwa [List.length_replicate] at hchunk
  cases backend with
  | tokioFile => trivial
  | iocp => trivial
  | ioUring config => exact hfirst _ (Nat.le_refl _)
  | winFile =>
    by_contra hpos
    have hone := hfirst 1 (Nat.pos_of_ne_zero hpos)
    exact absurd hone.2 (by decide)

end StorageBackend

/-- What a strategy asks of a download: nothing, unless the back end it names is opened. -/
def IoStrategy.Asks (target : TargetOs) (opens : StorageBackend → DownloadResult Unit)
    (aligned small : Prop) : IoStrategy → Prop
  | .standard | .iocp => True
  | .winAligned => target = .windows → aligned
  | .ioUring => target = .linux → opens (.ioUring .default) = .ok () → small

/-- What holds of the back ends that take every write holds of the opened one if and only if the
strategy does not ask for more. -/
theorem openWithStrategy_iff {target : TargetOs} {opens : StorageBackend → DownloadResult Unit}
    {strategy : IoStrategy} {backend : StorageBackend} {P : StorageBackend → Prop}
    (hopen : openWithStrategy target opens strategy = .ok backend) (htokio : P .tokioFile)
    (hiocp : P .iocp) :
    P backend ↔ strategy.Asks target opens (P .winFile) (P (.ioUring .default)) := by
  have hfallback : ∀ {b : StorageBackend}, ((opens .tokioFile).map fun _ => b) = .ok backend →
      b = backend := by
    intro b hb
    cases hopens : opens .tokioFile with
    | error e => simp [hopens, Except.map] at hb
    | ok _ => simpa [hopens, Except.map] using hb
  cases strategy with
  | standard =>
    obtain rfl := hfallback hopen
    simpa [IoStrategy.Asks] using htokio
  | winAligned =>
    simp only [openWithStrategy] at hopen
    split at hopen
    case isTrue htarget =>
      cases hopens : opens .winFile with
      | error e => simp [hopens, Except.map] at hopen
      | ok _ =>
        obtain rfl : .winFile = backend := by simpa [hopens, Except.map] using hopen
        simp [IoStrategy.Asks, htarget]
    case isFalse htarget =>
      obtain rfl := hfallback hopen
      simpa [IoStrategy.Asks, htarget] using htokio
  | iocp =>
    simp only [openWithStrategy] at hopen
    split at hopen
    case isTrue htarget =>
      split at hopen
      · obtain rfl := Except.ok.inj hopen
        simpa [IoStrategy.Asks] using hiocp
      · obtain rfl := hfallback hopen
        simpa [IoStrategy.Asks] using htokio
    case isFalse htarget =>
      obtain rfl := hfallback hopen
      simpa [IoStrategy.Asks] using htokio
  | ioUring =>
    simp only [openWithStrategy] at hopen
    split at hopen
    case isTrue htarget =>
      split at hopen
      case h_1 hopens =>
        obtain rfl := Except.ok.inj hopen
        simp [IoStrategy.Asks, htarget, hopens]
      case h_2 hopens =>
        obtain rfl := hfallback hopen
        simpa [IoStrategy.Asks, htarget, hopens] using htokio
    case isFalse htarget =>
      obtain rfl := hfallback hopen
      simpa [IoStrategy.Asks, htarget] using htokio

/-- For which downloads every write is one the opened back end takes. -/
theorem writes_accepted_iff (target : TargetOs) (opens : StorageBackend → DownloadResult Unit)
    (strategy : IoStrategy) (backend : StorageBackend)
    (hopen : openWithStrategy target opens strategy = .ok backend) :
    (∀ size index start end_, start ≤ end_ → end_ - start + 1 < u64Bound →
      (backend.AcceptsWritesOf size (downloadSingleFragment index start end_) ↔
        strategy.Asks target opens
          (512 ∣ start ∧ 512 ∣ end_ - start + 1 ∧ end_ - start + 1 ≤ 256 * 1024)
          (end_ - start + 1 ≤ 64 * 1024))) ∧
    ∀ (size : ℕ) expectedSize maxFullStreamBytes host storageReady fragments, size < u64Bound →
      (backend.AcceptsWritesOf size
          (executeFullDownload expectedSize maxFullStreamBytes host storageReady fragments) ↔
        ((∃ h, host = .ok h) → storageReady = true → strategy.Asks target opens
          (fullLimit expectedSize maxFullStreamBytes size = 0)
          (fullLimit expectedSize maxFullStreamBytes size ≤ 64 * 1024))) := by
  have hsmall : ∀ n, n ≤ 64 * 1024 ↔ n ≤ IoUringConfig.default.bufferSize ∧ n < u32Bound := by
    intro n
    simp only [IoUringConfig.default, u32Bound]
    omega
  constructor
  · intro size index start end_ hle hbound
    rw [StorageBackend.fragment_accepted_iff hle hbound, hsmall]
    exact openWithStrategy_iff (P := fun b => b.FitsFragment start (end_ - start + 1)) hopen
      trivial trivial
  · intro size expectedSize maxFullStreamBytes host storageReady fragments hsize
    rw [StorageBackend.full_accepted_iff hsize, hsmall]
    have hiff := openWithStrategy_iff
      (P := fun b => b.FitsFull (fullLimit expectedSize maxFullStreamBytes size)) hopen
      trivial trivial
    exact imp_congr_right fun _ => imp_congr_right fun _ => hiff

/-- io_uring on Linux. -/
theorem writes_accepted_iff_ioUring :
    (∀ size index start end_, start ≤ end_ → end_ - start + 1 < u64Bound →
      ((StorageBackend.ioUring .default).AcceptsWritesOf size
          (downloadSingleFragment index start end_) ↔
        IoStrategy.ioUring.Asks .linux (fun _ => .ok ())
          (512 ∣ start ∧ 512 ∣ end_ - start + 1 ∧ end_ - start + 1 ≤ 256 * 1024)
          (end_ - start + 1 ≤ 64 * 1024))) ∧
    ∀ (size : ℕ) expectedSize maxFullStreamBytes host storageReady fragments, size < u64Bound →
      ((StorageBackend.ioUring .default).AcceptsWritesOf size
          (executeFullDownload expectedSize maxFullStreamBytes host storageReady fragments) ↔
        ((∃ h, host = .ok h) → storageReady = true →
          IoStrategy.ioUring.Asks .linux (fun _ => .ok ())
            (fullLimit expectedSize maxFullStreamBytes size = 0)
            (fullLimit expectedSize maxFullStreamBytes size ≤ 64 * 1024))) :=
  writes_accepted_iff .linux (fun _ => .ok ()) .ioUring (.ioUring .default) rfl

/-- A fragment of 1 MiB before io_uring, and a file of 1000 bytes before NO_BUFFERING. -/
theorem writes_rejected :
    openWithStrategy .linux (fun _ => .ok ()) .ioUring = .ok (.ioUring .default) ∧
    ¬(StorageBackend.ioUring .default).AcceptsWritesOf (4 * 1024 * 1024)
      (downloadSingleFragment 0 0 (1024 * 1024 - 1)) ∧
    openWithStrategy .windows (fun _ => .ok ()) .winAligned = .ok .winFile ∧
    ¬StorageBackend.winFile.AcceptsWritesOf 1000
      (executeFullDownload (some 1000) defaultMaxFullStreamBytes (.ok "example.com") true []) := by
  refine ⟨rfl, fun h => ?_, rfl, fun h => ?_⟩
  · have hfits := (StorageBackend.fragment_accepted_iff (by decide) (by decide)).mp h
    exact absurd hfits.1 (by decide)
  · have hfits := (StorageBackend.full_accepted_iff (by decide)).mp h ⟨_, rfl⟩ rfl
    exact absurd (show 1000 = 0 from hfits) (by decide)

end Tachyon
