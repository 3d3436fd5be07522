import Tachyon.Engine.FragmentContract
import Tachyon.Engine.FullDownload
import Tachyon.Library.Inevitable

/-!
# Downloads that nothing interferes with

Without pause or cancellation, with a storage that takes every write whole and a server
that answers, each download of a fragment and of the whole file ends, and ends with
success: its checks have nothing to refuse in a clean stream of the right length.
-/

namespace Tachyon

open Resumption ByteFile

/-- The control channel lets the download go on, permits, slots and breaker are granted,
the server opens its streams and the storage takes whole writes. -/
def Cooperates : (r : Request) → Answer r → Prop
  | .waitControl, x => x = .ok ()
  | .acquirePool, x => x = .ok ()
  | .acquireSlot, x => x = .ok ()
  | .breakerAllow, x => x = true
  | .openRange _ _, x => ∃ items, x = .finished (.ok items)
  | .openFull, x => ∃ items, x = .finished (.ok items)
  | .writeAt _ data, x => x = .ok data.length
  | .writeAtRaced _ data, x => x = .finished (.ok data.length)
  | .limiterAcquire _, _ | .sendProgress _, _ | .elapsed, _ | .breakerSuccess, _
  | .breakerFailure, _ | .releaseSlot, _ | .sleep _, _ => True

/-- The answers of an environment in which nothing goes wrong. -/
def Calm (env : Environment) (r : Request) (w : World) (x : Answer r) (w' : World) : Prop :=
  Handles env r w x w' ∧ Cooperates r x

/-- A reliable environment cooperates. -/
theorem reliable_calm (entity : Bytes) (r : Request) (w : World) :
    Calm (.reliable entity) r w (reliable entity r w).1 (reliable entity r w).2 := by
  refine ⟨reliable_handles entity r w, ?_⟩
  cases r with
  | openRange => exact ⟨_, rfl⟩
  | openFull => exact ⟨_, rfl⟩
  | waitControl => exact rfl
  | acquirePool => exact rfl
  | acquireSlot => exact rfl
  | breakerAllow => exact rfl
  | writeAt => exact rfl
  | writeAtRaced => exact rfl
  | _ => exact trivial

/-- The storage can take every write whole. -/
def Environment.TakesWhole (env : Environment) : Prop :=
  ∀ offset data, env.writes offset data (.ok data.length)

section Requests

variable {α : Type} {env : Environment} {post : α → Prop}

theorem succeeds_waitControl {f : Unit → Engine α} (h : Succeeds (Calm env) (f ()) post) :
    Succeeds (Calm env) (request .waitControl >>= fun x => fromResult x >>= f) post := by
  refine Succeeds.request_bind (fun w => ⟨.ok (), w, rfl, rfl⟩) ?_
  rintro w x w' ⟨-, rfl⟩
  exact h

theorem succeeds_acquirePool {f : Unit → Engine α} (h : Succeeds (Calm env) (f ()) post) :
    Succeeds (Calm env) (request .acquirePool >>= fun x => fromResult x >>= f) post := by
  refine Succeeds.request_bind (fun w => ⟨.ok (), w, rfl, rfl⟩) ?_
  rintro w x w' ⟨-, rfl⟩
  exact h

theorem succeeds_limiterAcquire {bytes : ℕ} {f : Unit → Engine α}
    (h : Succeeds (Calm env) (f ()) post) :
    Succeeds (Calm env) (request (.limiterAcquire bytes) >>= f) post :=
  Succeeds.request_bind (fun w => ⟨(), w, rfl, trivial⟩) fun _ _ _ _ => h

theorem succeeds_elapsed {f : ℕ → Engine α} (h : ∀ elapsed, Succeeds (Calm env) (f elapsed) post) :
    Succeeds (Calm env) (request .elapsed >>= f) post :=
  Succeeds.request_bind (fun w => ⟨(0 : ℕ), w, rfl, trivial⟩) fun _ x _ _ => h x

theorem succeeds_sendProgress {message : FragmentProgress} {f : Bool → Engine α}
    (h : ∀ taken, Succeeds (Calm env) (f taken) post) :
    Succeeds (Calm env) (request (.sendProgress message) >>= f) post :=
  Succeeds.request_bind (fun w => ⟨true, w.send message, rfl, trivial⟩) fun _ x _ _ => h x

/-- A write of a whole chunk. -/
theorem writes_whole (w : World) (offset : ℕ) (data : Bytes) :
    Writes w offset data (.ok data.length) (w.write offset data) := by
  refine ⟨data.length, Nat.le_refl _, fun n hn => (Except.ok.inj hn).symm, ?_⟩
  rw [List.take_length]

theorem succeeds_writeAtRaced (htakes : env.TakesWhole) {offset : ℕ} {data : Bytes}
    {f : ℕ → Engine α} (h : Succeeds (Calm env) (f data.length) post) :
    Succeeds (Calm env) (request (.writeAtRaced offset data) >>= fun x => fromSelected x >>= f)
      post := by
  refine Succeeds.request_bind (fun w => ⟨.finished (.ok data.length), w.write offset data,
    ⟨htakes offset data, writes_whole w offset data⟩, rfl⟩) ?_
  rintro w x w' ⟨-, rfl⟩
  exact h

theorem succeeds_writeAt (htakes : env.TakesWhole) {offset : ℕ} {data : Bytes}
    {f : ℕ → Engine α} (h : Succeeds (Calm env) (f data.length) post) :
    Succeeds (Calm env) (request (.writeAt offset data) >>= fun x => fromResult x >>= f) post := by
  refine Succeeds.request_bind (fun w => ⟨.ok data.length, w.write offset data,
    ⟨htakes offset data, writes_whole w offset data⟩, rfl⟩) ?_
  rintro w x w' ⟨-, rfl⟩
  exact h

theorem succeeds_openRange {start end_ : ℕ} (hserved : ∃ items, env.ranges start end_ items)
    {f : List Item → Engine α}
    (h : ∀ items, env.ranges start end_ items → Succeeds (Calm env) (f items) post) :
    Succeeds (Calm env) (request (.openRange start end_) >>= fun x => fromSelected x >>= f)
      post := by
  obtain ⟨items, hitems⟩ := hserved
  refine Succeeds.request_bind
    (fun w => ⟨.finished (.ok items), w.serve start end_ items, ⟨hitems, rfl⟩, items, rfl⟩) ?_
  rintro w x w' ⟨hx, items, rfl⟩
  exact h items hx.1

theorem succeeds_openFull (hserved : ∃ items, env.fulls items) {f : List Item → Engine α}
    (h : ∀ items, env.fulls items → Succeeds (Calm env) (f items) post) :
    Succeeds (Calm env) (request .openFull >>= fun x => fromSelected x >>= f) post := by
  obtain ⟨items, hitems⟩ := hserved
  refine Succeeds.request_bind (fun w => ⟨.finished (.ok items), w, ⟨hitems, rfl⟩, items, rfl⟩) ?_
  rintro w x w' ⟨hx, items, rfl⟩
  exact h items hx.1

end Requests

/-! ### One fragment -/

/-- The range is one of offsets below `u64::MAX`; the stream is clean and of its length. -/
structure Acceptable {ε α : Type} (start end_ : ℕ) (items : List (Except ε (List α))) : Prop where
  ordered : start ≤ end_
  inU64 : end_ + 1 < u64Bound
  clean : EndsCleanly items
  length_eq : (deliveredBytes items).length = end_ - start + 1

section Fragment

variable {env : Environment} {start end_ index : ℕ} {items : List Item}

/-- A clean stream consists of chunks. -/
theorem EndsCleanly.exists_chunks (h : EndsCleanly items) :
    ∃ chunks : List Bytes, items = chunks.map Except.ok := by
  induction items with
  | nil => exact ⟨[], rfl⟩
  | cons item items ih =>
    obtain ⟨chunk, rfl⟩ := h item List.mem_cons_self
    obtain ⟨chunks, rfl⟩ := ih fun item hitem => h item (List.mem_cons_of_mem _ hitem)
    exact ⟨chunk :: chunks, rfl⟩

/-- A batch is taken in one write. -/
theorem writeAllAt_succeeds (htakes : env.TakesWhole) {pos : ℕ} {batch : Bytes}
    (hbatch : batch ≠ []) (hbound : pos + batch.length < u64Bound) :
    Succeeds (Calm env) (writeAllAt pos batch) (· = batch.length) := by
  have hlength : 0 < batch.length := List.length_pos_iff.mpr hbatch
  have hloop : writeAllAt pos batch = writeAllLoop (batch.length - 1 + 1) pos 0 batch := by
    rw [Nat.sub_add_cancel hlength]
    rfl
  have hwritten : tryFromUsize batch.length = some batch.length :=
    tryFromUsize_eq_some.mpr ⟨by omega, rfl⟩
  have hpos : checkedAdd pos batch.length = some (pos + batch.length) :=
    checkedAdd_eq_some.mpr ⟨hbound, rfl⟩
  have htotal : checkedAdd 0 batch.length = some (0 + batch.length) :=
    checkedAdd_eq_some.mpr ⟨by omega, rfl⟩
  rw [hloop, writeAllLoop, if_neg (by simpa using hbatch)]
  apply succeeds_writeAtRaced htakes
  simp only [if_neg hlength.ne', hwritten, hpos, htotal, orThrow_some, ok_bind,
    List.drop_length, writeAllLoop_nil, Nat.zero_add]
  exact Succeeds.pure rfl

/-- A batch that fits the fragment is written. -/
theorem flushBatch_succeeds (htakes : env.TakesWhole) {overflowText : String}
    {expectedLen pos totalWritten : ℕ} {batch : Bytes} (hbatch : batch ≠ [])
    (hfits : totalWritten + batch.length ≤ expectedLen) (hexpected : expectedLen < u64Bound)
    (hbound : pos + batch.length < u64Bound) :
    Succeeds (Calm env) (flushBatch overflowText index expectedLen pos totalWritten batch)
      (· = batch.length) := by
  have hlen : tryFromUsize batch.length = some batch.length :=
    tryFromUsize_eq_some.mpr ⟨by omega, rfl⟩
  have hattempted : checkedAdd totalWritten batch.length = some (totalWritten + batch.length) :=
    checkedAdd_eq_some.mpr ⟨by omega, rfl⟩
  simp only [flushBatch, hlen, hattempted, orThrow_some, ok_bind, if_neg (Nat.not_lt.mpr hfits)]
  exact writeAllAt_succeeds htakes hbatch hbound

theorem reportProgress_succeeds (chunkCount totalWritten : ℕ) :
    Succeeds (Calm env) (reportProgress index chunkCount totalWritten) fun _ => True := by
  unfold reportProgress
  by_cases hreport : chunkCount % progressReportChunkInterval = 0
  · rw [if_pos hreport]
    exact succeeds_sendProgress fun _ => Succeeds.pure trivial
  · rw [if_neg hreport]
    exact Succeeds.pure trivial

/-- The loop stands where what it has written, buffered and still to come is the fragment. -/
structure OnCourse (start expectedLen coming : ℕ) (c : FragmentCursor) : Prop where
  pos_eq : c.pos = start + c.totalWritten
  total_eq : c.totalWritten + c.writeBuf.length + coming = expectedLen

/-- The chunk loop runs through a clean stream of the fragment's length. -/
theorem chunkLoop_succeeds (htakes : env.TakesWhole) {expectedLen : ℕ} {chunks : List Bytes}
    {c : FragmentCursor} (h : OnCourse start expectedLen chunks.flatten.length c)
    (hbound : start + expectedLen < u64Bound) :
    Succeeds (Calm env) (chunkLoop index expectedLen (chunks.map Except.ok) c)
      (OnCourse start expectedLen 0) := by
  induction chunks generalizing c with
  | nil => exact Succeeds.pure h
  | cons chunk chunks ih =>
    obtain ⟨hpos, htotal⟩ := h
    rw [List.flatten_cons, List.length_append] at htotal
    have hbuffered : (c.writeBuf ++ chunk).length = c.writeBuf.length + chunk.length :=
      List.length_append
    rw [List.map_cons, chunkLoop]
    apply succeeds_waitControl
    simp only [fromResult_ok, ok_bind]
    by_cases hfull : (c.writeBuf ++ chunk).length ≥ writeBatchBytes
    · rw [if_pos hfull]
      have hbatch : c.writeBuf ++ chunk ≠ [] := by
        apply List.length_pos_iff.mp
        exact Nat.lt_of_lt_of_le (by decide) hfull
      have hpos' : checkedAdd c.pos (c.writeBuf ++ chunk).length =
          some (c.pos + (c.writeBuf ++ chunk).length) :=
        checkedAdd_eq_some.mpr ⟨by omega, rfl⟩
      have htotal' : wrappingAdd c.totalWritten (c.writeBuf ++ chunk).length =
          c.totalWritten + (c.writeBuf ++ chunk).length := wrappingAdd_of_lt (by omega)
      refine Succeeds.bind (flushBatch_succeeds htakes hbatch (by omega) (by omega) (by omega)) ?_
      rintro written rfl
      simp only [hpos', htotal', orThrow_some, ok_bind]
      apply succeeds_limiterAcquire
      refine Succeeds.bind (reportProgress_succeeds _ _) fun _ _ => ih ?_
      constructor
      · dsimp only
        omega
      · dsimp only
        rw [List.length_nil]
        omega
    · rw [if_neg hfull]
      apply ih
      constructor
      · exact hpos
      · dsimp only
        omega

/-- The last flush completes the fragment. -/
theorem flushRest_succeeds (htakes : env.TakesWhole) {expectedLen : ℕ} {c : FragmentCursor}
    (h : OnCourse start expectedLen 0 c) (hbound : start + expectedLen < u64Bound) :
    Succeeds (Calm env) (flushRest index expectedLen c) (· = expectedLen) := by
  obtain ⟨hpos, htotal⟩ := h
  unfold flushRest
  by_cases hempty : c.writeBuf = []
  · rw [hempty, List.length_nil] at htotal
    rw [if_pos (by simpa using hempty)]
    apply Succeeds.pure
    omega
  · have htotal' : wrappingAdd c.totalWritten c.writeBuf.length = expectedLen := by
      rw [wrappingAdd_of_lt (by omega)]
      omega
    rw [if_neg (by simpa using hempty)]
    refine Succeeds.bind (flushBatch_succeeds htakes hempty (by omega) (by omega) (by omega)) ?_
    rintro written rfl
    apply succeeds_limiterAcquire
    exact Succeeds.pure htotal'

/-- A fragment whose streams are all acceptable is downloaded. -/
theorem downloadSingleFragment_succeeds (htakes : env.TakesWhole)
    (hserved : ∃ items, env.ranges start end_ items)
    (haccept : ∀ items, env.ranges start end_ items → Acceptable start end_ items) :
    Succeeds (Calm env) (downloadSingleFragment index start end_) fun r =>
      r.1 = end_ - start + 1 := by
  unfold downloadSingleFragment
  apply succeeds_waitControl
  apply succeeds_acquirePool
  refine succeeds_openRange hserved fun items hitems => ?_
  obtain ⟨hordered, hu64, hclean, hlength⟩ := haccept items hitems
  obtain ⟨chunks, rfl⟩ := hclean.exists_chunks
  have hexpected : ((checkedSub end_ start).bind fun len => checkedAdd len 1) =
      some (end_ - start + 1) := by
    rw [checkedSub_eq_some.mpr ⟨hordered, rfl⟩]
    exact checkedAdd_eq_some.mpr ⟨by omega, rfl⟩
  have hcourse : OnCourse start (end_ - start + 1) chunks.flatten.length ⟨start, 0, 0, []⟩ := by
    rw [deliveredBytes_map_ok] at hlength
    rw [hlength]
    exact ⟨rfl, Nat.zero_add _⟩
  simp only [hexpected, orThrow_some, ok_bind]
  refine Succeeds.bind (chunkLoop_succeeds htakes hcourse (by omega)) fun c hc => ?_
  refine Succeeds.bind (flushRest_succeeds htakes hc (by omega)) ?_
  rintro total rfl
  rw [if_neg (by simp)]
  refine succeeds_elapsed fun elapsed => succeeds_sendProgress fun _ => ?_
  exact Succeeds.pure rfl

end Fragment

/-! ### The whole file -/

section Full

variable {env : Environment} {expectedSize : Option UInt64} {maxFullStreamBytes : UInt64}
  {fragments : List FragmentRecord} {pos : ℕ}

/-- A stream of a known size, or within the limit, is written to its end. -/
theorem fullLoop_succeeds (htakes : env.TakesWhole) {chunks : List Bytes}
    (hbound : pos + chunks.flatten.length < u64Bound)
    (hlimit : expectedSize = none → pos + chunks.flatten.length ≤ maxFullStreamBytes.toNat) :
    Succeeds (Calm env) (fullLoop expectedSize maxFullStreamBytes (chunks.map Except.ok) pos)
      (· = pos + chunks.flatten.length) := by
  induction chunks generalizing pos with
  | nil => exact Succeeds.pure rfl
  | cons chunk chunks ih =>
    rw [List.flatten_cons, List.length_append] at hbound hlimit
    have hlen : tryFromUsize chunk.length = some chunk.length :=
      tryFromUsize_eq_some.mpr ⟨by omega, rfl⟩
    have hcheck : checkFullStreamLimit expectedSize maxFullStreamBytes pos chunk.length =
        .ok () := by
      cases expectedSize with
      | some size => rfl
      | none =>
        have hadd : checkedAdd pos chunk.length = some (pos + chunk.length) :=
          checkedAdd_eq_some.mpr ⟨by omega, rfl⟩
        have hle := hlimit rfl
        simp only [checkFullStreamLimit, hadd]
        rw [if_neg (by omega)]
    rw [List.map_cons, fullLoop]
    apply succeeds_waitControl
    simp only [fromResult_ok, ok_bind, hlen, orThrow_some, hcheck]
    apply succeeds_writeAt htakes
    apply succeeds_limiterAcquire
    have hpos : wrappingAdd pos chunk.length = pos + chunk.length := wrappingAdd_of_lt (by omega)
    have htotal : pos + (chunk :: chunks).flatten.length =
        pos + chunk.length + chunks.flatten.length := by
      rw [List.flatten_cons, List.length_append]
      omega
    rw [hpos, htotal]
    refine ih (by omega) fun hnone => ?_
    have hle := hlimit hnone
    omega

/-- The first record, where there is one, becomes Done; the others stay as they are. -/
def FirstDone (fragments records : List FragmentRecord) : Prop :=
  (∀ frag ∈ records.head?, frag.state = .done) ∧ records.tail = fragments.tail

theorem completeFirst_succeeds (hopen : FirstOpen fragments) :
    Succeeds (Calm env) (completeFirst fragments pos) (FirstDone fragments) := by
  cases fragments with
  | nil =>
    apply Succeeds.pure
    exact ⟨fun frag hfrag => (nomatch hfrag), rfl⟩
  | cons frag rest =>
    unfold completeFirst
    have hfinish : ∀ frag' : FragmentRecord, frag'.state = .downloading →
        Succeeds (Calm env) (do
          let elapsed ← request .elapsed
          let frag'' ← fromResult (frag'.completeDownloadFast pos elapsed)
          pure (frag'' :: rest)) (FirstDone (frag :: rest)) := by
      intro frag' hdownloading
      refine succeeds_elapsed fun elapsed => ?_
      rw [FragmentRecord.completeDownloadFast_ok.mpr ⟨hdownloading, rfl⟩]
      apply Succeeds.pure
      exact ⟨fun frag hfrag => by obtain rfl := Option.some.inj hfrag; rfl, rfl⟩
    dsimp only
    rcases hopen frag rfl with hpending | hdownloading
    · rw [if_pos hpending, FragmentRecord.startDownload_ok.mpr ⟨hpending, rfl⟩]
      exact hfinish _ rfl
    · have hnot : frag.state ≠ .pending := by
        rw [hdownloading]
        decide
      rw [if_neg hnot]
      exact hfinish frag hdownloading

/-- A full download of a clean stream of the expected size, or of unknown size within the
limit, completes the first record. -/
theorem executeFullDownload_succeeds (htakes : env.TakesWhole) {host : DownloadResult String}
    {name : String} (hhost : host = .ok name) (hserved : ∃ items, env.fulls items)
    (hclean : ∀ items, env.fulls items → EndsCleanly items)
    (hsize : ∀ size items, expectedSize = some size → env.fulls items →
      (deliveredBytes items).length = size.toNat)
    (hlimit : ∀ items, expectedSize = none → env.fulls items →
      (deliveredBytes items).length ≤ maxFullStreamBytes.toNat)
    (hopen : FirstOpen fragments) :
    Succeeds (Calm env) (executeFullDownload expectedSize maxFullStreamBytes host true fragments)
      (FirstDone fragments) := by
  unfold executeFullDownload
  apply succeeds_waitControl
  rw [hhost, fromResult_ok, ok_bind]
  apply succeeds_acquirePool
  refine succeeds_openFull hserved fun items hitems => ?_
  rw [if_neg (by decide)]
  obtain ⟨chunks, rfl⟩ := (hclean items hitems).exists_chunks
  have hlimit' : expectedSize = none → 0 + chunks.flatten.length ≤ maxFullStreamBytes.toNat := by
    intro hnone
    have hle := hlimit _ hnone hitems
    rwa [deliveredBytes_map_ok, ← Nat.zero_add chunks.flatten.length] at hle
  have hbound : 0 + chunks.flatten.length < u64Bound := by
    have hmax : maxFullStreamBytes.toNat < u64Bound := maxFullStreamBytes.toNat_lt
    cases hexpected : expectedSize with
    | none =>
      have hle := hlimit' hexpected
      omega
    | some size =>
      have hlength := hsize size _ hexpected hitems
      have hlt : size.toNat < u64Bound := size.toNat_lt
      rw [deliveredBytes_map_ok] at hlength
      omega
  refine Succeeds.bind (fullLoop_succeeds htakes hbound hlimit') ?_
  rintro pos rfl
  unfold finishFullDownload
  cases hexpected : expectedSize with
  | none => exact completeFirst_succeeds hopen
  | some size =>
    have hlength := hsize size _ hexpected hitems
    rw [deliveredBytes_map_ok] at hlength
    dsimp only
    rw [if_neg (by omega)]
    exact completeFirst_succeeds hopen

end Full

end Tachyon
