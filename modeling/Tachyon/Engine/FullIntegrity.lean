import Tachyon.Engine.FullDownload

/-!
# What a full download leaves in the file

A full download resubmits nothing: where the storage takes a chunk in part, the
rest of it is gone and the next chunk follows the part taken. The last theorem says
exactly on which scripts the stored bytes are the delivered ones and no write
reaches beyond a known size.
-/

namespace Tachyon

open Resumption ByteFile

/-- A chunk handed to the storage: the bytes taken before it, the chunk, and how many of
its bytes are taken. -/
structure Handed where
  before : ℕ
  chunk : Bytes
  taken : ℕ

/-- The checks a chunk passes before it is handed on. -/
def admits (expectedSize : Option UInt64) (maxFullStreamBytes : UInt64) (before len : ℕ) : Bool :=
  decide (len < u64Bound) &&
    (expectedSize.isSome || decide (before + len ≤ maxFullStreamBytes.toNat))

/-- The chunks a script hands to the storage, and whether the stream is read to its end. -/
def deliver (expectedSize : Option UInt64) (maxFullStreamBytes : UInt64) :
    ℕ → List ChunkEvent → List Handed × Bool
  | _, [] => ([], true)
  | before, e :: es =>
    match e.control, e.item with
    | .ok (), .ok chunk =>
      if admits expectedSize maxFullStreamBytes before chunk.length then
        if e.failure.isSome then ([⟨before, chunk, e.taken chunk⟩], false)
        else
          let rest := deliver expectedSize maxFullStreamBytes (before + e.taken chunk) es
          (⟨before, chunk, e.taken chunk⟩ :: rest.1, rest.2)
      else ([], false)
    | _, _ => ([], false)

/-- The state after the storage took its part of a chunk. -/
def FullState.take (st : FullState) (offset : ℕ) (chunk : Bytes) (e : ChunkEvent)
    (es : List ChunkEvent) : FullState where
  world := st.world.write offset (chunk.take (e.taken chunk))
  rest := some es
  issued := st.issued ++ [(offset, chunk.length)]

/-- No chunk handed on reaches beyond a known size. -/
def FitsSize (expectedSize : Option UInt64) (handed : List Handed) : Prop :=
  ∀ size, expectedSize = some size → ∀ p ∈ handed, p.chunk ≠ [] →
    p.before + p.chunk.length ≤ size.toNat

/-- No chunk is taken in part only. -/
def TakenWhole (handed : List Handed) : Prop := ∀ p ∈ handed, p.taken = p.chunk.length

section Loop

variable {script : FullScript} {expectedSize : Option UInt64} {maxFullStreamBytes : UInt64}
  {st : FullState} {e : ChunkEvent} {es : List ChunkEvent} {pos : ℕ}

theorem answer_waitControl (hrest : st.rest = some (e :: es)) :
    script.answer .waitControl st = (e.control, st) := by
  obtain ⟨world, rest, issued⟩ := st
  obtain rfl : rest = some (e :: es) := hrest
  rfl

theorem answer_writeAt {chunk : Bytes} (hrest : st.rest = some (e :: es)) :
    script.answer (.writeAt pos chunk) st =
      ((match e.failure with
        | none => .ok (e.taken chunk)
        | some error => .error error), st.take pos chunk e es) := by
  obtain ⟨world, rest, issued⟩ := st
  obtain rfl : rest = some (e :: es) := hrest
  rfl

/-- A chunk passes the checks of the loop exactly when it is admitted. -/
theorem admits_iff {len : ℕ} : admits expectedSize maxFullStreamBytes pos len = true ↔
    tryFromUsize len = some len ∧
      checkFullStreamLimit expectedSize maxFullStreamBytes pos len = .ok () := by
  have hmax := maxFullStreamBytes.toNat_lt
  have hbound : u64Bound = 2 ^ 64 := rfl
  cases expectedSize with
  | some size => simp [admits, tryFromUsize_eq_some, checkFullStreamLimit]
  | none =>
    simp only [admits, Option.isSome_none, Bool.false_or, Bool.and_eq_true, decide_eq_true_eq,
      tryFromUsize_eq_some, and_true, checkFullStreamLimit]
    refine and_congr_right fun _ => ?_
    by_cases hsum : pos + len < u64Bound
    · have hadd : checkedAdd pos len = some (pos + len) := checkedAdd_eq_some.mpr ⟨hsum, rfl⟩
      by_cases hle : pos + len ≤ maxFullStreamBytes.toNat
      · simp [hadd, hle, Nat.not_lt.mpr hle]
      · simp [hadd, hle, Nat.lt_of_not_le hle]
    · have hadd : checkedAdd pos len = none := if_neg hsum
      simp only [hadd]
      constructor
      · intro hle
        omega
      · intro h
        cases h

/-- One round of the loop: it fails before the write, fails in the write, or goes on behind
the part taken. `deliver` follows the same three ways. -/
theorem fullLoop_cons (hrest : st.rest = some (e :: es)) :
    (∃ error, runWith script.answer
        (fullLoop expectedSize maxFullStreamBytes ((e :: es).map ChunkEvent.item) pos) st =
          (.error error, st) ∧
      deliver expectedSize maxFullStreamBytes pos (e :: es) = ([], false)) ∨
    (∃ chunk error, runWith script.answer
        (fullLoop expectedSize maxFullStreamBytes ((e :: es).map ChunkEvent.item) pos) st =
          (.error error, st.take pos chunk e es) ∧
      deliver expectedSize maxFullStreamBytes pos (e :: es) =
        ([⟨pos, chunk, e.taken chunk⟩], false)) ∨
    ∃ chunk, e.item = .ok chunk ∧
      admits expectedSize maxFullStreamBytes pos chunk.length = true ∧
      runWith script.answer
        (fullLoop expectedSize maxFullStreamBytes ((e :: es).map ChunkEvent.item) pos) st =
        runWith script.answer (fullLoop expectedSize maxFullStreamBytes (es.map ChunkEvent.item)
          (wrappingAdd pos (e.taken chunk))) (st.take pos chunk e es) ∧
      deliver expectedSize maxFullStreamBytes pos (e :: es) =
        (⟨pos, chunk, e.taken chunk⟩ ::
          (deliver expectedSize maxFullStreamBytes (pos + e.taken chunk) es).1,
          (deliver expectedSize maxFullStreamBytes (pos + e.taken chunk) es).2) := by
  rw [List.map_cons, fullLoop, runWith_request_bind, answer_waitControl hrest]
  cases hcontrol : e.control with
  | error error => exact Or.inl ⟨error, rfl, by simp [deliver, hcontrol]⟩
  | ok _ =>
  cases hitem : e.item with
  | error error => exact Or.inl ⟨error, rfl, by simp [deliver, hcontrol, hitem]⟩
  | ok chunk =>
  simp only [fromResult_ok, ok_bind]
  cases hadmits : admits expectedSize maxFullStreamBytes pos chunk.length with
  | false =>
    refine Or.inl ?_
    have hdeliver : deliver expectedSize maxFullStreamBytes pos (e :: es) = ([], false) := by
      simp [deliver, hcontrol, hitem, hadmits]
    have hnot := (@admits_iff expectedSize maxFullStreamBytes pos chunk.length).not
    rw [hadmits] at hnot
    cases hlen : tryFromUsize chunk.length with
    | none => exact ⟨_, rfl, hdeliver⟩
    | some len =>
      obtain ⟨hbound, rfl⟩ := tryFromUsize_eq_some.mp hlen
      cases hlimit : checkFullStreamLimit expectedSize maxFullStreamBytes pos chunk.length with
      | error error =>
        refine ⟨error, ?_, hdeliver⟩
        simp only [orThrow_some, ok_bind, hlimit]
        rfl
      | ok _ => exact absurd ⟨hlen, hlimit⟩ (hnot.mp Bool.false_ne_true)
  | true =>
    obtain ⟨hlen, hlimit⟩ := admits_iff.mp hadmits
    simp only [hlen, orThrow_some, ok_bind, hlimit, fromResult_ok, runWith_request_bind,
      answer_writeAt hrest]
    cases hfailure : e.failure with
    | some error =>
      refine Or.inr (Or.inl ⟨chunk, error, rfl, ?_⟩)
      simp [deliver, hcontrol, hitem, hadmits, hfailure]
    | none =>
      refine Or.inr (Or.inr ⟨chunk, rfl, hadmits, rfl, ?_⟩)
      simp [deliver, hcontrol, hitem, hadmits, hfailure]

/-- The bytes a stream of the known size or below the limit may have. -/
def fullCap (expectedSize : Option UInt64) (maxFullStreamBytes : UInt64) : ℕ :=
  (expectedSize.getD maxFullStreamBytes).toNat

theorem fullCap_lt : fullCap expectedSize maxFullStreamBytes < u64Bound := UInt64.toNat_lt _

/-- An admitted chunk that fits a known size stays below the cap. -/
theorem taken_le_fullCap {chunk : Bytes}
    (hadmits : admits expectedSize maxFullStreamBytes pos chunk.length = true)
    (hfits : ∀ size, expectedSize = some size → chunk ≠ [] → pos + chunk.length ≤ size.toNat)
    (hpos : pos ≤ fullCap expectedSize maxFullStreamBytes) :
    pos + e.taken chunk ≤ fullCap expectedSize maxFullStreamBytes := by
  have htaken : e.taken chunk ≤ chunk.length := Nat.min_le_right _ _
  by_cases hnil : chunk = []
  · subst hnil
    have hzero : e.taken [] = 0 := Nat.le_zero.mp htaken
    rw [hzero]
    exact hpos
  · cases hsize : expectedSize with
    | some size =>
      have hle := hfits size hsize hnil
      simp only [fullCap, Option.getD_some]
      omega
    | none =>
      simp only [admits, hsize, Option.isSome_none, Bool.false_or, Bool.and_eq_true,
        decide_eq_true_eq] at hadmits
      simp only [fullCap, Option.getD_none]
      omega

/-- A whole loop whose chunks fit the known size writes what `deliver` lists. -/
theorem fullLoop_run (hrest : st.rest = some es)
    (hfits : FitsSize expectedSize (deliver expectedSize maxFullStreamBytes pos es).1)
    (hpos : pos ≤ fullCap expectedSize maxFullStreamBytes) :
    ∃ result st', runWith script.answer
        (fullLoop expectedSize maxFullStreamBytes (es.map ChunkEvent.item) pos) st =
          (result, st') ∧
      (if (deliver expectedSize maxFullStreamBytes pos es).2 then
        result = .ok (pos +
          ((deliver expectedSize maxFullStreamBytes pos es).1.map Handed.taken).sum)
      else ∃ error, result = .error error) ∧
      st'.issued = st.issued ++ (deliver expectedSize maxFullStreamBytes pos es).1.map
        (fun p => (p.before, p.chunk.length)) ∧
      st'.world.file = (deliver expectedSize maxFullStreamBytes pos es).1.foldl
        (fun file p => pwrite file p.before (p.chunk.take p.taken)) st.world.file := by
  induction es generalizing pos st with
  | nil => exact ⟨.ok pos, st, rfl, rfl, (List.append_nil _).symm, rfl⟩
  | cons e es ih =>
    rcases fullLoop_cons hrest with ⟨error, hrun, hdeliver⟩ | ⟨chunk, error, hrun, hdeliver⟩ |
      ⟨chunk, -, hadmits, hrun, hdeliver⟩
    · rw [hdeliver]
      exact ⟨_, _, hrun, ⟨error, rfl⟩, (List.append_nil _).symm, rfl⟩
    · rw [hdeliver]
      exact ⟨_, _, hrun, ⟨error, rfl⟩, rfl, rfl⟩
    · rw [hdeliver] at hfits
      have hchunk : ∀ size, expectedSize = some size → chunk ≠ [] →
          pos + chunk.length ≤ size.toNat :=
        fun size hsize => hfits size hsize _ List.mem_cons_self
      have hcap := taken_le_fullCap (e := e) hadmits hchunk hpos
      have hnowrap : wrappingAdd pos (e.taken chunk) = pos + e.taken chunk :=
        wrappingAdd_of_lt (Nat.lt_of_le_of_lt hcap fullCap_lt)
      rw [hnowrap] at hrun
      have hfits' : FitsSize expectedSize
          (deliver expectedSize maxFullStreamBytes (pos + e.taken chunk) es).1 :=
        fun size hsize p hp => hfits size hsize p (List.mem_cons_of_mem _ hp)
      obtain ⟨result, st', hrest', hresult, hissued, hfile⟩ :=
        @ih (st.take pos chunk e es) _ rfl hfits' hcap
      refine ⟨result, st', hrun.trans hrest', ?_, ?_, ?_⟩
      · rw [hdeliver]
        simpa only [List.map_cons, List.sum_cons, Nat.add_assoc] using hresult
      · rw [hdeliver, hissued]
        simp only [FullState.take, List.map_cons, List.append_assoc, List.singleton_append]
      · rw [hdeliver, hfile]
        rfl

/-- Calls to `write_at` are only ever added. -/
theorem issued_subset {α : Type} (p : Engine α) (st : FullState) :
    st.issued ⊆ (runWith script.answer p st).2.issued := by
  refine Prog.exec_preserves (R := fun st st' => st.issued ⊆ st'.issued)
    (fun _ => List.Subset.refl _) (fun h h' => List.Subset.trans h h') ?_ p.run st
  rintro op ⟨world, rest, issued⟩
  cases op with
  | waitControl => rcases rest with _ | _ | ⟨e, es⟩ <;> exact List.Subset.refl _
  | openFull =>
    obtain ⟨control, permit, opened, events, elapsed⟩ := script
    rcases opened with (e | _) | control <;> exact List.Subset.refl _
  | writeAt offset data =>
    rcases rest with _ | _ | ⟨e, es⟩ <;> exact List.subset_append_left _ _
  | _ => exact List.Subset.refl _

/-- What a first part has issued, the whole has. -/
theorem issued_bind {α γ : Type} (p : Engine α) (f : α → Engine γ) (st : FullState) :
    (runWith script.answer p st).2.issued ⊆ (runWith script.answer (p >>= f) st).2.issued := by
  obtain ⟨result, st', hrun⟩ : ∃ result st', runWith script.answer p st = (result, st') :=
    ⟨_, _, rfl⟩
  rw [hrun]
  cases result with
  | error e =>
    rw [runWith_bind_error hrun]
    exact List.Subset.refl _
  | ok a =>
    rw [runWith_bind_ok hrun]
    exact issued_subset _ _

/-- Where some chunk handed on reaches beyond the known size, so does a call to `write_at`. -/
theorem fullLoop_issues_beyond {size : UInt64} {p : Handed} (hrest : st.rest = some es)
    (hpos : pos ≤ size.toNat) (hp : p ∈ (deliver (some size) maxFullStreamBytes pos es).1)
    (hne : p.chunk ≠ []) (hbeyond : size.toNat < p.before + p.chunk.length) :
    ∃ q ∈ (runWith script.answer
        (fullLoop (some size) maxFullStreamBytes (es.map ChunkEvent.item) pos) st).2.issued,
      q.2 ≠ 0 ∧ size.toNat < q.1 + q.2 := by
  induction es generalizing pos st with
  | nil => cases hp
  | cons e es ih =>
    have hlength : p.chunk.length ≠ 0 := fun h => hne (List.length_eq_zero_iff.mp h)
    rcases @fullLoop_cons script (some size) maxFullStreamBytes st e es pos hrest with
      ⟨error, hrun, hdeliver⟩ | ⟨chunk, error, hrun, hdeliver⟩ | ⟨chunk, -, hadmits, hrun, hdeliver⟩
    · rw [hdeliver] at hp
      cases hp
    · rw [hdeliver, List.mem_singleton] at hp
      subst hp
      rw [hrun]
      exact ⟨(pos, chunk.length), List.mem_append_right _ List.mem_cons_self, hlength, hbeyond⟩
    · rw [hrun]
      by_cases hfits : chunk ≠ [] → pos + chunk.length ≤ size.toNat
      · have hcap := taken_le_fullCap (e := e) hadmits
          (fun size' hsize' => by cases hsize'; exact hfits) hpos
        have hnowrap : wrappingAdd pos (e.taken chunk) = pos + e.taken chunk :=
          wrappingAdd_of_lt (Nat.lt_of_le_of_lt hcap fullCap_lt)
        rw [hnowrap]
        rw [hdeliver] at hp
        rcases List.mem_cons.mp hp with rfl | hp
        · exact absurd (hfits hne) (Nat.not_le.mpr hbeyond)
        · exact ih rfl hcap hp
      · obtain ⟨hchunk, hover⟩ := Classical.not_imp.mp hfits
        refine ⟨(pos, chunk.length), issued_subset _ _ ?_, ?_, Nat.not_le.mp hover⟩
        · exact List.mem_append_right _ List.mem_cons_self
        · exact fun h => hchunk (List.length_eq_zero_iff.mp h)

/-- The bytes the storage took, in order. -/
def takenBytes (handed : List Handed) : Bytes := handed.flatMap fun p => p.chunk.take p.taken

theorem taken_le_of_mem_deliver {p : Handed}
    (hp : p ∈ (deliver expectedSize maxFullStreamBytes pos es).1) : p.taken ≤ p.chunk.length := by
  induction es generalizing pos with
  | nil => cases hp
  | cons e es ih =>
    unfold deliver at hp
    split at hp
    · split at hp
      · split at hp
        · rw [List.mem_singleton] at hp
          subst hp
          exact Nat.min_le_right _ _
        · rcases List.mem_cons.mp hp with rfl | hp
          · exact Nat.min_le_right _ _
          · exact ih hp
      · cases hp
    · cases hp

/-- The parts taken stand one behind the other, after what was there before them. -/
theorem storedAt_foldl_deliver {file written : Bytes} (hstored : StoredAt file 0 written)
    (hpos : pos = written.length) :
    StoredAt ((deliver expectedSize maxFullStreamBytes pos es).1.foldl
        (fun file p => pwrite file p.before (p.chunk.take p.taken)) file) 0
      (written ++ takenBytes (deliver expectedSize maxFullStreamBytes pos es).1) := by
  induction es generalizing pos file written with
  | nil => simpa [deliver, takenBytes] using hstored
  | cons e es ih =>
    subst hpos
    unfold deliver
    split
    · rename_i chunk _ _
      have hwrite := hstored.pwrite_append (chunk.take (e.taken chunk))
      rw [Nat.zero_add] at hwrite
      split
      · split
        · simpa [takenBytes] using hwrite
        · have hlength : written.length + e.taken chunk =
              (written ++ chunk.take (e.taken chunk)).length := by
            have htaken : e.taken chunk ≤ chunk.length := Nat.min_le_right _ _
            rw [List.length_append, List.length_take]
            omega
          have hrest := ih hwrite hlength
          simpa [takenBytes] using hrest
      · simpa [takenBytes] using hstored
    · simpa [takenBytes] using hstored

/-- Into an empty file, the parts taken are all there is. -/
theorem foldl_deliver_length {file : Bytes} (hpos : pos = file.length) :
    (deliver expectedSize maxFullStreamBytes pos es).1.foldl
        (fun file p => pwrite file p.before (p.chunk.take p.taken)) file =
      file ++ takenBytes (deliver expectedSize maxFullStreamBytes pos es).1 := by
  induction es generalizing pos file with
  | nil => simp [deliver, takenBytes]
  | cons e es ih =>
    subst hpos
    unfold deliver
    split
    · rename_i chunk _ _
      have hwrite := pwrite_length file (chunk.take (e.taken chunk))
      split
      · split
        · simpa [takenBytes] using hwrite
        · have hlength : file.length + e.taken chunk =
              (file ++ chunk.take (e.taken chunk)).length := by
            have htaken : e.taken chunk ≤ chunk.length := Nat.min_le_right _ _
            rw [List.length_append, List.length_take]
            omega
          have hrest := ih hlength
          simpa [takenBytes, hwrite] using hrest
      · simp [takenBytes]
    · simp [takenBytes]

/-- A stream read to its end has delivered the chunks handed on. -/
theorem deliveredBytes_of_deliver
    (h : (deliver expectedSize maxFullStreamBytes pos es).2 = true) :
    deliveredBytes (es.map ChunkEvent.item) =
      (deliver expectedSize maxFullStreamBytes pos es).1.flatMap Handed.chunk := by
  induction es generalizing pos with
  | nil => rfl
  | cons e es ih =>
    unfold deliver at h ⊢
    split at h
    · rename_i chunk hcontrol hitem
      split at h
      · split at h
        · cases h
        · have hrest := ih h
          simp [deliveredBytes, *]
      · cases h
    · cases h

end Loop

theorem length_takenBytes_cons (q : Handed) (handed : List Handed) :
    (takenBytes (q :: handed)).length =
      min q.taken q.chunk.length + (takenBytes handed).length := by
  simp [takenBytes]

theorem length_takenBytes_le (handed : List Handed) :
    (takenBytes handed).length ≤ (handed.flatMap Handed.chunk).length := by
  induction handed with
  | nil => exact Nat.le_refl _
  | cons q handed ih =>
    rw [length_takenBytes_cons, List.flatMap_cons, List.length_append]
    omega

/-- As many bytes taken as handed on means that every chunk was taken whole. -/
theorem takenWhole_of_length {handed : List Handed} (hle : ∀ p ∈ handed, p.taken ≤ p.chunk.length)
    (hlength : (handed.flatMap Handed.chunk).length ≤ (takenBytes handed).length) :
    TakenWhole handed := by
  induction handed with
  | nil => exact fun p hp => absurd hp List.not_mem_nil
  | cons q handed ih =>
    have hq := hle q List.mem_cons_self
    have hrest := length_takenBytes_le handed
    rw [length_takenBytes_cons, List.flatMap_cons, List.length_append] at hlength
    intro p hp
    rcases List.mem_cons.mp hp with rfl | hp
    · omega
    · exact ih (fun p hp => hle p (List.mem_cons_of_mem _ hp)) (by omega) p hp

theorem takenBytes_of_takenWhole {handed : List Handed} (h : TakenWhole handed) :
    takenBytes handed = handed.flatMap Handed.chunk := by
  unfold takenBytes
  refine List.flatMap_congr fun p hp => ?_
  rw [h p hp, List.take_length]

/-! ### Whole runs -/

/-- The stream is opened and a storage is there to write it to. -/
def FullScript.Opens (script : FullScript) (host : DownloadResult String) (storageReady : Bool) :
    Prop :=
  script.control = .ok () ∧ (∃ name, host = .ok name) ∧ script.permit = .ok () ∧
    script.opened = .finished (.ok ()) ∧ storageReady = true

section Whole

variable {script : FullScript} {expectedSize : Option UInt64} {maxFullStreamBytes : UInt64}
  {host : DownloadResult String} {storageReady : Bool} {fragments : List FragmentRecord}
  {world : World} {st : FullState} {pos : ℕ}

theorem completeFirst_run : ∃ result,
    runWith script.answer (completeFirst fragments pos) st = (result, st) ∧
      ((∃ records, result = .ok records) ↔ FirstOpen fragments) := by
  cases fragments with
  | nil => exact ⟨.ok [], rfl, by simp [FirstOpen]⟩
  | cons frag rest =>
    simp only [completeFirst, FirstOpen, List.head?_cons, Option.mem_some_iff, forall_eq']
    by_cases hpending : frag.state = .pending
    · have hstart := FragmentRecord.startDownload_ok.mpr ⟨hpending, rfl⟩
      simp only [if_pos hpending, hstart, fromResult_ok, ok_bind, runWith_request_bind]
      exact ⟨_, rfl, by simp [hpending]⟩
    · simp only [if_neg hpending, ok_bind, runWith_request_bind]
      cases hcomplete : frag.completeDownloadFast pos script.elapsed with
      | ok frag' =>
        have hdownloading := (FragmentRecord.completeDownloadFast_ok.mp hcomplete).1
        refine ⟨.ok (frag' :: rest), ?_, by simp [hdownloading]⟩
        simp only [FullScript.answer, hcomplete, fromResult_ok, ok_bind, runWith_pure]
      | error e =>
        have hrefused : frag.state ≠ .downloading := by
          intro hdownloading
          rw [FragmentRecord.completeDownloadFast_ok.mpr ⟨hdownloading, rfl⟩] at hcomplete
          cases hcomplete
        refine ⟨.error e, ?_, by simp [hpending, hrefused]⟩
        simp only [FullScript.answer, hcomplete, fromResult_error, error_bind, runWith_throw]

/-- A run starts with the stream closed and no call to `write_at` made. -/
def FullScript.run (script : FullScript) (expectedSize : Option UInt64)
    (maxFullStreamBytes : UInt64) (host : DownloadResult String) (storageReady : Bool)
    (fragments : List FragmentRecord) (file : Bytes) :
    DownloadResult (List FragmentRecord) × FullState :=
  runWith script.answer
    (executeFullDownload expectedSize maxFullStreamBytes host storageReady fragments)
    ⟨.initial file, none, []⟩

/-- The end of a run succeeds when a known size is reached and the first record is open. -/
theorem finishFullDownload_run : ∃ result,
    runWith script.answer (finishFullDownload expectedSize fragments pos) st = (result, st) ∧
      ((∃ records, result = .ok records) ↔
        (∀ size, expectedSize = some size → pos = size.toNat) ∧ FirstOpen fragments) := by
  obtain ⟨result, hrun, hresult⟩ := @completeFirst_run script fragments st pos
  cases expectedSize with
  | none => exact ⟨result, hrun, by simpa using hresult⟩
  | some size =>
    by_cases hsize : pos = size.toNat
    · refine ⟨result, ?_, by simpa [hsize] using hresult⟩
      rw [← hrun]
      simp only [finishFullDownload, hsize, ne_eq, not_true_eq_false, if_false]
    · obtain ⟨e, hthrow⟩ : ∃ e, finishFullDownload (some size) fragments pos = throw e :=
        ⟨_, if_pos hsize⟩
      refine ⟨.error e, ?_, by simp [hsize]⟩
      rw [hthrow, runWith_throw]

theorem run_of_opens (hopens : script.Opens host storageReady) (file : Bytes) :
    script.run expectedSize maxFullStreamBytes host storageReady fragments file =
      runWith script.answer
        (fullLoop expectedSize maxFullStreamBytes script.items 0 >>=
          finishFullDownload expectedSize fragments)
        ⟨.initial file, some script.events, []⟩ := by
  obtain ⟨control, permit, opened, events, elapsed⟩ := script
  obtain ⟨hcontrol, ⟨name, hhost⟩, hpermit, hopened, hstorage⟩ := hopens
  dsimp only at hcontrol hpermit hopened
  subst hcontrol hhost hpermit hopened hstorage
  rfl

theorem run_of_not_opens (hopens : ¬script.Opens host storageReady) (file : Bytes) :
    ∃ e, (script.run expectedSize maxFullStreamBytes host storageReady fragments file).1 =
        .error e ∧
      (script.run expectedSize maxFullStreamBytes host storageReady fragments file).2.issued =
        [] := by
  obtain ⟨control, permit, opened, events, elapsed⟩ := script
  cases control with
  | error e => exact ⟨e, rfl, rfl⟩
  | ok _ =>
  cases host with
  | error e => exact ⟨e, rfl, rfl⟩
  | ok name =>
  cases permit with
  | error e => exact ⟨e, rfl, rfl⟩
  | ok _ =>
  match opened with
  | .interrupted (.error e) => exact ⟨e, rfl, rfl⟩
  | .interrupted (.ok _) => exact ⟨_, rfl, rfl⟩
  | .finished (.error e) => exact ⟨e, rfl, rfl⟩
  | .finished (.ok _) =>
  cases storageReady with
  | false => exact ⟨_, rfl, rfl⟩
  | true => exact absurd ⟨rfl, ⟨name, rfl⟩, rfl, rfl, rfl⟩ hopens

/-- The script lets the stream be read to its end, a known size adds up, and the first
record can be completed. -/
def FullScript.Completes (script : FullScript) (expectedSize : Option UInt64)
    (maxFullStreamBytes : UInt64) (fragments : List FragmentRecord) : Prop :=
  (deliver expectedSize maxFullStreamBytes 0 script.events).2 = true ∧
  (∀ size, expectedSize = some size →
    ((deliver expectedSize maxFullStreamBytes 0 script.events).1.map Handed.taken).sum =
      size.toNat) ∧
  FirstOpen fragments

/-- A run whose chunks fit a known size returns Ok exactly when the script completes; its
writes are the chunks handed on. -/
theorem run_of_fits (hopens : script.Opens host storageReady) (file : Bytes)
    (hfits : FitsSize expectedSize (deliver expectedSize maxFullStreamBytes 0 script.events).1) :
    ((∃ records, (script.run expectedSize maxFullStreamBytes host storageReady fragments file).1 =
      .ok records) ↔ script.Completes expectedSize maxFullStreamBytes fragments) ∧
    (script.run expectedSize maxFullStreamBytes host storageReady fragments file).2.issued =
      (deliver expectedSize maxFullStreamBytes 0 script.events).1.map
        (fun p => (p.before, p.chunk.length)) ∧
    (script.run expectedSize maxFullStreamBytes host storageReady fragments file).2.world.file =
      (deliver expectedSize maxFullStreamBytes 0 script.events).1.foldl
        (fun file p => pwrite file p.before (p.chunk.take p.taken)) file := by
  rw [run_of_opens hopens]
  obtain ⟨result, st', hrun, hresult, hissued, hfile⟩ :=
    @fullLoop_run script expectedSize maxFullStreamBytes ⟨.initial file, some script.events, []⟩
      script.events 0 rfl hfits (Nat.zero_le _)
  unfold FullScript.items FullScript.Completes
  cases hend : (deliver expectedSize maxFullStreamBytes 0 script.events).2 with
  | false =>
    simp only [hend, Bool.false_eq_true, if_false] at hresult
    obtain ⟨error, rfl⟩ := hresult
    rw [runWith_bind_error hrun]
    exact ⟨by simp, hissued, hfile⟩
  | true =>
    simp only [hend, if_true, Nat.zero_add] at hresult
    subst hresult
    obtain ⟨result, hfinish, hok⟩ := @finishFullDownload_run script expectedSize fragments st'
      ((deliver expectedSize maxFullStreamBytes 0 script.events).1.map Handed.taken).sum
    rw [runWith_bind_ok hrun, hfinish]
    exact ⟨by simpa using hok, hissued, hfile⟩

/-- Full-stream integrity of a script, whatever file was there before: after Ok the stored
bytes are the delivered ones, and no `write_at` reaches beyond a known size. -/
def FullScript.Integrity (script : FullScript) (expectedSize : Option UInt64)
    (maxFullStreamBytes : UInt64) (host : DownloadResult String) (storageReady : Bool)
    (fragments : List FragmentRecord) : Prop :=
  ∀ file,
    ((∃ records, (script.run expectedSize maxFullStreamBytes host storageReady fragments file).1 =
      .ok records) →
      StoredAt
        (script.run expectedSize maxFullStreamBytes host storageReady fragments file).2.world.file 0
        (deliveredBytes script.items)) ∧
    ∀ size, expectedSize = some size →
      ∀ p ∈ (script.run expectedSize maxFullStreamBytes host storageReady fragments file).2.issued,
        p.2 ≠ 0 → p.1 + p.2 ≤ size.toNat

/-- A full download keeps its integrity on a script exactly when, once the stream is open,
every chunk handed to the storage lies within a known size, and a script that lets the
download complete has the storage take every chunk whole. -/
theorem full_download_integrity_iff :
    script.Integrity expectedSize maxFullStreamBytes host storageReady fragments ↔
      (script.Opens host storageReady →
        FitsSize expectedSize (deliver expectedSize maxFullStreamBytes 0 script.events).1 ∧
        (script.Completes expectedSize maxFullStreamBytes fragments →
          TakenWhole (deliver expectedSize maxFullStreamBytes 0 script.events).1)) := by
  constructor
  · intro h hopens
    have hfits : FitsSize expectedSize
        (deliver expectedSize maxFullStreamBytes 0 script.events).1 := by
      rintro size rfl p hp hne
      by_contra hover
      have hissues := @fullLoop_issues_beyond script maxFullStreamBytes
        ⟨.initial [], some script.events, []⟩ script.events 0 size p rfl (Nat.zero_le _) hp hne
        (Nat.not_le.mp hover)
      obtain ⟨q, hq, hq0, hbeyond⟩ := hissues
      have hrun : q ∈ (script.run (some size) maxFullStreamBytes host storageReady fragments
          []).2.issued := by
        rw [run_of_opens hopens]
        exact issued_bind _ _ _ hq
      exact absurd ((h []).2 size rfl q hrun hq0) (Nat.not_le.mpr hbeyond)
    refine ⟨hfits, fun hcompletes => ?_⟩
    obtain ⟨hok, -, hfile⟩ := run_of_fits hopens [] hfits
    have hstored := (h []).1 (hok.mpr hcompletes)
    have hfinal := @foldl_deliver_length expectedSize maxFullStreamBytes script.events 0 [] rfl
    rw [hfile, hfinal, List.nil_append, FullScript.items,
      deliveredBytes_of_deliver hcompletes.1] at hstored
    refine takenWhole_of_length (fun p hp => taken_le_of_mem_deliver hp) ?_
    by_cases hnil : (deliver expectedSize maxFullStreamBytes 0 script.events).1.flatMap
        Handed.chunk = []
    · rw [hnil]
      exact Nat.zero_le _
    · have hlength := hstored.length_le hnil
      rwa [Nat.zero_add] at hlength
  · intro h file
    by_cases hopens : script.Opens host storageReady
    · obtain ⟨hfits, hwhole⟩ := h hopens
      obtain ⟨hok, hissued, hfile⟩ := run_of_fits hopens file hfits
      constructor
      · intro hrecords
        have hcompletes := hok.mp hrecords
        have hstored := @storedAt_foldl_deliver expectedSize maxFullStreamBytes script.events 0
          file [] (storedAt_nil file 0) rfl
        rw [List.nil_append, takenBytes_of_takenWhole (hwhole hcompletes)] at hstored
        rw [hfile, FullScript.items, deliveredBytes_of_deliver hcompletes.1]
        exact hstored
      · intro size hsize p hp hne
        rw [hissued] at hp
        obtain ⟨q, hq, rfl⟩ := List.mem_map.mp hp
        exact hfits size hsize q hq fun hnil => hne (by rw [hnil]; rfl)
    · obtain ⟨e, herror, hnone⟩ := @run_of_not_opens script expectedSize maxFullStreamBytes host
        storageReady fragments hopens file
      constructor
      · rintro ⟨records, hrecords⟩
        rw [herror] at hrecords
        cases hrecords
      · intro size _ p hp
        rw [hnone] at hp
        cases hp

end Whole

/-- Two chunks of a stream of known size three, the first taken one byte short. -/
def shortWriteScript : FullScript where
  control := .ok ()
  permit := .ok ()
  opened := .finished (.ok ())
  events := [⟨.ok (), .ok [1, 2], 1, none⟩, ⟨.ok (), .ok [3, 4], 2, none⟩]
  elapsed := 0

/-- The download reports success, the second byte is lost and the third and fourth stand
one place too early. -/
theorem full_download_loses_byte :
    (∃ records, (shortWriteScript.run (some 3) defaultMaxFullStreamBytes (.ok "host") true
      [.new ⟨0, 0, 2, 3, 0, none⟩ 3] [0, 0, 0]).1 = .ok records) ∧
    (shortWriteScript.run (some 3) defaultMaxFullStreamBytes (.ok "host") true
      [.new ⟨0, 0, 2, 3, 0, none⟩ 3] [0, 0, 0]).2.world.file = [1, 3, 4] ∧
    ¬shortWriteScript.Integrity (some 3) defaultMaxFullStreamBytes (.ok "host") true
      [.new ⟨0, 0, 2, 3, 0, none⟩ 3] := by
  have hok : ∃ records, (shortWriteScript.run (some 3) defaultMaxFullStreamBytes (.ok "host") true
      [.new ⟨0, 0, 2, 3, 0, none⟩ 3] [0, 0, 0]).1 = .ok records := ⟨_, rfl⟩
  refine ⟨hok, rfl, fun h => ?_⟩
  have hstored := (h [0, 0, 0]).1 hok
  have hbyte := hstored 1 (by decide)
  revert hbyte
  decide

end Tachyon
