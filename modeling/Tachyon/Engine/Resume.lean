import Tachyon.Engine.DownloadTask

/-!
# Resuming a download

A later run restores the indices of the fragments an earlier run completed, and
its `plan` marks them Done. An index means a range of bytes only together with the
size the plan cuts at, and each run computes that size anew.
-/

namespace Tachyon

/-- A Pending record as the resume loop of `plan` leaves it. -/
def FragmentRecord.restore (r : FragmentRecord) : FragmentRecord :=
  { r with
    info := { r.info with downloaded := r.info.size }
    lastDuration := some 0
    state := .done }

/-- The records of a resumed plan: the Pending ones listed are Done. -/
def resumedRecords (done : List ℕ) (fragments : List FragmentRecord) : List FragmentRecord :=
  fragments.mapIdx fun i r => if i ∈ done ∧ r.state = .pending then r.restore else r

theorem resumedRecords_getElem? (done : List ℕ) (fragments : List FragmentRecord) (i : ℕ) :
    (resumedRecords done fragments)[i]? =
      fragments[i]?.map fun r => if i ∈ done ∧ r.state = .pending then r.restore else r :=
  List.getElem?_mapIdx

/-- The first index of the list is restored before the others. -/
theorem resumedRecords_cons {doneIndex : ℕ} {rest : List ℕ} {fragments : List FragmentRecord}
    {frag : FragmentRecord} (hfrag : fragments[doneIndex]? = some frag)
    (hpending : frag.state = .pending) :
    resumedRecords (doneIndex :: rest) fragments =
      resumedRecords rest (fragments.set doneIndex frag.restore) := by
  obtain ⟨hlt, -⟩ := List.getElem?_eq_some_iff.mp hfrag
  apply List.ext_getElem?
  intro i
  rw [resumedRecords_getElem?, resumedRecords_getElem?]
  by_cases hi : i = doneIndex
  · subst i
    rw [hfrag, List.getElem?_set_self hlt]
    simp [FragmentRecord.restore, hpending]
  · rw [List.getElem?_set_ne (fun h => hi h.symm)]
    simp [hi]

/-- The resume loop never fails. -/
theorem markCompleted_eq (done : List ℕ) (fragments : List FragmentRecord) :
    markCompleted done fragments = .ok (resumedRecords done fragments) := by
  induction done generalizing fragments with
  | nil =>
    have hsame : resumedRecords [] fragments = fragments := by
      apply List.ext_getElem?
      intro i
      simp [resumedRecords_getElem?]
    rw [markCompleted, hsame]
  | cons doneIndex rest ih =>
    have hskip (hnot : ∀ frag, fragments[doneIndex]? = some frag → frag.state ≠ .pending) :
        resumedRecords (doneIndex :: rest) fragments = resumedRecords rest fragments := by
      apply List.ext_getElem?
      intro i
      rw [resumedRecords_getElem?, resumedRecords_getElem?]
      cases hi : fragments[i]? with
      | none => rfl
      | some frag =>
        by_cases hpending : frag.state = .pending
        · have hne : i ≠ doneIndex := by
            rintro rfl
            exact hnot frag hi hpending
          simp [hne]
        · simp [hpending]
    rw [markCompleted]
    cases hfrag : fragments[doneIndex]? with
    | none =>
      rw [hskip (by simp [hfrag])]
      exact ih fragments
    | some frag =>
      by_cases hpending : frag.state = .pending
      · let started : FragmentRecord :=
          { frag with
            info := { frag.info with downloaded := frag.info.size }
            state := .downloading }
        have hstart : { frag with info := { frag.info with
            downloaded := frag.info.size } }.startDownload = .ok started :=
          FragmentRecord.startDownload_ok.mpr ⟨hpending, rfl⟩
        have hcomplete : started.completeDownloadFast frag.info.size 0 = .ok frag.restore :=
          FragmentRecord.completeDownloadFast_ok.mpr ⟨rfl, rfl⟩
        simp only [if_pos hpending, hstart]
        change (do
          let frag ← started.completeDownloadFast frag.info.size 0
          markCompleted rest (fragments.set doneIndex frag)) = _
        rw [hcomplete, resumedRecords_cons hfrag hpending]
        exact ih (fragments.set doneIndex frag.restore)
      · rw [hskip (by simp [hfrag, hpending])]
        simp only [if_neg hpending]
        exact ih fragments

section Plan

variable {t t' : DownloadTask} {metadata : FileMetadata} {plan : List FragmentInfo}

/-- A planned task holds the plan's records, with the restored indices Done. -/
theorem DownloadTask.plan_eq (hprobed : t.metadata = some metadata) :
    t.plan = (t.plannedFragments metadata).map fun plan => .ok { t with
      fragments :=
        resumedRecords t.completedFragments (freshRecords t.config.maxRetries plan) } := by
  unfold DownloadTask.plan
  simp only [hprobed, markCompleted_eq]
  cases t.plannedFragments metadata with
  | none => rfl
  | some plan => rfl

/-- A planned task differs from the unplanned one in its records alone. -/
theorem DownloadTask.plan_ok (h : t.plan = some (.ok t')) :
    ∃ metadata plan, t.metadata = some metadata ∧ t.plannedFragments metadata = some plan ∧
      t' = { t with fragments :=
        resumedRecords t.completedFragments (freshRecords t.config.maxRetries plan) } := by
  cases hprobed : t.metadata with
  | none =>
    rw [DownloadTask.plan, hprobed] at h
    cases h
  | some metadata =>
    rw [DownloadTask.plan_eq hprobed] at h
    obtain ⟨plan, hplan, hok⟩ := Option.map_eq_some_iff.mp h
    refine ⟨metadata, plan, rfl, hplan, ?_⟩
    rw [← hprobed]
    exact (Except.ok.inj hok).symm

/-- Exactly the restored indices of a plan are Done, over the ranges of the plan. -/
theorem mem_resumedRecords {done : List ℕ} {maxRetries : ℕ} {record : FragmentRecord} :
    record ∈ resumedRecords done (freshRecords maxRetries plan) ∧ record.state = .done ↔
      ∃ i ∈ done, ∃ info, plan[i]? = some info ∧
        record = (FragmentRecord.new info maxRetries).restore := by
  rw [List.mem_iff_getElem?]
  simp only [resumedRecords_getElem?, freshRecords, List.getElem?_map, Option.map_map]
  constructor
  · rintro ⟨⟨i, hi⟩, hdone⟩
    obtain ⟨info, hinfo, hrecord⟩ := Option.map_eq_some_iff.mp hi
    by_cases hmem : i ∈ done
    · refine ⟨i, hmem, info, hinfo, ?_⟩
      simpa [hmem, FragmentRecord.new, eq_comm] using hrecord
    · simp only [Function.comp_apply, hmem, false_and, if_false] at hrecord
      rw [← hrecord] at hdone
      cases hdone
  · rintro ⟨i, hmem, info, hinfo, rfl⟩
    refine ⟨⟨i, ?_⟩, rfl⟩
    simp [hinfo, hmem, FragmentRecord.new]

/-- The fragments a resumed plan downloads are fragments of the plan, in its order. -/
theorem fragmentSpecs_resumedRecords (done : List ℕ) (maxRetries : ℕ) (plan : List FragmentInfo) :
    (fragmentSpecs (resumedRecords done (freshRecords maxRetries plan))).Sublist
      (plan.map FragmentInfo.spec) := by
  have hspecs : (resumedRecords done (freshRecords maxRetries plan)).map
      (fun frag => frag.info.spec) = plan.map FragmentInfo.spec := by
    apply List.ext_getElem?
    intro i
    rw [List.getElem?_map, resumedRecords_getElem?, freshRecords, List.getElem?_map,
      List.getElem?_map, Option.map_map, Option.map_map]
    congr 1
    funext info
    simp only [Function.comp_apply]
    split <;> rfl
  rw [← hspecs]
  exact List.filter_sublist.map _

/-- What a planned task has left to download is separated and lies within the file. -/
theorem DownloadTask.plan_separated (h : t.plan = some (.ok t')) :
    Separated (fragmentSpecs t'.fragments) ∧
      ∃ fileSize, ∀ spec ∈ fragmentSpecs t'.fragments, spec.end_ < fileSize := by
  obtain ⟨metadata, plan, -, hplan, rfl⟩ := DownloadTask.plan_ok h
  obtain ⟨hsep, hend, -⟩ := planFragments_separated hplan
  have hsub := fragmentSpecs_resumedRecords t.completedFragments t.config.maxRetries plan
  exact ⟨hsep.sublist hsub, _, fun spec hspec => hend spec (hsub.subset hspec)⟩

end Plan

/-- The size at which a task's plan cuts the file. -/
def DownloadTask.cutSize (t : DownloadTask) (metadata : FileMetadata) : Option ℕ :=
  let fileSize := (metadata.fileSize.getD 0).toNat
  let recommendation := t.recommend fileSize t.config.maxConcurrentFragments
  let suggestedFragSize :=
    if recommendation.confidence > 0 then some recommendation.fragmentSize else none
  Tachyon.cutSize t.bandwidthBps t.schedulerConfig fileSize metadata.supportsRange
    suggestedFragSize

/-- Whatever indices of the earlier plan were reported complete, and whichever of them are
restored: a fragment that the later plan marks Done has each of its bytes in a range that
was reported. -/
def ResumeSound (earlierPlan : List FragmentInfo) (later : DownloadTask) : Prop :=
  ∀ reported : List ℕ, (∀ i ∈ reported, i < earlierPlan.length) →
    ∀ restored : List ℕ, restored ⊆ reported → ∀ t',
      { later with completedFragments := restored }.plan = some (.ok t') →
      ∀ record ∈ t'.fragments, record.state = .done →
        ∀ x, record.info.start ≤ x → x ≤ record.info.end_ →
          ∃ f ∈ earlierPlan, f.index ∈ reported ∧ f.start ≤ x ∧ x ≤ f.end_

section Sound

variable {earlier later : DownloadTask} {metadata metadata' : FileMetadata}
  {plan plan' : List FragmentInfo} {fileSize size size' : ℕ}

theorem DownloadTask.plannedFragments_eq (hfile : 0 < (metadata.fileSize.getD 0).toNat) :
    earlier.plannedFragments metadata =
      (earlier.cutSize metadata).map (cutInto (metadata.fileSize.getD 0).toNat) :=
  planFragments_eq_cutInto hfile (metadata.fileSize.getD 0).toNat_lt

theorem DownloadTask.plannedFragments_empty (hfile : (metadata.fileSize.getD 0).toNat = 0) :
    earlier.plannedFragments metadata = some [] := by
  unfold DownloadTask.plannedFragments planFragments
  rw [hfile, if_pos rfl]

/-- What the later plan marks Done are the restored fragments of its own list. -/
theorem resumeSound_iff_of_plan (hprobed : later.metadata = some metadata')
    (hplan' : later.plannedFragments metadata' = some plan') :
    ResumeSound plan later ↔ ∀ reported : List ℕ, (∀ i ∈ reported, i < plan.length) →
      ∀ i ∈ reported, ∀ info, plan'[i]? = some info → ∀ x, info.start ≤ x → x ≤ info.end_ →
        ∃ f ∈ plan, f.index ∈ reported ∧ f.start ≤ x ∧ x ≤ f.end_ := by
  have hplanned (restored : List ℕ) :
      { later with completedFragments := restored }.plan = some (.ok { later with
        completedFragments := restored
        fragments := resumedRecords restored (freshRecords later.config.maxRetries plan') }) := by
    rw [DownloadTask.plan_eq (t := { later with completedFragments := restored }) hprobed]
    change Option.map _ (later.plannedFragments metadata') = _
    rw [hplan', Option.map_some]
  constructor
  · intro h reported hreported i hi info hinfo x hlo hhi
    have hrecord := (@mem_resumedRecords plan' reported later.config.maxRetries
      (FragmentRecord.new info later.config.maxRetries).restore).mpr ⟨i, hi, info, hinfo, rfl⟩
    exact h reported hreported reported (List.Subset.refl _) _ (hplanned reported) _ hrecord.1 rfl
      x hlo hhi
  · intro h reported hreported restored hrestored t' ht' record hrecord hdone x hlo hhi
    rw [hplanned restored] at ht'
    obtain rfl := Except.ok.inj (Option.some.inj ht')
    obtain ⟨i, hi, info, hinfo, rfl⟩ := mem_resumedRecords.mp ⟨hrecord, hdone⟩
    exact h reported hreported i (hrestored hi) info hinfo x hlo hhi

/-- One index names the same bytes, or fewer in the later cut, only where the cuts agree. -/
theorem cuts_agree_iff (hsize : 0 < size) (hsize' : 0 < size') :
    (∀ i, i * size < fileSize → i * size' < fileSize →
      ∀ x, i * size' ≤ x → x < min (i * size' + size') fileSize →
        i * size ≤ x ∧ x < min (i * size + size) fileSize) ↔
      size = size' ∨ fileSize ≤ size := by
  constructor
  · intro h
    by_cases hsingle : fileSize ≤ size
    · exact Or.inr hsingle
    have hlast := h 0 (by omega) (by omega) (min size' fileSize - 1) (by omega) (by omega)
    have hfirst := h 1 (by omega) (by omega) size' (by omega) (by omega)
    exact Or.inl (by omega)
  · rintro (rfl | hsingle) i hi hi' x hlo hhi
    · exact ⟨hlo, hhi⟩
    · have hzero : i = 0 := by
        by_contra hne
        have hmul := Nat.le_mul_of_pos_left size (show 0 < i by omega)
        omega
      subst i
      omega

/-- The bytes of the later plan's restored fragments are covered where the cuts agree. -/
theorem resumeSound_cutInto_iff (hsize : 0 < size) (hsize' : 0 < size')
    (hprobed : later.metadata = some metadata')
    (hplan' : later.plannedFragments metadata' = some (cutInto fileSize size')) :
    ResumeSound (cutInto fileSize size) later ↔ size = size' ∨ fileSize ≤ size := by
  rw [resumeSound_iff_of_plan hprobed hplan', ← cuts_agree_iff hsize hsize']
  constructor
  · intro h i hi hi' x hlo hhi
    have hlt := (lt_divCeil_iff hsize).mpr hi
    have hlt' := (lt_divCeil_iff hsize').mpr hi'
    obtain ⟨hstart', hend', -⟩ := fragmentAt_bounds hi' hsize'
    obtain ⟨f, hf, hindex, hflo, hfhi⟩ := h [i] (by simpa using hlt) i (List.mem_singleton_self i)
      (fragmentAt fileSize size' i) (cutInto_getElem? hlt') x (by omega) (by omega)
    obtain ⟨j, -, rfl⟩ := mem_cutInto.mp hf
    obtain rfl : j = i := List.mem_singleton.mp hindex
    obtain ⟨hstart, hend, -⟩ := fragmentAt_bounds hi hsize
    omega
  · intro h reported hreported i hi info hinfo x hlo hhi
    have hlt := hreported i hi
    rw [cutInto_length] at hlt
    obtain ⟨hlt', hget⟩ := List.getElem?_eq_some_iff.mp hinfo
    rw [cutInto_length] at hlt'
    rw [cutInto_getElem? hlt'] at hinfo
    obtain rfl := Option.some.inj hinfo
    have hi₁ := (lt_divCeil_iff hsize).mp hlt
    have hi₂ := (lt_divCeil_iff hsize').mp hlt'
    obtain ⟨hstart, hend, -⟩ := fragmentAt_bounds hi₁ hsize
    obtain ⟨hstart', hend', -⟩ := fragmentAt_bounds hi₂ hsize'
    have hx := h i hi₁ hi₂ x (by omega) (by omega)
    refine ⟨fragmentAt fileSize size i, mem_cutInto.mpr ⟨i, hlt, rfl⟩, hi, by omega, by omega⟩

/-- Restoring indices is sound, whatever was reported, exactly where the two runs cut the
file at the same size or the earlier plan is a single fragment. -/
theorem resume_sound_iff (hplan : earlier.plannedFragments metadata = some plan)
    (hprobed : later.metadata = some metadata')
    (hplan' : later.plannedFragments metadata' = some plan')
    (hsame : metadata'.fileSize = metadata.fileSize) :
    ResumeSound plan later ↔ earlier.cutSize metadata = later.cutSize metadata' ∨
      ∀ size ∈ earlier.cutSize metadata, (metadata.fileSize.getD 0).toNat ≤ size := by
  rcases Nat.eq_zero_or_pos (metadata.fileSize.getD 0).toNat with hzero | hfile
  · have hempty : plan = [] := by
      rw [DownloadTask.plannedFragments_empty hzero] at hplan
      exact (Option.some.inj hplan).symm
    subst hempty
    constructor
    · intro _
      exact Or.inr fun size _ => by omega
    · intro _ reported hreported restored hrestored t' ht' record hrecord hdone
      have hnone : restored = [] := by
        refine List.eq_nil_iff_forall_not_mem.mpr fun i hi => ?_
        exact absurd (hreported i (hrestored hi)) (Nat.not_lt_zero i)
      rw [DownloadTask.plan_eq (t := { later with completedFragments := restored }) hprobed] at ht'
      obtain ⟨_, -, ht'⟩ := Option.map_eq_some_iff.mp ht'
      obtain rfl := Except.ok.inj ht'
      obtain ⟨i, hi, -⟩ := mem_resumedRecords.mp ⟨hrecord, hdone⟩
      rw [hnone] at hi
      cases hi
  · have hfile' : 0 < (metadata'.fileSize.getD 0).toNat := by rwa [hsame]
    rw [DownloadTask.plannedFragments_eq hfile] at hplan
    obtain ⟨size, hsize, rfl⟩ := Option.map_eq_some_iff.mp hplan
    have hcut' := hplan'
    rw [DownloadTask.plannedFragments_eq hfile'] at hcut'
    obtain ⟨size', hsize', rfl⟩ := Option.map_eq_some_iff.mp hcut'
    rw [hsame] at hplan'
    rw [resumeSound_cutInto_iff (cutSize_pos hfile hsize) (cutSize_pos hfile' hsize') hprobed
      hplan', hsize, hsize']
    simp

end Sound

/-- What the server says about a file of four MiB. -/
def fourMiB : FileMetadata := ⟨"file", some 4194304, none, true, none, none⟩

/-- A probed task whose scheduler suggests a fragment size. -/
def suggestedTask (fragmentSize : ℕ) : DownloadTask where
  url := "url"
  host := .ok "host"
  config := .default "dir"
  storage := none
  bandwidthBps := 0
  schedulerConfig := .default
  recommend := fun _ _ => ⟨1, fragmentSize, 1⟩
  state := .pending
  metadata := some fourMiB
  fragments := []
  completedFragments := []

theorem suggestedTask_planned {fragmentSize : ℕ} (hpos : 0 < fragmentSize)
    (hfew : 4194304 / fragmentSize ≤ maxFragmentCount) :
    (suggestedTask fragmentSize).plannedFragments fourMiB =
      some (cutInto 4194304 fragmentSize) := by
  have hfile : 0 < (fourMiB.fileSize.getD 0).toNat := by decide
  have hcut : (suggestedTask fragmentSize).cutSize fourMiB = some fragmentSize := by
    simp [DownloadTask.cutSize, suggestedTask, fourMiB, cutSize, fragSize, effectiveFragSize, hpos,
      Nat.not_lt.mpr hfew, Nat.pos_iff_ne_zero.mp hpos]
  rw [DownloadTask.plannedFragments_eq hfile, hcut]
  rfl

/-- One MiB suggested first and two MiB later: the second MiB of the file would be skipped
though only the first was reported. -/
theorem resume_skips_second_mib :
    (suggestedTask 1048576).plannedFragments fourMiB = some (cutInto 4194304 1048576) ∧
      ¬ResumeSound (cutInto 4194304 1048576) (suggestedTask 2097152) := by
  refine ⟨suggestedTask_planned (by decide) (by decide), fun h => ?_⟩
  have hplan := suggestedTask_planned (show 0 < 2097152 by decide) (by decide)
  have hcut := (resumeSound_cutInto_iff (by decide) (by decide) rfl hplan).mp h
  revert hcut
  decide

/-- With one MiB suggested to both runs the restored indices are sound. -/
theorem resume_sound_iff_one_mib :
    ResumeSound (cutInto 4194304 1048576) (suggestedTask 1048576) := by
  have hplan := suggestedTask_planned (show 0 < 1048576 by decide) (by decide)
  exact (resume_sound_iff hplan rfl hplan rfl).mpr (Or.inl rfl)

end Tachyon
