import Tachyon.App.Checkpoints

/-!
# Resuming another version of the file

The snapshot keeps the size, the ETag and the Last-Modified its completed indices were
downloaded under. The indices are restored before the probe, and nothing compares the
validators with the probed ones afterwards.
-/

namespace Tachyon

open EventRuns

/-- The validators of the snapshot are the probed ones, where both sides have them. -/
def TaskSnapshot.Agrees (snapshot : TaskSnapshot) (metadata : FileMetadata) : Prop :=
  (∀ a ∈ snapshot.fileSize, ∀ b ∈ metadata.fileSize, a = b) ∧
  (∀ a ∈ snapshot.etag, ∀ b ∈ metadata.etag, a = b) ∧
  ∀ a ∈ snapshot.lastModified, ∀ b ∈ metadata.lastModified, a = b

instance decidableAllEqual {α : Type} [DecidableEq α] (o o' : Option α) :
    Decidable (∀ a ∈ o, ∀ b ∈ o', a = b) :=
  @Option.decidableForallMem α _ (fun _ => Option.decidableForallMem o') o

instance (snapshot : TaskSnapshot) (metadata : FileMetadata) :
    Decidable (snapshot.Agrees metadata) := by
  unfold TaskSnapshot.Agrees
  infer_instance

/-- A run that skips a fragment of its plan restored it from a snapshot whose validators
agree with its own probe. -/
def System.SameVersion (s : System) : Prop :=
  ∀ r, s.runner = some r → r.phase = .planned →
    (∃ record ∈ r.download.fragments, record.state = .done) →
    ∃ snapshot metadata, r.restored = some snapshot ∧ r.download.metadata = some metadata ∧
      snapshot.Agrees metadata

/-- The run plans with a restored snapshot whose indices all lie beyond the plan, or whose
validators agree with the probe. -/
def System.RestoresSafely (s : System) : Event → Prop
  | .plan => ∀ r ∈ s.runner, ∀ metadata ∈ r.download.metadata, ∀ snapshot ∈ r.restored,
    (∀ plan ∈ r.download.plannedFragments metadata, ∀ i ∈ snapshot.completedFragments,
      plan.length ≤ i) ∨ snapshot.Agrees metadata
  | _ => True

/-- The indices the download was given are those of the restored snapshot. -/
def RestoredIndices (s : System) : Prop :=
  ∀ r, s.runner = some r → r.download.completedFragments =
    (r.restored.map TaskSnapshot.completedFragments).getD []

section Step

variable {s s' : System} {e : Event}

/-- A plan skips a fragment exactly when an index below its length was restored. -/
theorem exists_done_iff {done : List ℕ} {maxRetries : ℕ} {plan : List FragmentInfo} :
    (∃ record ∈ resumedRecords done (freshRecords maxRetries plan), record.state = .done) ↔
      ∃ i ∈ done, i < plan.length := by
  constructor
  · rintro ⟨record, hrecord, hdone⟩
    obtain ⟨i, hi, info, hinfo, -⟩ := mem_resumedRecords.mp ⟨hrecord, hdone⟩
    exact ⟨i, hi, (List.getElem?_eq_some_iff.mp hinfo).1⟩
  · rintro ⟨i, hi, hlt⟩
    have hinfo := List.getElem?_eq_getElem hlt
    exact ⟨_, mem_resumedRecords.mpr ⟨i, hi, plan[i], hinfo, rfl⟩⟩

theorem RestoredIndices.step (h : RestoredIndices s) (hstep : s.step e = some s') :
    RestoredIndices s' := by
  intro r' hr'
  obtain hr | ⟨-, hrestored, hnone, -⟩ | ⟨r, hr, hadvances⟩ := System.step_runner hstep hr'
  · exact h r' hr
  · rw [hrestored, hnone]
    rfl
  · have hindices := h r hr
    cases hadvances with
    | inject => rfl
    | plan hphase hplan =>
      obtain ⟨metadata, plan, -, -, rfl⟩ := DownloadTask.plan_ok hplan
      exact hindices
    | probe | saveMetadata | spawn | finish => exact hindices

/-- A step other than a plan leaves a run that skips fragments as it is. -/
theorem System.SameVersion.step (h : s.SameVersion) (hstep : s.step e = some s')
    (hplan : e ≠ .plan) : s'.SameVersion := by
  intro r' hr' hphase hskips
  obtain hr | ⟨hstarted, -⟩ | ⟨r, hr, hadvances⟩ := System.step_runner hstep hr'
  · exact h r' hr hphase hskips
  · rw [hstarted] at hphase
    cases hphase
  · cases hadvances with
    | plan => exact absurd rfl hplan
    | inject | probe | saveMetadata | spawn | finish => cases hphase

/-- A plan keeps to one version exactly when it restores safely. -/
theorem System.sameVersion_plan_iff (h : RestoredIndices s) (hstep : s.step .plan = some s') :
    s'.SameVersion ↔ s.RestoresSafely .plan := by
  obtain ⟨r, download, hr, hphase, hok, rfl⟩ := System.step_plan hstep
  obtain ⟨metadata, plan, hprobed, hplan, rfl⟩ := DownloadTask.plan_ok hok
  have hindices := h r hr
  constructor
  · intro hsame r₁ hr₁ metadata₁ hmetadata₁ snapshot hsnapshot
    obtain rfl := Option.some.inj (hr.symm.trans hr₁)
    obtain rfl := Option.some.inj (hprobed.symm.trans hmetadata₁)
    rw [hsnapshot, Option.map_some, Option.getD_some] at hindices
    by_cases hbelow : ∃ i ∈ snapshot.completedFragments, i < plan.length
    · have hdone := (@exists_done_iff _ r.download.config.maxRetries plan).mpr hbelow
      rw [← hindices] at hdone
      obtain ⟨snapshot', metadata', hrestored, hmetadata', hagrees⟩ := hsame _ rfl rfl hdone
      obtain rfl := Option.some.inj (hsnapshot.symm.trans hrestored)
      obtain rfl := Option.some.inj (hprobed.symm.trans hmetadata')
      exact Or.inr hagrees
    · refine Or.inl fun plan₁ hplan₁ i hi => ?_
      obtain rfl := Option.some.inj (hplan.symm.trans hplan₁)
      exact Nat.le_of_not_lt fun hlt => hbelow ⟨i, hi, hlt⟩
  · rintro hsafe r' ⟨⟩ - hskips
    obtain ⟨i, hi, hlt⟩ := exists_done_iff.mp hskips
    rw [hindices] at hi
    cases hrestored : r.restored with
    | none =>
      rw [hrestored] at hi
      cases hi
    | some snapshot =>
      rw [hrestored] at hi
      rcases hsafe r hr metadata hprobed snapshot hrestored with hbeyond | hagrees
      · have hle := hbeyond plan hplan i hi
        omega
      · exact ⟨snapshot, metadata, rfl, hprobed, hagrees⟩

end Step

/-- What the server says about the file of four MiB under an ETag. -/
def fourMiBTagged (etag : String) : FileMetadata := { fourMiB with etag := some etag }

end Tachyon
