import Tachyon.Engine.Completion

/-!
# Resumed runs that complete

A planned task whose listed fragments are restored completes without asking for any of
their bytes, but for a plan of one restored fragment: `execute` chooses the full download
by the number of fragments alone, and the full download opens the stream and completes
the first record whatever its state.
-/

namespace Tachyon

open Resumption

/-- A full download may ask for the whole file. -/
theorem executeFullDownload_asks_full {expectedSize : Option UInt64} {maxFullStreamBytes : UInt64}
    {host : DownloadResult String} {storageReady : Bool} {fragments : List FragmentRecord}
    {name : String} {allowed : Request → Prop} (hhost : host = .ok name)
    (h : (executeFullDownload expectedSize maxFullStreamBytes host storageReady
      fragments).run.AsksOnly allowed) : allowed .openFull := by
  obtain rfl := hhost
  exact ((h.2 (.ok ())).2 (.ok ())).1

section Resume

variable {platform : Platform} {env : Environment} {metadata : FileMetadata} {slots : ℕ}
  {entity : Bytes} {t : DownloadTask} {plan : List FragmentInfo} {done : List ℕ} {content : Bytes}
  {name : String}

/-- The one fragment of a restored plan. -/
theorem restoredFragments_single (hplan : t.plannedFragments metadata = some plan)
    (hsingle : plan.length = 1) (hrestored : 0 ∈ done) :
    ∃ f, f ∈ restoredFragments done plan := by
  obtain ⟨f, rfl⟩ := List.length_eq_one_iff.mp hsingle
  have hindex : f.index = 0 := DownloadTask.plannedFragments_index hplan rfl
  refine ⟨f, List.mem_filter.mpr ⟨List.mem_singleton_self f, ?_⟩⟩
  rw [hindex]
  exact decide_eq_true hrestored

/-- A plan of one restored fragment is downloaded again. -/
theorem execute_restored_single {post : DownloadTask → Option Bytes → Prop}
    (hprobed : t.metadata = some metadata) (hplan : t.plannedFragments metadata = some plan)
    (hcount : t.fragments.length = plan.length) (hhost : t.host = .ok name)
    (hsingle : plan.length = 1) (hrestored : 0 ∈ done) :
    ¬Completes platform env metadata slots (restoredFragments done plan) t.execute (some content)
      post := by
  intro h
  obtain ⟨f, hf⟩ := restoredFragments_single hplan hsingle hrestored
  have hsize : metadata.fileSize ≠ some 0 := by
    intro hzero
    rw [DownloadTask.plannedFragments_empty (by rw [hzero]; rfl)] at hplan
    obtain rfl := Option.some.inj hplan
    cases hsingle
  have hfull : (!metadata.supportsRange || decide (t.fragments.length ≤ 1)) = true := by
    rw [hcount, hsingle]
    exact Bool.or_true _
  unfold DownloadTask.execute at h
  simp only [hprobed, orThrow_some, ok_bind] at h
  rw [if_neg hsize, if_pos hfull] at h
  have hspares : (executeFullDownload metadata.fileSize t.config.maxFullStreamBytes t.host
      t.storage.isSome t.fragments).run.AsksOnly
        fun op => ∀ f ∈ restoredFragments done plan, ¬Touches f op :=
    (Prog.Safe.issue_of_call h).2
  exact executeFullDownload_asks_full hhost hspares f hf trivial

/-- A planned task completes, its records all Done and no restored byte asked for, if and
only if its plan is not one restored fragment. -/
theorem resume_completes_iff {recommended : ℕ} {t' : DownloadTask}
    (hserved : WellServed entity metadata env) (hprobed : t.metadata = some metadata)
    (hplan : t.plannedFragments metadata = some plan) (hplanned : t.plan = some (.ok t'))
    (hopened : t.storage.isSome = true) (hhost : t.host = .ok name)
    (hconcurrent : t.config.maxConcurrentFragments ≠ 0)
    (hlimit : metadata.fileSize = none → entity.length ≤ t.config.maxFullStreamBytes.toNat) :
    Completes platform env metadata
        (effectiveConcurrency recommended t.config.maxConcurrentFragments)
        (restoredFragments t.completedFragments plan) t'.execute (some content)
        (fun t'' _ => t''.state = .completed ∧ ∀ frag ∈ t''.fragments, frag.state = .done) ↔
      ¬(plan.length = 1 ∧ 0 ∈ t.completedFragments) := by
  rw [DownloadTask.plan_eq hprobed, hplan, Option.map_some] at hplanned
  obtain rfl := Except.ok.inj (Option.some.inj hplanned)
  constructor
  · rintro h ⟨hsingle, hrestored⟩
    have hcount : (resumedRecords t.completedFragments
        (freshRecords t.config.maxRetries plan)).length = plan.length := by
      rw [resumedRecords, List.length_mapIdx, freshRecords, List.length_map]
    exact @execute_restored_single _ _ _ _ { t with fragments := resumedRecords _ _ } _ _ _ name _
      hprobed hplan hcount hhost hsingle hrestored h
  · intro hnot
    have hcompletes := @execute_completes platform env metadata _ entity
      { t with fragments :=
        resumedRecords t.completedFragments (freshRecords t.config.maxRetries plan) }
      plan t.completedFragments content name hserved
      (effectiveConcurrency_pos recommended t.config.maxConcurrentFragments) hprobed hplan rfl
      hopened hhost hconcurrent hlimit fun hsingle hrestored => hnot ⟨hsingle, hrestored⟩
    exact Ensures.mono hcompletes fun t'' _ h => ⟨h.1, h.2.1⟩

end Resume

/-- The task of the one byte, probed and its file opened, with its fragment restored. -/
def restoredTask : DownloadTask :=
  { oneByteTask with
    metadata := some oneByteMetadata
    storage := some "dir/file"
    completedFragments := [0] }

/-- The same task once it is planned. -/
def restoredTaskPlanned : DownloadTask :=
  { restoredTask with fragments := [oneByteRecord] }

/-- The restored byte is downloaded again, and completing its record a second time fails. -/
theorem restored_byte_fails :
    restoredTask.plan = some (.ok restoredTaskPlanned) ∧
      (∃ e, Yields (CalmTask .linux (.reliable [7]) oneByteMetadata 1) restoredTaskPlanned.execute
        (some [7]) (.error e) (some [7])) ∧
      ¬Completes .linux (.reliable [7]) oneByteMetadata 1
        (restoredFragments [0] [⟨0, 0, 0, 1, 0, none⟩]) restoredTaskPlanned.execute (some [7])
        fun t'' _ => t''.state = .completed ∧ ∀ frag ∈ t''.fragments, frag.state = .done := by
  have hfull : Yields (Calm (.reliable [7])) (executeFullDownload (some 1)
      defaultMaxFullStreamBytes (.ok "host") true [oneByteRecord]) (.initial [7])
      (.error (.fragment "非法状态转换: Done -> Done(fast)")) ((World.initial [7]).write 0 [7]) :=
    Prog.exec_returns (reliable_calm [7]) _ _
  have hrun : Yields (CalmTask .linux (.reliable [7]) oneByteMetadata 1)
      restoredTaskPlanned.execute (some [7]) (.error (.fragment "非法状态转换: Done -> Done(fast)"))
      (some [7]) := by
    exact .call ⟨_, hfull, rfl⟩ (.done _ _)
  have hplan : restoredTask.plan = some (.ok restoredTaskPlanned) := rfl
  exact ⟨hplan, ⟨_, hrun⟩, fun h => (Prog.Safe.returns h hrun).2 _ rfl⟩

/-- A task for four MiB, probed and its file opened, with the first of its fragments of one
MiB restored. -/
def restoredMiB : DownloadTask :=
  { suggestedTask 1048576 with storage := some "dir/file", completedFragments := [0] }

/-- The first MiB is not asked for again, the others are downloaded. -/
theorem resume_completes_iff_four_mib :
    Completes .linux (.reliable (List.replicate 4194304 7)) fourMiB
        (effectiveConcurrency 4 restoredMiB.config.maxConcurrentFragments)
        (restoredFragments [0] (cutInto 4194304 1048576))
        { restoredMiB with
          fragments := resumedRecords [0] (freshRecords 3 (cutInto 4194304 1048576)) }.execute
        (some [])
        (fun t' _ => t'.state = .completed ∧ ∀ frag ∈ t'.fragments, frag.state = .done) ↔
      ¬((cutInto 4194304 1048576).length = 1 ∧ 0 ∈ [0]) := by
  have hserved : WellServed (List.replicate 4194304 7) fourMiB
      (.reliable (List.replicate 4194304 7)) := by
    refine reliable_wellServed fun size hsize => ?_
    rw [List.length_replicate]
    cases hsize
    rfl
  have hplan : restoredMiB.plannedFragments fourMiB = some (cutInto 4194304 1048576) :=
    suggestedTask_planned (by decide) (by decide)
  have hplanned := @DownloadTask.plan_eq restoredMiB fourMiB rfl
  rw [hplan] at hplanned
  exact resume_completes_iff hserved rfl hplan hplanned rfl rfl (by decide) (by rintro ⟨⟩)

end Tachyon
