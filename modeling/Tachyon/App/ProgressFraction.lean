import Mathlib.Algebra.Order.Field.Basic
import Mathlib.Algebra.Order.Field.Rat
import Mathlib.Data.Finset.Card
import Mathlib.Data.Finset.Range
import Tachyon.App.Checkpoints

/-!
# The fraction a task shows

`task_fn` writes the number of fragments before `plan` has cut them, counting
pieces of one MiB, and the chunk reader divides by that number what it has seen
completed. Restored fragments are never reported to it, and it goes on with the
messages left in its channel after the final status is written.
-/

namespace Tachyon

open EventRuns

/-- `plan` has marked a fragment Done. -/
def DownloadTask.Restored (t : DownloadTask) (i : ℕ) : Prop :=
  t.fragments[i]?.map FragmentRecord.state = some .done

instance (t : DownloadTask) (i : ℕ) : Decidable (t.Restored i) :=
  inferInstanceAs (Decidable (_ = _))

/-- Every planned fragment was restored or is reported complete. -/
def DownloadTask.AllDone (t : DownloadTask) (reported : ℕ → Prop) : Prop :=
  ∀ i < t.fragments.length, t.Restored i ∨ reported i

/-- What a step writes is right: the value lies in the unit interval and is 1 exactly when all
planned fragments are done, and nothing falls after the final block. A run that has returned
without an error, which is what the status Completed says, has every fragment. -/
structure FractionRight (t : DownloadTask) (reported : ℕ → Prop) (before after : TaskInfo) :
    Prop where
  nonneg : 0 ≤ after.progress
  le_one : after.progress ≤ 1
  eq_one : after.progress = 1 ↔ after.status = .completed ∨ t.AllDone reported
  kept : before.status = .completed →
    before.progress ≤ after.progress ∧ before.downloaded ≤ after.downloaded

/-- The steps that write `progress`. -/
def Event.writesProgress : Event → Bool
  | .receive _ | .finish (.ok ()) => true
  | _ => false

/-- The fragments the chunk reader has seen completed. -/
def System.Reported (s : System) (i : ℕ) : Prop := ∃ r, s.reader = some r ∧ i ∈ r.completed

/-- A step that writes `progress` writes what is right. -/
def System.WritesRight (t : DownloadTask) (s : System) (e : Event) : Prop :=
  ∀ s', s.step e = some s' → e.writesProgress = true →
    ∀ before after, s.runTasks = some before → s'.runTasks = some after →
      FractionRight t s'.Reported before after

/-- The entry shows as many fragments as `plan` has cut. -/
def System.TotalRight (t : DownloadTask) (s : System) : Prop :=
  ∀ task, s.runTasks = some task → task.fragmentsTotal = t.fragments.length

/-- Over the steps after `plan` the total is right in every state, and what is written of the
progress is. -/
def System.ProgressRight (t : DownloadTask) (s : System) (later : List Event) : Prop :=
  EachState System.step (System.TotalRight t) s later ∧
    EachStep System.step (System.WritesRight t) s later

/-- A fragment is completed when the chunk reader has received a message. -/
def ChunkReader.Sees (r : ChunkReader) (progress : FragmentProgress) (i : ℕ) : Prop :=
  i ∈ r.completed ∨ progress.completed = true ∧ i = progress.fragmentIndex

instance (r : ChunkReader) (progress : FragmentProgress) (i : ℕ) :
    Decidable (r.Sees progress i) := inferInstanceAs (Decidable (_ ∨ _))

/-- Until the final block no message completes the rest of a plan whose other fragments were
restored; after it each message completes the plan and brings the bytes up to the size. -/
def System.InTime (t : DownloadTask) (s : System) : Event → Prop
  | .receive progress => ∀ r ∈ s.reader, ∀ task ∈ s.runTasks,
    if task.status = .completed then
      (∀ i < t.fragments.length, r.Sees progress i) ∧ task.downloaded ≤
        r.totalDownloaded + (progress.fragmentDownloaded - r.fragBytes progress.fragmentIndex)
    else (∀ i < t.fragments.length, t.Restored i ∨ r.Sees progress i) →
      ∀ i < t.fragments.length, r.Sees progress i
  | _ => True

instance (t : DownloadTask) (s : System) : (e : Event) → Decidable (s.InTime t e)
  | .receive progress => by unfold System.InTime; infer_instance
  | .start _ _ _ | .inject _ | .probe _ | .saveMetadata _ _ | .spawn | .plan | .quit
  | .finish _ | .close | .checkpointLoad _ | .checkpointSave _ | .readerDone | .command _
  | .delete | .persistClone _ | .persistLoad _ _ | .persistSave _ _ _ _
  | .restart _ => instDecidableTrue

/-- The steps between the start of `task_fn` and its `plan`. The engine sends no message
before it executes the plan. -/
def Event.beforePlan : Event → Bool
  | .start _ _ _ | .receive _ => false
  | _ => true

/-- The steps after `plan`: no other run begins, and messages are about planned fragments. -/
def Event.AfterPlan (t : DownloadTask) : Event → Prop
  | .start _ _ _ => False
  | .receive progress => progress.fragmentIndex < t.fragments.length
  | _ => True

instance (t : DownloadTask) : (e : Event) → Decidable (e.AfterPlan t)
  | .start _ _ _ => instDecidableFalse
  | .receive _ => Nat.decLt _ _
  | .inject _ | .probe _ | .saveMetadata _ _ | .spawn | .plan | .quit | .finish _ | .close
  | .checkpointLoad _ | .checkpointSave _ | .readerDone | .command _ | .delete
  | .persistClone _ | .persistLoad _ _ | .persistSave _ _ _ _ | .restart _ => instDecidableTrue

/-! ### The set of completed indices -/

theorem insertIndex_sorted {i : ℕ} {l : List ℕ} (h : l.Pairwise (· < ·)) :
    (insertIndex i l).Pairwise (· < ·) := by
  induction l with
  | nil => exact List.pairwise_singleton _ i
  | cons j rest ih =>
    obtain ⟨hfirst, hrest⟩ := List.pairwise_cons.mp h
    unfold insertIndex
    split
    · rename_i hlt
      refine List.pairwise_cons.mpr ⟨fun k hk => ?_, h⟩
      rcases List.mem_cons.mp hk with rfl | hk
      · exact hlt
      · exact Nat.lt_trans hlt (hfirst k hk)
    · split
      · exact h
      · refine List.pairwise_cons.mpr ⟨fun k hk => ?_, ih hrest⟩
        rcases mem_insertIndex.mp hk with rfl | hk
        · omega
        · exact hfirst k hk

/-- Indices below a bound, in order, are all of them when they are as many. -/
theorem length_eq_iff_forall_mem {n : ℕ} {l : List ℕ} (hsorted : l.Pairwise (· < ·))
    (hbound : ∀ i ∈ l, i < n) : l.length ≤ n ∧ (l.length = n ↔ ∀ i < n, i ∈ l) := by
  have hnodup : l.Nodup := hsorted.imp fun h => Nat.ne_of_lt h
  have hsubset : l.toFinset ⊆ Finset.range n := by
    intro i hi
    exact Finset.mem_range.mpr (hbound i (List.mem_toFinset.mp hi))
  have hcard := Finset.card_le_card hsubset
  rw [List.toFinset_card_of_nodup hnodup, Finset.card_range] at hcard
  refine ⟨hcard, fun hlength i hi => ?_, fun hall => Nat.le_antisymm hcard ?_⟩
  · have heq : l.toFinset = Finset.range n := by
      refine Finset.eq_of_subset_of_card_le hsubset ?_
      rw [List.toFinset_card_of_nodup hnodup, Finset.card_range, hlength]
    rw [← List.mem_toFinset, heq]
    exact Finset.mem_range.mpr hi
  · have hle : Finset.range n ⊆ l.toFinset := by
      intro i hi
      exact List.mem_toFinset.mpr (hall i (Finset.mem_range.mp hi))
    have hcard' := Finset.card_le_card hle
    rwa [List.toFinset_card_of_nodup hnodup, Finset.card_range] at hcard'

theorem ChunkReader.mem_receive_completed (r : ChunkReader) (progress : FragmentProgress) (i : ℕ) :
    i ∈ (r.receive progress).completed ↔ r.Sees progress i := by
  unfold ChunkReader.receive ChunkReader.Sees
  dsimp only
  split
  · rename_i hcompleted
    rw [mem_insertIndex, hcompleted, or_comm]
    simp
  · rename_i hcompleted
    simp [hcompleted]

theorem ChunkReader.receive_sorted {r : ChunkReader} (progress : FragmentProgress)
    (h : r.completed.Pairwise (· < ·)) : (r.receive progress).completed.Pairwise (· < ·) := by
  unfold ChunkReader.receive
  dsimp only
  split
  · exact insertIndex_sorted h
  · exact h

/-! ### Up to the plan -/

theorem totalFrags_lt (fileSize : Option UInt64) : totalFrags fileSize < u32Bound := by
  unfold totalFrags
  split
  · exact Nat.mod_lt _ (by decide)
  · decide

section Step

variable {t : DownloadTask} {s s' : System} {e : Event}

/-- What `probe` leaves in the entry. -/
theorem System.probe_runTasks {metadata : FileMetadata}
    (h : s.step (.probe (.ok metadata)) = some s') : ∃ r, s.runner = some r ∧
      r.phase = .injected ∧ s' = { s with
        runTasks := s.runTasks.map fun task => { task with
          fileSize := metadata.fileSize
          fragmentsTotal := totalFrags metadata.fileSize }
        runner := some { r with
          phase := .probed
          download := { r.download with metadata := some metadata } } } := by
  obtain ⟨r, hr, h⟩ := Option.bind_eq_some_iff.mp h
  obtain ⟨hphase, h⟩ := guard_bind_eq_some.mp h
  exact ⟨r, hr, hphase, (Option.some.inj h).symm⟩

/-- A probe that fails ends the run. -/
theorem System.probe_error {error : DownloadError} (h : s.step (.probe (.error error)) = some s') :
    s'.runner = none ∧ s'.reader = s.reader := by
  obtain ⟨r, hr, h⟩ := Option.bind_eq_some_iff.mp h
  obtain ⟨hphase, h⟩ := guard_bind_eq_some.mp h
  cases error with
  | cancelled =>
    obtain rfl := Option.some.inj h
    exact ⟨rfl, rfl⟩
  | _ =>
    obtain rfl := Option.some.inj h
    exact ⟨rfl, rfl⟩

/-- The steps of neither `task_fn` nor a restart that send the chunk reader no message. -/
def Event.leavesEntry : Event → Bool
  | .checkpointLoad _ | .checkpointSave _ | .readerDone | .command _ | .delete | .persistClone _
  | .persistLoad _ _ | .persistSave _ _ _ _ => true
  | _ => false

/-- Another state of one task's run, where the chunk reader may have saved a checkpoint or
stopped. -/
structure System.SameRun (s s' : System) : Prop where
  runTasks : s'.runTasks = s.runTasks
  runner : s'.runner = s.runner
  reader : ∀ r', s'.reader = some r' → ∃ r, s.reader = some r ∧
    r'.completed = r.completed ∧ r'.totalFrags = r.totalFrags

theorem System.SameRun.of_reader (hreader : s'.reader = s.reader)
    (hrunTasks : s'.runTasks = s.runTasks) (hrunner : s'.runner = s.runner) : s.SameRun s' :=
  ⟨hrunTasks, hrunner, fun r' hr' => ⟨r', hreader.symm.trans hr', rfl, rfl⟩⟩

theorem System.step_leavesEntry (h : s.step e = some s') (he : e.leavesEntry = true) :
    s.SameRun s' := by
  cases e with
  | checkpointLoad readable =>
    obtain ⟨r, hr, -, ⟨loaded, -, rfl⟩ | rfl⟩ := System.step_checkpointLoad h
    · refine ⟨rfl, rfl, fun r' hr' => ⟨r, hr, ?_⟩⟩
      obtain rfl := Option.some.inj hr'
      exact ⟨rfl, rfl⟩
    · refine ⟨rfl, rfl, fun r' hr' => ⟨r, hr, ?_⟩⟩
      obtain rfl := Option.some.inj hr'
      exact ⟨rfl, rfl⟩
  | checkpointSave saved =>
    obtain ⟨r, loaded, hr, -, rfl⟩ := System.step_checkpointSave h
    refine ⟨System.save_runTasks _ _ _, System.save_runner _ _ _, fun r' hr' => ⟨r, hr, ?_⟩⟩
    rw [System.save_reader] at hr'
    obtain rfl := Option.some.inj hr'
    exact ⟨rfl, rfl⟩
  | readerDone =>
    obtain rfl := System.step_readerDone h
    refine ⟨rfl, rfl, fun r' hr' => ?_⟩
    cases hr'
  | command c =>
    obtain ⟨tasks, rfl⟩ := System.step_command h
    exact .of_reader rfl rfl rfl
  | delete =>
    obtain rfl := System.step_delete h
    exact .of_reader rfl rfl rfl
  | persistClone call =>
    obtain ⟨task, rfl⟩ | rfl := System.step_persistClone h
    · exact .of_reader rfl rfl rfl
    · exact .of_reader rfl rfl rfl
  | persistLoad call readable =>
    obtain ⟨ticket, task, rfl⟩ := System.step_persistLoad h
    exact .of_reader rfl rfl rfl
  | persistSave call now downloadDir saved =>
    obtain ⟨ticket, task, existing, -, rfl⟩ := System.step_persistSave h
    exact .of_reader (System.save_reader _ _ _) (System.save_runTasks _ _ _)
      (System.save_runner _ _ _)
  | _ => cases he

/-- The phases of `task_fn` in which the entry shows the probed size. -/
def RunnerPhase.sized : RunnerPhase → Bool
  | .probed | .saved | .running => true
  | _ => false

/-- What holds between the start of `task_fn` and its `plan`. -/
structure Unplanned (s : System) : Prop where
  working : ∀ r, s.runner = some r → r.phase ≠ .finished →
    ∀ task, s.runTasks = some task → task.status = .downloading
  sized : ∀ r, s.runner = some r → r.phase.sized = true → ∃ metadata,
    r.download.metadata = some metadata ∧
    ∀ task, s.runTasks = some task → task.fragmentsTotal = totalFrags metadata.fileSize
  unseen : ∀ reader, s.reader = some reader → reader.completed = []
  counted : ∀ r, s.runner = some r → r.phase = .running → ∀ reader, s.reader = some reader →
    ∀ task, s.runTasks = some task → reader.totalFrags = task.fragmentsTotal

theorem Unplanned.same (h : Unplanned s) (hsame : s.SameRun s') : Unplanned s' := by
  obtain ⟨hworking, hsized, hunseen, hcounted⟩ := h
  obtain ⟨hrunTasks, hrunner, hreader⟩ := hsame
  rw [← hrunner, ← hrunTasks] at hworking hsized hcounted
  refine ⟨hworking, hsized, fun reader' hreader' => ?_, fun r hr hphase reader' hreader' => ?_⟩
  · obtain ⟨reader, hr, hcompleted, -⟩ := hreader reader' hreader'
    exact hcompleted.trans (hunseen reader hr)
  · obtain ⟨reader, hr', -, htotal⟩ := hreader reader' hreader'
    rw [htotal]
    exact hcounted r hr hphase reader hr'

/-- Where `task_fn` has returned nothing more is asked but of the reader. -/
theorem Unplanned.returned (h : Unplanned s) (hrunner : s'.runner = none)
    (hreader : s'.reader = s.reader ∨ s'.reader = none) : Unplanned s' := by
  refine ⟨fun r hr => ?_, fun r hr => ?_, fun reader hr => ?_, fun r hr => ?_⟩
  · rw [hrunner] at hr
    cases hr
  · rw [hrunner] at hr
    cases hr
  · rcases hreader with hsame | hnone
    · exact h.unseen reader (hsame.symm.trans hr)
    · rw [hnone] at hr
      cases hr
  · rw [hrunner] at hr
    cases hr

/-- A step that only takes `task_fn` further, to a phase before the reader is there. -/
theorem Unplanned.advance (h : Unplanned s) {r r' : Runner} (hr : s.runner = some r)
    (hunfinished : r.phase ≠ .finished) (hr' : s'.runner = some r')
    (hrunTasks : s'.runTasks = s.runTasks) (hreader : s'.reader = s.reader)
    (hphase : r'.phase ≠ .running)
    (hsized : r'.phase.sized = true →
      r.phase.sized = true ∧ r'.download.metadata = r.download.metadata) : Unplanned s' := by
  refine ⟨fun r₁ hr₁ _ => ?_, fun r₁ hr₁ hsized₁ => ?_, hreader ▸ h.unseen,
    fun r₁ hr₁ hrunning => ?_⟩
  · rw [hrunTasks]
    exact h.working r hr hunfinished
  · obtain rfl := Option.some.inj (hr'.symm.trans hr₁)
    obtain ⟨hbefore, hmetadata⟩ := hsized hsized₁
    rw [hmetadata, hrunTasks]
    exact h.sized r hr hbefore
  · obtain rfl := Option.some.inj (hr'.symm.trans hr₁)
    exact absurd hrunning hphase

theorem Unplanned.step (h : Unplanned s) (he : e.beforePlan = true)
    (hstep : s.step e = some s') : Unplanned s' := by
  cases e with
  | inject readable =>
    obtain ⟨r, restored, hr, hphase, -, rfl⟩ := System.step_inject hstep
    exact h.advance hr (by simp [hphase]) rfl rfl rfl (by simp) (by simp [RunnerPhase.sized])
  | probe result =>
    cases result with
    | error error =>
      obtain ⟨hrunner, hreader⟩ := System.probe_error hstep
      exact h.returned hrunner (Or.inl hreader)
    | ok metadata =>
      obtain ⟨r, hr, hphase, rfl⟩ := System.probe_runTasks hstep
      refine ⟨fun r' hr' _ task' htask' => ?_, fun r' hr' _ => ?_, h.unseen,
        fun r' hr' hrunning => ?_⟩
      · obtain ⟨task, htask, rfl⟩ := Option.map_eq_some_iff.mp htask'
        exact h.working r hr (by simp [hphase]) task htask
      · obtain rfl := Option.some.inj hr'
        refine ⟨metadata, rfl, fun task' htask' => ?_⟩
        obtain ⟨task, htask, rfl⟩ := Option.map_eq_some_iff.mp htask'
        rfl
      · obtain rfl := Option.some.inj hr'
        cases hrunning
  | saveMetadata now saved =>
    obtain ⟨r, metadata, hr, hphase, hmetadata, rfl⟩ := System.step_saveMetadata hstep
    have hsaved : ∀ s' : System, s'.runner = some { r with phase := .saved } →
        s'.runTasks = s.runTasks → s'.reader = s.reader → Unplanned s' := by
      intro s' hrunner hrunTasks hreader
      refine h.advance hr ?_ hrunner hrunTasks hreader ?_ fun _ => ⟨?_, rfl⟩
      · simp [hphase]
      · simp
      · rw [hphase]
        rfl
    cases htask : s.runTasks with
    | none => exact hsaved _ rfl htask.symm rfl
    | some task =>
      exact hsaved _ (System.save_runner _ _ _) ((System.save_runTasks _ _ _).trans htask.symm)
        (System.save_reader _ _ _)
  | spawn =>
    obtain ⟨r, hr, hphase, rfl⟩ := System.spawn_reader hstep
    refine ⟨fun r' hr' _ => ?_, fun r' hr' _ => ?_, fun reader hreader => ?_,
      fun r' hr' _ reader hreader task htask => ?_⟩
    · exact h.working r hr (by simp [hphase])
    · obtain rfl := Option.some.inj hr'
      exact h.sized r hr (by rw [hphase]; rfl)
    · obtain rfl := Option.some.inj hreader
      rfl
    · obtain rfl := Option.some.inj hreader
      dsimp only at htask
      rw [htask]
      rfl
  | plan =>
    obtain ⟨r, download, hr, hphase, -, rfl⟩ := System.step_plan hstep
    exact h.advance hr (by simp [hphase]) rfl rfl rfl (by simp) (by simp [RunnerPhase.sized])
  | quit =>
    obtain rfl := System.step_quit hstep
    exact h.returned rfl (Or.inl rfl)
  | finish result =>
    obtain ⟨r, hr, -, rfl⟩ := System.finish_runTasks hstep
    refine ⟨fun r' hr' hunfinished => ?_, fun r' hr' hsized => ?_, h.unseen,
      fun r' hr' hrunning => ?_⟩
    · obtain rfl := Option.some.inj hr'
      exact absurd rfl hunfinished
    · obtain rfl := Option.some.inj hr'
      cases hsized
    · obtain rfl := Option.some.inj hr'
      cases hrunning
  | close =>
    obtain rfl := System.step_close hstep
    exact h.returned rfl (Or.inl rfl)
  | restart readable =>
    obtain rfl := Option.some.inj hstep
    exact h.returned rfl (Or.inr rfl)
  | start | receive => cases he
  | _ => exact h.same (System.step_leavesEntry hstep rfl)

/-- A run of `task_fn` up to its `plan`. -/
theorem unplanned_of_run {entry : Option TaskInfo} {download : DownloadTask} {downloadDir : String}
    {before : List Event} (hbefore : ∀ e ∈ before, e.beforePlan = true)
    (hrun : run System.step s (.start entry download downloadDir :: before) = some s') :
    Unplanned s' := by
  obtain ⟨s₁, hstart, hrun⟩ := run_cons.mp hrun
  have hstarted : Unplanned s₁ := by
    obtain ⟨-, hreader, rfl⟩ := System.step_start hstart
    refine ⟨fun r hr _ task htask => ?_, fun r hr hsized => ?_, fun reader hreader' => ?_,
      fun r hr hrunning => ?_⟩
    · obtain ⟨created, -, rfl⟩ := Option.map_eq_some_iff.mp htask
      rfl
    · obtain rfl := Option.some.inj hr
      cases hsized
    · rw [show _ = _ from hreader] at hreader'
      cases hreader'
    · obtain rfl := Option.some.inj hr
      cases hrunning
  have hsteps : EachStep System.step (fun _ e => e.beforePlan = true) s₁ before :=
    .of_mem fun e he _ => hbefore e he
  exact run_invariant (fun _ _ _ h he hs => h.step he hs) hstarted hsteps hrun

/-! ### After the plan -/

/-- What holds after `plan` of a run whose entry shows the right total. -/
structure Counting (t : DownloadTask) (s : System) : Prop where
  runner : ∀ r, s.runner = some r → r.phase = .planned ∨ r.phase = .finished
  working : ∀ r, s.runner = some r → r.phase = .planned →
    ∀ task, s.runTasks = some task → task.status = .downloading
  total : s.TotalRight t
  small : ∀ task, s.runTasks = some task → t.fragments.length < u32Bound
  counted : ∀ reader, s.reader = some reader → ∀ task, s.runTasks = some task →
    reader.totalFrags = t.fragments.length
  sorted : ∀ reader, s.reader = some reader → reader.completed.Pairwise (· < ·)
  bound : ∀ reader, s.reader = some reader → ∀ i ∈ reader.completed, i < t.fragments.length
  ended : ∀ task, s.runTasks = some task → task.status = .completed →
    task.progress ≤ 1 ∧ task.downloaded < u64Bound

theorem TaskInfo.terminal_fragmentsTotal (task : TaskInfo) (metadata : Option FileMetadata)
    (result : DownloadResult Unit) :
    (task.terminal metadata result).fragmentsTotal = task.fragmentsTotal := by
  unfold TaskInfo.terminal
  split
  · split
    · rfl
    · rfl
  · split
    · rfl
    · rfl

/-- What a run without an error leaves in the entry of a task that is not cancelled. -/
theorem TaskInfo.terminal_ok {task : TaskInfo} (metadata : Option FileMetadata)
    (hstatus : task.status ≠ .cancelled) : ∃ finalSize : UInt64,
      task.terminal metadata (.ok ()) = { task with
        progress := 1
        fileSize := some finalSize
        downloaded := finalSize.toNat
        speed := 0
        status := .completed } := by
  simp only [TaskInfo.terminal, if_neg hstatus]
  exact ⟨_, rfl⟩

theorem TaskInfo.terminal_ended {task : TaskInfo} {metadata : Option FileMetadata}
    {result : DownloadResult Unit}
    (hended : (task.terminal metadata result).status = .completed) :
    (task.terminal metadata result).progress ≤ 1 ∧
      (task.terminal metadata result).downloaded < u64Bound := by
  by_cases hstatus : task.status = .cancelled
  · have hsame : task.terminal metadata result = task := by
      cases result with
      | ok ended => simp only [TaskInfo.terminal, if_pos hstatus]
      | error error => simp only [TaskInfo.terminal, if_pos hstatus]
    rw [hsame, hstatus] at hended
    cases hended
  · cases result with
    | ok ended =>
      obtain ⟨finalSize, hterminal⟩ := TaskInfo.terminal_ok metadata hstatus
      rw [hterminal]
      exact ⟨le_refl _, UInt64.toNat_lt finalSize⟩
    | error error =>
      simp only [TaskInfo.terminal, if_neg hstatus] at hended
      cases hended

/-- The first state after `plan`. -/
theorem Unplanned.plan (h : Unplanned s) (hstep : s.step .plan = some s') :
    ∃ r metadata, s'.runner = some r ∧ r.download.metadata = some metadata ∧
      ((∀ task, s'.runTasks = some task →
        totalFrags metadata.fileSize = r.download.fragments.length) ↔
          s'.TotalRight r.download) ∧
      (s'.TotalRight r.download → Counting r.download s') := by
  obtain ⟨r, download, hr, hphase, hplan, rfl⟩ := System.step_plan hstep
  obtain ⟨metadata, hmetadata, htotal⟩ := h.sized r hr (by rw [hphase]; rfl)
  obtain ⟨metadata', plan, hmetadata', -, rfl⟩ := DownloadTask.plan_ok hplan
  have hiff (task : TaskInfo) (htask : s.runTasks = some task) {n : ℕ} :
      totalFrags metadata.fileSize = n ↔ task.fragmentsTotal = n := by
    rw [htotal task htask]
  refine ⟨_, metadata, rfl, hmetadata, ?_, fun hright => ?_⟩
  · exact ⟨fun heq task htask => (hiff task htask).mp (heq task htask),
      fun heq task htask => (hiff task htask).mpr (heq task htask)⟩
  · refine ⟨fun r' hr' => ?_, fun r' _ _ task htask => ?_, hright, fun task htask => ?_,
      fun reader hreader task htask => ?_, fun reader hreader => ?_, fun reader hreader => ?_,
      fun task htask hended => ?_⟩
    · obtain rfl := Option.some.inj hr'
      exact Or.inl rfl
    · exact h.working r hr (by simp [hphase]) task htask
    · rw [← (hiff task htask).mpr (hright task htask)]
      exact totalFrags_lt _
    · exact (h.counted r hr hphase reader hreader task htask).trans (hright task htask)
    · rw [h.unseen reader hreader]
      exact List.Pairwise.nil
    · rw [h.unseen reader hreader]
      exact nofun
    · rw [h.working r hr (by simp [hphase]) task htask] at hended
      cases hended

/-- What the chunk reader writes for a message about a planned fragment. -/
theorem Counting.show (h : Counting t s) {r : ChunkReader} {task : TaskInfo}
    {progress : FragmentProgress} (hr : s.reader = some r) (htask : s.runTasks = some task)
    (hindex : progress.fragmentIndex < t.fragments.length) :
    0 ≤ ((r.receive progress).show task).progress ∧
      ((r.receive progress).show task).progress ≤ 1 ∧
      (((r.receive progress).show task).progress = 1 ↔
        ∀ i < t.fragments.length, r.Sees progress i) := by
  have htotal : (r.receive progress).totalFrags = t.fragments.length := h.counted r hr task htask
  have hbound : ∀ i ∈ (r.receive progress).completed, i < t.fragments.length := by
    intro i hi
    rcases (r.mem_receive_completed progress i).mp hi with hold | ⟨-, rfl⟩
    · exact h.bound r hr i hold
    · exact hindex
  obtain ⟨hle, hall⟩ :=
    length_eq_iff_forall_mem (r.receive_sorted progress (h.sorted r hr)) hbound
  have hmod : (r.receive progress).completed.length % u32Bound =
      (r.receive progress).completed.length :=
    Nat.mod_eq_of_lt (Nat.lt_of_le_of_lt hle (h.small task htask))
  have hvalue : ((r.receive progress).show task).progress =
      ((r.receive progress).completed.length : ℚ) / t.fragments.length := by
    unfold ChunkReader.show
    dsimp only
    rw [htotal, hmod, if_pos (by omega)]
  have hpos : (0 : ℚ) < t.fragments.length := by
    exact_mod_cast (show 0 < t.fragments.length by omega)
  rw [hvalue]
  refine ⟨div_nonneg (Nat.cast_nonneg _) hpos.le, (div_le_one hpos).mpr (by exact_mod_cast hle), ?_⟩
  rw [div_eq_one_iff_eq (ne_of_gt hpos), Nat.cast_inj, hall]
  exact forall₂_congr fun i _ => r.mem_receive_completed progress i

theorem Counting.same (h : Counting t s) (hsame : s.SameRun s') : Counting t s' := by
  obtain ⟨hrunner, hworking, htotal, hsmall, hcounted, hsorted, hbound, hended⟩ := h
  obtain ⟨hrunTasks, hrunner', hreader⟩ := hsame
  unfold System.TotalRight at htotal
  rw [← hrunner'] at hrunner hworking
  rw [← hrunTasks] at hworking htotal hsmall hcounted hended
  refine ⟨hrunner, hworking, htotal, hsmall, fun reader' hr' => ?_, fun reader' hr' => ?_,
    fun reader' hr' => ?_, hended⟩
  · obtain ⟨reader, hr, -, hsame⟩ := hreader reader' hr'
    rw [hsame]
    exact hcounted reader hr
  · obtain ⟨reader, hr, hsame, -⟩ := hreader reader' hr'
    rw [hsame]
    exact hsorted reader hr
  · obtain ⟨reader, hr, hsame, -⟩ := hreader reader' hr'
    rw [hsame]
    exact hbound reader hr

theorem Counting.returned (h : Counting t s) (hrunner : s'.runner = none)
    (hrunTasks : s'.runTasks = s.runTasks) (hreader : s'.reader = s.reader) : Counting t s' := by
  obtain ⟨-, -, htotal, hsmall, hcounted, hsorted, hbound, hended⟩ := h
  unfold System.TotalRight at htotal
  rw [← hrunTasks] at htotal hsmall hcounted hended
  rw [← hreader] at hcounted hsorted hbound
  refine ⟨fun r hr => ?_, fun r hr => ?_, htotal, hsmall, hcounted, hsorted, hbound, hended⟩
  · rw [hrunner] at hr
    cases hr
  · rw [hrunner] at hr
    cases hr

/-- The steps of `task_fn` up to its `plan` are over. -/
theorem Counting.past (h : Counting t s) {r : Runner} (hr : s.runner = some r)
    {phase : RunnerPhase} (hphase : r.phase = phase) (hnot : phase ≠ .planned ∧ phase ≠ .finished) :
    False := by
  rcases h.runner r hr with hplanned | hfinished
  · exact hnot.1 (hphase.symm.trans hplanned)
  · exact hnot.2 (hphase.symm.trans hfinished)

theorem Counting.step (h : Counting t s) (he : e.AfterPlan t) (hstep : s.step e = some s') :
    Counting t s' := by
  cases e with
  | start => cases he
  | inject readable =>
    obtain ⟨r, restored, hr, hphase, -, rfl⟩ := System.step_inject hstep
    exact (h.past hr hphase (by decide)).elim
  | probe result =>
    obtain ⟨r, hr, hphase, -⟩ := System.step_probe hstep
    exact (h.past hr hphase (by decide)).elim
  | saveMetadata now saved =>
    obtain ⟨r, metadata, hr, hphase, -⟩ := System.step_saveMetadata hstep
    exact (h.past hr hphase (by decide)).elim
  | spawn =>
    obtain ⟨r, hr, hphase, -⟩ := System.spawn_reader hstep
    exact (h.past hr hphase (by decide)).elim
  | plan =>
    obtain ⟨r, download, hr, hphase, -⟩ := System.step_plan hstep
    exact (h.past hr hphase (by decide)).elim
  | quit =>
    obtain rfl := System.step_quit hstep
    exact h.returned rfl rfl rfl
  | close =>
    obtain rfl := System.step_close hstep
    exact h.returned rfl rfl rfl
  | restart readable =>
    obtain rfl := Option.some.inj hstep
    refine ⟨fun r hr => ?_, fun r hr => ?_, fun task htask => ?_, fun task htask => ?_,
      fun reader hr => ?_, fun reader hr => ?_, fun reader hr => ?_, fun task htask => ?_⟩
    · cases hr
    · cases hr
    · cases htask
    · cases htask
    · cases hr
    · cases hr
    · cases hr
    · cases htask
  | finish result =>
    obtain ⟨r, hr, -, rfl⟩ := System.finish_runTasks hstep
    refine ⟨fun r' hr' => ?_, fun r' hr' hplanned => ?_, fun task' htask' => ?_,
      fun task' htask' => ?_, fun reader hreader task' htask' => ?_, h.sorted, h.bound,
      fun task' htask' hended => ?_⟩
    · obtain rfl := Option.some.inj hr'
      exact Or.inr rfl
    · obtain rfl := Option.some.inj hr'
      cases hplanned
    · obtain ⟨task, htask, rfl⟩ := Option.map_eq_some_iff.mp htask'
      exact (TaskInfo.terminal_fragmentsTotal task _ result).trans (h.total task htask)
    · obtain ⟨task, htask, rfl⟩ := Option.map_eq_some_iff.mp htask'
      exact h.small task htask
    · obtain ⟨task, htask, rfl⟩ := Option.map_eq_some_iff.mp htask'
      exact h.counted reader hreader task htask
    · obtain ⟨task, htask, rfl⟩ := Option.map_eq_some_iff.mp htask'
      exact TaskInfo.terminal_ended hended
  | receive progress =>
    obtain ⟨r, hr, -, rfl⟩ := System.step_receive hstep
    refine ⟨h.runner, fun r' hr' hplanned task' htask' => ?_, fun task' htask' => ?_,
      fun task' htask' => ?_, fun reader hreader task' htask' => ?_, fun reader hreader => ?_,
      fun reader hreader i hi => ?_, fun task' htask' hended => ?_⟩
    · obtain ⟨task, htask, rfl⟩ := Option.map_eq_some_iff.mp htask'
      exact h.working r' hr' hplanned task htask
    · obtain ⟨task, htask, rfl⟩ := Option.map_eq_some_iff.mp htask'
      exact h.counted r hr task htask
    · obtain ⟨task, htask, rfl⟩ := Option.map_eq_some_iff.mp htask'
      exact h.small task htask
    · obtain ⟨task, htask, rfl⟩ := Option.map_eq_some_iff.mp htask'
      obtain rfl := Option.some.inj hreader
      exact h.counted r hr task htask
    · obtain rfl := Option.some.inj hreader
      exact r.receive_sorted progress (h.sorted r hr)
    · obtain rfl := Option.some.inj hreader
      rcases (r.mem_receive_completed progress i).mp hi with hold | ⟨-, rfl⟩
      · exact h.bound r hr i hold
      · exact he
    · obtain ⟨task, htask, rfl⟩ := Option.map_eq_some_iff.mp htask'
      refine ⟨(h.show hr htask he).2.1, ?_⟩
      exact Nat.lt_of_le_of_lt (Nat.min_le_right _ _) (by decide)
  | _ => exact h.same (System.step_leavesEntry hstep rfl)

/-- A step after `plan` writes what is right exactly when it comes in time. -/
theorem Counting.writesRight_iff (h : Counting t s) (he : e.AfterPlan t)
    (hstep : s.step e = some s') : s.WritesRight t e ↔ s.InTime t e := by
  cases e with
  | finish result =>
    refine ⟨fun _ => trivial, fun _ s₁ hs₁ hwrites before after hbefore hafter => ?_⟩
    cases result with
    | error error => cases hwrites
    | ok ended =>
      obtain ⟨r, hr, hphase, rfl⟩ := System.finish_runTasks hs₁
      dsimp only at hafter
      rw [hbefore] at hafter
      obtain rfl := Option.some.inj hafter
      have hworking : before.status = .downloading := by
        refine h.working r hr ?_ before hbefore
        rcases h.runner r hr with hplanned | hfinished
        · exact hplanned
        · rcases hphase with hrunning | hplanned
          · rw [hfinished] at hrunning
            cases hrunning
          · exact hplanned
      obtain ⟨finalSize, hterminal⟩ := TaskInfo.terminal_ok r.download.metadata
        (show before.status ≠ .cancelled by simp [hworking])
      dsimp only
      rw [hterminal]
      refine ⟨zero_le_one, le_refl _, iff_of_true rfl (Or.inl rfl), fun hcompleted => ?_⟩
      rw [hworking] at hcompleted
      cases hcompleted
  | receive progress =>
    obtain ⟨r, hr, -, hs'⟩ := System.step_receive hstep
    have hdone : t.AllDone s'.Reported ↔
        ∀ i < t.fragments.length, t.Restored i ∨ r.Sees progress i := by
      refine forall₂_congr fun i _ => or_congr_right ?_
      rw [hs', ← r.mem_receive_completed progress i]
      exact ⟨fun ⟨r', hr', hi⟩ => Option.some.inj hr' ▸ hi, fun hi => ⟨_, rfl, hi⟩⟩
    have hafter : ∀ before, s.runTasks = some before →
        s'.runTasks = some ((r.receive progress).show before) := by
      intro before hbefore
      rw [hs']
      dsimp only
      rw [hbefore, Option.map_some]
    constructor
    · intro hright reader hreader task htask
      obtain rfl := Option.some.inj (hr.symm.trans hreader)
      have hfraction := hright s' hstep rfl task _ htask (hafter task htask)
      have hall := (h.show hr htask he).2.2
      split
      · rename_i hended
        refine ⟨hall.mp (hfraction.eq_one.mpr (Or.inl hended)), ?_⟩
        exact Nat.le_trans (hfraction.kept hended).2 (Nat.min_le_left _ _)
      · intro hplanned
        exact hall.mp (hfraction.eq_one.mpr (Or.inr (hdone.mpr hplanned)))
    · intro hin s₁ hs₁ _ before after hbefore hafter₁
      obtain rfl := Option.some.inj (hs₁.symm.trans hstep)
      obtain rfl := Option.some.inj ((hafter before hbefore).symm.trans hafter₁)
      have hcase := hin r hr before hbefore
      obtain ⟨hnonneg, hle, hall⟩ := h.show hr hbefore he
      by_cases hended : before.status = .completed
      · rw [if_pos hended] at hcase
        obtain ⟨hseen, hbytes⟩ := hcase
        obtain ⟨hshown, hbound⟩ := h.ended before hbefore hended
        have hone := hall.mpr hseen
        refine ⟨hnonneg, hle, iff_of_true hone (Or.inl hended), fun _ => ⟨?_, ?_⟩⟩
        · rw [hone]
          exact hshown
        · exact Nat.le_min.mpr ⟨hbytes, Nat.le_pred_of_lt hbound⟩
      · rw [if_neg hended] at hcase
        refine ⟨hnonneg, hle, ?_, fun hcompleted => absurd hcompleted hended⟩
        rw [hdone, hall]
        refine ⟨fun hseen => Or.inr fun i hi => Or.inr (hseen i hi), fun hright => ?_⟩
        rcases hright with hcompleted | hplanned
        · exact absurd hcompleted hended
        · exact hcase hplanned
  | _ => exact ⟨fun _ => trivial, fun _ _ _ hwrites => nomatch hwrites⟩

end Step

/-- A run shows the right fraction exactly when its plan has as many fragments as the file has
pieces of one MiB and every message of the engine comes in time. -/
theorem progress_fraction_iff (s s₀ : System) (entry : Option TaskInfo) (download : DownloadTask)
    (downloadDir : String) (before later : List Event) (r : Runner) (metadata : FileMetadata)
    (hbefore : ∀ e ∈ before, e.beforePlan = true)
    (hplanned : run System.step s (.start entry download downloadDir :: before ++ [.plan]) =
      some s₀)
    (hrunner : s₀.runner = some r) (hmetadata : r.download.metadata = some metadata)
    (hlater : ∀ e ∈ later, e.AfterPlan r.download) :
    s₀.ProgressRight r.download later ↔
      (∀ task, s₀.runTasks = some task →
        totalFrags metadata.fileSize = r.download.fragments.length) ∧
      EachStep System.step (System.InTime r.download) s₀ later := by
  rw [run_append] at hplanned
  obtain ⟨s₁, hbegun, hlast⟩ := Option.bind_eq_some_iff.mp hplanned
  obtain ⟨s₂, hstep, hsame⟩ := run_cons.mp hlast
  obtain rfl := Option.some.inj hsame
  obtain ⟨r', metadata', hr', hmetadata', hmatches, hcounting⟩ :=
    (unplanned_of_run hbefore hbegun).plan hstep
  obtain rfl := Option.some.inj (hr'.symm.trans hrunner)
  obtain rfl := Option.some.inj (hmetadata'.symm.trans hmetadata)
  rw [hmatches]
  have hkept : ∀ s e s', Counting r'.download s → e.AfterPlan r'.download →
      System.step s e = some s' → Counting r'.download s' :=
    fun _ _ _ h he hs => h.step he hs
  constructor
  · rintro ⟨htotals, hwrites⟩
    have htotal : s₂.TotalRight r'.download := by
      cases later with
      | nil => exact htotals
      | cons e rest => exact htotals.1
    refine ⟨htotal, (hwrites.and_of_mem hlater).imp ?_ (hcounting htotal)⟩
    intro s e s' h hright hs
    exact ⟨(h.writesRight_iff hright.1 hs).mp hright.2, h.step hright.1 hs⟩
  · rintro ⟨htotal, hin⟩
    refine ⟨?_, (hin.and_of_mem hlater).imp ?_ (hcounting htotal)⟩
    · have hstates : EachState System.step (Counting r'.download) s₂ later :=
        EachStep.eachState hkept (hcounting htotal) (.of_mem fun e he _ => hlater e he)
      exact hstates.imp fun _ h => h.total
    · intro s e s' h hin hs
      exact ⟨(h.writesRight_iff hin.1 hs).mpr hin.2, h.step hin.1 hs⟩

/-- All four fragments of one MiB are reported before the final block. -/
theorem progress_fraction_iff_one_mib :
    ∃ s₀ r, run System.step created (plannedRun 1048576 fourMiB) = some s₀ ∧
      s₀.runner = some r ∧ s₀.ProgressRight r.download (checkpointed 0 ++ checkpointed 1 ++
        checkpointed 2 ++ checkpointed 3 ++ [.finish (.ok ())]) := by
  refine ⟨_, _, rfl, rfl, ?_⟩
  refine (progress_fraction_iff created _ createdTask (suggestedTask 1048576) "dir"
    [.inject true, .probe (.ok fourMiB), .saveMetadata "now" true, .spawn] _ _ fourMiB
    (by decide) rfl rfl rfl ?_).mpr ⟨fun _ _ => rfl, ?_⟩
  · decide +kernel
  · decide +kernel

/-- Two fragments of two MiB are counted as four, and a message the chunk reader receives after
the final block takes the progress back to three quarters. -/
theorem progress_fraction_wrong :
    (∃ s₀ r, run System.step created (plannedRun 2097152 fourMiB) = some s₀ ∧
      s₀.runner = some r ∧ ¬s₀.ProgressRight r.download []) ∧
    ∃ s₀ r, run System.step created (plannedRun 1048576 fourMiB) = some s₀ ∧
      s₀.runner = some r ∧ ¬s₀.ProgressRight r.download (checkpointed 0 ++ checkpointed 1 ++
        [.finish (.ok ())] ++ [.receive ⟨2, true, 1048576⟩]) := by
  refine ⟨⟨_, _, rfl, rfl, fun h => ?_⟩, _, _, rfl, rfl, fun h => ?_⟩
  · have htotal := h.1 _ rfl
    revert htotal
    decide
  · obtain ⟨-, hlast⟩ := h.2.append rfl
    have hright := (hlast _ rfl).1 _ rfl rfl _ _ rfl rfl
    have hlowered := (hright.kept rfl).1
    revert hlowered
    decide +kernel

end Tachyon
