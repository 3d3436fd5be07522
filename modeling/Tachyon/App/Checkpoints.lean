import Tachyon.App.TaskFn
import Tachyon.Engine.Resume

/-!
# The completed indices over the runs of a task

A checkpoint lists the fragments the chunk reader of the current run has seen
completed. The reader starts from nothing, and the snapshot with the metadata lists
nothing, so a list survives only where no run finds one to resume from.
-/

namespace Tachyon

open EventRuns

/-- The run finds no stored index when its probe is done, and a status persist saves over no
index that its call has not loaded. -/
def System.KeepsIndices (s : System) : Event → Prop
  | .saveMetadata _ _ => s.indices = []
  | .persistSave call _ _ _ =>
    ∀ p ∈ s.persists[call]?, ∀ loaded ∈ p.loadedIndices, s.indices ⊆ loaded
  | _ => True

instance (s : System) (e : Event) : Decidable (s.KeepsIndices e) := by
  cases e <;> unfold System.KeepsIndices <;> infer_instance

/-- The phases of `task_fn` before it spawns the chunk reader. -/
def RunnerPhase.beforeReader : RunnerPhase → Bool
  | .started | .injected | .probed | .saved => true
  | .running | .planned | .finished => false

/-- The stored list holds no more than the reader has seen, and no call has loaded more than
it; before the reader is spawned it is empty. -/
structure IndicesKept (s : System) : Prop where
  reader : ∀ r, s.reader = some r → s.indices ⊆ r.completed
  saved : ∀ r, s.runner = some r → r.phase = .saved → s.indices = []
  early : ∀ r, s.runner = some r → r.phase.beforeReader = true → s.reader = none
  loaded : ∀ p ∈ s.persists, ∀ loaded ∈ p.loadedIndices, loaded ⊆ s.indices

theorem mem_insertIndex {i j : ℕ} {l : List ℕ} : j ∈ insertIndex i l ↔ j = i ∨ j ∈ l := by
  induction l with
  | nil => simp [insertIndex]
  | cons k rest ih =>
    unfold insertIndex
    by_cases hlt : i < k
    · simp [hlt]
    · by_cases heq : i = k
      · simp [heq]
      · simp [hlt, heq, ih, or_left_comm]

theorem ChunkReader.receive_completed (r : ChunkReader) (progress : FragmentProgress) :
    r.completed ⊆ (r.receive progress).completed := by
  intro i hi
  unfold ChunkReader.receive
  dsimp only
  split
  · exact mem_insertIndex.mpr (Or.inr hi)
  · exact hi

section Step

variable {s s' : System} {e : Event}

theorem System.indices_of_quiet (h : s.step e = some s') (hnone : ∀ save, ¬s.Writes e save) :
    s'.indices = s.indices := by
  unfold System.indices
  rw [(System.step_quiet h hnone).1]

theorem System.indices_of_writes {save : Save} (h : s.step e = some s')
    (hwrites : s.Writes e save) : s'.indices = save.snapshot.completedFragments := by
  unfold System.indices
  rw [(System.step_writes h hwrites).1]
  rfl

/-- A reader there was has seen no more than the one there is. -/
theorem System.reader_completed {r' : ChunkReader} (h : s.step e = some s')
    (hr' : s'.reader = some r') :
    (e = .spawn ∧ ∃ r, s.runner = some r ∧ r.phase = .saved) ∨
    ∃ r, s.reader = some r ∧ r.completed ⊆ r'.completed := by
  obtain ⟨he, -, hspawned⟩ | ⟨r, hr, hsame | ⟨progress, -, rfl⟩⟩ := System.step_reader h hr'
  · exact Or.inl ⟨he, hspawned⟩
  · exact Or.inr ⟨r, hr, hsame ▸ List.Subset.refl _⟩
  · exact Or.inr ⟨r, hr, r.receive_completed progress⟩

/-- A step that meets the condition loses no stored index. -/
theorem IndicesKept.indices_subset (h : IndicesKept s) (hkeeps : s.KeepsIndices e)
    (hstep : s.step e = some s') : s.indices ⊆ s'.indices := by
  by_cases hwrites : ∃ save, s.Writes e save
  · obtain ⟨save, hwrites⟩ := hwrites
    rw [System.indices_of_writes hstep hwrites]
    cases hwrites with
    | metadata =>
      rw [show s.indices = [] from hkeeps]
      exact List.nil_subset _
    | checkpoint hreader => exact h.reader _ hreader
    | persist hcall =>
      rw [persistedSnapshot_completedFragments]
      exact hkeeps _ hcall _ rfl
  · rw [System.indices_of_quiet hstep (not_exists.mp hwrites)]
    exact List.Subset.refl _

/-- Only a checkpoint of the reader can store an index that was not stored. -/
theorem IndicesKept.indices_from (h : IndicesKept s) (hstep : s.step e = some s') :
    s'.indices ⊆ s.indices ∨
    ∃ r, s.reader = some r ∧ s'.indices = r.completed ∧ ∃ saved, e = .checkpointSave saved := by
  by_cases hwrites : ∃ save, s.Writes e save
  · obtain ⟨save, hwrites⟩ := hwrites
    rw [System.indices_of_writes hstep hwrites]
    cases hwrites with
    | metadata => exact Or.inl (List.nil_subset _)
    | checkpoint hreader => exact Or.inr ⟨_, hreader, rfl, true, rfl⟩
    | persist hcall =>
      rw [persistedSnapshot_completedFragments]
      exact Or.inl (h.loaded _ (List.mem_of_getElem? hcall) _ rfl)
  · rw [System.indices_of_quiet hstep (not_exists.mp hwrites)]
    exact Or.inl (List.Subset.refl _)

/-- Until the reader is spawned there is none. -/
theorem IndicesKept.early_step (h : IndicesKept s) (hstep : s.step e = some s') {r' : Runner}
    (hr' : s'.runner = some r') (hearly : r'.phase.beforeReader = true) : s'.reader = none := by
  cases hreader' : s'.reader with
  | none => rfl
  | some reader' =>
    obtain ⟨rfl, -⟩ | ⟨reader, hreader, -⟩ := System.reader_completed hstep hreader'
    · obtain ⟨r, totalFrags, -, -, rfl⟩ := System.step_spawn hstep
      obtain rfl := Option.some.inj hr'
      cases hearly
    · have hnone : s.reader = none := by
        obtain hr | ⟨-, -, -, hnone⟩ | ⟨r, hr, hadvances⟩ := System.step_runner hstep hr'
        · exact h.early r' hr hearly
        · exact hnone
        · cases hadvances with
          | inject hphase => exact h.early r hr (by rw [hphase]; rfl)
          | probe hphase => exact h.early r hr (by rw [hphase]; rfl)
          | saveMetadata hphase => exact h.early r hr (by rw [hphase]; rfl)
          | spawn | plan | finish => cases hearly
      rw [hreader] at hnone
      cases hnone

theorem IndicesKept.step (h : IndicesKept s) (hkeeps : s.KeepsIndices e)
    (hstep : s.step e = some s') : IndicesKept s' := by
  have hgrow := h.indices_subset hkeeps hstep
  refine ⟨fun reader' hreader' => ?_, fun r' hr' hsaved => ?_, fun r' hr' => h.early_step hstep hr',
    fun p hp loaded hloaded => ?_⟩
  · obtain ⟨rfl, r, hr, hphase⟩ | ⟨reader, hreader, hseen⟩ :=
      System.reader_completed hstep hreader'
    · have hquiet : ∀ save, ¬s.Writes .spawn save := by
        rintro save ⟨⟩
      rw [System.indices_of_quiet hstep hquiet, h.saved r hr hphase]
      exact List.nil_subset _
    · obtain hle | ⟨reader₁, hreader₁, hindices, -⟩ := h.indices_from hstep
      · exact List.Subset.trans (List.Subset.trans hle (h.reader reader hreader)) hseen
      · obtain rfl := Option.some.inj (hreader.symm.trans hreader₁)
        rw [hindices]
        exact hseen
  · have hempty : s.indices = [] ∧ ∀ saved, e ≠ .checkpointSave saved ∨ s.reader = none := by
      obtain hr | ⟨hstarted, -⟩ | ⟨r, hr, hadvances⟩ := System.step_runner hstep hr'
      · exact ⟨h.saved r' hr hsaved, fun _ => Or.inr (h.early r' hr (by rw [hsaved]; rfl))⟩
      · rw [hstarted] at hsaved
        cases hsaved
      · cases hadvances with
        | saveMetadata => exact ⟨hkeeps, fun _ => Or.inl nofun⟩
        | inject | probe | spawn | plan | finish => cases hsaved
    obtain hle | ⟨reader, hreader, -, saved, he⟩ := h.indices_from hstep
    · rw [hempty.1] at hle
      exact List.subset_nil.mp hle
    · obtain hne | hnone := hempty.2 saved
      · exact absurd he hne
      · rw [hreader] at hnone
        cases hnone
  · obtain hold | ⟨hsame, hle⟩ := System.step_persists hstep hp hloaded
    · exact List.Subset.trans (h.loaded p hold loaded hloaded) hgrow
    · unfold System.indices at hle ⊢
      rw [hsame]
      exact hle

end Step

theorem IndicesKept.initial (stored : Option TaskSnapshot) (tasks : Option TaskInfo) :
    IndicesKept (.initial stored tasks) := by
  refine ⟨fun r hr => ?_, fun r hr => ?_, fun r hr => ?_, fun p hp => ?_⟩
  · cases hr
  · cases hr
  · cases hr
  · cases hp

/-- Over a sequence of runs whose steps meet the condition no stored index is lost again. -/
theorem indices_subset_of_run {stored : Option TaskSnapshot} {tasks : Option TaskInfo}
    {earlier later : List Event} {s s' : System}
    (hkeeps : EachStep System.step System.KeepsIndices (.initial stored tasks) (earlier ++ later))
    (hearlier : run System.step (.initial stored tasks) earlier = some s)
    (hlater : run System.step s later = some s') : s.indices ⊆ s'.indices := by
  obtain ⟨hkept, hkept'⟩ := hkeeps.append hearlier
  have hinv : IndicesKept s := by
    refine run_invariant ?_ (.initial stored tasks) hkept hearlier
    exact fun _ _ _ h hc hs => h.step hc hs
  have hinv' : IndicesKept s' ∧ s.indices ⊆ s'.indices := by
    refine @run_invariant _ _ _ _ (fun x => IndicesKept x ∧ s.indices ⊆ x.indices) _ _ _ ?_
      ⟨hinv, List.Subset.refl _⟩ hkept' hlater
    exact fun _ _ _ h hc hs => ⟨h.1.step hc hs, List.Subset.trans h.2 (h.1.indices_subset hc hs)⟩
  exact hinv'.2

/-- A save that does not meet the condition loses an index. -/
theorem System.loses_index {s s' : System} {e : Event} {save : Save} (hstep : s.step e = some s')
    (hwrites : s.Writes e save) (hnot : ¬s.KeepsIndices e) : ¬s.indices ⊆ s'.indices := by
  rw [System.indices_of_writes hstep hwrites]
  intro hle
  apply hnot
  cases hwrites with
  | metadata => exact List.subset_nil.mp hle
  | checkpoint => trivial
  | persist hcall =>
    intro p hp loaded hloaded
    obtain rfl := Option.some.inj (hcall.symm.trans hp)
    obtain rfl := Option.some.inj hloaded
    rwa [persistedSnapshot_completedFragments] at hle

/-- Over any sequence of runs whose steps meet the condition, an index that is stored at
some point is stored ever after; and a save of a step that does not meet it loses an index. -/
theorem checkpoints_monotone (stored : Option TaskSnapshot) (tasks : Option TaskInfo)
    (earlier later : List Event) (s s' t t' : System) (e : Event) (save : Save) :
    (EachStep System.step System.KeepsIndices (.initial stored tasks) (earlier ++ later) →
      run System.step (.initial stored tasks) earlier = some s →
      run System.step s later = some s' → s.indices ⊆ s'.indices) ∧
    (t.step e = some t' → t.Writes e save → ¬t.KeepsIndices e → ¬t.indices ⊆ t'.indices) :=
  ⟨indices_subset_of_run, System.loses_index⟩

/-- A task as `create_task` enters it. -/
def createdTask : TaskInfo where
  id := "task"
  url := "https://host/file"
  fileName := "file"
  fileSize := none
  downloaded := 0
  speed := 0
  status := .pending
  progress := 0
  fragmentsTotal := 0
  fragmentsDone := 0
  createdAt := "now"

/-- The task before its first run. -/
def created : System :=
  .initial (some (taskInfoToSnapshot "now" createdTask "dir/file" 0 [] none none)) createdTask

/-- A run up to its plan, at a suggested fragment size. -/
def plannedRun (fragmentSize : ℕ) (metadata : FileMetadata) : List Event :=
  [.start createdTask (suggestedTask fragmentSize) "dir", .inject true, .probe (.ok metadata),
    .saveMetadata "now" true, .spawn, .plan]

/-- A fragment of one MiB is reported complete and checkpointed. -/
def checkpointed (index : ℕ) : List Event :=
  [.receive ⟨index, true, 1048576⟩, .checkpointLoad true, .checkpointSave true]

/-- An interrupted run has stored its first fragment; the next run's metadata snapshot drops
it. -/
theorem checkpoint_lost_on_resume :
    ∃ s s', run System.step created (plannedRun 1048576 fourMiB ++ checkpointed 0) = some s ∧
      run System.step s (.restart true :: plannedRun 1048576 fourMiB) = some s' ∧
      s.indices = [0] ∧ s'.indices = [] := by
  exact ⟨_, _, rfl, rfl, rfl, rfl⟩

/-- Within the first run the stored indices only grow; the metadata save of a second run
loses what the first has stored. -/
theorem checkpoints_monotone_two_runs :
    (∃ s s', run System.step created (plannedRun 1048576 fourMiB ++ checkpointed 0) = some s ∧
      run System.step s (checkpointed 2) = some s' ∧ s.indices ⊆ s'.indices) ∧
    ∃ s s', run System.step created (plannedRun 1048576 fourMiB ++ checkpointed 0 ++
        .restart true :: (plannedRun 1048576 fourMiB).take 3) = some s ∧
      s.step (.saveMetadata "now" true) = some s' ∧ ¬s.indices ⊆ s'.indices := by
  constructor
  · have hkeeps : EachStep System.step System.KeepsIndices created
        ((plannedRun 1048576 fourMiB ++ checkpointed 0) ++ checkpointed 2) := by decide
    refine ⟨_, _, rfl, rfl, ?_⟩
    exact (checkpoints_monotone _ (some createdTask) _ _ _ _ created created .plan
      ⟨.metadata, taskInfoToSnapshot "now" createdTask "dir/file" 0 [] none none⟩).1 hkeeps rfl rfl
  · refine ⟨_, _, rfl, rfl, ?_⟩
    exact (checkpoints_monotone none none [] [] created created _ _ _ _).2 rfl
      (.metadata rfl rfl rfl rfl) (by decide)

end Tachyon
