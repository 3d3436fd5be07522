import Tachyon.App.Commands

/-!
# Tasks and their runners

Status, control channel and `task_fn` of a task live in three maps. Recovery inserts tasks
without a channel, and `create_task_inner` inserts its task before it registers one. From
the registration to the cleanup of its `task_fn`, a task keeps its channel.
-/

namespace Tachyon

open EventRuns

namespace AppState

/-- A task that was not recovered is still being created, or its channel is there until its
`task_fn` has cleaned up. -/
def Controlled (s : AppState) : Prop :=
  ∀ id task, s.tasks.lookup id = some task → .recovered id ∉ s.history →
    (∃ creation, s.creations id = some creation ∧ creation.phase ≠ .registered) ∨
      ∃ r, s.runs id = some r ∧ (r.phase.cleanedUp = true ∨ s.controls id = true)

theorem controlled_new (store : String → Option TaskSnapshot) : (AppState.new store).Controlled :=
  fun _ _ h => absurd h (Option.some_ne_none _).symm

section Step

variable {text : Ipv6Addr → String} {s s' : AppState} {id : String} {e : AppEvent}

/-- A task in the map after a recovery was there before, or is recovered. -/
theorem lookup_insertRecovered {tasks : Tasks} {snapshots : List TaskSnapshot} {task : TaskInfo}
    (h : (insertRecovered tasks snapshots).lookup id = some task) :
    tasks.lookup id = some task ∨ ∃ snapshot ∈ snapshots, snapshot.id = id := by
  induction snapshots generalizing tasks with
  | nil => exact Or.inl h
  | cons snapshot snapshots ih =>
    obtain h | ⟨other, hmem, hid⟩ := ih h
    · by_cases hid : id = snapshot.id
      · exact Or.inr ⟨snapshot, List.mem_cons_self, hid.symm⟩
      · rw [Finmap.lookup_insert_of_ne _ hid] at h
        exact Or.inl h
    · exact Or.inr ⟨other, List.mem_cons_of_mem _ hmem, hid⟩

/-- What concerns a task is the same in the next state. -/
theorem Controlled.of_same (hs : s.Controlled) {j : String} {task : TaskInfo}
    (htask : s.tasks.lookup j = some task) (hrecovered : .recovered j ∉ s.history)
    (hcreations : s'.creations j = s.creations j) (hruns : s'.runs j = s.runs j)
    (hcontrols : s'.controls j = s.controls j) :
    (∃ creation, s'.creations j = some creation ∧ creation.phase ≠ .registered) ∨
      ∃ r, s'.runs j = some r ∧ (r.phase.cleanedUp = true ∨ s'.controls j = true) := by
  rw [hcreations, hruns, hcontrols]
  exact hs j task htask hrecovered

theorem Controlled.step_creation (hs : s.Controlled) {e : CreationEvent}
    (h : s.step text .copied (.creation id e) = some s') : s'.Controlled := by
  obtain ⟨creation, hcreation, h⟩ := AppState.step_creation h
  intro j task htask hrecovered
  by_cases hid : j = id
  · subst hid
    cases e with
    | copy =>
      obtain ⟨phase, -, hnext, rfl⟩ := creationStep_copy h
      refine Or.inl ⟨_, Function.update_self .., ?_⟩
      obtain ⟨task, rfl⟩ | rfl := hnext
      · nofun
      · nofun
    | save now saved =>
      obtain ⟨task, store, -, rfl⟩ := creationStep_save h
      exact Or.inl ⟨_, Function.update_self .., nofun⟩
    | configure maxConcurrentFragments =>
      obtain ⟨-, ⟨-, rfl⟩ | ⟨-, rfl⟩⟩ := creationStep_configure h
      · dsimp only at htask
        rw [Finmap.lookup_erase] at htask
        cases htask
      · exact Or.inl ⟨_, Function.update_self .., nofun⟩
    | clone =>
      obtain ⟨-, rfl⟩ := creationStep_clone h
      exact Or.inl ⟨_, Function.update_self .., nofun⟩
    | register =>
      obtain ⟨-, rfl⟩ := creationStep_register h
      exact Or.inr ⟨_, Function.update_self .., Or.inr (Function.update_self ..)⟩
    | start =>
      obtain ⟨hphase, rfl⟩ := creationStep_start h
      obtain ⟨c, hc, hne⟩ | ⟨r, hr, hcontrolled⟩ := hs j task htask hrecovered
      · obtain rfl := Option.some.inj (hcreation.symm.trans hc)
        exact absurd hphase hne
      · refine Or.inr ⟨r.start, ?_, hcontrolled.imp_left fun h => ?_⟩
        · dsimp only
          rw [Function.update_self, hr]
          rfl
        · exact TaskRun.start_cleanedUp.trans h
  · have hsame := (creationStep_frame h).2 j hid
    rw [creationStep_history h] at hrecovered
    exact hs.of_same (hsame.tasks.symm.trans htask) hrecovered hsame.creations hsame.runs
      hsame.controls

theorem Controlled.step_run (hs : s.Controlled) (hwf : s.WellFormed) {e : RunEvent}
    (h : s.step text .copied (.run id e) = some s') : s'.Controlled := by
  obtain ⟨r, x, hr, hx, rfl⟩ := AppState.step_run h
  intro j task htask hrecovered
  have hrecovered' : .recovered j ∉ s.history := fun hmem =>
    hrecovered (List.mem_append_right _ hmem)
  have hmoves := TaskRun.step_moves (hwf.joined id r hr) hx
  by_cases hid : j = id
  · subst hid
    obtain hcreating | ⟨r', hr', hcontrolled⟩ := hs j task htask hrecovered'
    · exact Or.inl hcreating
    · obtain rfl := Option.some.inj (hr.symm.trans hr')
      refine Or.inr ⟨x.run, Function.update_self .., ?_⟩
      cases hcleanup : x.cleanup with
      | true => exact Or.inl (hmoves.cleanedUp (Or.inr hcleanup))
      | false =>
        refine hcontrolled.imp (fun h => hmoves.cleanedUp (Or.inl h)) fun h => ?_
        dsimp only [perform, save]
        rw [hcleanup]
        exact h
  · refine hs.of_same htask hrecovered' rfl (Function.update_of_ne hid ..) ?_
    dsimp only [perform, save]
    split
    · exact Function.update_of_ne hid ..
    · rfl

/-- Every step keeps the channels of the tasks under way. -/
theorem Controlled.step (hs : s.Controlled) (hwf : s.WellFormed)
    (h : s.step text .copied e = some s') : s'.Controlled := by
  cases e with
  | create id request =>
    obtain ⟨-, downloadDir, -, -, -, rfl⟩ := step_create h
    intro j task htask hrecovered
    by_cases hid : j = id
    · subst hid
      exact Or.inl ⟨_, Function.update_self .., nofun⟩
    · exact hs.of_same ((Finmap.lookup_insert_of_ne _ hid).symm.trans htask)
        (fun hmem => hrecovered (List.mem_cons_of_mem _ hmem)) (Function.update_of_ne hid ..)
        rfl rfl
  | creation id e => exact hs.step_creation h
  | command c id =>
    obtain ⟨task₀, task', htask₀, -, rfl⟩ := command_eq_ok (step_command h)
    intro j task htask hrecovered
    have hrecovered' : .recovered j ∉ s.history := fun hmem =>
      hrecovered (List.mem_cons_of_mem _ hmem)
    by_cases hid : j = id
    · subst hid
      refine (hs j task₀ htask₀ hrecovered').imp_right ?_
      rintro ⟨r, hr, hcontrolled⟩
      dsimp only
      by_cases hcontrol : s.controls j = true
      · rw [if_pos hcontrol, Function.update_self, hr]
        exact ⟨_, rfl, hcontrolled⟩
      · rw [if_neg hcontrol]
        exact ⟨r, hr, hcontrolled⟩
    · refine hs.of_same ((Finmap.lookup_insert_of_ne _ hid).symm.trans htask) hrecovered' rfl ?_ rfl
      dsimp only
      split
      · exact Function.update_of_ne hid ..
      · rfl
  | persist call e =>
    obtain ⟨c, store, calls, returned, -, -, rfl⟩ := step_persist h
    exact fun j task htask hrecovered => hs.of_same htask
      (fun hmem => hrecovered (List.mem_append_right _ hmem)) rfl rfl rfl
  | delete id =>
    obtain ⟨task₀, -, -, rfl⟩ := step_delete h
    intro j task htask hrecovered
    by_cases hid : j = id
    · subst hid
      dsimp only at htask
      rw [Finmap.lookup_erase] at htask
      cases htask
    · exact hs.of_same ((Finmap.lookup_erase_ne hid).symm.trans htask) hrecovered rfl rfl
        (Function.update_of_ne hid ..)
  | recover found =>
    obtain rfl := Option.some.inj h
    intro j task htask hrecovered
    obtain htask | ⟨snapshot, hmem, rfl⟩ := lookup_insertRecovered htask
    · exact hs.of_same htask (fun hmem => hrecovered (List.mem_append_right _ hmem)) rfl rfl rfl
    · exact absurd (List.mem_append_left _ (List.mem_map_of_mem hmem)) hrecovered
  | run id e => exact hs.step_run hwf h

end Step

/-- The snapshot of a task that was being downloaded. -/
def downloadingSnapshot : TaskSnapshot where
  id := "task-1"
  url := "https://example.com/model.bin"
  savePath := "/downloads/model.bin"
  fileName := "model.bin"
  fileSize := some 1000
  downloaded := 250
  completedFragments := [0]
  totalFragments := 4
  fragmentSize := 0
  status := .downloading
  etag := none
  lastModified := none
  contentLength := some 1000
  createdAt := "2026-05-29T00:00:00Z"
  updatedAt := "2026-05-29T00:00:01Z"
  failReason := none
  retryCount := 0

end AppState

end Tachyon
