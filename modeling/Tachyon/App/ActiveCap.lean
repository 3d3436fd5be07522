import Tachyon.App.Commands
import Mathlib.Data.Finset.Card

/-!
# The cap on active tasks

`create_task_inner` counts the tasks that are Pending or Downloading. `resume_task` and
`load_recovered_tasks` make tasks count without a look at the cap, and a `task_fn` that ends
leaves the counted entry as it was.
-/

namespace Tachyon

open EventRuns

/-- The statuses that count. -/
def TaskInfo.Active (task : TaskInfo) : Prop := task.status = .downloading ∨ task.status = .pending

instance (task : TaskInfo) : Decidable task.Active := inferInstanceAs (Decidable (_ ∨ _))

/-- The tasks that count. -/
def Tasks.activeIds (tasks : Tasks) : Finset String :=
  ((tasks.entries.filter fun entry => entry.2.Active).map Sigma.fst).toFinset

theorem Tasks.mem_activeIds {tasks : Tasks} {id : String} :
    id ∈ tasks.activeIds ↔ ∃ task, tasks.lookup id = some task ∧ task.Active := by
  simp only [activeIds, Multiset.mem_toFinset, Multiset.mem_map, Multiset.mem_filter]
  constructor
  · rintro ⟨⟨j, task⟩, ⟨hentry, hactive⟩, rfl⟩
    exact ⟨task, Finmap.mem_lookup_iff.mpr hentry, hactive⟩
  · rintro ⟨task, htask, hactive⟩
    exact ⟨⟨id, task⟩, ⟨Finmap.mem_lookup_iff.mp htask, hactive⟩, rfl⟩

theorem Tasks.card_activeIds {tasks : Tasks} : tasks.activeIds.card = tasks.activeCount := by
  have hnodup : ((tasks.entries.filter fun entry => entry.2.Active).map Sigma.fst).Nodup :=
    Multiset.nodup_of_le (Multiset.map_le_map (Multiset.filter_le _ _)) tasks.nodupKeys.nodup_keys
  rw [activeIds, Multiset.toFinset_card_of_nodup hnodup, Multiset.card_map, activeCount,
    Multiset.countP_eq_card_filter]
  rfl

/-- The phases in which a `task_fn` downloads, or is on its way to. -/
def RunPhase.underway : RunPhase → Bool
  | .finished _ | .notified | .joined | .cleaned | .persisting _ | .exiting | .returned => false
  | _ => true

/-- The event is the end of the download of a `task_fn`, whose map has the given entry. -/
def TaskRun.Ends (r : TaskRun) (entry : Option TaskInfo) : RunEvent → Prop
  | .fail | .finish _ | .probe (.error _) => True
  | .check => entry.map TaskInfo.status = some .cancelled
  | .checkControl => r.control.value = .cancelled
  | _ => False

/-- A `task_fn` under way goes on, on the same channel, unless its download ends. -/
theorem TaskRun.step_underway {r : TaskRun} {id : String} {tasks : Tasks}
    {stored : Option TaskSnapshot} {registered : Bool} {e : RunEvent} {x : Effect}
    (h : r.step id tasks stored registered e = some x) (hunderway : r.phase.underway = true)
    (hends : ¬r.Ends (tasks.lookup id) e) :
    x.run.phase.underway = true ∧ x.run.control = r.control := by
  cases e with
  | fail => exact absurd trivial hends
  | finish result => exact absurd trivial hends
  | check =>
    obtain ⟨-, ⟨-, hcancelled⟩ | ⟨rfl, -⟩⟩ := TaskRun.step_check h
    · exact absurd hcancelled hends
    · exact ⟨rfl, rfl⟩
  | checkControl =>
    have hcontrol : r.control.value ≠ .cancelled := hends
    dsimp only [TaskRun.step, TaskRun.fnStep] at h
    split at h
    · rw [if_neg hcontrol] at h
      obtain rfl := Option.some.inj h
      exact ⟨rfl, rfl⟩
    · rw [if_neg hcontrol] at h
      obtain rfl := Option.some.inj h
      exact ⟨rfl, rfl⟩
    · cases h
  | probe result =>
    obtain ⟨-, ⟨metadata, rfl, rfl⟩ | ⟨rfl, rfl⟩ | ⟨error, rfl, -, rfl⟩⟩ := TaskRun.step_probe h
    · exact ⟨rfl, rfl⟩
    · exact absurd trivial hends
    · exact absurd trivial hends
  | mark =>
    obtain ⟨-, rfl⟩ := TaskRun.step_mark h
    exact ⟨rfl, rfl⟩
  | inject =>
    obtain ⟨-, rfl⟩ := TaskRun.step_inject h
    exact ⟨rfl, rfl⟩
  | size =>
    obtain ⟨metadata, -, rfl⟩ := TaskRun.step_size h
    exact ⟨rfl, rfl⟩
  | copy =>
    obtain ⟨metadata, -, ⟨task, -, rfl⟩ | ⟨-, rfl⟩⟩ := TaskRun.step_copy h
    · exact ⟨rfl, rfl⟩
    · exact ⟨rfl, rfl⟩
  | saveMetadata now saved =>
    obtain ⟨metadata, task, -, rfl⟩ := TaskRun.step_saveMetadata h
    exact ⟨rfl, rfl⟩
  | notify =>
    obtain ⟨terminal, control, hphase, -⟩ := TaskRun.step_notify h
    simp [hphase, RunPhase.underway] at hunderway
  | join =>
    obtain ⟨hphase, -⟩ := TaskRun.step_join h
    simp [hphase, RunPhase.underway] at hunderway
  | cleanup =>
    obtain ⟨hphase, -⟩ | ⟨hphase, -⟩ := TaskRun.step_cleanup h
    · simp [hphase, RunPhase.underway] at hunderway
    · simp [hphase, RunPhase.underway] at hunderway
  | report =>
    obtain ⟨hphase, -⟩ := TaskRun.step_report h
    simp [hphase, RunPhase.underway] at hunderway
  | persist e =>
    obtain ⟨phase, next, save, hphase, -, -⟩ := TaskRun.step_persist h
    simp [hphase, RunPhase.underway] at hunderway
  | receive progress =>
    obtain ⟨reader, -, rfl⟩ := TaskRun.step_receive h
    exact ⟨hunderway, rfl⟩
  | checkpointLoad readable =>
    obtain ⟨reader, phase, -, rfl⟩ := TaskRun.step_checkpointLoad h
    exact ⟨hunderway, rfl⟩
  | checkpointSave saved =>
    obtain ⟨reader, loaded, -, -, rfl⟩ := TaskRun.step_checkpointSave h
    exact ⟨hunderway, rfl⟩
  | readerDone =>
    obtain ⟨reader, -, rfl⟩ := TaskRun.step_readerDone h
    exact ⟨hunderway, rfl⟩
  | controlChanged =>
    obtain ⟨monitor, monitor', -, ⟨-, rfl⟩ | ⟨-, -, rfl⟩⟩ := TaskRun.step_controlChanged h
    · exact ⟨hunderway, rfl⟩
    · exact ⟨hunderway, rfl⟩
  | measure =>
    obtain ⟨monitor, monitor', -, rfl⟩ := TaskRun.step_measure h
    exact ⟨hunderway, rfl⟩
  | showSpeed elapsed =>
    obtain ⟨monitor, monitor', downloaded, status, -, -, rfl⟩ := TaskRun.step_showSpeed h
    exact ⟨hunderway, rfl⟩
  | broadcast =>
    obtain ⟨monitor, monitor', speed, downloaded, -, -, rfl⟩ := TaskRun.step_broadcast h
    exact ⟨hunderway, rfl⟩

namespace AppState

/-- The error of `create_task` at the cap. -/
def capReached (maxTasks : ℕ) : AppError :=
  .config s!"已达最大并发任务数({maxTasks}),请等待现有任务完成"

/-- The task is being downloaded or waits to be: its `create_task` has not registered it yet, or its
`task_fn` is under way and not paused. -/
def Working (s : AppState) (id : String) : Prop :=
  (∃ creation, s.creations id = some creation ∧ creation.phase ≠ .registered) ∨
    ∃ r, s.runs id = some r ∧ r.phase.underway = true ∧ r.control.value = .downloading

/-- A resumed task would be: the `task_fn` it wakes is under way. -/
def Attended (s : AppState) (id : String) : Prop :=
  (∃ creation, s.creations id = some creation ∧ creation.phase ≠ .registered) ∨
    s.controls id = true ∧ ∃ r, s.runs id = some r ∧ r.phase.underway = true

/-- No more tasks count than the cap allows, and one that is refused for the cap finds that many at
work. -/
structure CapExact (text : Ipv6Addr → String) (maxTasks : ℕ) (s : AppState) : Prop where
  bound : s.tasks.activeCount ≤ maxTasks
  reason : ∀ id request downloadDir, request.maxTasks = maxTasks →
    request.validate text = .ok downloadDir →
    s.create text id request = .error (capReached maxTasks) →
    ∃ ids : Finset String, maxTasks ≤ ids.card ∧ ∀ j ∈ ids, s.Working j

/-- The tasks that count after a recovery: those it does not replace, and those it brings back that
were Downloading. -/
def activeAfter (s : AppState) (found : List String) : Finset String :=
  (s.tasks.activeIds.filter fun id => ∀ snapshot ∈ s.recoverable found, snapshot.id ≠ id) ∪
    (((s.recoverable found).filter fun snapshot => snapshot.status = .downloading).map
      TaskSnapshot.id).toFinset

/-- No task is resumed at the cap or without its `task_fn`, no recovery brings more back than the
cap allows, or a task without its `task_fn`, and no download of a task that counts ends. -/
def KeepsCap (maxTasks : ℕ) (s : AppState) : AppEvent → Prop
  | .command .resume id => s.tasks.activeCount < maxTasks ∧ s.Attended id
  | .recover found => (s.activeAfter found).card ≤ maxTasks ∧
    ∀ snapshot ∈ s.recoverable found, snapshot.status = .downloading → s.Working snapshot.id
  | .run id e => ∀ task r, s.tasks.lookup id = some task → task.Active → s.runs id = some r →
    ¬r.Ends ((s.copies id).lookup id) e
  | _ => True

/-- The cap is kept, and whatever counts is at work. -/
structure Capped (maxTasks : ℕ) (s : AppState) : Prop where
  bound : s.tasks.activeIds.card ≤ maxTasks
  working : ∀ id ∈ s.tasks.activeIds, s.Working id

section Steps

variable {text : Ipv6Addr → String} {maxTasks : ℕ} {s s' : AppState} {id : String} {e : AppEvent}

theorem Working.congr (h : s.Working id) (hcreations : s'.creations id = s.creations id)
    (hruns : s'.runs id = s.runs id) : s'.Working id := by
  unfold Working
  rwa [hcreations, hruns]

theorem mem_activeIds_insert {tasks : Tasks} {task : TaskInfo} {j : String}
    (h : j ∈ Tasks.activeIds (tasks.insert id task)) :
    j = id ∧ task.Active ∨ j ≠ id ∧ j ∈ tasks.activeIds := by
  obtain ⟨task', htask', hactive⟩ := Tasks.mem_activeIds.mp h
  by_cases hj : j = id
  · subst hj
    rw [Finmap.lookup_insert] at htask'
    obtain rfl := Option.some.inj htask'
    exact .inl ⟨rfl, hactive⟩
  · rw [Finmap.lookup_insert_of_ne _ hj] at htask'
    exact .inr ⟨hj, Tasks.mem_activeIds.mpr ⟨task', htask', hactive⟩⟩

/-- A new entry makes at most one task more active. -/
theorem card_activeIds_insert_le (tasks : Tasks) (id : String) (task : TaskInfo) :
    (Tasks.activeIds (tasks.insert id task)).card ≤ tasks.activeIds.card + 1 := by
  have hsubset : Tasks.activeIds (tasks.insert id task) ⊆ insert id tasks.activeIds := by
    intro j hj
    obtain ⟨rfl, -⟩ | ⟨-, hj⟩ := mem_activeIds_insert hj
    · exact Finset.mem_insert_self ..
    · exact Finset.mem_insert_of_mem hj
  exact (Finset.card_le_card hsubset).trans (Finset.card_insert_le _ _)

theorem mem_activeIds_erase {tasks : Tasks} {j : String}
    (h : j ∈ Tasks.activeIds (tasks.erase id)) : j ≠ id ∧ j ∈ tasks.activeIds := by
  obtain ⟨task, htask, hactive⟩ := Tasks.mem_activeIds.mp h
  by_cases hj : j = id
  · subst hj
    rw [Finmap.lookup_erase] at htask
    cases htask
  · rw [Finmap.lookup_erase_ne hj] at htask
    exact ⟨hj, Tasks.mem_activeIds.mpr ⟨task, htask, hactive⟩⟩

/-- Nothing counts that did not count before. -/
theorem Capped.of_subset (h : s.Capped maxTasks) (htasks : s'.tasks.activeIds ⊆ s.tasks.activeIds)
    (hworking : ∀ j ∈ s'.tasks.activeIds, s.Working j → s'.Working j) : s'.Capped maxTasks where
  bound := (Finset.card_le_card htasks).trans h.bound
  working j hj := hworking j hj (h.working j (htasks hj))

theorem Capped.create {request : CreateRequest} (h : s.Capped maxTasks)
    (hrequest : request.maxTasks = maxTasks)
    (hstep : s.step text .copied (.create id request) = some s') : s'.Capped maxTasks := by
  obtain ⟨-, downloadDir, -, -, hcount, rfl⟩ := step_create hstep
  rw [← Tasks.card_activeIds] at hcount
  constructor
  · have hcard := card_activeIds_insert_le s.tasks id (request.task text id)
    dsimp only
    omega
  · intro j hj
    obtain ⟨rfl, -⟩ | ⟨hne, hj⟩ := mem_activeIds_insert hj
    · exact .inl ⟨_, Function.update_self .., by simp⟩
    · exact (h.working j hj).congr (Function.update_of_ne hne ..) rfl

/-- A creation goes on before it registers its task. -/
theorem Capped.creating {creation : Creation} {store : String → Option TaskSnapshot}
    {copies : String → Tasks} (h : s.Capped maxTasks) (hphase : creation.phase ≠ .registered) :
    Capped maxTasks { s with
      creations := Function.update s.creations id (some creation)
      store := store
      copies := copies } := by
  refine h.of_subset (Finset.Subset.refl _) fun j _ hworking => ?_
  by_cases hj : j = id
  · subst hj
    exact .inl ⟨creation, Function.update_self .., hphase⟩
  · exact hworking.congr (Function.update_of_ne hj ..) rfl

theorem Capped.creation {e : CreationEvent} (h : s.Capped maxTasks)
    (hstep : s.step text .copied (.creation id e) = some s') : s'.Capped maxTasks := by
  obtain ⟨creation, hcreation, hstep⟩ := step_creation hstep
  cases e with
  | copy =>
    obtain ⟨phase, -, hnext, rfl⟩ := creationStep_copy hstep
    exact h.creating (by rintro rfl; simp at hnext)
  | save now saved =>
    obtain ⟨task, store, -, rfl⟩ := creationStep_save hstep
    exact h.creating (by simp)
  | configure maxConcurrentFragments =>
    obtain ⟨-, ⟨-, rfl⟩ | ⟨-, rfl⟩⟩ := creationStep_configure hstep
    · refine h.of_subset (fun j hj => (mem_activeIds_erase hj).2) fun j hj hworking => ?_
      exact hworking.congr (Function.update_of_ne (mem_activeIds_erase hj).1 ..) rfl
    · exact h.creating (by simp)
  | clone =>
    obtain ⟨-, rfl⟩ := creationStep_clone hstep
    exact h.creating (by simp)
  | register =>
    obtain ⟨-, rfl⟩ := creationStep_register hstep
    refine h.of_subset (Finset.Subset.refl _) fun j _ hworking => ?_
    by_cases hj : j = id
    · subst hj
      exact .inr ⟨_, Function.update_self .., rfl, rfl⟩
    · exact hworking.congr (Function.update_of_ne hj ..) (Function.update_of_ne hj ..)
  | start =>
    obtain ⟨hphase, rfl⟩ := creationStep_start hstep
    refine h.of_subset (Finset.Subset.refl _) fun j _ hworking => ?_
    by_cases hj : j = id
    · subst hj
      obtain ⟨c, hc, hne⟩ | ⟨r, hr, hunderway, hcontrol⟩ := hworking
      · obtain rfl := Option.some.inj (hcreation.symm.trans hc)
        exact absurd hphase hne
      · refine .inr ⟨r.start, by simp [hr], ?_, ?_⟩
        · unfold TaskRun.start
          split
          · rfl
          · exact hunderway
        · unfold TaskRun.start
          split <;> exact hcontrol
    · exact hworking.congr (Function.update_of_ne hj ..) (Function.update_of_ne hj ..)

theorem Capped.command {c : Command} (h : s.Capped maxTasks)
    (hkeeps : s.KeepsCap maxTasks (.command c id))
    (hstep : s.step text .copied (.command c id) = some s') : s'.Capped maxTasks := by
  obtain ⟨task, task', htask, happly, rfl⟩ := command_eq_ok (step_command hstep)
  have hother : ∀ j ≠ id, s.Working j → Working { s with
      tasks := s.tasks.insert id task'
      runs := if s.controls id then
          Function.update s.runs id ((s.runs id).map fun r =>
            { r with control := r.control.send c.sent })
        else s.runs
      calls := s.calls ++ [⟨c, id, .copying⟩]
      history := .called c id :: s.history } j := by
    intro j hj hworking
    refine hworking.congr rfl ?_
    dsimp only
    split
    · exact Function.update_of_ne hj ..
    · rfl
  have hinactive : c ≠ .resume → ¬task'.Active := by
    intro hc
    cases c with
    | resume => exact absurd rfl hc
    | pause =>
      simp only [Command.apply] at happly
      split at happly
      · obtain rfl := Option.some.inj happly
        simp [TaskInfo.Active]
      · cases happly
    | cancel =>
      simp only [Command.apply] at happly
      split at happly
      · cases happly
      · obtain rfl := Option.some.inj happly
        simp [TaskInfo.Active]
  by_cases hc : c = .resume
  · subst hc
    obtain ⟨hcount, hattended⟩ := hkeeps
    rw [← Tasks.card_activeIds] at hcount
    constructor
    · have hcard := card_activeIds_insert_le s.tasks id task'
      dsimp only
      omega
    · intro j hj
      obtain ⟨rfl, -⟩ | ⟨hne, hj⟩ := mem_activeIds_insert hj
      · obtain hcreation | ⟨hcontrol, r, hr, hunderway⟩ := hattended
        · exact .inl hcreation
        · refine .inr ⟨{ r with control := r.control.send .downloading }, ?_, hunderway, rfl⟩
          simp [hcontrol, hr, Command.sent]
      · exact hother j hne (h.working j hj)
  · refine h.of_subset (fun j hj => ?_) fun j hj hworking => ?_
    · obtain ⟨-, hactive⟩ | ⟨-, hj⟩ := mem_activeIds_insert hj
      · exact absurd hactive (hinactive hc)
      · exact hj
    · obtain ⟨-, hactive⟩ | ⟨hne, -⟩ := mem_activeIds_insert hj
      · exact absurd hactive (hinactive hc)
      · exact hother j hne hworking

/-- An entry after a recovery is that of a snapshot, or no snapshot replaces it. -/
theorem lookup_recovered {tasks : Tasks} {snapshots : List TaskSnapshot} {task : TaskInfo}
    (h : (insertRecovered tasks snapshots).lookup id = some task) :
    (∃ snapshot ∈ snapshots, snapshot.id = id ∧ task = snapshotToTaskInfo snapshot) ∨
      (∀ snapshot ∈ snapshots, snapshot.id ≠ id) ∧ tasks.lookup id = some task := by
  induction snapshots generalizing tasks with
  | nil => exact .inr ⟨by simp, h⟩
  | cons snapshot snapshots ih =>
    obtain ⟨other, hmem, hid, htask⟩ | ⟨hnone, hlookup⟩ := ih h
    · exact .inl ⟨other, List.mem_cons_of_mem _ hmem, hid, htask⟩
    · by_cases hid : id = snapshot.id
      · subst hid
        rw [Finmap.lookup_insert] at hlookup
        exact .inl ⟨snapshot, List.mem_cons_self, rfl, (Option.some.inj hlookup).symm⟩
      · rw [Finmap.lookup_insert_of_ne _ hid] at hlookup
        refine .inr ⟨fun other hother => ?_, hlookup⟩
        obtain rfl | hother := List.mem_cons.mp hother
        · exact fun heq => hid heq.symm
        · exact hnone other hother

/-- A recovered task counts if and only if its snapshot was Downloading. -/
theorem active_snapshotToTaskInfo {snapshot : TaskSnapshot} (h : snapshot.recoverable = true)
    (hactive : (snapshotToTaskInfo snapshot).Active) : snapshot.status = .downloading := by
  simp only [TaskSnapshot.recoverable, Bool.or_eq_true, decide_eq_true_eq] at h
  obtain hstatus | hstatus := h
  · exact hstatus
  · simp [TaskInfo.Active, snapshotToTaskInfo, hstatus, normalizeRecoveredStatus] at hactive

theorem Capped.recover {found : List String} (h : s.Capped maxTasks)
    (hkeeps : s.KeepsCap maxTasks (.recover found))
    (hstep : s.step text .copied (.recover found) = some s') : s'.Capped maxTasks := by
  obtain rfl := Option.some.inj hstep
  obtain ⟨hcount, hworking⟩ := hkeeps
  have hactive : ∀ j ∈ Tasks.activeIds (insertRecovered s.tasks (s.recoverable found)),
      (∃ snapshot ∈ s.recoverable found, snapshot.status = .downloading ∧ snapshot.id = j) ∨
        (∀ snapshot ∈ s.recoverable found, snapshot.id ≠ j) ∧ j ∈ s.tasks.activeIds := by
    intro j hj
    obtain ⟨task, htask, hactive⟩ := Tasks.mem_activeIds.mp hj
    obtain ⟨snapshot, hmem, hid, rfl⟩ | ⟨hnone, htask⟩ := lookup_recovered htask
    · exact .inl ⟨snapshot, hmem, active_snapshotToTaskInfo (List.mem_filter.mp hmem).2 hactive,
        hid⟩
    · exact .inr ⟨hnone, Tasks.mem_activeIds.mpr ⟨task, htask, hactive⟩⟩
  constructor
  · refine (Finset.card_le_card fun j hj => ?_).trans hcount
    simp only [activeAfter, Finset.mem_union, Finset.mem_filter, List.mem_toFinset, List.mem_map,
      List.mem_filter, decide_eq_true_eq]
    obtain ⟨snapshot, hmem, hstatus, hid⟩ | ⟨hnone, hj⟩ := hactive j hj
    · exact .inr ⟨snapshot, ⟨hmem, hstatus⟩, hid⟩
    · exact .inl ⟨hj, hnone⟩
  · intro j hj
    obtain ⟨snapshot, hmem, hstatus, rfl⟩ | ⟨-, hj⟩ := hactive j hj
    · exact (hworking snapshot hmem hstatus).congr rfl rfl
    · exact (h.working j hj).congr rfl rfl

theorem Capped.run {e : RunEvent} (h : s.Capped maxTasks) (hkeeps : s.KeepsCap maxTasks (.run id e))
    (hstep : s.step text .copied (.run id e) = some s') : s'.Capped maxTasks := by
  obtain ⟨r, x, hr, hx, rfl⟩ := AppState.step_run hstep
  refine h.of_subset (Finset.Subset.refl _) fun j hj hworking => ?_
  by_cases hid : j = id
  · subst hid
    obtain hcreation | ⟨r', hr', hunderway, hcontrol⟩ := hworking
    · exact .inl hcreation
    · obtain rfl := Option.some.inj (hr.symm.trans hr')
      obtain ⟨task, htask, hactive⟩ := Tasks.mem_activeIds.mp hj
      obtain ⟨hstill, hsame⟩ := TaskRun.step_underway hx hunderway (hkeeps task r htask hactive hr)
      exact .inr ⟨x.run, Function.update_self .., hstill, by rwa [hsame]⟩
  · exact hworking.congr rfl (Function.update_of_ne hid ..)

/-- A step that keeps to the condition keeps the cap. -/
theorem Capped.step (h : s.Capped maxTasks) (hkeeps : s.KeepsCap maxTasks e)
    (hcreate : ∀ id request, e = .create id request → request.maxTasks = maxTasks)
    (hstep : s.step text .copied e = some s') : s'.Capped maxTasks := by
  cases e with
  | create id request => exact h.create (hcreate id request rfl) hstep
  | creation id e => exact h.creation hstep
  | command c id => exact h.command hkeeps hstep
  | persist call e =>
    obtain ⟨c, store, calls, returned, -, -, rfl⟩ := step_persist hstep
    exact h.of_subset (Finset.Subset.refl _) fun j _ hworking => hworking.congr rfl rfl
  | delete id =>
    obtain ⟨task, -, -, rfl⟩ := step_delete hstep
    exact h.of_subset (fun j hj => (mem_activeIds_erase hj).2) fun j _ hworking =>
      hworking.congr rfl rfl
  | recover found => exact h.recover hkeeps hstep
  | run id e => exact h.run hkeeps hstep

/-- A task is refused for the cap when that many count. -/
theorem create_capReached {request : CreateRequest} {downloadDir : String}
    (hvalid : request.validate text = .ok downloadDir)
    (h : s.create text id request = .error (capReached maxTasks)) :
    request.maxTasks ≤ s.tasks.activeCount := by
  simp only [AppState.create, hvalid, bind, Except.bind] at h
  split at h
  · cases h
  · split at h
    case isTrue hfull => exact hfull
    case isFalse => cases h

/-- A valid request for a new URL is refused when as many tasks count as it allows. -/
theorem create_full {request : CreateRequest} {downloadDir : String}
    (hvalid : request.validate text = .ok downloadDir)
    (hurl : s.tasks.hasUrl (redactUrlForLog text request.url) = false)
    (hcount : request.maxTasks ≤ s.tasks.activeCount) :
    s.create text id request = .error (capReached request.maxTasks) := by
  simp only [AppState.create, hvalid, bind, Except.bind]
  rw [if_neg (by simp [CreateRequest.task, hurl]), if_pos hcount]
  rfl

theorem Capped.capExact (h : s.Capped maxTasks) : s.CapExact text maxTasks where
  bound := by
    rw [← Tasks.card_activeIds]
    exact h.bound
  reason id request downloadDir hmax hvalid hrefused := by
    have hcount := create_capReached hvalid hrefused
    rw [hmax, ← Tasks.card_activeIds] at hcount
    exact ⟨s.tasks.activeIds, hcount, h.working⟩

end Steps

theorem capped_new (maxTasks : ℕ) (store : String → Option TaskSnapshot) :
    (AppState.new store).Capped maxTasks where
  bound := Nat.zero_le _
  working id h := by
    obtain ⟨task, htask, -⟩ := Tasks.mem_activeIds.mp h
    cases htask

/-- In every run with a fixed cap that keeps to the condition, the cap is exact in every state. -/
theorem active_cap_exact (text : Ipv6Addr → String) (store : String → Option TaskSnapshot)
    (maxTasks : ℕ) (events : List AppEvent)
    (hcreate : ∀ id request, .create id request ∈ events → request.maxTasks = maxTasks)
    (hkeeps : EachStep (step text .copied) (KeepsCap maxTasks) (AppState.new store) events) :
    EachState (step text .copied) (CapExact text maxTasks) (AppState.new store) events := by
  have hallowed : ∀ e ∈ events, ∀ id request, e = .create id request →
      request.maxTasks = maxTasks := by
    rintro e he id request rfl
    exact hcreate id request he
  have hstates := (hkeeps.and_of_mem hallowed).eachState
    (fun s e s' h hc hstep => h.step hc.2 hc.1 hstep) (capped_new maxTasks store)
  exact hstates.imp fun s h => h.capExact

/-- A request for a cap of one task. -/
def singleRequest (host : String) : CreateRequest := { exampleRequest host with maxTasks := 1 }

/-- A task is created under a cap of one. -/
def createdAlone (id host : String) : List AppEvent :=
  .create id (singleRequest host) :: (created id host).tail

/-- The steps of one task. -/
def stepOf (id : String) : AppEvent → Prop
  | .create j _ | .creation j _ | .command _ j | .delete j | .run j _ => j = id
  | .persist _ _ | .recover _ => False

/-- Only this task has been created or run. -/
def Alone (id : String) (s : AppState) : Prop :=
  ∀ j ≠ id, s.creations j = none ∧ s.runs j = none

/-- Its steps leave a task alone. -/
theorem Alone.step {text : Ipv6Addr → String} {s s' : AppState} {id : String} {e : AppEvent}
    (h : s.Alone id) (he : stepOf id e) (hstep : s.step text .copied e = some s') :
    s'.Alone id := by
  intro j hj
  obtain ⟨hcreations, hruns⟩ := h j hj
  cases e with
  | create id' request =>
    obtain rfl : id' = id := he
    obtain ⟨-, downloadDir, -, -, -, rfl⟩ := step_create hstep
    exact ⟨by simp [hj, hcreations], hruns⟩
  | creation id' e =>
    obtain rfl : id' = id := he
    obtain ⟨creation, -, hstep⟩ := step_creation hstep
    have hsame := (creationStep_frame hstep).2 j hj
    exact ⟨hsame.creations.trans hcreations, hsame.runs.trans hruns⟩
  | command c id' =>
    obtain rfl : id' = id := he
    obtain ⟨task, task', -, -, rfl⟩ := command_eq_ok (step_command hstep)
    refine ⟨hcreations, ?_⟩
    split
    · simp [hj, hruns]
    · exact hruns
  | delete id' =>
    obtain ⟨task, -, -, rfl⟩ := step_delete hstep
    exact ⟨hcreations, hruns⟩
  | run id' e =>
    obtain rfl : id' = id := he
    obtain ⟨r, x, -, -, rfl⟩ := step_run hstep
    exact ⟨hcreations, (Function.update_of_ne hj ..).trans hruns⟩
  | persist call e => exact he.elim
  | recover found => exact he.elim

/-- A task is created, paused and resumed. -/
theorem active_cap_exact_resumed : EachState (step (fun _ => "") .copied)
    (CapExact (fun _ => "") 1) (AppState.new fun _ => none)
    (createdAlone "a" "example.com" ++ [.command .pause "a", .command .resume "a"]) := by
  refine active_cap_exact (fun _ => "") (fun _ => none) 1 _ ?_ ?_
  · intro id request hmem
    simp only [createdAlone, created, List.tail_cons, List.cons_append, List.nil_append,
      List.mem_cons, AppEvent.create.injEq, reduceCtorEq, List.not_mem_nil, or_false] at hmem
    obtain ⟨-, rfl⟩ := hmem
    rfl
  · refine EachStep.concat (EachStep.of_mem fun e he s => ?_) fun s hs s₁ hs₁ =>
      ⟨trivial, fun s₂ _ => ⟨?_, trivial⟩⟩
    · simp only [createdAlone, created, List.tail_cons, List.mem_cons, List.not_mem_nil,
        or_false] at he
      obtain rfl | rfl | rfl | rfl | rfl | rfl | rfl := he <;> exact trivial
    · have hrun : (((run (step (fun _ => "") .copied) (AppState.new fun _ => none)
          (createdAlone "a" "example.com")).bind fun s =>
            s.step (fun _ => "") .copied (.command .pause "a")).all fun s =>
              s.tasks.activeCount < 1 && s.controls "a" &&
                (s.runs "a").any fun r => r.phase.underway) = true := by
        decide +kernel
      simp only [hs, hs₁, Option.bind_some, Option.all_some, Bool.and_eq_true,
        decide_eq_true_eq] at hrun
      obtain ⟨⟨hcount, hcontrol⟩, hunderway⟩ := hrun
      exact ⟨hcount, .inr ⟨hcontrol, (Option.any_eq_true _ _).mp hunderway⟩⟩

/-- A task is created under a cap of one, and its `DownloadTask` cannot be made. -/
def failedAlone : List AppEvent :=
  createdAlone "a" "example.com" ++ [.run "a" .check, .run "a" .mark, .run "a" .fail]

theorem stepOf_failedAlone : ∀ e ∈ failedAlone, stepOf "a" e := by
  intro e he
  simp only [failedAlone, createdAlone, created, List.tail_cons, List.cons_append, List.nil_append,
    List.mem_cons, List.not_mem_nil, or_false] at he
  obtain rfl | rfl | rfl | rfl | rfl | rfl | rfl | rfl | rfl | rfl := he <;> exact rfl

/-- A second task starts while the first is paused, which is then resumed; and a task whose download
has failed keeps its place. -/
theorem cap_exceeded_and_refused :
    (∃ s, run (step (fun _ => "") .copied) (AppState.new fun _ => none)
      (createdAlone "a" "example.com" ++ [.command .pause "a"] ++
        createdAlone "b" "example.org" ++ [.command .resume "a"]) = some s ∧
      ¬s.CapExact (fun _ => "") 1) ∧
    ∃ s, run (step (fun _ => "") .copied) (AppState.new fun _ => none)
      failedAlone = some s ∧ ¬s.CapExact (fun _ => "") 1 := by
  constructor
  · have hrun : ((run (step (fun _ => "") .copied) (AppState.new fun _ => none)
        (createdAlone "a" "example.com" ++ [.command .pause "a"] ++
          createdAlone "b" "example.org" ++ [.command .resume "a"])).any fun s =>
          s.tasks.activeCount = 2) = true := by
      decide +kernel
    obtain ⟨s, hs, hcount⟩ := (Option.any_eq_true _ _).mp hrun
    refine ⟨s, hs, fun h => ?_⟩
    have hbound := h.bound
    simp only [decide_eq_true_eq] at hcount
    omega
  · have hrun : ((run (step (fun _ => "") .copied) (AppState.new fun _ => none) failedAlone).any
        fun s => (s.runs "a").all (fun r => !r.phase.underway) && (s.creations "a").isNone &&
          !s.tasks.hasUrl (redactUrlForLog (fun _ => "") (singleRequest "example.org").url) &&
          1 ≤ s.tasks.activeCount) = true := by
      decide +kernel
    obtain ⟨s, hs, hfacts⟩ := (Option.any_eq_true _ _).mp hrun
    simp only [Bool.and_eq_true, Bool.not_eq_true', Option.isNone_iff_eq_none, Option.all_eq_true,
      decide_eq_true_eq] at hfacts
    obtain ⟨⟨⟨hover, hcreation⟩, hurl⟩, hcount⟩ := hfacts
    have halone : s.Alone "a" := run_invariant (fun s e s' h he hstep => h.step he hstep)
      (fun _ _ => ⟨rfl, rfl⟩) (EachStep.of_mem fun e he s => stepOf_failedAlone e he) hs
    refine ⟨s, hs, fun h => ?_⟩
    have hvalid := toOption_eq_some.mp
      (show ((singleRequest "example.org").validate fun _ => "").toOption = some "/downloads" by
        decide +kernel)
    obtain ⟨ids, hcard, hworking⟩ := h.reason "b" (singleRequest "example.org") "/downloads" rfl
      hvalid (create_full hvalid hurl hcount)
    obtain ⟨j, hj⟩ := Finset.card_pos.mp hcard
    by_cases hid : j = "a"
    · subst hid
      obtain ⟨creation, hcreation', -⟩ | ⟨r, hr, hunderway, -⟩ := hworking _ hj
      · rw [hcreation] at hcreation'
        cases hcreation'
      · have hover := hover r hr
        simp [hunderway] at hover
    · obtain ⟨creation, hcreation', -⟩ | ⟨r, hr, -⟩ := hworking j hj
      · rw [(halone j hid).1] at hcreation'
        cases hcreation'
      · rw [(halone j hid).2] at hr
        cases hr

end AppState

end Tachyon
