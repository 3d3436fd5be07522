import Tachyon.App.Commands

/-!
# Where a task comes from

What holds of the identifier and the shown URL of a task when it is accepted holds of every record
of it: its entries in all maps, its copies in calls and runs under way, and its snapshots. No step
writes the URL of a task.
-/

namespace Tachyon

open EventRuns

section Records

variable (Made : String → String → Prop) (id : String)

/-- The entry is of the task, with a URL it was made for. -/
def TaskInfo.Keeps (task : TaskInfo) : Prop := task.id = id ∧ Made id task.url

/-- The snapshot is of the task, with a URL it was made for. -/
def TaskSnapshot.Keeps (snapshot : TaskSnapshot) : Prop := snapshot.id = id ∧ Made id snapshot.url

/-- Every entry of the map is of its task. -/
def Tasks.Keeps (tasks : Tasks) : Prop :=
  ∀ id task, tasks.lookup id = some task → task.Keeps Made id

def PersistPhase.Keeps : PersistPhase → Prop
  | .copying => True
  | .loading task | .saving task _ => task.Keeps Made id

def RunPhase.Keeps : RunPhase → Prop
  | .copied _ task => task.Keeps Made id
  | .persisting phase => phase.Keeps Made id
  | _ => True

def ReaderPhase.Keeps : ReaderPhase → Prop
  | .saving loaded => loaded.Keeps Made id
  | _ => True

def CreationPhase.Keeps : CreationPhase → Prop
  | .copied task => task.Keeps Made id
  | _ => True

/-- What the run holds of the task. -/
structure TaskRun.Keeps (r : TaskRun) : Prop where
  phase : r.phase.Keeps Made id
  reader : ∀ reader, r.reader = some reader → reader.phase.Keeps Made id

/-- What a step of the run writes of the task. -/
structure Effect.Keeps (x : Effect) : Prop where
  run : x.run.Keeps Made id
  entry : ∀ task, x.entry = some task → task.Keeps Made id
  save : ∀ snapshot, x.save = some snapshot → snapshot.Keeps Made id

/-- Every record of every task. -/
structure AppState.Keeps (s : AppState) : Prop where
  tasks : Tasks.Keeps Made s.tasks
  copies : ∀ id, Tasks.Keeps Made (s.copies id)
  store : ∀ id snapshot, s.store id = some snapshot → snapshot.Keeps Made id
  creations : ∀ id creation, s.creations id = some creation → creation.phase.Keeps Made id
  runs : ∀ id r, s.runs id = some r → r.Keeps Made id
  calls : ∀ call ∈ s.calls, call.phase.Keeps Made call.id

end Records

section Updates

variable {Made : String → String → Prop} {id : String} {task task' : TaskInfo}
  {snapshot : TaskSnapshot}

theorem TaskInfo.Keeps.congr (h : task.Keeps Made id) (hid : task'.id = task.id)
    (hurl : task'.url = task.url) : task'.Keeps Made id := by
  unfold Keeps
  rwa [hid, hurl]

theorem TaskInfo.Keeps.toSnapshot (h : task.Keeps Made id) (now savePath : String)
    (fragmentSize : ℕ) (completedFragments : List ℕ) (etag lastModified : Option String) :
    (taskInfoToSnapshot now task savePath fragmentSize completedFragments etag
      lastModified).Keeps Made id := h

theorem TaskInfo.Keeps.persisted (h : task.Keeps Made id) (now downloadDir : String)
    (existing : Option TaskSnapshot) (failReason : Option String) :
    (persistedSnapshot now downloadDir task existing failReason).Keeps Made id := by
  cases existing with
  | none => exact h
  | some snapshot => exact h

theorem TaskSnapshot.Keeps.taskInfo (h : snapshot.Keeps Made id) :
    (snapshotToTaskInfo snapshot).Keeps Made id := h

theorem Tasks.Keeps.insert {tasks : Tasks} (h : Tasks.Keeps Made tasks)
    (htask : task.Keeps Made id) : Tasks.Keeps Made (tasks.insert id task) := by
  intro j task' hlookup
  by_cases hj : j = id
  · subst hj
    rw [Finmap.lookup_insert] at hlookup
    obtain rfl := Option.some.inj hlookup
    exact htask
  · rw [Finmap.lookup_insert_of_ne _ hj] at hlookup
    exact h j task' hlookup

theorem Tasks.Keeps.erase {tasks : Tasks} (h : Tasks.Keeps Made tasks) :
    Tasks.Keeps Made (tasks.erase id) := by
  intro j task' hlookup
  by_cases hj : j = id
  · subst hj
    rw [Finmap.lookup_erase] at hlookup
    cases hlookup
  · rw [Finmap.lookup_erase_ne hj] at hlookup
    exact h j task' hlookup

/-- The snapshots that come back are each of its task. -/
theorem Tasks.Keeps.insertRecovered {tasks : Tasks} {snapshots : List TaskSnapshot}
    (h : Tasks.Keeps Made tasks)
    (hsnapshots : ∀ snapshot ∈ snapshots, snapshot.Keeps Made snapshot.id) :
    Tasks.Keeps Made (AppState.insertRecovered tasks snapshots) := by
  induction snapshots generalizing tasks with
  | nil => exact h
  | cons snapshot snapshots ih =>
    exact ih (h.insert (hsnapshots snapshot List.mem_cons_self).taskInfo) fun other hother =>
      hsnapshots other (List.mem_cons_of_mem snapshot hother)

theorem Command.apply_keeps {c : Command} (h : c.apply task = some task')
    (htask : task.Keeps Made id) : task'.Keeps Made id := by
  cases c with
  | pause | resume | cancel =>
    simp only [Command.apply] at h
    split at h
    · cases h <;> exact htask
    · cases h <;> exact htask

theorem TaskInfo.Keeps.updateStatus (h : task.Keeps Made id) (newStatus : DownloadState) :
    (task.updateStatus newStatus).Keeps Made id := by
  unfold TaskInfo.updateStatus
  split <;> exact h

theorem TaskInfo.Keeps.terminal (h : task.Keeps Made id) (metadata : Option FileMetadata)
    (result : DownloadResult Unit) : (task.terminal metadata result).Keeps Made id := by
  cases result with
  | ok result =>
    simp only [TaskInfo.terminal]
    split <;> exact h
  | error e =>
    simp only [TaskInfo.terminal]
    split <;> exact h

/-- No step of a run writes the identifier or the URL of the entry. -/
theorem TaskRun.Writes.keeps {r : TaskRun} {e : RunEvent} (h : r.Writes task e task')
    (htask : task.Keeps Made id) : task'.Keeps Made id := by
  cases h with
  | fail | mark | probeFailed => exact htask.updateStatus _
  | finish => exact htask.terminal _ _
  | size | receive | paused | speed => exact htask

theorem PersistPhase.step_keeps {phase : PersistPhase} {entry : Option TaskInfo}
    {stored : Option TaskSnapshot} {e : PersistEvent} {next : Option PersistPhase}
    {save : Option TaskSnapshot} (hphase : phase.Keeps Made id)
    (hentry : ∀ task, entry = some task → task.Keeps Made id)
    (h : phase.step entry stored e = some (next, save)) :
    (∀ phase', next = some phase' → phase'.Keeps Made id) ∧
      ∀ snapshot, save = some snapshot → snapshot.Keeps Made id := by
  cases phase with
  | copying =>
    cases e with
    | copy =>
      cases h
      refine ⟨fun phase' hphase' => ?_, by simp⟩
      obtain ⟨task, htask, rfl⟩ := Option.map_eq_some_iff.mp hphase'
      exact hentry task htask
    | load | save => cases h
  | loading task =>
    cases e with
    | load readable =>
      cases h
      refine ⟨fun phase' hphase' => ?_, by simp⟩
      obtain rfl := Option.some.inj hphase'
      exact hphase
    | copy | save => cases h
  | saving task existing =>
    cases e with
    | save now downloadDir saved =>
      obtain ⟨rfl, rfl⟩ := Prod.mk.inj (Option.some.inj h)
      refine ⟨by simp, fun snapshot hsnapshot => ?_⟩
      obtain ⟨-, hsnapshot⟩ := Option.ite_none_right_eq_some.mp hsnapshot
      obtain rfl := Option.some.inj hsnapshot
      exact TaskInfo.Keeps.persisted hphase now downloadDir existing none
    | copy | load => cases h

/-- A run that keeps its reader and goes to a phase that holds no record. -/
theorem TaskRun.Keeps.goes {r r' : TaskRun} (h : r.Keeps Made id) (hphase : r'.phase.Keeps Made id)
    (hreader : r'.reader = r.reader) : r'.Keeps Made id :=
  ⟨hphase, fun reader hr => h.reader reader (hreader ▸ hr)⟩

/-- The run goes on so, and saves nothing. -/
theorem TaskRun.Keeps.quiet {r : TaskRun} {x : Effect} (h : r.Keeps Made id)
    (hphase : x.run.phase.Keeps Made id) (hreader : x.run.reader = r.reader)
    (hsave : x.save = none) :
    x.run.Keeps Made id ∧ ∀ snapshot, x.save = some snapshot → snapshot.Keeps Made id := by
  refine ⟨h.goes hphase hreader, fun snapshot hsnapshot => ?_⟩
  rw [hsave] at hsnapshot
  cases hsnapshot

/-- What a run holds and writes after a step is still of its task. -/
theorem TaskRun.step_keeps {r : TaskRun} {tasks : Tasks} {stored : Option TaskSnapshot}
    {registered : Bool} {e : RunEvent} {x : Effect} (hr : r.Keeps Made id)
    (htasks : Tasks.Keeps Made tasks)
    (hstored : ∀ snapshot, stored = some snapshot → snapshot.Keeps Made id)
    (h : r.step id tasks stored registered e = some x) : x.Keeps Made id := by
  have hentry : ∀ task, x.entry = some task → task.Keeps Made id := by
    intro task hx
    obtain ⟨task₀, htask₀, hwrites⟩ := (TaskRun.step_entry h).mp hx
    exact hwrites.keeps (htasks id task₀ htask₀)
  suffices hrest : x.run.Keeps Made id ∧
      ∀ snapshot, x.save = some snapshot → snapshot.Keeps Made id from ⟨hrest.1, hentry, hrest.2⟩
  cases e with
  | fail =>
    obtain ⟨-, rfl⟩ := TaskRun.step_fail h
    exact hr.quiet trivial rfl rfl
  | check =>
    obtain ⟨-, ⟨rfl, -⟩ | ⟨rfl, -⟩⟩ := TaskRun.step_check h
    · exact hr.quiet trivial rfl rfl
    · exact hr.quiet trivial rfl rfl
  | mark =>
    obtain ⟨-, rfl⟩ := TaskRun.step_mark h
    exact hr.quiet trivial rfl rfl
  | inject =>
    obtain ⟨-, rfl⟩ := TaskRun.step_inject h
    exact hr.quiet trivial rfl rfl
  | checkControl =>
    obtain ⟨rfl, -⟩ | ⟨-, rfl⟩ | ⟨metadata, totalFrags, -, rfl⟩ := TaskRun.step_checkControl h
    · exact hr.quiet trivial rfl rfl
    · exact hr.quiet trivial rfl rfl
    · refine ⟨⟨trivial, fun reader hreader => ?_⟩, by simp⟩
      obtain rfl := Option.some.inj hreader
      exact trivial
  | probe result =>
    obtain ⟨-, ⟨metadata, -, rfl⟩ | ⟨-, rfl⟩ | ⟨error, -, -, rfl⟩⟩ := TaskRun.step_probe h
    · exact hr.quiet trivial rfl rfl
    · exact hr.quiet trivial rfl rfl
    · exact hr.quiet trivial rfl rfl
  | size =>
    obtain ⟨metadata, -, rfl⟩ := TaskRun.step_size h
    exact hr.quiet trivial rfl rfl
  | copy =>
    obtain ⟨metadata, -, ⟨task, htask, rfl⟩ | ⟨-, rfl⟩⟩ := TaskRun.step_copy h
    · exact hr.quiet (htasks id task htask) rfl rfl
    · exact hr.quiet trivial rfl rfl
  | saveMetadata now saved =>
    obtain ⟨metadata, task, hphase, rfl⟩ := TaskRun.step_saveMetadata h
    have htask : task.Keeps Made id := by
      have hcopied := hr.phase
      rwa [hphase] at hcopied
    refine ⟨hr.goes trivial rfl, fun snapshot hsnapshot => ?_⟩
    obtain ⟨-, hsnapshot⟩ := Option.ite_none_right_eq_some.mp hsnapshot
    obtain rfl := Option.some.inj hsnapshot
    exact htask
  | finish result =>
    obtain ⟨metadata, ended, -, -, rfl⟩ := TaskRun.step_finish h
    exact hr.quiet trivial rfl rfl
  | notify =>
    obtain ⟨terminal, control, -, rfl⟩ := TaskRun.step_notify h
    exact hr.quiet trivial rfl rfl
  | join =>
    obtain ⟨-, rfl⟩ := TaskRun.step_join h
    exact hr.quiet trivial rfl rfl
  | cleanup =>
    obtain ⟨-, rfl⟩ | ⟨-, rfl⟩ := TaskRun.step_cleanup h
    · exact hr.quiet trivial rfl rfl
    · exact hr.quiet trivial rfl rfl
  | report =>
    obtain ⟨-, rfl⟩ := TaskRun.step_report h
    exact hr.quiet trivial rfl rfl
  | persist e =>
    obtain ⟨phase, next, save, hphase, hstep, rfl⟩ := TaskRun.step_persist h
    have hpersisting : phase.Keeps Made id := by
      have hphase' := hr.phase
      rwa [hphase] at hphase'
    obtain ⟨hnext, hsave⟩ := PersistPhase.step_keeps hpersisting (htasks id) hstep
    refine ⟨hr.goes ?_ rfl, hsave⟩
    cases next with
    | none => exact trivial
    | some phase' => exact hnext phase' rfl
  | receive progress =>
    obtain ⟨reader, -, rfl⟩ := TaskRun.step_receive h
    refine ⟨⟨hr.phase, fun reader' hreader' => ?_⟩, by simp⟩
    obtain rfl := Option.some.inj hreader'
    unfold ChunkReader.receive
    dsimp only
    split <;> exact trivial
  | checkpointLoad readable =>
    obtain ⟨reader, -, h⟩ := Option.bind_eq_some_iff.mp h
    dsimp only [TaskRun.readerStep] at h
    split at h
    · obtain rfl := Option.some.inj h
      refine ⟨⟨hr.phase, fun reader' hreader' => ?_⟩, by simp⟩
      obtain rfl := Option.some.inj hreader'
      split
      case h_1 loaded hloaded =>
        exact hstored loaded (Option.ite_none_right_eq_some.mp hloaded).2
      case h_2 => exact trivial
    · cases h
  | checkpointSave saved =>
    obtain ⟨reader, loaded, hreader, hphase, rfl⟩ := TaskRun.step_checkpointSave h
    have hloaded : loaded.Keeps Made id := by
      have hphase' := hr.reader reader hreader
      rwa [hphase] at hphase'
    refine ⟨⟨hr.phase, fun reader' hreader' => ?_⟩, fun snapshot hsnapshot => ?_⟩
    · obtain rfl := Option.some.inj hreader'
      exact trivial
    · obtain ⟨-, hsnapshot⟩ := Option.ite_none_right_eq_some.mp hsnapshot
      obtain rfl := Option.some.inj hsnapshot
      exact hloaded
  | readerDone =>
    obtain ⟨reader, -, rfl⟩ := TaskRun.step_readerDone h
    exact ⟨⟨hr.phase, by simp⟩, by simp⟩
  | controlChanged =>
    obtain ⟨monitor, monitor', -, ⟨-, rfl⟩ | ⟨-, -, rfl⟩⟩ := TaskRun.step_controlChanged h
    · exact hr.quiet hr.phase rfl rfl
    · exact hr.quiet hr.phase rfl rfl
  | measure =>
    obtain ⟨monitor, monitor', -, rfl⟩ := TaskRun.step_measure h
    exact hr.quiet hr.phase rfl rfl
  | showSpeed elapsed =>
    obtain ⟨monitor, monitor', downloaded, status, -, -, rfl⟩ := TaskRun.step_showSpeed h
    exact hr.quiet hr.phase rfl rfl
  | broadcast =>
    obtain ⟨monitor, monitor', speed, downloaded, -, -, rfl⟩ := TaskRun.step_broadcast h
    exact hr.quiet hr.phase rfl rfl

end Updates

namespace AppState

section Steps

variable {Made : String → String → Prop} {text : Ipv6Addr → String} {s s' : AppState} {id : String}
  {e : AppEvent}

theorem Keeps.save {snapshot : Option TaskSnapshot} (h : s.Keeps Made)
    (hsnapshot : ∀ saved, snapshot = some saved → ∃ id, saved.Keeps Made id) :
    (s.save snapshot).Keeps Made := by
  refine { h with store := fun j stored hstored => ?_ }
  cases snapshot with
  | none => exact h.store j stored hstored
  | some saved =>
    obtain ⟨id, hid, hmade⟩ := hsnapshot saved rfl
    obtain ⟨rfl, hsaved⟩ | ⟨-, hj⟩ := update_eq_some.mp hstored
    · obtain rfl := Option.some.inj hsaved
      exact ⟨rfl, hid ▸ hmade⟩
    · exact h.store j stored hj

theorem Keeps.setCreation {creation : Creation} (h : s.Keeps Made)
    (hphase : creation.phase.Keeps Made id) :
    Keeps Made { s with creations := Function.update s.creations id (some creation) } := by
  refine { h with creations := fun j c hc => ?_ }
  obtain ⟨rfl, hc'⟩ | ⟨-, hj⟩ := update_eq_some.mp hc
  · obtain rfl := Option.some.inj hc'
    exact hphase
  · exact h.creations j c hj

theorem Keeps.endCreation (h : s.Keeps Made) :
    Keeps Made { s with creations := Function.update s.creations id none } := by
  refine { h with creations := fun j c hc => ?_ }
  obtain ⟨-, hc'⟩ | ⟨-, hj⟩ := update_eq_some.mp hc
  · cases hc'
  · exact h.creations j c hj

theorem Keeps.setRun {r : TaskRun} (h : s.Keeps Made) (hr : r.Keeps Made id) :
    Keeps Made { s with runs := Function.update s.runs id (some r) } := by
  refine { h with runs := fun j r' hr' => ?_ }
  obtain ⟨rfl, heq⟩ | ⟨-, hj⟩ := update_eq_some.mp hr'
  · obtain rfl := Option.some.inj heq
    exact hr
  · exact h.runs j r' hj

/-- A run changes otherwise than in what it holds. -/
theorem Keeps.mapRun {f : TaskRun → TaskRun} (h : s.Keeps Made)
    (hf : ∀ r : TaskRun, r.Keeps Made id → (f r).Keeps Made id) :
    Keeps Made { s with runs := Function.update s.runs id ((s.runs id).map f) } := by
  refine { h with runs := fun j r' hr' => ?_ }
  obtain ⟨rfl, heq⟩ | ⟨-, hj⟩ := update_eq_some.mp hr'
  · obtain ⟨r, hr, rfl⟩ := Option.map_eq_some_iff.mp heq
    exact hf r (h.runs _ r hr)
  · exact h.runs j r' hj

theorem Keeps.creation {creation : Creation} {e : CreationEvent} (h : s.Keeps Made)
    (hcreation : creation.phase.Keeps Made id) (hstep : s.creationStep id creation e = some s') :
    s'.Keeps Made := by
  cases e with
  | copy =>
    dsimp only [creationStep] at hstep
    split at hstep
    · obtain rfl := Option.some.inj hstep
      refine h.setCreation ?_
      dsimp only
      split
      case h_1 task htask => exact h.tasks id task htask
      case h_2 => exact trivial
    · cases hstep
  | save now saved =>
    dsimp only [creationStep] at hstep
    split at hstep
    case h_1 task hphase =>
      rw [hphase] at hcreation
      obtain rfl := Option.some.inj hstep
      have hstored : Keeps Made { s with
          creations := Function.update s.creations id (some { creation with phase := .stored }) } :=
        h.setCreation trivial
      refine hstored.save fun snapshot hsnapshot => ⟨id, ?_⟩
      obtain ⟨-, hsnapshot⟩ := Option.ite_none_right_eq_some.mp hsnapshot
      obtain rfl := Option.some.inj hsnapshot
      exact TaskInfo.Keeps.toSnapshot hcreation now _ 0 [] none none
    case h_2 => cases hstep
  | configure maxConcurrentFragments =>
    obtain ⟨-, ⟨-, rfl⟩ | ⟨-, rfl⟩⟩ := creationStep_configure hstep
    · have hended : Keeps Made { s with creations := Function.update s.creations id none } :=
        h.endCreation
      exact { hended with tasks := h.tasks.erase }
    · exact h.setCreation trivial
  | clone =>
    obtain ⟨-, rfl⟩ := creationStep_clone hstep
    have hcloned : Keeps Made { s with
        creations := Function.update s.creations id (some { creation with phase := .cloned }) } :=
      h.setCreation trivial
    refine { hcloned with copies := fun j => ?_ }
    by_cases hj : j = id
    · subst hj
      simp only [Function.update_self]
      exact h.tasks
    · simp only [Function.update_of_ne hj]
      exact h.copies j
  | register =>
    obtain ⟨-, rfl⟩ := creationStep_register hstep
    have hregistered : Keeps Made { s with
        creations :=
          Function.update s.creations id (some { creation with phase := .registered }) } :=
      h.setCreation trivial
    have hspawned : TaskRun.Keeps Made id
        ⟨.waiting, ⟨.downloading, 0⟩, creation.downloadDir, none, none⟩ := ⟨trivial, by simp⟩
    exact { hregistered.setRun hspawned with }
  | start =>
    obtain ⟨-, rfl⟩ := creationStep_start hstep
    have hended : Keeps Made { s with creations := Function.update s.creations id none } :=
      h.endCreation
    have hstart (r : TaskRun) (hr : r.Keeps Made id) : r.start.Keeps Made id := by
      unfold TaskRun.start
      split
      · exact ⟨trivial, hr.reader⟩
      · exact hr
    exact { hended.mapRun hstart with }

theorem Keeps.command {c : Command} (h : s.Keeps Made) (hstep : s.command c id = .ok s') :
    s'.Keeps Made := by
  obtain ⟨task, task', htask, happly, rfl⟩ := command_eq_ok hstep
  have hsent : Keeps Made { s with
      runs := if s.controls id then
          Function.update s.runs id ((s.runs id).map fun r =>
            { r with control := r.control.send c.sent })
        else s.runs } := by
    split
    · exact h.mapRun fun r hr => ⟨hr.phase, hr.reader⟩
    · exact h
  refine { hsent with tasks := ?_, calls := ?_ }
  · exact h.tasks.insert (Command.apply_keeps happly (h.tasks id task htask))
  · intro call hcall
    obtain hcall | hcall := List.mem_append.mp hcall
    · exact h.calls call hcall
    · obtain rfl := List.mem_singleton.mp hcall
      exact trivial

theorem Keeps.persist {call : ℕ} {e : PersistEvent} (h : s.Keeps Made)
    (hstep : s.persistStep call e = some s') : s'.Keeps Made := by
  obtain ⟨c, hc, hstep⟩ := Option.bind_eq_some_iff.mp hstep
  obtain ⟨⟨next, snapshot⟩, hphase, hstep⟩ := Option.bind_eq_some_iff.mp hstep
  obtain ⟨hnext, hsave⟩ := PersistPhase.step_keeps (h.calls c (List.mem_of_getElem? hc))
    (h.tasks c.id) hphase
  cases next with
  | some phase =>
    obtain rfl := Option.some.inj hstep
    refine Keeps.save { h with calls := fun c' hc' => ?_ } fun saved hsaved =>
      ⟨c.id, hsave saved hsaved⟩
    obtain hc' | rfl := List.mem_or_eq_of_mem_set hc'
    · exact h.calls c' hc'
    · exact hnext phase rfl
  | none =>
    obtain rfl := Option.some.inj hstep
    refine Keeps.save { h with calls := fun c' hc' => ?_ } fun saved hsaved =>
      ⟨c.id, hsave saved hsaved⟩
    exact h.calls c' (List.mem_of_mem_eraseIdx hc')

theorem Keeps.recover {found : List String} (h : s.Keeps Made) :
    Tasks.Keeps Made (insertRecovered s.tasks (s.recoverable found)) := by
  refine h.tasks.insertRecovered fun snapshot hsnapshot => ?_
  obtain ⟨hfound, -⟩ := List.mem_filter.mp hsnapshot
  obtain ⟨id, -, hid⟩ := List.mem_filterMap.mp hfound
  obtain ⟨hsame, hmade⟩ := h.store id snapshot hid
  exact ⟨rfl, hsame ▸ hmade⟩

theorem Keeps.run {e : RunEvent} (h : s.Keeps Made)
    (hstep : s.step text .copied (.run id e) = some s') : s'.Keeps Made := by
  obtain ⟨r, x, hr, hx, rfl⟩ := step_run hstep
  have hkeeps := TaskRun.step_keeps (h.runs id r hr) (h.copies id) (h.store id) hx
  have hran : Keeps Made { s with runs := Function.update s.runs id (some x.run) } :=
    h.setRun hkeeps.run
  refine Keeps.save { hran with tasks := ?_, copies := fun j => ?_ } fun snapshot hsnapshot =>
    ⟨id, hkeeps.save snapshot hsnapshot⟩
  · exact h.tasks
  · cases hentry : x.entry with
    | none => exact h.copies j
    | some task =>
      by_cases hj : j = id
      · subst hj
        simp only [Function.update_self]
        exact (h.copies j).insert (hkeeps.entry task hentry)
      · simp only [Function.update_of_ne hj]
        exact h.copies j

/-- A step keeps every record of a task as it was made, a new task being made so. -/
theorem Keeps.step (h : s.Keeps Made)
    (hmade : ∀ id request downloadDir, e = .create id request →
      request.validate text = .ok downloadDir → Made id (redactUrlForLog text request.url))
    (hstep : s.step text .copied e = some s') : s'.Keeps Made := by
  cases e with
  | create id request =>
    obtain ⟨-, downloadDir, hvalid, -, -, rfl⟩ := step_create hstep
    have haccepted : Keeps Made { s with
        creations := Function.update s.creations id (some ⟨.accepted, downloadDir⟩) } :=
      h.setCreation trivial
    exact { haccepted with
      tasks := h.tasks.insert ⟨rfl, hmade id request downloadDir rfl hvalid⟩ }
  | creation id e =>
    obtain ⟨creation, hcreation, hstep⟩ := step_creation hstep
    exact h.creation (h.creations id creation hcreation) hstep
  | command c id => exact h.command (step_command hstep)
  | persist call e => exact h.persist hstep
  | delete id =>
    obtain ⟨task, -, -, rfl⟩ := step_delete hstep
    exact { h with tasks := h.tasks.erase }
  | recover found =>
    obtain rfl := Option.some.inj hstep
    exact { h with tasks := h.recover }
  | run id e => exact h.run hstep

end Steps

theorem keeps_new {Made : String → String → Prop} {store : String → Option TaskSnapshot}
    (hstore : ∀ id snapshot, store id = some snapshot → snapshot.Keeps Made id) :
    (AppState.new store).Keeps Made where
  tasks _ _ h := by simp [AppState.new] at h
  copies _ _ _ h := by simp [AppState.new] at h
  store := hstore
  creations _ _ h := by simp [AppState.new] at h
  runs _ _ h := by simp [AppState.new] at h
  calls _ h := by simp [AppState.new] at h

end AppState

end Tachyon
