import Tachyon.App.TaskFn
import Mathlib.Data.Finmap

/-!
# The run of a task among others

`task_fn` with the chunk reader and the progress monitor it spawns, as they act on a
`tasks` map, the snapshot store and the channels. Each step between two accesses of shared
data is an event; what it does to the shared data is an `Effect`, carried out by the
application.
-/

namespace Tachyon

/-- The `tasks` map. -/
abbrev Tasks := Finmap fun _ : String => TaskInfo

/-- `TaskProgress`. -/
structure TaskProgress where
  id : String
  progress : ℚ
  speed : ℕ
  downloaded : ℕ
  status : DownloadState
  fragmentsDone : ℕ

/-- `ProgressEvent`. -/
abbrev ProgressEvent := String → Option TaskProgress

/-- What the last event of `task_fn` says of an entry. -/
def TaskInfo.report (task : TaskInfo) (id : String) : TaskProgress :=
  ⟨id, task.progress, task.speed, task.downloaded, task.status, task.fragmentsDone⟩

/-- The control channel of a task: its value, and how many were sent. -/
structure Watch where
  value : DownloadState
  version : ℕ

/-- `watch::Sender::send`. -/
def Watch.send (w : Watch) (value : DownloadState) : Watch := ⟨value, w.version + 1⟩

/-! ### Persisting a status -/

/-- Where a call of `persist_task_snapshot` is. -/
inductive PersistPhase where
  | copying
  | loading (task : TaskInfo)
  | saving (task : TaskInfo) (existing : Option TaskSnapshot)

/-- The steps of a call of `persist_task_snapshot`. A `Bool` says whether the store's
operation succeeded. -/
inductive PersistEvent where
  | copy
  | load (readable : Bool)
  | save (now downloadDir : String) (saved : Bool)

/-- A step of `persist_task_snapshot`: where it goes on, if it does, and what it saves. -/
def PersistPhase.step (task : Option TaskInfo) (stored : Option TaskSnapshot) :
    PersistPhase → PersistEvent → Option (Option PersistPhase × Option TaskSnapshot)
  | .copying, .copy => some (task.map .loading, none)
  | .loading task, .load readable =>
    some (some (.saving task (if readable then stored else none)), none)
  | .saving task existing, .save now downloadDir saved =>
    some (none, if saved then some (persistedSnapshot now downloadDir task existing none) else none)
  | _, _ => none

/-! ### The run of a task -/

/-- Where the progress monitor is. -/
inductive MonitorPhase where
  | waiting
  | measured (downloaded : ℕ) (status : DownloadState)
  | shown (speed downloaded : ℕ)

/-- The locals of the progress monitor. `seen` is the version its receiver has seen. -/
structure Monitor where
  seen : ℕ
  lastDownloaded : ℕ
  phase : MonitorPhase

/-- Where `task_fn` is, by what it does next. -/
inductive RunPhase where
  /-- Spawned, before the start signal. -/
  | waiting
  | started
  /-- The entry was not Cancelled. -/
  | checked
  | marked
  | injected
  /-- The control channel was not Cancelled. -/
  | ready
  | probed (metadata : FileMetadata)
  | sized (metadata : FileMetadata)
  | copied (metadata : FileMetadata) (task : TaskInfo)
  | saved (metadata : FileMetadata)
  | running (metadata : FileMetadata)
  | finished (terminal : Option DownloadState)
  | notified
  | joined
  | cleaned
  | persisting (phase : PersistPhase)
  /-- Before the `cleanup_runtime` of an early return. -/
  | exiting
  | returned

/-- `task_fn` with the reader and the monitor it spawned, and its control channel. -/
structure TaskRun where
  phase : RunPhase
  control : Watch
  downloadDir : String
  reader : Option ChunkReader
  monitor : Option Monitor

/-- The steps of a `task_fn`, its chunk reader and its progress monitor. -/
inductive RunEvent where
  /-- The URL does not parse or has no host, or the directory or the `DownloadTask` cannot
  be made. -/
  | fail
  /-- The status of the entry is checked. -/
  | check
  /-- The status becomes Downloading. -/
  | mark
  /-- The `DownloadTask` is made and the stored indices are injected. -/
  | inject
  | checkControl
  /-- The race of `probe` with the control channel is over. -/
  | probe (result : DownloadResult FileMetadata)
  /-- The probed size is shown. -/
  | size
  /-- The entry is copied for the snapshot with the metadata. -/
  | copy
  | saveMetadata (now : String) (saved : Bool)
  /-- `run` returns and the entry gets its final status. -/
  | finish (result : DownloadResult Unit)
  /-- The final status is sent on the control channel. -/
  | notify
  /-- The monitor has ended or is aborted. -/
  | join
  /-- `cleanup_runtime`. -/
  | cleanup
  /-- The whole map is broadcast. -/
  | report
  | persist (e : PersistEvent)
  /-- The chunk reader receives a message. -/
  | receive (progress : FragmentProgress)
  | checkpointLoad (readable : Bool)
  | checkpointSave (saved : Bool)
  /-- The progress channel is closed. -/
  | readerDone
  /-- The monitor's receiver has changed or is closed. -/
  | controlChanged
  /-- The monitor has slept and reads the entry. -/
  | measure
  /-- The monitor shows the speed. `elapsed` says whether its clock has moved. -/
  | showSpeed (elapsed : Bool)
  | broadcast

/-- What a step of a run does to the data it shares: the entry it writes, with the status
it sets there, the snapshot it saves, the event it sends, and whether it removes the
control and the handle of the task. -/
structure Effect where
  run : TaskRun
  entry : Option TaskInfo := none
  status : Option DownloadState := none
  save : Option TaskSnapshot := none
  event : Option ProgressEvent := none
  cleanup : Bool := false

/-- The run goes on and sets the status of the entry, where there is one. -/
def Effect.setting (run : TaskRun) (entry : Option TaskInfo) : Effect where
  run := run
  entry := entry
  status := entry.map TaskInfo.status

/-- The start signal wakes a `task_fn` that waits for it. -/
def TaskRun.start (r : TaskRun) : TaskRun :=
  match r.phase with
  | .waiting => { r with phase := .started }
  | _ => r

/-- Whether `task_fn` has just set the status to Downloading. -/
def TaskRun.isMarked (r : TaskRun) : Bool :=
  match r.phase with
  | .marked => true
  | _ => false

/-- The speed over half a second. -/
def Monitor.speed (m : Monitor) (elapsed : Bool) (downloaded : ℕ) : ℕ :=
  if elapsed then min (2 * (downloaded - m.lastDownloaded)) (u64Bound - 1) else 0

/-- `update_task_status(.., Failed)`, before an early return. -/
def TaskRun.failing (r : TaskRun) (entry : Option TaskInfo) : Effect :=
  .setting { r with phase := .exiting } (entry.map fun task => task.updateStatus .failed)

/-- The steps of `task_fn`, in a map where its task has the given entry. `registered` says
whether the sender of its control channel is still there. -/
def TaskRun.fnStep (r : TaskRun) (tasks : Tasks) (entry : Option TaskInfo)
    (registered : Bool) : RunEvent → Option Effect
  | .fail =>
    match r.phase with
    | .started | .marked => some (r.failing entry)
    | _ => none
  | .check =>
    match r.phase with
    | .started =>
      if entry.map TaskInfo.status = some .cancelled then
        some { run := { r with phase := .exiting } }
      else some { run := { r with phase := .checked } }
    | _ => none
  | .mark =>
    match r.phase with
    | .checked => some (.setting { r with phase := .marked }
        (entry.map fun task => task.updateStatus .downloading))
    | _ => none
  | .inject =>
    match r.phase with
    | .marked => some { run := { r with phase := .injected } }
    | _ => none
  | .checkControl =>
    match r.phase with
    | .injected =>
      if r.control.value = .cancelled then some { run := { r with phase := .exiting } }
      else some { run := { r with phase := .ready } }
    | .saved metadata =>
      if r.control.value = .cancelled then some { run := { r with phase := .exiting } }
      else some { run := { r with
        phase := .running metadata
        reader := some (.new ((entry.map TaskInfo.fragmentsTotal).getD 0))
        monitor := some ⟨0, 0, .waiting⟩ } }
    | _ => none
  | .probe result =>
    match r.phase with
    | .ready =>
      match result with
      | .ok metadata => some { run := { r with phase := .probed metadata } }
      | .error .cancelled => some { run := { r with phase := .exiting } }
      | .error _ => some (r.failing entry)
    | _ => none
  | .size =>
    match r.phase with
    | .probed metadata => some {
        run := { r with phase := .sized metadata }
        entry := entry.map fun task => { task with
          fileSize := metadata.fileSize
          fragmentsTotal := totalFrags metadata.fileSize } }
    | _ => none
  | .copy =>
    match r.phase with
    | .sized metadata =>
      match entry with
      | some task => some { run := { r with phase := .copied metadata task } }
      | none => some { run := { r with phase := .saved metadata } }
    | _ => none
  | .saveMetadata now saved =>
    match r.phase with
    | .copied metadata task => some {
        run := { r with phase := .saved metadata }
        save := if saved then some (taskInfoToSnapshot now task
          (joinPath r.downloadDir metadata.fileName) 0 [] metadata.etag metadata.lastModified)
          else none }
    | _ => none
  | .finish result =>
    match r.phase with
    | .running metadata =>
      let ended := (entry.filter fun task => task.status ≠ .cancelled).map fun task =>
        task.terminal (some metadata) result
      some (.setting { r with phase := .finished (ended.map TaskInfo.status) } ended)
    | _ => none
  | .notify =>
    match r.phase with
    | .finished terminal => some { run := { r with
        phase := .notified
        control := match terminal with
          | some status => if registered then r.control.send status else r.control
          | none => r.control } }
    | _ => none
  | .join =>
    match r.phase with
    | .notified => some { run := { r with phase := .joined, monitor := none } }
    | _ => none
  | .cleanup =>
    match r.phase with
    | .joined => some { run := { r with phase := .cleaned }, cleanup := true }
    | .exiting => some { run := { r with phase := .returned }, cleanup := true }
    | _ => none
  | .report =>
    match r.phase with
    | .cleaned => some {
        run := { r with phase := .persisting .copying }
        event := some fun id => (tasks.lookup id).map fun task => task.report id }
    | _ => none
  | _ => none

/-- The last persist of `task_fn`. -/
def TaskRun.persistStep (r : TaskRun) (entry : Option TaskInfo) (stored : Option TaskSnapshot)
    (e : PersistEvent) : Option Effect :=
  match r.phase with
  | .persisting phase => do
    let (next, save) ← phase.step entry stored e
    some { run := { r with phase := (next.map .persisting).getD .returned }, save := save }
  | _ => none

/-- The steps of the chunk reader. -/
def TaskRun.readerStep (r : TaskRun) (reader : ChunkReader) (entry : Option TaskInfo)
    (stored : Option TaskSnapshot) : RunEvent → Option Effect
  | .receive progress =>
    match reader.phase with
    | .receiving =>
      let reader := reader.receive progress
      some { run := { r with reader := some reader }, entry := entry.map reader.show }
    | _ => none
  | .checkpointLoad readable =>
    match reader.phase with
    | .loading =>
      let phase := match if readable then stored else none with
        | some loaded => ReaderPhase.saving loaded
        | none => .receiving
      some { run := { r with reader := some { reader with phase := phase } } }
    | _ => none
  | .checkpointSave saved =>
    match reader.phase with
    | .saving loaded => some {
        run := { r with reader := some { reader with phase := .receiving } }
        save := if saved then some (reader.checkpoint loaded) else none }
    | _ => none
  | .readerDone =>
    match reader.phase, r.phase with
    | .receiving, .returned => some { run := { r with reader := none } }
    | _, _ => none
  | _ => none

/-- The steps of the progress monitor. -/
def TaskRun.monitorStep (r : TaskRun) (monitor : Monitor) (id : String) (entry : Option TaskInfo)
    (registered : Bool) : RunEvent → Option Effect
  | .controlChanged =>
    match monitor.phase with
    | .waiting =>
      if monitor.seen = r.control.version then
        if registered then none else some { run := { r with monitor := none } }
      else
        let seen := { monitor with seen := r.control.version }
        match r.control.value with
        | .cancelled | .completed | .failed => some { run := { r with monitor := none } }
        | .paused => some {
            run := { r with monitor := some seen }
            entry := entry.map fun task => { task with speed := 0 } }
        | _ => some { run := { r with monitor := some seen } }
    | _ => none
  | .measure =>
    match monitor.phase with
    | .waiting =>
      match entry with
      | some task => some { run := { r with
          monitor := some { monitor with phase := .measured task.downloaded task.status } } }
      | none => some { run := r }
    | _ => none
  | .showSpeed elapsed =>
    match monitor.phase with
    | .measured downloaded status =>
      let speed := monitor.speed elapsed downloaded
      let monitor : Monitor := ⟨monitor.seen, downloaded, .shown speed downloaded⟩
      some {
        run := { r with monitor :=
          if status = .completed ∨ status = .failed then none else some monitor }
        entry := entry.map fun task => { task with speed := speed } }
    | _ => none
  | .broadcast =>
    match monitor.phase with
    | .shown speed downloaded => some {
        run := { r with monitor := some { monitor with phase := .waiting } }
        event := entry.map fun task => Function.update (fun _ => none) id
          (some { task.report id with speed := speed, downloaded := downloaded }) }
    | _ => none
  | _ => none

/-- A step of a run. -/
def TaskRun.step (r : TaskRun) (id : String) (tasks : Tasks) (stored : Option TaskSnapshot)
    (registered : Bool) (e : RunEvent) : Option Effect :=
  let entry := tasks.lookup id
  match e with
  | .persist e => r.persistStep entry stored e
  | .receive _ | .checkpointLoad _ | .checkpointSave _ | .readerDone => do
    r.readerStep (← r.reader) entry stored e
  | .controlChanged | .measure | .showSpeed _ | .broadcast => do
    r.monitorStep (← r.monitor) id entry registered e
  | e => r.fnStep tasks entry registered e

/-! ### What each step does -/

/-- A step writes the entry of its task. -/
inductive TaskRun.Writes (r : TaskRun) (task : TaskInfo) : RunEvent → TaskInfo → Prop where
  | fail (hphase : r.phase = .started ∨ r.phase = .marked) :
      r.Writes task .fail (task.updateStatus .failed)
  | mark (hphase : r.phase = .checked) : r.Writes task .mark (task.updateStatus .downloading)
  | probeFailed {error : DownloadError} (hphase : r.phase = .ready) (herror : error ≠ .cancelled) :
      r.Writes task (.probe (.error error)) (task.updateStatus .failed)
  | size {metadata : FileMetadata} (hphase : r.phase = .probed metadata) :
      r.Writes task .size { task with
        fileSize := metadata.fileSize
        fragmentsTotal := totalFrags metadata.fileSize }
  | finish {metadata : FileMetadata} {result : DownloadResult Unit}
      (hphase : r.phase = .running metadata) (hstatus : task.status ≠ .cancelled) :
      r.Writes task (.finish result) (task.terminal (some metadata) result)
  | receive {reader : ChunkReader} {progress : FragmentProgress}
      (hreader : r.reader = some reader) :
      r.Writes task (.receive progress) ((reader.receive progress).show task)
  | paused {monitor : Monitor} (hmonitor : r.monitor = some monitor)
      (hseen : monitor.seen ≠ r.control.version) (hvalue : r.control.value = .paused) :
      r.Writes task .controlChanged { task with speed := 0 }
  | speed {monitor : Monitor} {downloaded : ℕ} {status : DownloadState} {elapsed : Bool}
      (hmonitor : r.monitor = some monitor) (hphase : monitor.phase = .measured downloaded status) :
      r.Writes task (.showSpeed elapsed) { task with speed := monitor.speed elapsed downloaded }

/-- The phases with a progress monitor. -/
def RunPhase.monitored : RunPhase → Bool
  | .running _ | .finished _ | .notified => true
  | _ => false

/-- The phases after `cleanup_runtime`. -/
def RunPhase.cleanedUp : RunPhase → Bool
  | .cleaned | .persisting _ | .returned => true
  | _ => false

/-- The monitor is gone when `task_fn` goes on after its end. -/
def TaskRun.MonitorJoined (r : TaskRun) : Prop :=
  r.monitor.isSome = true → r.phase.monitored = true

/-- Something of the run is still to come. -/
def TaskRun.Live (r : TaskRun) : Prop := r.phase ≠ .returned ∨ r.reader.isSome = true

/-- What a step makes of the phase of a run. -/
structure TaskRun.Moves (r : TaskRun) (x : Effect) : Prop where
  live : r.Live
  joined : x.run.MonitorJoined
  cleanedUp : r.phase.cleanedUp = true ∨ x.cleanup = true → x.run.phase.cleanedUp = true

section Step

variable {r : TaskRun} {id : String} {tasks : Tasks} {stored : Option TaskSnapshot}
  {registered : Bool} {e : RunEvent} {x : Effect} {task' : TaskInfo}

theorem TaskRun.step_fail (h : r.step id tasks stored registered .fail = some x) :
    (r.phase = .started ∨ r.phase = .marked) ∧ x = r.failing (tasks.lookup id) := by
  dsimp only [TaskRun.step, TaskRun.fnStep] at h
  split at h
  · exact ⟨Or.inl ‹_›, (Option.some.inj h).symm⟩
  · exact ⟨Or.inr ‹_›, (Option.some.inj h).symm⟩
  · cases h

theorem TaskRun.step_check (h : r.step id tasks stored registered .check = some x) :
    r.phase = .started ∧
      ((x = { run := { r with phase := .exiting } } ∧
        (tasks.lookup id).map TaskInfo.status = some .cancelled) ∨
      (x = { run := { r with phase := .checked } } ∧
        (tasks.lookup id).map TaskInfo.status ≠ some .cancelled)) := by
  dsimp only [TaskRun.step, TaskRun.fnStep] at h
  split at h
  · refine ⟨‹_›, ?_⟩
    split at h
    · exact Or.inl ⟨(Option.some.inj h).symm, ‹_›⟩
    · exact Or.inr ⟨(Option.some.inj h).symm, ‹_›⟩
  · cases h

theorem TaskRun.step_mark (h : r.step id tasks stored registered .mark = some x) :
    r.phase = .checked ∧ x = .setting { r with phase := .marked }
      ((tasks.lookup id).map fun task => task.updateStatus .downloading) := by
  dsimp only [TaskRun.step, TaskRun.fnStep] at h
  split at h
  · exact ⟨‹_›, (Option.some.inj h).symm⟩
  · cases h

theorem TaskRun.step_inject (h : r.step id tasks stored registered .inject = some x) :
    r.phase = .marked ∧ x = { run := { r with phase := .injected } } := by
  dsimp only [TaskRun.step, TaskRun.fnStep] at h
  split at h
  · exact ⟨‹_›, (Option.some.inj h).symm⟩
  · cases h

theorem TaskRun.step_checkControl (h : r.step id tasks stored registered .checkControl = some x) :
    (x = { run := { r with phase := .exiting } } ∧
      (r.phase = .injected ∨ ∃ metadata, r.phase = .saved metadata)) ∨
    (r.phase = .injected ∧ x = { run := { r with phase := .ready } }) ∨
    ∃ metadata totalFrags, r.phase = .saved metadata ∧ x = { run := { r with
      phase := .running metadata
      reader := some (.new totalFrags)
      monitor := some ⟨0, 0, .waiting⟩ } } := by
  dsimp only [TaskRun.step, TaskRun.fnStep] at h
  split at h
  · split at h
    · exact Or.inl ⟨(Option.some.inj h).symm, Or.inl ‹_›⟩
    · exact Or.inr (Or.inl ⟨‹_›, (Option.some.inj h).symm⟩)
  · split at h
    · exact Or.inl ⟨(Option.some.inj h).symm, Or.inr ⟨_, ‹_›⟩⟩
    · exact Or.inr (Or.inr ⟨_, _, ‹_›, (Option.some.inj h).symm⟩)
  · cases h

theorem TaskRun.step_probe {result : DownloadResult FileMetadata}
    (h : r.step id tasks stored registered (.probe result) = some x) :
    r.phase = .ready ∧
      ((∃ metadata, result = .ok metadata ∧ x = { run := { r with phase := .probed metadata } }) ∨
      (result = .error .cancelled ∧ x = { run := { r with phase := .exiting } }) ∨
      ∃ error, result = .error error ∧ error ≠ .cancelled ∧ x = r.failing (tasks.lookup id)) := by
  dsimp only [TaskRun.step, TaskRun.fnStep] at h
  split at h
  · refine ⟨‹_›, ?_⟩
    split at h
    · exact Or.inl ⟨_, rfl, (Option.some.inj h).symm⟩
    · exact Or.inr (Or.inl ⟨rfl, (Option.some.inj h).symm⟩)
    · rename_i error herror
      exact Or.inr (Or.inr ⟨error, rfl, fun h => herror (by rw [h]), (Option.some.inj h).symm⟩)
  · cases h

theorem TaskRun.step_size (h : r.step id tasks stored registered .size = some x) :
    ∃ metadata, r.phase = .probed metadata ∧ x = {
      run := { r with phase := .sized metadata }
      entry := (tasks.lookup id).map fun task => { task with
        fileSize := metadata.fileSize
        fragmentsTotal := totalFrags metadata.fileSize } } := by
  dsimp only [TaskRun.step, TaskRun.fnStep] at h
  split at h
  · exact ⟨_, ‹_›, (Option.some.inj h).symm⟩
  · cases h

theorem TaskRun.step_copy (h : r.step id tasks stored registered .copy = some x) :
    ∃ metadata, r.phase = .sized metadata ∧
      ((∃ task, tasks.lookup id = some task ∧
        x = { run := { r with phase := .copied metadata task } }) ∨
      (tasks.lookup id = none ∧ x = { run := { r with phase := .saved metadata } })) := by
  dsimp only [TaskRun.step, TaskRun.fnStep] at h
  split at h
  · refine ⟨_, ‹_›, ?_⟩
    split at h
    · exact Or.inl ⟨_, ‹_›, (Option.some.inj h).symm⟩
    · exact Or.inr ⟨‹_›, (Option.some.inj h).symm⟩
  · cases h

theorem TaskRun.step_saveMetadata {now : String} {saved : Bool}
    (h : r.step id tasks stored registered (.saveMetadata now saved) = some x) :
    ∃ metadata task, r.phase = .copied metadata task ∧ x = {
      run := { r with phase := .saved metadata }
      save := if saved then some (taskInfoToSnapshot now task
        (joinPath r.downloadDir metadata.fileName) 0 [] metadata.etag metadata.lastModified)
        else none } := by
  dsimp only [TaskRun.step, TaskRun.fnStep] at h
  split at h
  · exact ⟨_, _, ‹_›, (Option.some.inj h).symm⟩
  · cases h

theorem TaskRun.step_finish {result : DownloadResult Unit}
    (h : r.step id tasks stored registered (.finish result) = some x) :
    ∃ metadata ended, r.phase = .running metadata ∧
      ended = ((tasks.lookup id).filter fun task => task.status ≠ .cancelled).map
        (fun task => task.terminal (some metadata) result) ∧
      x = .setting { r with phase := .finished (ended.map TaskInfo.status) } ended := by
  dsimp only [TaskRun.step, TaskRun.fnStep] at h
  split at h
  · exact ⟨_, _, ‹_›, rfl, (Option.some.inj h).symm⟩
  · cases h

theorem TaskRun.step_notify (h : r.step id tasks stored registered .notify = some x) :
    ∃ terminal control, r.phase = .finished terminal ∧
      x = { run := { r with phase := .notified, control := control } } := by
  dsimp only [TaskRun.step, TaskRun.fnStep] at h
  split at h
  · exact ⟨_, _, ‹_›, (Option.some.inj h).symm⟩
  · cases h

theorem TaskRun.step_join (h : r.step id tasks stored registered .join = some x) :
    r.phase = .notified ∧ x = { run := { r with phase := .joined, monitor := none } } := by
  dsimp only [TaskRun.step, TaskRun.fnStep] at h
  split at h
  · exact ⟨‹_›, (Option.some.inj h).symm⟩
  · cases h

theorem TaskRun.step_cleanup (h : r.step id tasks stored registered .cleanup = some x) :
    (r.phase = .joined ∧ x = { run := { r with phase := .cleaned }, cleanup := true }) ∨
    (r.phase = .exiting ∧ x = { run := { r with phase := .returned }, cleanup := true }) := by
  dsimp only [TaskRun.step, TaskRun.fnStep] at h
  split at h
  · exact Or.inl ⟨‹_›, (Option.some.inj h).symm⟩
  · exact Or.inr ⟨‹_›, (Option.some.inj h).symm⟩
  · cases h

theorem TaskRun.step_report (h : r.step id tasks stored registered .report = some x) :
    r.phase = .cleaned ∧ x = {
      run := { r with phase := .persisting .copying }
      event := some fun id => (tasks.lookup id).map fun task => task.report id } := by
  dsimp only [TaskRun.step, TaskRun.fnStep] at h
  split at h
  · exact ⟨‹_›, (Option.some.inj h).symm⟩
  · cases h

theorem TaskRun.step_persist {e : PersistEvent}
    (h : r.step id tasks stored registered (.persist e) = some x) :
    ∃ phase next save, r.phase = .persisting phase ∧
      phase.step (tasks.lookup id) stored e = some (next, save) ∧ x = {
        run := { r with phase := (next.map .persisting).getD .returned }
        save := save } := by
  dsimp only [TaskRun.step, TaskRun.persistStep] at h
  split at h
  · obtain ⟨⟨next, save⟩, hstep, h⟩ := Option.bind_eq_some_iff.mp h
    exact ⟨_, next, save, ‹_›, hstep, (Option.some.inj h).symm⟩
  · cases h

theorem TaskRun.step_receive {progress : FragmentProgress}
    (h : r.step id tasks stored registered (.receive progress) = some x) :
    ∃ reader, r.reader = some reader ∧ x = {
      run := { r with reader := some (reader.receive progress) }
      entry := (tasks.lookup id).map (reader.receive progress).show } := by
  obtain ⟨reader, hreader, h⟩ := Option.bind_eq_some_iff.mp h
  dsimp only [TaskRun.readerStep] at h
  split at h
  · exact ⟨reader, hreader, (Option.some.inj h).symm⟩
  · cases h

theorem TaskRun.step_checkpointLoad {readable : Bool}
    (h : r.step id tasks stored registered (.checkpointLoad readable) = some x) :
    ∃ reader phase, r.reader = some reader ∧
      x = { run := { r with reader := some { reader with phase := phase } } } := by
  obtain ⟨reader, hreader, h⟩ := Option.bind_eq_some_iff.mp h
  dsimp only [TaskRun.readerStep] at h
  split at h
  · exact ⟨reader, _, hreader, (Option.some.inj h).symm⟩
  · cases h

theorem TaskRun.step_checkpointSave {saved : Bool}
    (h : r.step id tasks stored registered (.checkpointSave saved) = some x) :
    ∃ reader loaded, r.reader = some reader ∧ reader.phase = .saving loaded ∧ x = {
      run := { r with reader := some { reader with phase := .receiving } }
      save := if saved then some (reader.checkpoint loaded) else none } := by
  obtain ⟨reader, hreader, h⟩ := Option.bind_eq_some_iff.mp h
  dsimp only [TaskRun.readerStep] at h
  split at h
  · exact ⟨reader, _, hreader, ‹_›, (Option.some.inj h).symm⟩
  · cases h

theorem TaskRun.step_readerDone (h : r.step id tasks stored registered .readerDone = some x) :
    ∃ reader, r.reader = some reader ∧ x = { run := { r with reader := none } } := by
  obtain ⟨reader, hreader, h⟩ := Option.bind_eq_some_iff.mp h
  dsimp only [TaskRun.readerStep] at h
  split at h
  · exact ⟨reader, hreader, (Option.some.inj h).symm⟩
  · cases h

theorem TaskRun.step_controlChanged
    (h : r.step id tasks stored registered .controlChanged = some x) :
    ∃ monitor monitor', r.monitor = some monitor ∧
      (((monitor.seen = r.control.version ∨ r.control.value ≠ .paused) ∧
        x = { run := { r with monitor := monitor' } }) ∨
      (monitor.seen ≠ r.control.version ∧ r.control.value = .paused ∧ x = {
        run := { r with monitor := monitor' }
        entry := (tasks.lookup id).map fun task => { task with speed := 0 } })) := by
  obtain ⟨monitor, hmonitor, h⟩ := Option.bind_eq_some_iff.mp h
  dsimp only [TaskRun.monitorStep] at h
  split at h
  · by_cases hseen : monitor.seen = r.control.version
    · rw [if_pos hseen] at h
      split at h
      · cases h
      · exact ⟨monitor, none, hmonitor, Or.inl ⟨Or.inl hseen, (Option.some.inj h).symm⟩⟩
    · rw [if_neg hseen] at h
      split at h
      case h_4 hpaused =>
        exact ⟨monitor, _, hmonitor, Or.inr ⟨hseen, hpaused, (Option.some.inj h).symm⟩⟩
      case h_5 _ _ _ hpaused =>
        exact ⟨monitor, _, hmonitor, Or.inl ⟨Or.inr hpaused, (Option.some.inj h).symm⟩⟩
      all_goals
        rename_i hvalue
        exact ⟨monitor, none, hmonitor, Or.inl ⟨Or.inr (by rw [hvalue]; nofun),
          (Option.some.inj h).symm⟩⟩
  · cases h

theorem TaskRun.step_measure (h : r.step id tasks stored registered .measure = some x) :
    ∃ monitor monitor', r.monitor = some monitor ∧
      x = { run := { r with monitor := some monitor' } } := by
  obtain ⟨monitor, hmonitor, h⟩ := Option.bind_eq_some_iff.mp h
  dsimp only [TaskRun.monitorStep] at h
  split at h
  · split at h
    · exact ⟨monitor, _, hmonitor, (Option.some.inj h).symm⟩
    · exact ⟨monitor, monitor, hmonitor, (Option.some.inj h).symm.trans (by rw [← hmonitor])⟩
  · cases h

theorem TaskRun.step_showSpeed {elapsed : Bool}
    (h : r.step id tasks stored registered (.showSpeed elapsed) = some x) :
    ∃ monitor monitor' downloaded status, r.monitor = some monitor ∧
      monitor.phase = .measured downloaded status ∧ x = {
        run := { r with monitor := monitor' }
        entry := (tasks.lookup id).map fun task =>
          { task with speed := monitor.speed elapsed downloaded } } := by
  obtain ⟨monitor, hmonitor, h⟩ := Option.bind_eq_some_iff.mp h
  dsimp only [TaskRun.monitorStep] at h
  split at h
  · exact ⟨monitor, _, _, _, hmonitor, ‹_›, (Option.some.inj h).symm⟩
  · cases h

theorem TaskRun.step_broadcast (h : r.step id tasks stored registered .broadcast = some x) :
    ∃ monitor monitor' speed downloaded, r.monitor = some monitor ∧
      monitor.phase = .shown speed downloaded ∧ x = {
        run := { r with monitor := some monitor' }
        event := (tasks.lookup id).map fun task => Function.update (fun _ => none) id
          (some { task.report id with speed := speed, downloaded := downloaded }) } := by
  obtain ⟨monitor, hmonitor, h⟩ := Option.bind_eq_some_iff.mp h
  dsimp only [TaskRun.monitorStep] at h
  split at h
  · exact ⟨monitor, _, _, _, hmonitor, ‹_›, (Option.some.inj h).symm⟩
  · cases h

/-- A call of `persist_task_snapshot` saves in its last step only. -/
theorem PersistPhase.step_eq_some {task : Option TaskInfo} {phase : PersistPhase}
    {e : PersistEvent} {next : Option PersistPhase} {save : Option TaskSnapshot}
    (h : phase.step task stored e = some (next, save)) :
    (save = none ∧ ∀ now downloadDir saved, e ≠ .save now downloadDir saved) ∨
      ∃ task existing now downloadDir saved, phase = .saving task existing ∧
        e = .save now downloadDir saved ∧ next = none ∧
        save = if saved then some (persistedSnapshot now downloadDir task existing none)
          else none := by
  unfold PersistPhase.step at h
  split at h
  · obtain ⟨-, rfl⟩ := Prod.mk.inj (Option.some.inj h)
    exact Or.inl ⟨rfl, nofun⟩
  · obtain ⟨-, rfl⟩ := Prod.mk.inj (Option.some.inj h)
    exact Or.inl ⟨rfl, nofun⟩
  · obtain ⟨rfl, rfl⟩ := Prod.mk.inj (Option.some.inj h)
    exact Or.inr ⟨_, _, _, _, _, rfl, rfl, rfl, rfl⟩
  · cases h

/-- An entry rewritten by a function is written where there is one. -/
theorem TaskRun.map_eq_some_iff_writes {entry : Option TaskInfo} {f : TaskInfo → TaskInfo}
    (hf : ∀ task task', r.Writes task e task' ↔ f task = task') :
    entry.map f = some task' ↔ ∃ task, entry = some task ∧ r.Writes task e task' := by
  rw [Option.map_eq_some_iff]
  exact exists_congr fun task => and_congr_right fun _ => (hf task task').symm

/-- A step writes the entry that is there, as its event does, and no other. -/
theorem TaskRun.step_entry (h : r.step id tasks stored registered e = some x) :
    x.entry = some task' ↔ ∃ task, tasks.lookup id = some task ∧ r.Writes task e task' := by
  have hquiet (hentry : x.entry = none) (hwrites : ∀ task, ¬r.Writes task e task') :
      x.entry = some task' ↔ ∃ task, tasks.lookup id = some task ∧ r.Writes task e task' := by
    rw [hentry]
    exact ⟨nofun, fun ⟨task, _, h⟩ => absurd h (hwrites task)⟩
  cases e with
  | fail =>
    obtain ⟨hphase, rfl⟩ := TaskRun.step_fail h
    refine TaskRun.map_eq_some_iff_writes fun task task' => ⟨?_, ?_⟩
    · rintro ⟨⟩
      rfl
    · rintro rfl
      exact .fail hphase
  | check =>
    obtain ⟨-, ⟨rfl, -⟩ | ⟨rfl, -⟩⟩ := TaskRun.step_check h
    · exact hquiet rfl (by rintro task ⟨⟩)
    · exact hquiet rfl (by rintro task ⟨⟩)
  | mark =>
    obtain ⟨hphase, rfl⟩ := TaskRun.step_mark h
    refine TaskRun.map_eq_some_iff_writes fun task task' => ⟨?_, ?_⟩
    · rintro ⟨⟩
      rfl
    · rintro rfl
      exact .mark hphase
  | inject =>
    obtain ⟨-, rfl⟩ := TaskRun.step_inject h
    exact hquiet rfl (by rintro task ⟨⟩)
  | checkControl =>
    obtain ⟨rfl, -⟩ | ⟨-, rfl⟩ | ⟨metadata, totalFrags, -, rfl⟩ := TaskRun.step_checkControl h
    · exact hquiet rfl (by rintro task ⟨⟩)
    · exact hquiet rfl (by rintro task ⟨⟩)
    · exact hquiet rfl (by rintro task ⟨⟩)
  | probe result =>
    obtain ⟨hphase, ⟨metadata, rfl, rfl⟩ | ⟨rfl, rfl⟩ | ⟨error, rfl, herror, rfl⟩⟩ :=
      TaskRun.step_probe h
    · exact hquiet rfl (by rintro task ⟨⟩)
    · refine hquiet rfl fun task hwrites => ?_
      cases hwrites with
      | probeFailed _ herror => exact absurd rfl herror
    · refine TaskRun.map_eq_some_iff_writes fun task task' => ⟨?_, ?_⟩
      · rintro ⟨⟩
        rfl
      · rintro rfl
        exact .probeFailed hphase herror
  | size =>
    obtain ⟨metadata, hphase, rfl⟩ := TaskRun.step_size h
    refine TaskRun.map_eq_some_iff_writes fun task task' => ⟨fun hwrites => ?_, ?_⟩
    · cases hwrites with
      | size hphase' =>
        obtain rfl := RunPhase.probed.inj (hphase.symm.trans hphase')
        rfl
    · rintro rfl
      exact .size hphase
  | copy =>
    obtain ⟨metadata, -, ⟨task, -, rfl⟩ | ⟨-, rfl⟩⟩ := TaskRun.step_copy h
    · exact hquiet rfl (by rintro task ⟨⟩)
    · exact hquiet rfl (by rintro task ⟨⟩)
  | saveMetadata now saved =>
    obtain ⟨metadata, task, -, rfl⟩ := TaskRun.step_saveMetadata h
    exact hquiet rfl (by rintro task ⟨⟩)
  | finish result =>
    obtain ⟨metadata, ended, hphase, rfl, rfl⟩ := TaskRun.step_finish h
    simp only [Effect.setting, Option.map_eq_some_iff, Option.filter_eq_some_iff]
    constructor
    · rintro ⟨task, ⟨htask, hstatus⟩, rfl⟩
      exact ⟨task, htask, .finish hphase (of_decide_eq_true hstatus)⟩
    · rintro ⟨task, htask, hwrites⟩
      cases hwrites with
      | finish hphase' hstatus =>
        obtain rfl := RunPhase.running.inj (hphase.symm.trans hphase')
        exact ⟨task, ⟨htask, decide_eq_true hstatus⟩, rfl⟩
  | notify =>
    obtain ⟨terminal, control, -, rfl⟩ := TaskRun.step_notify h
    exact hquiet rfl (by rintro task ⟨⟩)
  | join =>
    obtain ⟨-, rfl⟩ := TaskRun.step_join h
    exact hquiet rfl (by rintro task ⟨⟩)
  | cleanup =>
    obtain ⟨-, rfl⟩ | ⟨-, rfl⟩ := TaskRun.step_cleanup h
    · exact hquiet rfl (by rintro task ⟨⟩)
    · exact hquiet rfl (by rintro task ⟨⟩)
  | report =>
    obtain ⟨-, rfl⟩ := TaskRun.step_report h
    exact hquiet rfl (by rintro task ⟨⟩)
  | persist e =>
    obtain ⟨phase, next, save, -, -, rfl⟩ := TaskRun.step_persist h
    exact hquiet rfl (by rintro task ⟨⟩)
  | receive progress =>
    obtain ⟨reader, hreader, rfl⟩ := TaskRun.step_receive h
    refine TaskRun.map_eq_some_iff_writes fun task task' => ⟨fun hwrites => ?_, ?_⟩
    · cases hwrites with
      | receive hreader' =>
        obtain rfl := Option.some.inj (hreader.symm.trans hreader')
        rfl
    · rintro rfl
      exact .receive hreader
  | checkpointLoad readable =>
    obtain ⟨reader, phase, -, rfl⟩ := TaskRun.step_checkpointLoad h
    exact hquiet rfl (by rintro task ⟨⟩)
  | checkpointSave saved =>
    obtain ⟨reader, loaded, -, -, rfl⟩ := TaskRun.step_checkpointSave h
    exact hquiet rfl (by rintro task ⟨⟩)
  | readerDone =>
    obtain ⟨reader, -, rfl⟩ := TaskRun.step_readerDone h
    exact hquiet rfl (by rintro task ⟨⟩)
  | controlChanged =>
    obtain ⟨monitor, monitor', hmonitor, ⟨hcalm, rfl⟩ | ⟨hseen, hvalue, rfl⟩⟩ :=
      TaskRun.step_controlChanged h
    · refine hquiet rfl fun task hwrites => ?_
      cases hwrites with
      | paused hmonitor' hseen hvalue =>
        obtain rfl := Option.some.inj (hmonitor.symm.trans hmonitor')
        exact hcalm.elim hseen fun hcalm => hcalm hvalue
    · refine TaskRun.map_eq_some_iff_writes fun task task' => ⟨?_, ?_⟩
      · rintro ⟨⟩
        rfl
      · rintro rfl
        exact .paused hmonitor hseen hvalue
  | measure =>
    obtain ⟨monitor, monitor', -, rfl⟩ := TaskRun.step_measure h
    exact hquiet rfl (by rintro task ⟨⟩)
  | showSpeed elapsed =>
    obtain ⟨monitor, monitor', downloaded, status, hmonitor, hphase, rfl⟩ :=
      TaskRun.step_showSpeed h
    refine TaskRun.map_eq_some_iff_writes fun task task' => ⟨fun hwrites => ?_, ?_⟩
    · cases hwrites with
      | speed hmonitor' hphase' =>
        obtain rfl := Option.some.inj (hmonitor.symm.trans hmonitor')
        obtain ⟨rfl, -⟩ := MonitorPhase.measured.inj (hphase.symm.trans hphase')
        rfl
    · rintro rfl
      exact .speed hmonitor hphase
  | broadcast =>
    obtain ⟨monitor, monitor', speed, downloaded, -, -, rfl⟩ := TaskRun.step_broadcast h
    exact hquiet rfl (by rintro task ⟨⟩)

theorem TaskRun.MonitorJoined.not_returned (hr : r.MonitorJoined)
    (hmonitor : r.monitor.isSome = true) : r.phase ≠ .returned := by
  intro hphase
  have hmonitored := hr hmonitor
  rw [hphase] at hmonitored
  cases hmonitored

theorem TaskRun.MonitorJoined.start (hr : r.MonitorJoined) : r.start.MonitorJoined := by
  unfold TaskRun.start
  split
  · rename_i hphase
    intro hmonitor
    have hmonitored := hr hmonitor
    rw [hphase] at hmonitored
    cases hmonitored
  · exact hr

theorem TaskRun.start_live : r.start.Live ↔ r.Live := by
  unfold TaskRun.start
  split
  · rename_i hphase
    exact iff_of_true (Or.inl nofun) (Or.inl (by rw [hphase]; nofun))
  · exact Iff.rfl

theorem TaskRun.start_cleanedUp : r.start.phase.cleanedUp = r.phase.cleanedUp := by
  unfold TaskRun.start
  split
  · rename_i hphase
    rw [hphase]
    rfl
  · rfl

/-- A step of `task_fn` without a monitor. -/
theorem TaskRun.Moves.of_phase (hr : r.MonitorJoined) {before after : RunPhase}
    (hphase : r.phase = before) (hmonitored : before.monitored = false)
    (hreturned : before ≠ .returned) (hcleaned : before.cleanedUp = true → after.cleanedUp = true)
    (hrun : x.run = { r with phase := after })
    (hcleanup : x.cleanup = true → after.cleanedUp = true) : r.Moves x := by
  subst hphase
  refine ⟨Or.inl hreturned, ?_, ?_⟩
  · rw [hrun]
    intro hmonitor
    rw [hr hmonitor] at hmonitored
    cases hmonitored
  · rw [hrun]
    exact fun h => h.elim hcleaned hcleanup

/-- A step of the reader or the monitor. -/
theorem TaskRun.Moves.of_same (hr : r.MonitorJoined)
    (hlive : r.reader.isSome = true ∨ r.monitor.isSome = true)
    (hphase : x.run.phase = r.phase)
    (hmonitor : x.run.monitor.isSome = true → r.monitor.isSome = true)
    (hcleanup : x.cleanup = false) : r.Moves x where
  live := hlive.elim Or.inr fun h => Or.inl (hr.not_returned h)
  joined := by
    intro h
    rw [hphase]
    exact hr (hmonitor h)
  cleanedUp := by
    rw [hphase, hcleanup]
    exact fun h => h.elim (fun h => h) nofun

/-- A step moves the run on, and after the cleanup only to what follows it. -/
theorem TaskRun.step_moves (hr : r.MonitorJoined)
    (h : r.step id tasks stored registered e = some x) : r.Moves x := by
  cases e with
  | fail =>
    obtain ⟨hphase | hphase, rfl⟩ := TaskRun.step_fail h
    · exact .of_phase hr hphase rfl nofun nofun rfl nofun
    · exact .of_phase hr hphase rfl nofun nofun rfl nofun
  | check =>
    obtain ⟨hphase, ⟨rfl, -⟩ | ⟨rfl, -⟩⟩ := TaskRun.step_check h
    · exact .of_phase hr hphase rfl nofun nofun rfl nofun
    · exact .of_phase hr hphase rfl nofun nofun rfl nofun
  | mark =>
    obtain ⟨hphase, rfl⟩ := TaskRun.step_mark h
    exact .of_phase hr hphase rfl nofun nofun rfl nofun
  | inject =>
    obtain ⟨hphase, rfl⟩ := TaskRun.step_inject h
    exact .of_phase hr hphase rfl nofun nofun rfl nofun
  | checkControl =>
    obtain ⟨rfl, hphase | ⟨metadata, hphase⟩⟩ | ⟨hphase, rfl⟩ |
      ⟨metadata, totalFrags, hphase, rfl⟩ := TaskRun.step_checkControl h
    · exact .of_phase hr hphase rfl nofun nofun rfl nofun
    · exact .of_phase hr hphase rfl nofun nofun rfl nofun
    · exact .of_phase hr hphase rfl nofun nofun rfl nofun
    · exact ⟨Or.inl (by rw [hphase]; nofun), fun _ => rfl, by rw [hphase]; nofun⟩
  | probe result =>
    obtain ⟨hphase, ⟨metadata, -, rfl⟩ | ⟨-, rfl⟩ | ⟨error, -, -, rfl⟩⟩ := TaskRun.step_probe h
    · exact .of_phase hr hphase rfl nofun nofun rfl nofun
    · exact .of_phase hr hphase rfl nofun nofun rfl nofun
    · exact .of_phase hr hphase rfl nofun nofun rfl nofun
  | size =>
    obtain ⟨metadata, hphase, rfl⟩ := TaskRun.step_size h
    exact .of_phase hr hphase rfl nofun nofun rfl nofun
  | copy =>
    obtain ⟨metadata, hphase, ⟨task, -, rfl⟩ | ⟨-, rfl⟩⟩ := TaskRun.step_copy h
    · exact .of_phase hr hphase rfl nofun nofun rfl nofun
    · exact .of_phase hr hphase rfl nofun nofun rfl nofun
  | saveMetadata now saved =>
    obtain ⟨metadata, task, hphase, rfl⟩ := TaskRun.step_saveMetadata h
    exact .of_phase hr hphase rfl nofun nofun rfl nofun
  | finish result =>
    obtain ⟨metadata, ended, hphase, -, rfl⟩ := TaskRun.step_finish h
    exact ⟨Or.inl (by rw [hphase]; nofun), fun _ => rfl, by rw [hphase]; nofun⟩
  | notify =>
    obtain ⟨terminal, control, hphase, rfl⟩ := TaskRun.step_notify h
    exact ⟨Or.inl (by rw [hphase]; nofun), fun _ => rfl, by rw [hphase]; nofun⟩
  | join =>
    obtain ⟨hphase, rfl⟩ := TaskRun.step_join h
    exact ⟨Or.inl (by rw [hphase]; nofun), nofun, by rw [hphase]; nofun⟩
  | cleanup =>
    obtain ⟨hphase, rfl⟩ | ⟨hphase, rfl⟩ := TaskRun.step_cleanup h
    · exact .of_phase hr hphase rfl nofun (fun _ => rfl) rfl fun _ => rfl
    · exact .of_phase hr hphase rfl nofun (fun _ => rfl) rfl fun _ => rfl
  | report =>
    obtain ⟨hphase, rfl⟩ := TaskRun.step_report h
    exact .of_phase hr hphase rfl nofun (fun _ => rfl) rfl nofun
  | persist e =>
    obtain ⟨phase, next, save, hphase, -, rfl⟩ := TaskRun.step_persist h
    refine .of_phase hr hphase rfl nofun (fun _ => ?_) rfl nofun
    cases next with
    | none => rfl
    | some phase => rfl
  | receive progress =>
    obtain ⟨reader, hreader, rfl⟩ := TaskRun.step_receive h
    exact .of_same hr (Or.inl (Option.isSome_of_eq_some hreader)) rfl (fun h => h) rfl
  | checkpointLoad readable =>
    obtain ⟨reader, phase, hreader, rfl⟩ := TaskRun.step_checkpointLoad h
    exact .of_same hr (Or.inl (Option.isSome_of_eq_some hreader)) rfl (fun h => h) rfl
  | checkpointSave saved =>
    obtain ⟨reader, loaded, hreader, -, rfl⟩ := TaskRun.step_checkpointSave h
    exact .of_same hr (Or.inl (Option.isSome_of_eq_some hreader)) rfl (fun h => h) rfl
  | readerDone =>
    obtain ⟨reader, hreader, rfl⟩ := TaskRun.step_readerDone h
    exact .of_same hr (Or.inl (Option.isSome_of_eq_some hreader)) rfl (fun h => h) rfl
  | controlChanged =>
    obtain ⟨monitor, monitor', hmonitor, ⟨-, rfl⟩ | ⟨-, -, rfl⟩⟩ := TaskRun.step_controlChanged h
    · have hsome := Option.isSome_of_eq_some hmonitor
      exact .of_same hr (Or.inr hsome) rfl (fun _ => hsome) rfl
    · have hsome := Option.isSome_of_eq_some hmonitor
      exact .of_same hr (Or.inr hsome) rfl (fun _ => hsome) rfl
  | measure =>
    obtain ⟨monitor, monitor', hmonitor, rfl⟩ := TaskRun.step_measure h
    have hsome := Option.isSome_of_eq_some hmonitor
    exact .of_same hr (Or.inr hsome) rfl (fun _ => hsome) rfl
  | showSpeed elapsed =>
    obtain ⟨monitor, monitor', downloaded, status, hmonitor, -, rfl⟩ := TaskRun.step_showSpeed h
    have hsome := Option.isSome_of_eq_some hmonitor
    exact .of_same hr (Or.inr hsome) rfl (fun _ => hsome) rfl
  | broadcast =>
    obtain ⟨monitor, monitor', speed, downloaded, hmonitor, -, rfl⟩ := TaskRun.step_broadcast h
    have hsome := Option.isSome_of_eq_some hmonitor
    exact .of_same hr (Or.inr hsome) rfl (fun _ => hsome) rfl

/-- A step that writes the entry has not ended the run. -/
theorem TaskRun.step_live_of_entry (hr : r.MonitorJoined)
    (h : r.step id tasks stored registered e = some x) (hentry : x.entry = some task') :
    x.run.Live := by
  obtain ⟨task, -, hwrites⟩ := (TaskRun.step_entry h).mp hentry
  cases hwrites with
  | fail =>
    obtain ⟨-, rfl⟩ := TaskRun.step_fail h
    exact Or.inl nofun
  | mark =>
    obtain ⟨-, rfl⟩ := TaskRun.step_mark h
    exact Or.inl nofun
  | probeFailed _ herror =>
    obtain ⟨-, ⟨metadata, -, rfl⟩ | ⟨-, rfl⟩ | ⟨error, -, -, rfl⟩⟩ := TaskRun.step_probe h
    · exact Or.inl nofun
    · exact Or.inl nofun
    · exact Or.inl nofun
  | size =>
    obtain ⟨metadata, -, rfl⟩ := TaskRun.step_size h
    exact Or.inl nofun
  | finish =>
    obtain ⟨metadata, ended, -, -, rfl⟩ := TaskRun.step_finish h
    exact Or.inl nofun
  | receive =>
    obtain ⟨reader, -, rfl⟩ := TaskRun.step_receive h
    exact Or.inr rfl
  | paused hmonitor =>
    have hreturned := hr.not_returned (Option.isSome_of_eq_some hmonitor)
    obtain ⟨monitor, monitor', -, ⟨-, rfl⟩ | ⟨-, -, rfl⟩⟩ := TaskRun.step_controlChanged h
    · exact Or.inl hreturned
    · exact Or.inl hreturned
  | speed hmonitor =>
    have hreturned := hr.not_returned (Option.isSome_of_eq_some hmonitor)
    obtain ⟨monitor, monitor', downloaded, status, -, -, rfl⟩ := TaskRun.step_showSpeed h
    exact Or.inl hreturned

end Step

end Tachyon
