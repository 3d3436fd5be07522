import Tachyon.App.TaskStore
import Tachyon.Engine.DownloadTask
import Tachyon.Library.EventRuns

/-!
# The runs of one task

`task_fn`, the chunk reader it spawns and the commands of the user share one entry
of the task store. Every step of theirs between two awaits is an event here, so a
list of events is an interleaving of them. The runner works on its own copy of the
task map: `create_task_inner` hands it a clone, which for a `DashMap` is a new map.
-/

namespace Tachyon

open EventRuns

/-- `BTreeSet::insert`, on the sorted list of the elements. -/
def insertIndex (i : ℕ) : List ℕ → List ℕ
  | [] => [i]
  | j :: rest => if i < j then i :: j :: rest else if i = j then j :: rest
    else j :: insertIndex i rest

/-- Where the chunk reader is in handling a message. -/
inductive ReaderPhase where
  | receiving
  /-- Before `load_snapshot` of a checkpoint. -/
  | loading
  /-- Between `load_snapshot` and `save_snapshot`. -/
  | saving (loaded : TaskSnapshot)

/-- The locals of the chunk reader. -/
structure ChunkReader where
  completed : List ℕ
  totalFrags : ℕ
  fragBytes : ℕ → ℕ
  totalDownloaded : ℕ
  phase : ReaderPhase

/-- A chunk reader before its first message. -/
def ChunkReader.new (totalFrags : ℕ) : ChunkReader := ⟨[], totalFrags, fun _ => 0, 0, .receiving⟩

/-- The bookkeeping of the chunk reader for one message. -/
def ChunkReader.receive (r : ChunkReader) (progress : FragmentProgress) : ChunkReader :=
  let old := r.fragBytes progress.fragmentIndex
  { r with
    completed :=
      if progress.completed then insertIndex progress.fragmentIndex r.completed else r.completed
    fragBytes := Function.update r.fragBytes progress.fragmentIndex progress.fragmentDownloaded
    totalDownloaded :=
      min (r.totalDownloaded + (progress.fragmentDownloaded - old)) (u64Bound - 1)
    phase := if progress.completed then .loading else .receiving }

/-- What the chunk reader shows of its progress in the task's entry. -/
def ChunkReader.show (r : ChunkReader) (task : TaskInfo) : TaskInfo :=
  let fragsDone := r.completed.length % u32Bound
  { task with
    downloaded := r.totalDownloaded
    fragmentsDone := fragsDone
    fragmentsTotal := r.totalFrags
    progress := if r.totalFrags > 0 then fragsDone / r.totalFrags else task.progress }

/-- The snapshot a checkpoint saves over the one it loaded. -/
def ChunkReader.checkpoint (r : ChunkReader) (loaded : TaskSnapshot) : TaskSnapshot :=
  { loaded with completedFragments := r.completed, downloaded := r.totalDownloaded }

/-- Where `task_fn` is. -/
inductive RunnerPhase where
  | started
  | injected
  | probed
  | saved
  | running
  | planned
  | finished
  deriving DecidableEq, Repr

/-- The locals of `task_fn`. `restored` is the snapshot whose indices it injected; the code
keeps only the indices. -/
structure Runner where
  phase : RunnerPhase
  download : DownloadTask
  downloadDir : String
  restored : Option TaskSnapshot

/-- The two task maps: the one the commands use and the runner's copy of it. -/
inductive TaskMap where
  | managed
  | copied
  deriving DecidableEq, Repr

/-- A call of `persist_task_snapshot` under way. Tickets count the copies of a task taken. -/
inductive Persist where
  | cloning (map : TaskMap)
  | loading (ticket : ℕ) (task : TaskInfo)
  | saving (ticket : ℕ) (task : TaskInfo) (existing : Option TaskSnapshot)

/-- The three writers of the task's snapshot. -/
inductive Writer where
  | metadata
  | checkpoint
  | persist (ticket : ℕ)
  deriving DecidableEq, Repr

/-- A snapshot that was saved. -/
structure Save where
  writer : Writer
  snapshot : TaskSnapshot
  deriving DecidableEq

/-- One task with its stored snapshot, and everything under way for it. `saves` records the
snapshots saved, newest first; the code does not read it. -/
structure System where
  stored : Option TaskSnapshot
  saves : List Save
  tasks : Option TaskInfo
  runTasks : Option TaskInfo
  runner : Option Runner
  reader : Option ChunkReader
  persists : List Persist
  tickets : ℕ

/-- `pause_task`, `resume_task` and `cancel_task`. -/
inductive Command where
  | pause
  | resume
  | cancel
  deriving DecidableEq, Repr

/-- What a command does to the task's entry; `none` is its error. -/
def Command.apply (task : TaskInfo) : Command → Option TaskInfo
  | .pause =>
    if task.status = .pending ∨ task.status = .downloading then
      some { task with status := .paused, speed := 0 }
    else none
  | .resume => if task.status = .paused then some { task with status := .downloading } else none
  | .cancel =>
    if task.status = .completed ∨ task.status = .cancelled then none
    else some { task with status := .cancelled, speed := 0 }

/-- The steps of a task's runs. A `Bool` says whether the store's operation succeeded. -/
inductive Event where
  /-- `task_fn` up to the new `DownloadTask`, on its copy of the map. -/
  | start (runTasks : Option TaskInfo) (download : DownloadTask) (downloadDir : String)
  /-- The indices of the stored snapshot are injected. -/
  | inject (readable : Bool)
  /-- `probe` returns. -/
  | probe (result : DownloadResult FileMetadata)
  /-- The snapshot with the probed metadata is saved. -/
  | saveMetadata (now : String) (saved : Bool)
  /-- The chunk reader is spawned. -/
  | spawn
  /-- `plan`, within `run`. -/
  | plan
  /-- The control channel says Cancelled before `run`. -/
  | quit
  /-- `run` returns and the entry of the task gets its final status. -/
  | finish (result : DownloadResult Unit)
  /-- The last persist of `task_fn` begins. -/
  | close
  /-- The chunk reader receives a message. -/
  | receive (progress : FragmentProgress)
  | checkpointLoad (readable : Bool)
  | checkpointSave (saved : Bool)
  /-- The progress channel is closed. -/
  | readerDone
  /-- A command changes the status of the task and begins to persist it. -/
  | command (c : Command)
  /-- `delete_task`. -/
  | delete
  /-- The copy of the task is taken. -/
  | persistClone (call : ℕ)
  | persistLoad (call : ℕ) (readable : Bool)
  | persistSave (call : ℕ) (now downloadDir : String) (saved : Bool)
  /-- The process ends, wherever it is, and a new one recovers its tasks. -/
  | restart (readable : Bool)

/-- A new `DownloadTask`, as its constructors make it. -/
def DownloadTask.fresh (t : DownloadTask) : DownloadTask :=
  { t with
    storage := none
    state := .pending
    metadata := none
    fragments := []
    completedFragments := [] }

/-- `total_frags`, counted in pieces of one MiB. -/
def totalFrags (fileSize : Option UInt64) : ℕ :=
  match fileSize with
  | some size => divCeil (max size.toNat 1) (1024 * 1024) % u32Bound
  | none => 0

/-- The final status of a run in the task's entry. -/
def TaskInfo.terminal (task : TaskInfo) (metadata : Option FileMetadata) :
    DownloadResult Unit → TaskInfo
  | .ok () =>
    let finalSize := ((metadata.bind FileMetadata.fileSize).or task.fileSize).getD 0
    if task.status = .cancelled then task
    else { task with
      progress := 1
      fileSize := some finalSize
      downloaded := finalSize.toNat
      speed := 0
      status := .completed }
  | .error _ =>
    if task.status = .cancelled then task else { task with status := .failed, speed := 0 }

/-- `save_snapshot`; where it fails the stored snapshot stays as it is. -/
def System.save (s : System) (saved : Bool) (writer : Writer) (snapshot : TaskSnapshot) : System :=
  if saved then { s with stored := some snapshot, saves := ⟨writer, snapshot⟩ :: s.saves } else s

/-- `load_snapshot`; `none` is no snapshot or an error. -/
def System.load (s : System) (readable : Bool) : Option TaskSnapshot :=
  if readable then s.stored else none

/-- The task's entry in one of the maps. -/
def System.entry (s : System) : TaskMap → Option TaskInfo
  | .managed => s.tasks
  | .copied => s.runTasks

/-- The steps of `task_fn`. -/
def System.runnerStep (s : System) (r : Runner) : Event → Option System
  | .inject readable => do
    guard (r.phase = .started)
    let restored := (s.load readable).filter fun snapshot => !snapshot.completedFragments.isEmpty
    let completed := (restored.map TaskSnapshot.completedFragments).getD []
    some { s with runner := some { r with
      phase := .injected
      download := { r.download with completedFragments := completed }
      restored := restored } }
  | .probe result => do
    guard (r.phase = .injected)
    match result with
    | .ok metadata =>
      some { s with
        runTasks := s.runTasks.map fun task => { task with
          fileSize := metadata.fileSize
          fragmentsTotal := totalFrags metadata.fileSize }
        runner := some { r with
          phase := .probed
          download := { r.download with metadata := some metadata } } }
    | .error .cancelled => some { s with runner := none }
    | .error _ =>
      some { s with
        runTasks := s.runTasks.map fun task => task.updateStatus .failed
        runner := none }
  | .saveMetadata now saved => do
    guard (r.phase = .probed)
    let metadata ← r.download.metadata
    let next := { s with runner := some { r with phase := .saved } }
    match s.runTasks with
    | none => some next
    | some task =>
      some (next.save saved .metadata (taskInfoToSnapshot now task
        (joinPath r.downloadDir metadata.fileName) 0 [] metadata.etag metadata.lastModified))
  | .spawn => do
    guard (r.phase = .saved)
    some { s with
      runner := some { r with phase := .running }
      reader := some (.new ((s.runTasks.map TaskInfo.fragmentsTotal).getD 0)) }
  | .plan => do
    guard (r.phase = .running)
    match r.download.plan with
    | some (.ok download) => some { s with
        runner := some { r with phase := .planned, download := download } }
    | _ => none
  | .quit => do
    guard (r.phase = .injected ∨ r.phase = .saved)
    some { s with runner := none }
  | .finish result => do
    guard (r.phase = .running ∨ r.phase = .planned)
    some { s with
      runTasks := s.runTasks.map fun task => task.terminal r.download.metadata result
      runner := some { r with phase := .finished } }
  | .close => do
    guard (r.phase = .finished)
    some { s with runner := none, persists := s.persists ++ [.cloning .copied] }
  | _ => none

/-- The steps of the chunk reader. -/
def System.readerStep (s : System) (r : ChunkReader) : Event → Option System
  | .receive progress =>
    match r.phase with
    | .receiving =>
      let r := r.receive progress
      some { s with reader := some r, runTasks := s.runTasks.map r.show }
    | _ => none
  | .checkpointLoad readable =>
    match r.phase with
    | .loading =>
      match s.load readable with
      | some loaded => some { s with reader := some { r with phase := .saving loaded } }
      | none => some { s with reader := some { r with phase := .receiving } }
    | _ => none
  | .checkpointSave saved =>
    match r.phase with
    | .saving loaded =>
      let next := { s with reader := some { r with phase := .receiving } }
      some (next.save saved .checkpoint (r.checkpoint loaded))
    | _ => none
  | .readerDone =>
    match r.phase with
    | .receiving => if s.runner.isNone then some { s with reader := none } else none
    | _ => none
  | _ => none

/-- The steps of a call of `persist_task_snapshot`. -/
def System.persistStep (s : System) : Event → Option System
  | .persistClone call => do
    match ← s.persists[call]? with
    | .cloning map =>
      match s.entry map with
      | some task =>
        some { s with
          persists := s.persists.set call (.loading s.tickets task)
          tickets := s.tickets + 1 }
      | none => some { s with persists := s.persists.eraseIdx call }
    | _ => none
  | .persistLoad call readable => do
    match ← s.persists[call]? with
    | .loading ticket task =>
      some { s with persists := s.persists.set call (.saving ticket task (s.load readable)) }
    | _ => none
  | .persistSave call now downloadDir saved => do
    match ← s.persists[call]? with
    | .saving ticket task existing =>
      let next := { s with persists := s.persists.eraseIdx call }
      some (next.save saved (.persist ticket)
        (persistedSnapshot now downloadDir task existing none))
    | _ => none
  | _ => none

/-- One step of a task's runs, `none` where the event cannot happen. -/
def System.step (s : System) (e : Event) : Option System :=
  match e with
  | .start runTasks download downloadDir => do
    guard (s.runner.isNone ∧ s.reader.isNone)
    guard ((runTasks.map TaskInfo.status) ≠ some .cancelled)
    some { s with
      runTasks := runTasks.map fun task => task.updateStatus .downloading
      runner := some ⟨.started, download.fresh, downloadDir, none⟩ }
  | .inject _ | .probe _ | .saveMetadata _ _ | .spawn | .plan | .quit | .finish _ | .close => do
    s.runnerStep (← s.runner) e
  | .receive _ | .checkpointLoad _ | .checkpointSave _ | .readerDone => do
    s.readerStep (← s.reader) e
  | .command c => do
    let task ← c.apply (← s.tasks)
    some { s with tasks := some task, persists := s.persists ++ [.cloning .managed] }
  | .delete => do
    let task ← s.tasks
    guard (task.status = .completed ∨ task.status = .cancelled ∨ task.status = .failed)
    some { s with tasks := none }
  | .persistClone _ | .persistLoad _ _ | .persistSave _ _ _ _ => s.persistStep e
  | .restart readable =>
    some { s with
      tasks := ((s.load readable).filter TaskSnapshot.recoverable).map snapshotToTaskInfo
      runTasks := none
      runner := none
      reader := none
      persists := [] }

/-- A task nobody works on, with what the store holds of it. -/
def System.initial (stored : Option TaskSnapshot) (tasks : Option TaskInfo) : System :=
  ⟨stored, [], tasks, none, none, none, [], 0⟩

/-! ### What each step does -/

/-- The completed indices of the stored snapshot. -/
def System.indices (s : System) : List ℕ := (s.stored.map TaskSnapshot.completedFragments).getD []

/-- The indices of the snapshot a call of `persist_task_snapshot` has loaded, if it is past
its load. -/
def Persist.loadedIndices : Persist → Option (List ℕ)
  | .saving _ _ existing => some ((existing.map TaskSnapshot.completedFragments).getD [])
  | _ => none

/-- An event saves a snapshot. -/
inductive System.Writes (s : System) : Event → Save → Prop where
  | metadata {r : Runner} {now : String} {task : TaskInfo} {metadata : FileMetadata}
      (hrunner : s.runner = some r) (hphase : r.phase = .probed)
      (hmetadata : r.download.metadata = some metadata) (htask : s.runTasks = some task) :
      s.Writes (.saveMetadata now true) ⟨.metadata, taskInfoToSnapshot now task
        (joinPath r.downloadDir metadata.fileName) 0 [] metadata.etag metadata.lastModified⟩
  | checkpoint {r : ChunkReader} {loaded : TaskSnapshot} (hreader : s.reader = some r)
      (hphase : r.phase = .saving loaded) :
      s.Writes (.checkpointSave true) ⟨.checkpoint, r.checkpoint loaded⟩
  | persist {call ticket : ℕ} {task : TaskInfo} {existing : Option TaskSnapshot}
      {now downloadDir : String} (hcall : s.persists[call]? = some (.saving ticket task existing)) :
      s.Writes (.persistSave call now downloadDir true)
        ⟨.persist ticket, persistedSnapshot now downloadDir task existing none⟩

/-- A step of `task_fn` that goes on with it. -/
inductive System.Advances (s : System) : Event → Runner → Runner → Prop where
  | inject {r : Runner} {readable : Bool} {restored : Option TaskSnapshot}
      (hphase : r.phase = .started) (hrestored : ∀ snapshot ∈ restored, s.stored = some snapshot) :
      s.Advances (.inject readable) r { r with
        phase := .injected
        download := { r.download with
          completedFragments := (restored.map TaskSnapshot.completedFragments).getD [] }
        restored := restored }
  | probe {r : Runner} {metadata : FileMetadata} (hphase : r.phase = .injected) :
      s.Advances (.probe (.ok metadata)) r { r with
        phase := .probed
        download := { r.download with metadata := some metadata } }
  | saveMetadata {r : Runner} {now : String} {saved : Bool} (hphase : r.phase = .probed) :
      s.Advances (.saveMetadata now saved) r { r with phase := .saved }
  | spawn {r : Runner} (hphase : r.phase = .saved) :
      s.Advances .spawn r { r with phase := .running }
  | plan {r : Runner} {download : DownloadTask} (hphase : r.phase = .running)
      (hplan : r.download.plan = some (.ok download)) :
      s.Advances .plan r { r with phase := .planned, download := download }
  | finish {r : Runner} {result : DownloadResult Unit}
      (hphase : r.phase = .running ∨ r.phase = .planned) :
      s.Advances (.finish result) r { r with phase := .finished }

section Step

variable {s s' : System} {e : Event}

@[simp] theorem System.save_stored_true (writer : Writer) (snapshot : TaskSnapshot) :
    (s.save true writer snapshot).stored = some snapshot := rfl

@[simp] theorem System.save_saves_true (writer : Writer) (snapshot : TaskSnapshot) :
    (s.save true writer snapshot).saves = ⟨writer, snapshot⟩ :: s.saves := rfl

@[simp] theorem System.save_false (writer : Writer) (snapshot : TaskSnapshot) :
    s.save false writer snapshot = s := rfl

@[simp] theorem System.save_reader (saved : Bool) (writer : Writer) (snapshot : TaskSnapshot) :
    (s.save saved writer snapshot).reader = s.reader := by
  cases saved <;> rfl

@[simp] theorem System.save_runner (saved : Bool) (writer : Writer) (snapshot : TaskSnapshot) :
    (s.save saved writer snapshot).runner = s.runner := by
  cases saved <;> rfl

@[simp] theorem System.save_persists (saved : Bool) (writer : Writer) (snapshot : TaskSnapshot) :
    (s.save saved writer snapshot).persists = s.persists := by
  cases saved <;> rfl

@[simp] theorem System.save_runTasks (saved : Bool) (writer : Writer) (snapshot : TaskSnapshot) :
    (s.save saved writer snapshot).runTasks = s.runTasks := by
  cases saved <;> rfl

theorem System.step_start {runTasks : Option TaskInfo} {download : DownloadTask}
    {downloadDir : String} (h : s.step (.start runTasks download downloadDir) = some s') :
    s.runner = none ∧ s.reader = none ∧ s' = { s with
      runTasks := runTasks.map fun task => task.updateStatus .downloading
      runner := some ⟨.started, download.fresh, downloadDir, none⟩ } := by
  obtain ⟨⟨hrunner, hreader⟩, h⟩ := guard_bind_eq_some.mp h
  obtain ⟨-, h⟩ := guard_bind_eq_some.mp h
  exact ⟨Option.isNone_iff_eq_none.mp hrunner, Option.isNone_iff_eq_none.mp hreader,
    (Option.some.inj h).symm⟩

theorem System.step_inject {readable : Bool} (h : s.step (.inject readable) = some s') :
    ∃ r restored, s.runner = some r ∧ r.phase = .started ∧
      (∀ snapshot ∈ restored, s.stored = some snapshot) ∧ s' = { s with runner := some { r with
        phase := .injected
        download := { r.download with
          completedFragments := (restored.map TaskSnapshot.completedFragments).getD [] }
        restored := restored } } := by
  obtain ⟨r, hr, h⟩ := Option.bind_eq_some_iff.mp h
  obtain ⟨hphase, h⟩ := guard_bind_eq_some.mp h
  refine ⟨r, _, hr, hphase, fun snapshot hsnapshot => ?_, (Option.some.inj h).symm⟩
  have hload := (Option.filter_eq_some_iff.mp hsnapshot).1
  unfold System.load at hload
  split at hload
  · exact hload
  · cases hload

theorem System.step_probe {result : DownloadResult FileMetadata}
    (h : s.step (.probe result) = some s') :
    ∃ r, s.runner = some r ∧ r.phase = .injected ∧
      ((∃ metadata runTasks, result = .ok metadata ∧ s' = { s with
        runTasks := runTasks
        runner := some { r with
          phase := .probed
          download := { r.download with metadata := some metadata } } }) ∨
      ∃ runTasks, s' = { s with runTasks := runTasks, runner := none }) := by
  obtain ⟨r, hr, h⟩ := Option.bind_eq_some_iff.mp h
  obtain ⟨hphase, h⟩ := guard_bind_eq_some.mp h
  refine ⟨r, hr, hphase, ?_⟩
  cases result with
  | ok metadata => exact Or.inl ⟨metadata, _, rfl, (Option.some.inj h).symm⟩
  | error e => cases e <;> exact Or.inr ⟨_, (Option.some.inj h).symm⟩

theorem System.step_saveMetadata {now : String} {saved : Bool}
    (h : s.step (.saveMetadata now saved) = some s') :
    ∃ r metadata, s.runner = some r ∧ r.phase = .probed ∧ r.download.metadata = some metadata ∧
      s' = match s.runTasks with
        | none => { s with runner := some { r with phase := .saved } }
        | some task => { s with runner := some { r with phase := .saved } }.save saved .metadata
            (taskInfoToSnapshot now task (joinPath r.downloadDir metadata.fileName) 0 []
              metadata.etag metadata.lastModified) := by
  obtain ⟨r, hr, h⟩ := Option.bind_eq_some_iff.mp h
  obtain ⟨hphase, h⟩ := guard_bind_eq_some.mp h
  obtain ⟨metadata, hmetadata, h⟩ := Option.bind_eq_some_iff.mp h
  refine ⟨r, metadata, hr, hphase, hmetadata, ?_⟩
  cases htask : s.runTasks with
  | none =>
    rw [htask] at h
    exact (Option.some.inj h).symm
  | some task =>
    rw [htask] at h
    exact (Option.some.inj h).symm

/-- The chunk reader takes its total from the entry. -/
theorem System.spawn_reader (h : s.step .spawn = some s') : ∃ r, s.runner = some r ∧
    r.phase = .saved ∧ s' = { s with
      runner := some { r with phase := .running }
      reader := some (.new ((s.runTasks.map TaskInfo.fragmentsTotal).getD 0)) } := by
  obtain ⟨r, hr, h⟩ := Option.bind_eq_some_iff.mp h
  obtain ⟨hphase, h⟩ := guard_bind_eq_some.mp h
  exact ⟨r, hr, hphase, (Option.some.inj h).symm⟩

theorem System.step_spawn (h : s.step .spawn = some s') :
    ∃ r totalFrags, s.runner = some r ∧ r.phase = .saved ∧ s' = { s with
      runner := some { r with phase := .running }
      reader := some (.new totalFrags) } := by
  obtain ⟨r, hr, hphase, hs'⟩ := System.spawn_reader h
  exact ⟨r, _, hr, hphase, hs'⟩

theorem System.step_plan (h : s.step .plan = some s') :
    ∃ r download, s.runner = some r ∧ r.phase = .running ∧ r.download.plan = some (.ok download) ∧
      s' = { s with runner := some { r with phase := .planned, download := download } } := by
  obtain ⟨r, hr, h⟩ := Option.bind_eq_some_iff.mp h
  obtain ⟨hphase, h⟩ := guard_bind_eq_some.mp h
  split at h
  · rename_i download hplan
    exact ⟨r, download, hr, hphase, hplan, (Option.some.inj h).symm⟩
  · cases h

theorem System.step_quit (h : s.step .quit = some s') : s' = { s with runner := none } := by
  obtain ⟨r, hr, h⟩ := Option.bind_eq_some_iff.mp h
  exact (Option.some.inj (guard_bind_eq_some.mp h).2).symm

/-- What the final block leaves in the entry. -/
theorem System.finish_runTasks {result : DownloadResult Unit}
    (h : s.step (.finish result) = some s') : ∃ r, s.runner = some r ∧
      (r.phase = .running ∨ r.phase = .planned) ∧ s' = { s with
        runTasks := s.runTasks.map fun task => task.terminal r.download.metadata result
        runner := some { r with phase := .finished } } := by
  obtain ⟨r, hr, h⟩ := Option.bind_eq_some_iff.mp h
  obtain ⟨hphase, h⟩ := guard_bind_eq_some.mp h
  exact ⟨r, hr, hphase, (Option.some.inj h).symm⟩

theorem System.step_finish {result : DownloadResult Unit} (h : s.step (.finish result) = some s') :
    ∃ r runTasks, s.runner = some r ∧ (r.phase = .running ∨ r.phase = .planned) ∧ s' = { s with
      runTasks := runTasks
      runner := some { r with phase := .finished } } := by
  obtain ⟨r, hr, hphase, hs'⟩ := System.finish_runTasks h
  exact ⟨r, _, hr, hphase, hs'⟩

theorem System.step_close (h : s.step .close = some s') :
    s' = { s with runner := none, persists := s.persists ++ [.cloning .copied] } := by
  obtain ⟨r, hr, h⟩ := Option.bind_eq_some_iff.mp h
  exact (Option.some.inj (guard_bind_eq_some.mp h).2).symm

theorem System.step_receive {progress : FragmentProgress}
    (h : s.step (.receive progress) = some s') :
    ∃ r, s.reader = some r ∧ r.phase = .receiving ∧ s' = { s with
      reader := some (r.receive progress)
      runTasks := s.runTasks.map (r.receive progress).show } := by
  obtain ⟨r, hr, h⟩ := Option.bind_eq_some_iff.mp h
  simp only [System.readerStep] at h
  split at h
  · rename_i hphase
    exact ⟨r, hr, hphase, (Option.some.inj h).symm⟩
  · cases h

theorem System.step_checkpointLoad {readable : Bool}
    (h : s.step (.checkpointLoad readable) = some s') :
    ∃ r, s.reader = some r ∧ r.phase = .loading ∧
      ((∃ loaded, s.stored = some loaded ∧
        s' = { s with reader := some { r with phase := .saving loaded } }) ∨
      s' = { s with reader := some { r with phase := .receiving } }) := by
  obtain ⟨r, hr, h⟩ := Option.bind_eq_some_iff.mp h
  simp only [System.readerStep] at h
  split at h
  · rename_i hphase
    refine ⟨r, hr, hphase, ?_⟩
    split at h
    · rename_i loaded hload
      refine Or.inl ⟨loaded, ?_, (Option.some.inj h).symm⟩
      unfold System.load at hload
      split at hload
      · exact hload
      · cases hload
    · exact Or.inr (Option.some.inj h).symm
  · cases h

theorem System.step_checkpointSave {saved : Bool} (h : s.step (.checkpointSave saved) = some s') :
    ∃ r loaded, s.reader = some r ∧ r.phase = .saving loaded ∧
      s' = { s with reader := some { r with phase := .receiving } }.save saved .checkpoint
        (r.checkpoint loaded) := by
  obtain ⟨r, hr, h⟩ := Option.bind_eq_some_iff.mp h
  simp only [System.readerStep] at h
  split at h
  · rename_i loaded hphase
    exact ⟨r, loaded, hr, hphase, (Option.some.inj h).symm⟩
  · cases h

theorem System.step_readerDone (h : s.step .readerDone = some s') :
    s' = { s with reader := none } := by
  obtain ⟨r, hr, h⟩ := Option.bind_eq_some_iff.mp h
  simp only [System.readerStep] at h
  split at h
  · split at h
    · exact (Option.some.inj h).symm
    · cases h
  · cases h

theorem System.step_command {c : Command} (h : s.step (.command c) = some s') :
    ∃ tasks, s' = { s with tasks := tasks, persists := s.persists ++ [.cloning .managed] } := by
  obtain ⟨task, -, h⟩ := Option.bind_eq_some_iff.mp h
  obtain ⟨task', -, h⟩ := Option.bind_eq_some_iff.mp h
  exact ⟨_, (Option.some.inj h).symm⟩

theorem System.step_delete (h : s.step .delete = some s') : s' = { s with tasks := none } := by
  obtain ⟨task, -, h⟩ := Option.bind_eq_some_iff.mp h
  exact (Option.some.inj (guard_bind_eq_some.mp h).2).symm

theorem System.step_persistClone {call : ℕ} (h : s.step (.persistClone call) = some s') :
    (∃ task, s' = { s with
      persists := s.persists.set call (.loading s.tickets task)
      tickets := s.tickets + 1 }) ∨
    s' = { s with persists := s.persists.eraseIdx call } := by
  obtain ⟨p, -, h⟩ := Option.bind_eq_some_iff.mp h
  split at h
  · split at h
    · exact Or.inl ⟨_, (Option.some.inj h).symm⟩
    · exact Or.inr (Option.some.inj h).symm
  · cases h

theorem System.step_persistLoad {call : ℕ} {readable : Bool}
    (h : s.step (.persistLoad call readable) = some s') :
    ∃ ticket task, s' = { s with
      persists := s.persists.set call (.saving ticket task (s.load readable)) } := by
  obtain ⟨p, -, h⟩ := Option.bind_eq_some_iff.mp h
  split at h
  · exact ⟨_, _, (Option.some.inj h).symm⟩
  · cases h

theorem System.step_persistSave {call : ℕ} {now downloadDir : String} {saved : Bool}
    (h : s.step (.persistSave call now downloadDir saved) = some s') :
    ∃ ticket task existing, s.persists[call]? = some (.saving ticket task existing) ∧
      s' = { s with persists := s.persists.eraseIdx call }.save saved (.persist ticket)
        (persistedSnapshot now downloadDir task existing none) := by
  obtain ⟨p, hp, h⟩ := Option.bind_eq_some_iff.mp h
  split at h
  · rename_i ticket task existing
    exact ⟨ticket, task, existing, hp, (Option.some.inj h).symm⟩
  · cases h

/-- A saved snapshot is the stored one. -/
theorem System.step_writes {save : Save} (h : s.step e = some s') (hwrites : s.Writes e save) :
    s'.stored = some save.snapshot ∧ s'.saves = save :: s.saves := by
  cases hwrites with
  | metadata hrunner hphase hmetadata htask =>
    obtain ⟨r, metadata, hr, -, hprobed, rfl⟩ := System.step_saveMetadata h
    obtain rfl := Option.some.inj (hrunner.symm.trans hr)
    obtain rfl := Option.some.inj (hmetadata.symm.trans hprobed)
    rw [htask]
    exact ⟨rfl, rfl⟩
  | checkpoint hreader hphase =>
    obtain ⟨r, loaded, hr, hloaded, rfl⟩ := System.step_checkpointSave h
    obtain rfl := Option.some.inj (hreader.symm.trans hr)
    obtain rfl := ReaderPhase.saving.inj (hphase.symm.trans hloaded)
    exact ⟨rfl, rfl⟩
  | persist hcall =>
    obtain ⟨ticket, task, existing, hcall', rfl⟩ := System.step_persistSave h
    obtain ⟨rfl, rfl, rfl⟩ := Persist.saving.inj (Option.some.inj (hcall.symm.trans hcall'))
    exact ⟨rfl, rfl⟩

/-- A step that saves no snapshot leaves the store as it is. -/
theorem System.step_quiet (h : s.step e = some s') (hnone : ∀ save, ¬s.Writes e save) :
    s'.stored = s.stored ∧ s'.saves = s.saves := by
  cases e with
  | start runTasks download downloadDir =>
    obtain ⟨-, -, rfl⟩ := System.step_start h
    exact ⟨rfl, rfl⟩
  | inject readable =>
    obtain ⟨r, restored, -, -, -, rfl⟩ := System.step_inject h
    exact ⟨rfl, rfl⟩
  | probe result =>
    obtain ⟨r, -, -, ⟨metadata, runTasks, -, rfl⟩ | ⟨runTasks, rfl⟩⟩ := System.step_probe h
    · exact ⟨rfl, rfl⟩
    · exact ⟨rfl, rfl⟩
  | saveMetadata now saved =>
    obtain ⟨r, metadata, hr, hphase, hmetadata, rfl⟩ := System.step_saveMetadata h
    cases htask : s.runTasks with
    | none => exact ⟨rfl, rfl⟩
    | some task =>
      cases saved with
      | false => exact ⟨rfl, rfl⟩
      | true => exact absurd (.metadata hr hphase hmetadata htask) (hnone _)
  | spawn =>
    obtain ⟨r, totalFrags, -, -, rfl⟩ := System.step_spawn h
    exact ⟨rfl, rfl⟩
  | plan =>
    obtain ⟨r, download, -, -, -, rfl⟩ := System.step_plan h
    exact ⟨rfl, rfl⟩
  | quit =>
    obtain rfl := System.step_quit h
    exact ⟨rfl, rfl⟩
  | finish result =>
    obtain ⟨r, runTasks, -, -, rfl⟩ := System.step_finish h
    exact ⟨rfl, rfl⟩
  | close =>
    obtain rfl := System.step_close h
    exact ⟨rfl, rfl⟩
  | receive progress =>
    obtain ⟨r, -, -, rfl⟩ := System.step_receive h
    exact ⟨rfl, rfl⟩
  | checkpointLoad readable =>
    obtain ⟨r, -, -, ⟨loaded, -, rfl⟩ | rfl⟩ := System.step_checkpointLoad h
    · exact ⟨rfl, rfl⟩
    · exact ⟨rfl, rfl⟩
  | checkpointSave saved =>
    obtain ⟨r, loaded, hr, hphase, rfl⟩ := System.step_checkpointSave h
    cases saved with
    | false => exact ⟨rfl, rfl⟩
    | true => exact absurd (.checkpoint hr hphase) (hnone _)
  | readerDone =>
    obtain rfl := System.step_readerDone h
    exact ⟨rfl, rfl⟩
  | command c =>
    obtain ⟨tasks, rfl⟩ := System.step_command h
    exact ⟨rfl, rfl⟩
  | delete =>
    obtain rfl := System.step_delete h
    exact ⟨rfl, rfl⟩
  | persistClone call =>
    obtain ⟨task, rfl⟩ | rfl := System.step_persistClone h
    · exact ⟨rfl, rfl⟩
    · exact ⟨rfl, rfl⟩
  | persistLoad call readable =>
    obtain ⟨ticket, task, rfl⟩ := System.step_persistLoad h
    exact ⟨rfl, rfl⟩
  | persistSave call now downloadDir saved =>
    obtain ⟨ticket, task, existing, hcall, rfl⟩ := System.step_persistSave h
    cases saved with
    | false => exact ⟨rfl, rfl⟩
    | true => exact absurd (.persist hcall) (hnone _)
  | restart readable =>
    obtain rfl := Option.some.inj h
    exact ⟨rfl, rfl⟩

/-- The reader of the next state is new, or is the one there was, having at most received
a message. -/
theorem System.step_reader {r' : ChunkReader} (h : s.step e = some s')
    (hr' : s'.reader = some r') :
    (e = .spawn ∧ r'.completed = [] ∧ ∃ r, s.runner = some r ∧ r.phase = .saved) ∨
    ∃ r, s.reader = some r ∧
      (r'.completed = r.completed ∨
        ∃ progress, e = .receive progress ∧ r' = r.receive progress) := by
  have hsame (hreader : s'.reader = s.reader) :
      ∃ r, s.reader = some r ∧
        (r'.completed = r.completed ∨
          ∃ progress, e = .receive progress ∧ r' = r.receive progress) :=
    ⟨r', hreader.symm.trans hr', Or.inl rfl⟩
  cases e with
  | start runTasks download downloadDir =>
    obtain ⟨-, -, rfl⟩ := System.step_start h
    exact Or.inr (hsame rfl)
  | inject readable =>
    obtain ⟨r, restored, -, -, -, rfl⟩ := System.step_inject h
    exact Or.inr (hsame rfl)
  | probe result =>
    obtain ⟨r, -, -, ⟨metadata, runTasks, -, rfl⟩ | ⟨runTasks, rfl⟩⟩ := System.step_probe h
    · exact Or.inr (hsame rfl)
    · exact Or.inr (hsame rfl)
  | saveMetadata now saved =>
    obtain ⟨r, metadata, -, -, -, rfl⟩ := System.step_saveMetadata h
    refine Or.inr (hsame ?_)
    cases s.runTasks with
    | none => rfl
    | some task => exact System.save_reader _ _ _
  | spawn =>
    obtain ⟨r, totalFrags, hr, hphase, rfl⟩ := System.step_spawn h
    obtain rfl := Option.some.inj hr'
    exact Or.inl ⟨rfl, rfl, r, hr, hphase⟩
  | plan =>
    obtain ⟨r, download, -, -, -, rfl⟩ := System.step_plan h
    exact Or.inr (hsame rfl)
  | quit =>
    obtain rfl := System.step_quit h
    exact Or.inr (hsame rfl)
  | finish result =>
    obtain ⟨r, runTasks, -, -, rfl⟩ := System.step_finish h
    exact Or.inr (hsame rfl)
  | close =>
    obtain rfl := System.step_close h
    exact Or.inr (hsame rfl)
  | receive progress =>
    obtain ⟨r, hr, -, rfl⟩ := System.step_receive h
    obtain rfl := Option.some.inj hr'
    exact Or.inr ⟨r, hr, Or.inr ⟨progress, rfl, rfl⟩⟩
  | checkpointLoad readable =>
    obtain ⟨r, hr, -, ⟨loaded, -, rfl⟩ | rfl⟩ := System.step_checkpointLoad h
    · obtain rfl := Option.some.inj hr'
      exact Or.inr ⟨r, hr, Or.inl rfl⟩
    · obtain rfl := Option.some.inj hr'
      exact Or.inr ⟨r, hr, Or.inl rfl⟩
  | checkpointSave saved =>
    obtain ⟨r, loaded, hr, -, rfl⟩ := System.step_checkpointSave h
    rw [System.save_reader] at hr'
    obtain rfl := Option.some.inj hr'
    exact Or.inr ⟨r, hr, Or.inl rfl⟩
  | readerDone =>
    obtain rfl := System.step_readerDone h
    cases hr'
  | command c =>
    obtain ⟨tasks, rfl⟩ := System.step_command h
    exact Or.inr (hsame rfl)
  | delete =>
    obtain rfl := System.step_delete h
    exact Or.inr (hsame rfl)
  | persistClone call =>
    obtain ⟨task, rfl⟩ | rfl := System.step_persistClone h
    · exact Or.inr (hsame rfl)
    · exact Or.inr (hsame rfl)
  | persistLoad call readable =>
    obtain ⟨ticket, task, rfl⟩ := System.step_persistLoad h
    exact Or.inr (hsame rfl)
  | persistSave call now downloadDir saved =>
    obtain ⟨ticket, task, existing, -, rfl⟩ := System.step_persistSave h
    exact Or.inr (hsame (System.save_reader _ _ _))
  | restart readable =>
    obtain rfl := Option.some.inj h
    cases hr'

/-- A call of the next state that has loaded was there before, or has just loaded the stored
indices or none. -/
theorem System.step_persists {p : Persist} {loaded : List ℕ} (h : s.step e = some s')
    (hp : p ∈ s'.persists) (hloaded : loaded ∈ p.loadedIndices) :
    p ∈ s.persists ∨ (s'.stored = s.stored ∧ loaded ⊆ s.indices) := by
  have happend {map : TaskMap} (hmem : p ∈ s.persists ++ [.cloning map]) : p ∈ s.persists := by
    rcases List.mem_append.mp hmem with hmem | hmem
    · exact hmem
    · obtain rfl := List.mem_singleton.mp hmem
      cases hloaded
  cases e with
  | start runTasks download downloadDir =>
    obtain ⟨-, -, rfl⟩ := System.step_start h
    exact Or.inl hp
  | inject readable =>
    obtain ⟨r, restored, -, -, -, rfl⟩ := System.step_inject h
    exact Or.inl hp
  | probe result =>
    obtain ⟨r, -, -, ⟨metadata, runTasks, -, rfl⟩ | ⟨runTasks, rfl⟩⟩ := System.step_probe h
    · exact Or.inl hp
    · exact Or.inl hp
  | saveMetadata now saved =>
    obtain ⟨r, metadata, -, -, -, rfl⟩ := System.step_saveMetadata h
    cases htask : s.runTasks with
    | none =>
      rw [htask] at hp
      exact Or.inl hp
    | some task =>
      rw [htask] at hp
      dsimp only at hp
      rw [System.save_persists] at hp
      exact Or.inl hp
  | spawn =>
    obtain ⟨r, totalFrags, -, -, rfl⟩ := System.step_spawn h
    exact Or.inl hp
  | plan =>
    obtain ⟨r, download, -, -, -, rfl⟩ := System.step_plan h
    exact Or.inl hp
  | quit =>
    obtain rfl := System.step_quit h
    exact Or.inl hp
  | finish result =>
    obtain ⟨r, runTasks, -, -, rfl⟩ := System.step_finish h
    exact Or.inl hp
  | close =>
    obtain rfl := System.step_close h
    exact Or.inl (happend hp)
  | receive progress =>
    obtain ⟨r, -, -, rfl⟩ := System.step_receive h
    exact Or.inl hp
  | checkpointLoad readable =>
    obtain ⟨r, -, -, ⟨loaded, -, rfl⟩ | rfl⟩ := System.step_checkpointLoad h
    · exact Or.inl hp
    · exact Or.inl hp
  | checkpointSave saved =>
    obtain ⟨r, loaded, -, -, rfl⟩ := System.step_checkpointSave h
    rw [System.save_persists] at hp
    exact Or.inl hp
  | readerDone =>
    obtain rfl := System.step_readerDone h
    exact Or.inl hp
  | command c =>
    obtain ⟨tasks, rfl⟩ := System.step_command h
    exact Or.inl (happend hp)
  | delete =>
    obtain rfl := System.step_delete h
    exact Or.inl hp
  | persistClone call =>
    obtain ⟨task, rfl⟩ | rfl := System.step_persistClone h
    · rcases List.mem_or_eq_of_mem_set hp with hp | rfl
      · exact Or.inl hp
      · cases hloaded
    · exact Or.inl (List.mem_of_mem_eraseIdx hp)
  | persistLoad call readable =>
    obtain ⟨ticket, task, rfl⟩ := System.step_persistLoad h
    rcases List.mem_or_eq_of_mem_set hp with hp | rfl
    · exact Or.inl hp
    · obtain rfl := Option.some.inj hloaded
      refine Or.inr ⟨rfl, ?_⟩
      cases readable with
      | false => exact List.nil_subset _
      | true => exact List.Subset.refl _
  | persistSave call now downloadDir saved =>
    obtain ⟨ticket, task, existing, -, rfl⟩ := System.step_persistSave h
    rw [System.save_persists] at hp
    exact Or.inl (List.mem_of_mem_eraseIdx hp)
  | restart readable =>
    obtain rfl := Option.some.inj h
    cases hp

/-- The runner of the next state is the one there was, has just started where no reader is,
or has gone on. -/
theorem System.step_runner {r' : Runner} (h : s.step e = some s') (hr' : s'.runner = some r') :
    s.runner = some r' ∨
    (r'.phase = .started ∧ r'.restored = none ∧ r'.download.completedFragments = [] ∧
      s.reader = none) ∨
    ∃ r, s.runner = some r ∧ s.Advances e r r' := by
  cases e with
  | start runTasks download downloadDir =>
    obtain ⟨-, hreader, rfl⟩ := System.step_start h
    obtain rfl := Option.some.inj hr'
    exact Or.inr (Or.inl ⟨rfl, rfl, rfl, hreader⟩)
  | inject readable =>
    obtain ⟨r, restored, hr, hphase, hrestored, rfl⟩ := System.step_inject h
    obtain rfl := Option.some.inj hr'
    exact Or.inr (Or.inr ⟨r, hr, .inject hphase hrestored⟩)
  | probe result =>
    obtain ⟨r, hr, hphase, ⟨metadata, runTasks, rfl, rfl⟩ | ⟨runTasks, rfl⟩⟩ := System.step_probe h
    · obtain rfl := Option.some.inj hr'
      exact Or.inr (Or.inr ⟨r, hr, .probe hphase⟩)
    · cases hr'
  | saveMetadata now saved =>
    obtain ⟨r, metadata, hr, hphase, -, rfl⟩ := System.step_saveMetadata h
    refine Or.inr (Or.inr ⟨r, hr, ?_⟩)
    cases htask : s.runTasks with
    | none =>
      rw [htask] at hr'
      obtain rfl := Option.some.inj hr'
      exact .saveMetadata hphase
    | some task =>
      rw [htask] at hr'
      dsimp only at hr'
      rw [System.save_runner] at hr'
      obtain rfl := Option.some.inj hr'
      exact .saveMetadata hphase
  | spawn =>
    obtain ⟨r, totalFrags, hr, hphase, rfl⟩ := System.step_spawn h
    obtain rfl := Option.some.inj hr'
    exact Or.inr (Or.inr ⟨r, hr, .spawn hphase⟩)
  | plan =>
    obtain ⟨r, download, hr, hphase, hplan, rfl⟩ := System.step_plan h
    obtain rfl := Option.some.inj hr'
    exact Or.inr (Or.inr ⟨r, hr, .plan hphase hplan⟩)
  | quit =>
    obtain rfl := System.step_quit h
    cases hr'
  | finish result =>
    obtain ⟨r, runTasks, hr, hphase, rfl⟩ := System.step_finish h
    obtain rfl := Option.some.inj hr'
    exact Or.inr (Or.inr ⟨r, hr, .finish hphase⟩)
  | close =>
    obtain rfl := System.step_close h
    cases hr'
  | receive progress =>
    obtain ⟨r, -, -, rfl⟩ := System.step_receive h
    exact Or.inl hr'
  | checkpointLoad readable =>
    obtain ⟨r, -, -, ⟨loaded, -, rfl⟩ | rfl⟩ := System.step_checkpointLoad h
    · exact Or.inl hr'
    · exact Or.inl hr'
  | checkpointSave saved =>
    obtain ⟨r, loaded, -, -, rfl⟩ := System.step_checkpointSave h
    rw [System.save_runner] at hr'
    exact Or.inl hr'
  | readerDone =>
    obtain rfl := System.step_readerDone h
    exact Or.inl hr'
  | command c =>
    obtain ⟨tasks, rfl⟩ := System.step_command h
    exact Or.inl hr'
  | delete =>
    obtain rfl := System.step_delete h
    exact Or.inl hr'
  | persistClone call =>
    obtain ⟨task, rfl⟩ | rfl := System.step_persistClone h
    · exact Or.inl hr'
    · exact Or.inl hr'
  | persistLoad call readable =>
    obtain ⟨ticket, task, rfl⟩ := System.step_persistLoad h
    exact Or.inl hr'
  | persistSave call now downloadDir saved =>
    obtain ⟨ticket, task, existing, -, rfl⟩ := System.step_persistSave h
    rw [System.save_runner] at hr'
    exact Or.inl hr'
  | restart readable =>
    obtain rfl := Option.some.inj h
    cases hr'

end Step

end Tachyon
