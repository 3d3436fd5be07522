import Tachyon.App.TaskRun
import Tachyon.Core.FileName

/-!
# The application

The maps of `AppState`, the commands on them and the `task_fn` of every task. A list of
events is an interleaving of their steps. A command's write of a status and its send on
the control channel are one step: the lock of the entry is held over both.
`create_task_inner` gives each `task_fn` a clone of the `tasks` map. The steps are defined
for either map, so that they also say what every `task_fn` on the managed map would do.
-/

namespace Tachyon

open EventRuns

/-- `Display` of a `DownloadState`. -/
def DownloadState.display : DownloadState → String
  | .pending => "pending"
  | .connecting => "connecting"
  | .downloading => "downloading"
  | .paused => "paused"
  | .resuming => "resuming"
  | .verifying => "verifying"
  | .completed => "completed"
  | .failed => "failed"
  | .cancelled => "cancelled"

/-- `Display` of an `AppError`. -/
def AppError.display : AppError → String
  | .taskNotFound message => s!"任务不存在: {message}"
  | .taskAlreadyExists message => s!"任务已存在: {message}"
  | .network message => s!"网络错误: {message}"
  | .config message => s!"配置错误: {message}"
  | .unsupportedProtocol message => s!"不支持的协议: {message}"
  | .core error =>
    let message := error.display
    s!"核心错误: {message}"

/-- What a command sends on the control channel. -/
def Command.sent : Command → DownloadState
  | .pause => .paused
  | .resume => .downloading
  | .cancel => .cancelled

/-- The error of a command that the status of the task does not allow. -/
def Command.refusal (status : DownloadState) : Command → AppError
  | .pause =>
    let shown := status.display
    .config s!"当前状态 '{shown}' 不允许暂停"
  | .resume =>
    let shown := status.display
    .config s!"仅暂停状态可恢复,当前状态: '{shown}'"
  | .cancel =>
    let shown := status.display
    .config s!"任务已{shown},无法取消"

/-- `supported_protocols`. -/
def supportedProtocols : List String := ["HTTP", "HTTPS"]

/-- `validate_download_url`, from what the URL parser gave. -/
def validateDownloadUrl (text : Ipv6Addr → String) : Except String Url → Except AppError Unit
  | .error e => .error (.network s!"URL 格式无效: {e}")
  | .ok url => do
    (validatePublicHttpUrl text url).mapError fun e => .network e.display
    let scheme := url.scheme.toUpper
    if supportedProtocols.contains scheme then .ok () else .error (.unsupportedProtocol scheme)

/-- What `create_task_inner` is called with and reads before its check: what the parser
made of the URL and of its mirrors, what `authorize_download_dir` gave, the limit of the
configuration and the time. -/
structure CreateRequest where
  url : Except String Url
  mirrorUrls : List (Except String Url)
  downloadDir : Except AppError String
  maxTasks : ℕ
  createdAt : String

/-- `create_task_inner` up to its check. -/
def CreateRequest.validate (text : Ipv6Addr → String) (request : CreateRequest) :
    Except AppError String := do
  validateDownloadUrl text request.url
  request.mirrorUrls.forM fun mirror => (validateDownloadUrl text mirror).mapError fun e =>
    let message := e.display
    .config s!"镜像 URL 验证失败: {message}"
  request.downloadDir

/-- The new task's entry. -/
def CreateRequest.task (text : Ipv6Addr → String) (request : CreateRequest) (id : String) :
    TaskInfo where
  id := id
  url := redactUrlForLog text request.url
  fileName := extractFilenameFromUrl request.url
  fileSize := none
  downloaded := 0
  speed := 0
  status := .pending
  progress := 0
  fragmentsTotal := 0
  fragmentsDone := 0
  createdAt := request.createdAt

/-- Some task that has not ended was created for the same redacted URL. -/
def Tasks.hasUrl (tasks : Tasks) (redactedUrl : String) : Bool :=
  0 < tasks.entries.countP fun entry => entry.2.url = redactedUrl ∧
    entry.2.status ≠ .cancelled ∧ entry.2.status ≠ .completed ∧ entry.2.status ≠ .failed

/-- `active_count`. -/
def Tasks.activeCount (tasks : Tasks) : ℕ :=
  tasks.entries.countP fun entry =>
    entry.2.status = .downloading ∨ entry.2.status = .pending

/-- Where a call of `create_task_inner` is after its insertion. -/
inductive CreationPhase where
  | accepted
  | copied (task : TaskInfo)
  | stored
  | configured
  /-- The map for the `task_fn` is cloned. -/
  | cloned
  /-- The control channel is registered and `task_fn` spawned. -/
  | registered

/-- A call of `create_task_inner` after its insertion. -/
structure Creation where
  phase : CreationPhase
  downloadDir : String

/-- The steps of `create_task_inner` after its insertion. -/
inductive CreationEvent where
  | copy
  | save (now : String) (saved : Bool)
  | configure (maxConcurrentFragments : ℕ)
  | clone
  | register
  | start

/-- A call of `pause_task`, `resume_task` or `cancel_task` in its persist. -/
structure Call where
  command : Command
  id : String
  phase : PersistPhase

/-- What has happened to a task: its acceptance or recovery, the calls on it that changed it
and that returned Ok, and the statuses that its `task_fn` wrote into its map, into a saved
snapshot or into an event. -/
inductive Record where
  | accepted (id : String)
  | recovered (id : String)
  | called (c : Command) (id : String)
  | returned (c : Command) (id : String)
  | entry (id : String) (status : DownloadState)
  | snapshot (id : String) (status : DownloadState)
  | event (id : String) (status : DownloadState)
  deriving DecidableEq

/-- `AppState`, with the calls and runs under way. `copies` holds the map that each `task_fn`
was given, `history` records what happened, newest first; the code does not read it. -/
structure AppState where
  tasks : Tasks
  controls : String → Bool
  handles : String → Bool
  store : String → Option TaskSnapshot
  progress : ProgressEvent
  creations : String → Option Creation
  runs : String → Option TaskRun
  copies : String → Tasks
  calls : List Call
  history : List Record

/-- `AppState::new` on a store. -/
def AppState.new (store : String → Option TaskSnapshot) : AppState where
  tasks := ∅
  controls := fun _ => false
  handles := fun _ => false
  store := store
  progress := fun _ => none
  creations := fun _ => none
  runs := fun _ => none
  copies := fun _ => ∅
  calls := []
  history := []

/-- The steps of the application. -/
inductive AppEvent where
  /-- `create_task` up to its insertion, for a new identifier. -/
  | create (id : String) (request : CreateRequest)
  | creation (id : String) (e : CreationEvent)
  /-- A command changes the status of a task and sends it on the control channel. -/
  | command (c : Command) (id : String)
  /-- A command persists the task it changed. -/
  | persist (call : ℕ) (e : PersistEvent)
  | delete (id : String)
  /-- `load_recovered_tasks`, with the identifiers the store finds and can read. -/
  | recover (found : List String)
  | run (id : String) (e : RunEvent)

/-- The records of an effect. -/
def Effect.records (x : Effect) (id : String) : List Record :=
  (x.status.map (Record.entry id)).toList ++
    (x.save.map fun snapshot => .snapshot id snapshot.status).toList ++
    ((x.event.bind fun event => event id).map fun progress => .event id progress.status).toList

namespace AppState

/-- No task has had the identifier. -/
def Unused (s : AppState) (id : String) : Prop :=
  s.tasks.lookup id = none ∧ s.store id = none ∧ .accepted id ∉ s.history

instance (s : AppState) (id : String) : Decidable (s.Unused id) :=
  have : Decidable (s.tasks.lookup id = none) := decidable_of_iff _ Option.isNone_iff_eq_none
  have : Decidable (s.store id = none) := decidable_of_iff _ Option.isNone_iff_eq_none
  inferInstanceAs (Decidable (_ ∧ _ ∧ _))

/-- `create_task_inner` up to its insertion. -/
def create (text : Ipv6Addr → String) (s : AppState) (id : String) (request : CreateRequest) :
    Except AppError AppState := do
  let downloadDir ← request.validate text
  let task := request.task text id
  if s.tasks.hasUrl task.url then .error (.taskAlreadyExists "相同 URL 的下载任务已存在")
  else if s.tasks.activeCount ≥ request.maxTasks then
    let maxTasks := request.maxTasks
    .error (.config s!"已达最大并发任务数({maxTasks}),请等待现有任务完成")
  else .ok { s with
    tasks := s.tasks.insert id task
    creations := Function.update s.creations id (some ⟨.accepted, downloadDir⟩)
    history := .accepted id :: s.history }

/-- `pause_task_inner`, `resume_task_inner` or `cancel_task_inner`, up to its persist. -/
def command (s : AppState) (c : Command) (id : String) : Except AppError AppState :=
  match s.tasks.lookup id with
  | none => .error (.taskNotFound id)
  | some task =>
    match c.apply task with
    | none => .error (c.refusal task.status)
    | some task => .ok { s with
        tasks := s.tasks.insert id task
        runs := if s.controls id then
            Function.update s.runs id ((s.runs id).map fun r =>
              { r with control := r.control.send c.sent })
          else s.runs
        calls := s.calls ++ [⟨c, id, .copying⟩]
        history := .called c id :: s.history }

/-- `delete_task_inner`. -/
def delete (s : AppState) (id : String) : Except AppError AppState :=
  match s.tasks.lookup id with
  | none => .error (.taskNotFound id)
  | some task =>
    match task.status with
    | .completed | .cancelled | .failed => .ok { s with
        tasks := s.tasks.erase id
        controls := Function.update s.controls id false
        handles := Function.update s.handles id false }
    | other =>
      let shown := other.display
      .error (.config s!"当前状态 '{shown}' 不允许删除,请先取消任务")

/-- `get_task_list_inner`. -/
def getTaskList (s : AppState) : Multiset TaskInfo := s.tasks.entries.map Sigma.snd

/-- `get_task_detail_inner`. -/
def getTaskDetail (s : AppState) (id : String) : Except AppError TaskInfo :=
  match s.tasks.lookup id with
  | some task => .ok task
  | none => .error (.taskNotFound id)

/-- The snapshots `load_recoverable` gives. -/
def recoverable (s : AppState) (found : List String) : List TaskSnapshot :=
  (found.filterMap s.store).filter TaskSnapshot.recoverable

/-- The loop of `load_recovered_tasks`. -/
def insertRecovered (tasks : Tasks) (snapshots : List TaskSnapshot) : Tasks :=
  snapshots.foldl (fun tasks snapshot => tasks.insert snapshot.id (snapshotToTaskInfo snapshot))
    tasks

/-- `save_snapshot`, under the snapshot's own identifier. -/
def save (s : AppState) (snapshot : Option TaskSnapshot) : AppState :=
  { s with store := match snapshot with
    | some snapshot => Function.update s.store snapshot.id (some snapshot)
    | none => s.store }

/-- The steps of `create_task_inner` after its insertion. -/
def creationStep (s : AppState) (id : String) (creation : Creation) :
    CreationEvent → Option AppState
  | .copy =>
    match creation.phase with
    | .accepted =>
      let phase := match s.tasks.lookup id with
        | some task => CreationPhase.copied task
        | none => .stored
      some { s with
        creations := Function.update s.creations id (some { creation with phase := phase }) }
    | _ => none
  | .save now saved =>
    match creation.phase with
    | .copied task =>
      let snapshot := taskInfoToSnapshot now task (joinPath creation.downloadDir task.fileName)
        0 [] none none
      some (save { s with
        creations := Function.update s.creations id (some { creation with phase := .stored }) }
        (if saved then some snapshot else none))
    | _ => none
  | .configure maxConcurrentFragments =>
    match creation.phase with
    | .stored =>
      if maxConcurrentFragments = 0 then some { s with
        tasks := s.tasks.erase id
        creations := Function.update s.creations id none }
      else some { s with
        creations := Function.update s.creations id (some { creation with phase := .configured }) }
    | _ => none
  | .clone =>
    match creation.phase with
    | .configured => some { s with
        copies := Function.update s.copies id s.tasks
        creations := Function.update s.creations id (some { creation with phase := .cloned }) }
    | _ => none
  | .register =>
    match creation.phase with
    | .cloned => some { s with
        controls := Function.update s.controls id true
        runs := Function.update s.runs id
          (some ⟨.waiting, ⟨.downloading, 0⟩, creation.downloadDir, none, none⟩)
        creations := Function.update s.creations id (some { creation with phase := .registered }) }
    | _ => none
  | .start =>
    match creation.phase with
    | .registered => some { s with
        handles := Function.update s.handles id true
        runs := Function.update s.runs id ((s.runs id).map TaskRun.start)
        creations := Function.update s.creations id none }
    | _ => none

/-- A step of a command's persist. Where it ends, the command returns Ok. -/
def persistStep (s : AppState) (call : ℕ) (e : PersistEvent) : Option AppState := do
  let c ← s.calls[call]?
  let (next, snapshot) ← c.phase.step (s.tasks.lookup c.id) (s.store c.id) e
  match next with
  | some phase =>
    some (save { s with calls := s.calls.set call { c with phase := phase } } snapshot)
  | none =>
    some (save { s with
      calls := s.calls.eraseIdx call
      history := .returned c.command c.id :: s.history } snapshot)

/-- The map that the `task_fn` of a task works on: its clone, or the managed one. -/
def view (s : AppState) (id : String) : TaskMap → Tasks
  | .managed => s.tasks
  | .copied => s.copies id

/-- An effect of a run is carried out, on the map it works on. -/
def perform (s : AppState) (map : TaskMap) (id : String) (x : Effect) : AppState :=
  save { s with
    tasks := match map, x.entry with
      | .managed, some entry => s.tasks.insert id entry
      | _, _ => s.tasks
    controls := if x.cleanup then Function.update s.controls id false else s.controls
    handles := if x.cleanup then Function.update s.handles id false else s.handles
    progress := x.event.getD s.progress
    runs := Function.update s.runs id (some x.run)
    copies := match map, x.entry with
      | .copied, some entry => Function.update s.copies id ((s.copies id).insert id entry)
      | _, _ => s.copies
    history := x.records id ++ s.history } x.save

/-- A step of a run. -/
def runStep (s : AppState) (map : TaskMap) (id : String) (e : RunEvent) : Option AppState := do
  let r ← s.runs id
  let x ← r.step id (s.view id map) (s.store id) (s.controls id) e
  some (s.perform map id x)

/-- One step of the application, `none` where the event cannot happen. In the code every
`task_fn` works on its clone. -/
def step (text : Ipv6Addr → String) (map : TaskMap) (s : AppState) : AppEvent → Option AppState
  | .create id request => do
    guard (s.Unused id)
    (s.create text id request).toOption
  | .creation id e => do s.creationStep id (← s.creations id) e
  | .command c id => (s.command c id).toOption
  | .persist call e => s.persistStep call e
  | .delete id => (s.delete id).toOption
  | .recover found => some { s with
      tasks := insertRecovered s.tasks (s.recoverable found)
      history := (s.recoverable found).map (fun snapshot => .recovered snapshot.id) ++ s.history }
  | .run id e => s.runStep map id e

/-! ### What each step does -/

/-- What every reachable state keeps: a creation under way is on record, and no monitor
outlives the wait for it. -/
structure WellFormed (s : AppState) : Prop where
  accepted : ∀ id creation, s.creations id = some creation → .accepted id ∈ s.history
  joined : ∀ id r, s.runs id = some r → r.MonitorJoined

theorem wellFormed_new (store : String → Option TaskSnapshot) :
    (AppState.new store).WellFormed where
  accepted _ _ h := absurd h (Option.some_ne_none _).symm
  joined _ _ h := absurd h (Option.some_ne_none _).symm

section Step

variable {text : Ipv6Addr → String} {map : TaskMap} {s s' : AppState} {id : String} {e : AppEvent}

theorem step_create {request : CreateRequest} (h : s.step text map (.create id request) = some s') :
    s.Unused id ∧ ∃ downloadDir, request.validate text = .ok downloadDir ∧
      s.tasks.hasUrl (request.task text id).url = false ∧
      s.tasks.activeCount < request.maxTasks ∧ s' = { s with
        tasks := s.tasks.insert id (request.task text id)
        creations := Function.update s.creations id (some ⟨.accepted, downloadDir⟩)
        history := .accepted id :: s.history } := by
  obtain ⟨hunused, h⟩ := guard_bind_eq_some.mp h
  refine ⟨hunused, ?_⟩
  have hok : s.create text id request = .ok s' := by
    cases hcreate : s.create text id request with
    | error e =>
      rw [hcreate] at h
      cases h
    | ok s₁ =>
      rw [hcreate] at h
      rw [Option.some.inj h]
  obtain ⟨downloadDir, hvalid, hok⟩ := bind_eq_ok.mp hok
  dsimp only at hok
  by_cases hurl : s.tasks.hasUrl (request.task text id).url = true
  · rw [if_pos hurl] at hok
    cases hok
  · rw [if_neg hurl] at hok
    by_cases hfull : s.tasks.activeCount ≥ request.maxTasks
    · rw [if_pos hfull] at hok
      cases hok
    · rw [if_neg hfull] at hok
      exact ⟨downloadDir, hvalid, Bool.eq_false_of_not_eq_true hurl, Nat.lt_of_not_le hfull,
        (Except.ok.inj hok).symm⟩

theorem command_eq_ok {c : Command} (h : s.command c id = .ok s') :
    ∃ task task', s.tasks.lookup id = some task ∧ c.apply task = some task' ∧ s' = { s with
      tasks := s.tasks.insert id task'
      runs := if s.controls id then
          Function.update s.runs id ((s.runs id).map fun r =>
            { r with control := r.control.send c.sent })
        else s.runs
      calls := s.calls ++ [⟨c, id, .copying⟩]
      history := .called c id :: s.history } := by
  unfold command at h
  split at h
  · cases h
  · rename_i task htask
    split at h
    · cases h
    · rename_i task' happly
      exact ⟨task, task', htask, happly, (Except.ok.inj h).symm⟩

theorem toOption_eq_some {ε α : Type} {x : Except ε α} {a : α} :
    x.toOption = some a ↔ x = .ok a := by
  cases x <;> simp [Except.toOption]

theorem step_command {c : Command} (h : s.step text map (.command c id) = some s') :
    s.command c id = .ok s' := toOption_eq_some.mp h

theorem step_delete (h : s.step text map (.delete id) = some s') :
    ∃ task, s.tasks.lookup id = some task ∧
      (task.status = .completed ∨ task.status = .cancelled ∨ task.status = .failed) ∧ s' = { s with
        tasks := s.tasks.erase id
        controls := Function.update s.controls id false
        handles := Function.update s.handles id false } := by
  have hok : s.delete id = .ok s' := toOption_eq_some.mp h
  unfold delete at hok
  split at hok
  · cases hok
  · rename_i task htask
    refine ⟨task, htask, ?_⟩
    split at hok
    · exact ⟨Or.inl ‹_›, (Except.ok.inj hok).symm⟩
    · exact ⟨Or.inr (Or.inl ‹_›), (Except.ok.inj hok).symm⟩
    · exact ⟨Or.inr (Or.inr ‹_›), (Except.ok.inj hok).symm⟩
    · cases hok

theorem step_run {e : RunEvent} (h : s.step text map (.run id e) = some s') :
    ∃ r x, s.runs id = some r ∧
      r.step id (s.view id map) (s.store id) (s.controls id) e = some x ∧
      s' = s.perform map id x := by
  obtain ⟨r, hr, h⟩ := Option.bind_eq_some_iff.mp h
  obtain ⟨x, hx, h⟩ := Option.bind_eq_some_iff.mp h
  exact ⟨r, x, hr, hx, (Option.some.inj h).symm⟩

/-- A persist of a command changes the store and its own call, and returns at its end. -/
theorem step_persist {call : ℕ} {e : PersistEvent}
    (h : s.step text map (.persist call e) = some s') :
    ∃ c store calls returned, s.calls[call]? = some c ∧
      (returned = [] ∨ returned = [.returned c.command c.id]) ∧ s' = { s with
        store := store
        calls := calls
        history := returned ++ s.history } := by
  obtain ⟨c, hc, h⟩ := Option.bind_eq_some_iff.mp h
  obtain ⟨⟨next, snapshot⟩, -, h⟩ := Option.bind_eq_some_iff.mp h
  cases next with
  | some phase => exact ⟨c, _, _, [], hc, Or.inl rfl, (Option.some.inj h).symm⟩
  | none => exact ⟨c, _, _, [_], hc, Or.inr rfl, (Option.some.inj h).symm⟩

theorem step_creation {e : CreationEvent} (h : s.step text map (.creation id e) = some s') :
    ∃ creation, s.creations id = some creation ∧ s.creationStep id creation e = some s' :=
  Option.bind_eq_some_iff.mp h

theorem creationStep_copy {creation : Creation}
    (h : s.creationStep id creation .copy = some s') :
    ∃ phase, creation.phase = .accepted ∧
      ((∃ task, phase = .copied task) ∨ phase = .stored) ∧ s' = { s with
        creations := Function.update s.creations id (some { creation with phase := phase }) } := by
  dsimp only [creationStep] at h
  split at h
  · refine ⟨_, ‹_›, ?_, (Option.some.inj h).symm⟩
    cases s.tasks.lookup id with
    | none => exact Or.inr rfl
    | some task => exact Or.inl ⟨task, rfl⟩
  · cases h

theorem creationStep_save {creation : Creation} {now : String} {saved : Bool}
    (h : s.creationStep id creation (.save now saved) = some s') :
    ∃ task store, creation.phase = .copied task ∧ s' = { s with
      store := store
      creations := Function.update s.creations id (some { creation with phase := .stored }) } := by
  dsimp only [creationStep] at h
  split at h
  · exact ⟨_, _, ‹_›, (Option.some.inj h).symm⟩
  · cases h

theorem creationStep_configure {creation : Creation} {maxConcurrentFragments : ℕ}
    (h : s.creationStep id creation (.configure maxConcurrentFragments) = some s') :
    creation.phase = .stored ∧
      ((maxConcurrentFragments = 0 ∧ s' = { s with
        tasks := s.tasks.erase id
        creations := Function.update s.creations id none }) ∨
      (maxConcurrentFragments ≠ 0 ∧ s' = { s with
        creations :=
          Function.update s.creations id (some { creation with phase := .configured }) })) := by
  dsimp only [creationStep] at h
  split at h
  · refine ⟨‹_›, ?_⟩
    split at h
    · exact Or.inl ⟨‹_›, (Option.some.inj h).symm⟩
    · exact Or.inr ⟨‹_›, (Option.some.inj h).symm⟩
  · cases h

theorem creationStep_clone {creation : Creation}
    (h : s.creationStep id creation .clone = some s') :
    creation.phase = .configured ∧ s' = { s with
      copies := Function.update s.copies id s.tasks
      creations := Function.update s.creations id (some { creation with phase := .cloned }) } := by
  dsimp only [creationStep] at h
  split at h
  · exact ⟨‹_›, (Option.some.inj h).symm⟩
  · cases h

theorem creationStep_register {creation : Creation}
    (h : s.creationStep id creation .register = some s') :
    creation.phase = .cloned ∧ s' = { s with
      controls := Function.update s.controls id true
      runs := Function.update s.runs id
        (some ⟨.waiting, ⟨.downloading, 0⟩, creation.downloadDir, none, none⟩)
      creations :=
        Function.update s.creations id (some { creation with phase := .registered }) } := by
  dsimp only [creationStep] at h
  split at h
  · exact ⟨‹_›, (Option.some.inj h).symm⟩
  · cases h

theorem creationStep_start {creation : Creation}
    (h : s.creationStep id creation .start = some s') :
    creation.phase = .registered ∧ s' = { s with
      handles := Function.update s.handles id true
      runs := Function.update s.runs id ((s.runs id).map TaskRun.start)
      creations := Function.update s.creations id none } := by
  dsimp only [creationStep] at h
  split at h
  · exact ⟨‹_›, (Option.some.inj h).symm⟩
  · cases h

/-- The steps of a creation record nothing. -/
theorem creationStep_history {creation : Creation} {e : CreationEvent}
    (h : s.creationStep id creation e = some s') : s'.history = s.history := by
  cases e with
  | copy =>
    obtain ⟨phase, -, -, rfl⟩ := creationStep_copy h
    rfl
  | save now saved =>
    obtain ⟨task, store, -, rfl⟩ := creationStep_save h
    rfl
  | configure maxConcurrentFragments =>
    obtain ⟨-, ⟨-, rfl⟩ | ⟨-, rfl⟩⟩ := creationStep_configure h
    · rfl
    · rfl
  | clone =>
    obtain ⟨-, rfl⟩ := creationStep_clone h
    rfl
  | register =>
    obtain ⟨-, rfl⟩ := creationStep_register h
    rfl
  | start =>
    obtain ⟨-, rfl⟩ := creationStep_start h
    rfl

/-- The maps have the same of a task, and the same is under way for it. -/
structure SameOf (s s' : AppState) (id : String) : Prop where
  tasks : s'.tasks.lookup id = s.tasks.lookup id
  creations : s'.creations id = s.creations id
  controls : s'.controls id = s.controls id
  handles : s'.handles id = s.handles id
  runs : s'.runs id = s.runs id

/-- The steps of a creation begin no call and leave every other task alone. -/
theorem creationStep_frame {creation : Creation} {e : CreationEvent}
    (h : s.creationStep id creation e = some s') :
    s'.calls = s.calls ∧ ∀ j ≠ id, s.SameOf s' j := by
  cases e with
  | copy =>
    obtain ⟨phase, -, -, rfl⟩ := creationStep_copy h
    exact ⟨rfl, fun j hj => ⟨rfl, Function.update_of_ne hj _ _, rfl, rfl, rfl⟩⟩
  | save now saved =>
    obtain ⟨task, store, -, rfl⟩ := creationStep_save h
    exact ⟨rfl, fun j hj => ⟨rfl, Function.update_of_ne hj _ _, rfl, rfl, rfl⟩⟩
  | configure maxConcurrentFragments =>
    obtain ⟨-, ⟨-, rfl⟩ | ⟨-, rfl⟩⟩ := creationStep_configure h
    · exact ⟨rfl, fun j hj => ⟨Finmap.lookup_erase_ne hj, Function.update_of_ne hj _ _, rfl, rfl,
        rfl⟩⟩
    · exact ⟨rfl, fun j hj => ⟨rfl, Function.update_of_ne hj _ _, rfl, rfl, rfl⟩⟩
  | clone =>
    obtain ⟨-, rfl⟩ := creationStep_clone h
    exact ⟨rfl, fun j hj => ⟨rfl, Function.update_of_ne hj _ _, rfl, rfl, rfl⟩⟩
  | register =>
    obtain ⟨-, rfl⟩ := creationStep_register h
    exact ⟨rfl, fun j hj => ⟨rfl, Function.update_of_ne hj _ _, Function.update_of_ne hj _ _, rfl,
      Function.update_of_ne hj _ _⟩⟩
  | start =>
    obtain ⟨-, rfl⟩ := creationStep_start h
    exact ⟨rfl, fun j hj => ⟨rfl, Function.update_of_ne hj _ _, rfl, Function.update_of_ne hj _ _,
      Function.update_of_ne hj _ _⟩⟩

/-- A creation changes the store by its save only. -/
theorem creationStep_store {creation : Creation} {e : CreationEvent}
    (hsave : ∀ now saved, e ≠ .save now saved) (h : s.creationStep id creation e = some s') :
    s'.store = s.store := by
  cases e with
  | copy =>
    obtain ⟨phase, -, -, rfl⟩ := creationStep_copy h
    rfl
  | save now saved => exact absurd rfl (hsave now saved)
  | configure maxConcurrentFragments =>
    obtain ⟨-, ⟨-, rfl⟩ | ⟨-, rfl⟩⟩ := creationStep_configure h
    · rfl
    · rfl
  | clone =>
    obtain ⟨-, rfl⟩ := creationStep_clone h
    rfl
  | register =>
    obtain ⟨-, rfl⟩ := creationStep_register h
    rfl
  | start =>
    obtain ⟨-, rfl⟩ := creationStep_start h
    rfl

/-- Until it registers the `task_fn` a creation leaves all of these alone. -/
theorem creationStep_unregistered {creation : Creation} {e : CreationEvent}
    (hregister : e ≠ .register) (hstart : e ≠ .start)
    (h : s.creationStep id creation e = some s') :
    s'.controls = s.controls ∧ s'.handles = s.handles ∧ s'.runs = s.runs := by
  cases e with
  | copy =>
    obtain ⟨phase, -, -, rfl⟩ := creationStep_copy h
    exact ⟨rfl, rfl, rfl⟩
  | save now saved =>
    obtain ⟨task, store, -, rfl⟩ := creationStep_save h
    exact ⟨rfl, rfl, rfl⟩
  | configure maxConcurrentFragments =>
    obtain ⟨-, ⟨-, rfl⟩ | ⟨-, rfl⟩⟩ := creationStep_configure h
    · exact ⟨rfl, rfl, rfl⟩
    · exact ⟨rfl, rfl, rfl⟩
  | clone =>
    obtain ⟨-, rfl⟩ := creationStep_clone h
    exact ⟨rfl, rfl, rfl⟩
  | register => exact absurd rfl hregister
  | start => exact absurd rfl hstart

theorem update_eq_some {α : Type} {f : String → Option α} {x : Option α} {j : String} {a : α} :
    Function.update f id x j = some a ↔ (j = id ∧ x = some a) ∨ (j ≠ id ∧ f j = some a) := by
  by_cases h : j = id
  · subst h
    simp
  · simp [h]

theorem WellFormed.step (hs : s.WellFormed) (h : s.step text map e = some s') : s'.WellFormed := by
  cases e with
  | create id request =>
    obtain ⟨-, downloadDir, -, -, -, rfl⟩ := step_create h
    refine ⟨fun j creation hj => ?_, hs.joined⟩
    obtain ⟨rfl, -⟩ | ⟨-, hj⟩ := update_eq_some.mp hj
    · exact List.mem_cons_self
    · exact List.mem_cons_of_mem _ (hs.accepted j creation hj)
  | creation id e =>
    obtain ⟨creation, hcreation, h⟩ := step_creation h
    have haccepted := hs.accepted id creation hcreation
    have hkeep {x : Option Creation} {j : String} {c : Creation}
        (hj : Function.update s.creations id x j = some c) : .accepted j ∈ s.history := by
      obtain ⟨rfl, -⟩ | ⟨-, hj⟩ := update_eq_some.mp hj
      · exact haccepted
      · exact hs.accepted j c hj
    cases e with
    | copy =>
      obtain ⟨phase, -, -, rfl⟩ := creationStep_copy h
      exact ⟨fun j c hj => hkeep hj, hs.joined⟩
    | save now saved =>
      obtain ⟨task, store, -, rfl⟩ := creationStep_save h
      exact ⟨fun j c hj => hkeep hj, hs.joined⟩
    | configure maxConcurrentFragments =>
      obtain ⟨-, ⟨-, rfl⟩ | ⟨-, rfl⟩⟩ := creationStep_configure h
      · exact ⟨fun j c hj => hkeep hj, hs.joined⟩
      · exact ⟨fun j c hj => hkeep hj, hs.joined⟩
    | clone =>
      obtain ⟨-, rfl⟩ := creationStep_clone h
      exact ⟨fun j c hj => hkeep hj, hs.joined⟩
    | register =>
      obtain ⟨-, rfl⟩ := creationStep_register h
      refine ⟨fun j c hj => hkeep hj, fun j r hj => ?_⟩
      obtain ⟨-, hr⟩ | ⟨-, hj⟩ := update_eq_some.mp hj
      · obtain rfl := Option.some.inj hr
        exact nofun
      · exact hs.joined j r hj
    | start =>
      obtain ⟨-, rfl⟩ := creationStep_start h
      refine ⟨fun j c hj => hkeep hj, fun j r hj => ?_⟩
      obtain ⟨-, hr⟩ | ⟨-, hj⟩ := update_eq_some.mp hj
      · obtain ⟨r₀, hr₀, rfl⟩ := Option.map_eq_some_iff.mp hr
        exact (hs.joined id r₀ hr₀).start
      · exact hs.joined j r hj
  | command c id =>
    obtain ⟨task, task', -, -, rfl⟩ := command_eq_ok (step_command h)
    refine ⟨fun j c hj => List.mem_cons_of_mem _ (hs.accepted j c hj), fun j r hj => ?_⟩
    dsimp only at hj
    split at hj
    · obtain ⟨-, hr⟩ | ⟨-, hj⟩ := update_eq_some.mp hj
      · obtain ⟨r₀, hr₀, rfl⟩ := Option.map_eq_some_iff.mp hr
        exact hs.joined id r₀ hr₀
      · exact hs.joined j r hj
    · exact hs.joined j r hj
  | persist call e =>
    obtain ⟨c, store, calls, returned, -, -, rfl⟩ := step_persist h
    exact ⟨fun j c hj => List.mem_append_right _ (hs.accepted j c hj), hs.joined⟩
  | delete id =>
    obtain ⟨task, -, -, rfl⟩ := step_delete h
    exact ⟨hs.accepted, hs.joined⟩
  | recover found =>
    obtain rfl := Option.some.inj h
    exact ⟨fun j c hj => List.mem_append_right _ (hs.accepted j c hj), hs.joined⟩
  | run id e =>
    obtain ⟨r, x, hr, hx, rfl⟩ := step_run h
    refine ⟨fun j c hj => List.mem_append_right _ (hs.accepted j c hj), fun j r' hj => ?_⟩
    obtain ⟨-, hr'⟩ | ⟨-, hj⟩ := update_eq_some.mp hj
    · obtain rfl := Option.some.inj hr'
      exact (TaskRun.step_moves (hs.joined id r hr) hx).joined
    · exact hs.joined j r' hj

end Step

/-- A task that `create_task` accepts at once, for an HTTPS URL. -/
def exampleRequest (host : String) : CreateRequest where
  url := .ok ⟨"https", "", none, some (.domain host), none, "/models/model.bin"⟩
  mirrorUrls := []
  downloadDir := .ok "/downloads"
  maxTasks := 5
  createdAt := "2026-05-29T00:00:00Z"

/-- A task is created and its `task_fn` spawned. -/
def created (id host : String) : List AppEvent :=
  [.create id (exampleRequest host), .creation id .copy,
    .creation id (.save "2026-05-29T00:00:00Z" true), .creation id (.configure 16),
    .creation id .clone, .creation id .register, .creation id .start]

end AppState

end Tachyon
