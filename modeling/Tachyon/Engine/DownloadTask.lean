import Tachyon.Engine.FragmentedIntegrity
import Tachyon.Engine.FullDownload

/-!
# The download task

`DownloadTask` and its steps: probe, storage, plan, preallocation, execution and
verification. `run_inner` is a program over the requests of this level; the two
ways to execute are requests whose answers are the runs of the engine below.
-/

namespace Tachyon

open Resumption ByteFile

/-- A `select!` against `wait_for_cancel`: the operation's result, or the cancellation. -/
inductive Raced (α : Type) where
  | finished (result : DownloadResult α)
  | cancelled

/-- `DownloadTask`, the fields its steps read. `host` is `request_host()` of the URL,
`recommend` the scheduler, `storage` the path of the opened file. -/
structure DownloadTask where
  url : String
  host : DownloadResult String
  config : DownloadConfig
  storage : Option String
  bandwidthBps : ℕ
  schedulerConfig : SchedulerConfig
  recommend : ℕ → ℕ → ScheduleRecommendation
  state : DownloadState
  metadata : Option FileMetadata
  fragments : List FragmentRecord
  completedFragments : List ℕ

/-- The awaits of a task, and its runs of the engine. -/
inductive TaskRequest where
  /-- `protocol.probe(url)`, raced with the cancellation. -/
  | probe
  /-- `validate_save_path` of a file name in a directory: the path to open. -/
  | validateSavePath (downloadDir fileName : String)
  /-- `DynStorage::open_with_strategy`. -/
  | openStorage (path : String) (strategy : IoStrategy)
  /-- `check_cancelled`. -/
  | checkCancelled
  /-- `storage.allocate(size)`, raced with the cancellation. -/
  | allocate (size : ℕ)
  /-- No `await` in `prepare_storage` for an empty file, but the race with the cancellation. -/
  | skipAllocate
  /-- `execute_full_download`. -/
  | executeFull (expectedSize : Option UInt64) (maxFullStreamBytes : UInt64)
    (host : DownloadResult String) (storageReady : Bool) (fragments : List FragmentRecord)
  /-- `execute_fragmented_download`. -/
  | executeFragmented (maxConcurrentFragments maxRetries : ℕ) (host : DownloadResult String)
    (url : String) (storageReady : Bool) (fragments : List FragmentRecord)
  /-- The blake3 hash of a part of the file. -/
  | hashRange (start size : ℕ)
  /-- The end of the race between `verify` and the cancellation. -/
  | verified
  /-- A panic; nothing follows it. -/
  | panic

/-- The type of the answer to each request of a task. -/
@[reducible] def TaskAnswer : TaskRequest → Type
  | .probe => Raced FileMetadata
  | .validateSavePath _ _ => DownloadResult String
  | .openStorage _ _ | .checkCancelled => DownloadResult Unit
  | .allocate _ | .skipAllocate | .verified => Raced Unit
  | .executeFull _ _ _ _ _ | .executeFragmented _ _ _ _ _ _ =>
    DownloadResult (List FragmentRecord)
  | .hashRange _ _ => DownloadResult String
  | .panic => Empty

/-- A step of a task that can fail with a `DownloadError`. -/
abbrev TaskM (α : Type) := ExceptT DownloadError (Prog TaskAnswer) α

/-- The arms of a `select!` against `wait_for_cancel`. -/
def fromRaced {α : Type} : Raced α → TaskM α
  | .finished result => fromResult result
  | .cancelled => throw .cancelled

theorem yields_fromRaced {α World : Type}
    {handle : (op : TaskRequest) → World → TaskAnswer op → World → Prop} {x : Raced α} {a : α}
    {w w' : World} :
    Yields handle (fromRaced x) w (.ok a) w' ↔ x = .finished (.ok a) ∧ w = w' := by
  cases x with
  | finished result => simp only [fromRaced, yields_fromResult, Raced.finished.injEq]
  | cancelled => simp only [fromRaced, not_yields_throw, reduceCtorEq, false_and]

/-- A computation that may panic. -/
def orPanic {α : Type} : Option α → TaskM α
  | some a => pure a
  | none => request .panic >>= fun x => nomatch x

/-- `probe`: a cached result is returned as it is. -/
def DownloadTask.probe (t : DownloadTask) : TaskM DownloadTask :=
  match t.metadata with
  | some _ => pure t
  | none => do
    let metadata ← fromRaced (← request .probe)
    pure { t with metadata := some metadata }

/-- `init_storage`: opens the file once its name is known. -/
def DownloadTask.initStorage (t : DownloadTask) : TaskM DownloadTask :=
  if t.storage.isSome then pure t
  else do
    let metadata ← orThrow t.metadata (.config "必须先调用 probe() 获取文件元数据")
    let path ← fromResult (← request (.validateSavePath t.config.downloadDir metadata.fileName))
    fromResult (← request (.openStorage path t.config.ioStrategy))
    pure { t with storage := some path }

/-- The resume loop of `plan`: each listed fragment that is Pending is marked Done. -/
def markCompleted : List ℕ → List FragmentRecord → DownloadResult (List FragmentRecord)
  | [], fragments => .ok fragments
  | doneIndex :: rest, fragments =>
    match fragments[doneIndex]? with
    | none => markCompleted rest fragments
    | some frag =>
      if frag.state = .pending then do
        let frag := { frag with info := { frag.info with downloaded := frag.info.size } }
        let frag ← frag.startDownload
        let frag ← frag.completeDownloadFast frag.info.size 0
        markCompleted rest (fragments.set doneIndex frag)
      else markCompleted rest fragments

/-- The fragment list `plan` asks the orchestrator for. `none` is a panic. -/
def DownloadTask.plannedFragments (t : DownloadTask) (metadata : FileMetadata) :
    Option (List FragmentInfo) :=
  let fileSize := (metadata.fileSize.getD 0).toNat
  let recommendation := t.recommend fileSize t.config.maxConcurrentFragments
  let suggestedFragSize :=
    if recommendation.confidence > 0 then some recommendation.fragmentSize else none
  planFragments t.bandwidthBps t.schedulerConfig fileSize metadata.supportsRange suggestedFragSize

/-- `DownloadTask::plan`. The outer `none` is a panic of the orchestrator. -/
def DownloadTask.plan (t : DownloadTask) : Option (DownloadResult DownloadTask) :=
  match t.metadata with
  | none => some (.error (.config "必须先调用 probe() 获取文件元数据"))
  | some metadata => do
    let plan ← t.plannedFragments metadata
    some do
      let fragments ← markCompleted t.completedFragments (freshRecords t.config.maxRetries plan)
      .ok { t with fragments := fragments }

/-- `prepare_storage`: files of a known positive size are allocated. -/
def DownloadTask.prepareStorage (t : DownloadTask) : TaskM Unit := do
  let metadata ← orThrow t.metadata (.config "必须先调用 probe() 获取文件元数据")
  let size := (metadata.fileSize.getD 0).toNat
  let _ ← orThrow t.storage (.config "存储未初始化")
  if size > 0 then fromRaced (← request (.allocate size))
  else fromRaced (← request .skipAllocate)

/-- `execute`: nothing for an empty file, one stream without ranges or with a plan of at
most one fragment, fragments otherwise. -/
def DownloadTask.execute (t : DownloadTask) : TaskM DownloadTask := do
  let metadata ← orThrow t.metadata (.config "必须先调用 probe()")
  if metadata.fileSize = some 0 then pure { t with state := .completed }
  else if !metadata.supportsRange || t.fragments.length ≤ 1 then do
    let fragments ← fromResult (← request (.executeFull metadata.fileSize
      t.config.maxFullStreamBytes t.host t.storage.isSome t.fragments))
    pure { t with fragments := fragments, state := .completed }
  else do
    let fragments ← fromResult (← request (.executeFragmented t.config.maxConcurrentFragments
      t.config.maxRetries t.host t.url t.storage.isSome t.fragments))
    pure { t with fragments := fragments, state := .completed }

/-- The loop of `verify`; it returns whether some fragment had an expected hash. -/
def verifyLoop : List FragmentRecord → TaskM Bool
  | [] => pure false
  | frag :: rest =>
    match frag.info.hash with
    | none => verifyLoop rest
    | some expected => do
      let computed ← fromResult (← request (.hashRange frag.info.start frag.info.size))
      if computed ≠ expected then throw (.checksumMismatch expected computed)
      else do
        let _ ← verifyLoop rest
        pure true

/-- `verify`. -/
def DownloadTask.verify (t : DownloadTask) : TaskM Unit :=
  if !t.config.verifyChecksum then pure ()
  else do
    let _ ← orThrow t.storage (.config "存储未初始化")
    let hasExpectedHash ← verifyLoop t.fragments
    if !hasExpectedHash then throw .noExpectedChecksum else pure ()

/-- `run_inner`. -/
def DownloadTask.runInner (t : DownloadTask) : TaskM DownloadTask := do
  let t ← t.probe
  let t ← t.initStorage
  fromResult (← request .checkCancelled)
  let t ← fromResult (← orPanic t.plan)
  t.prepareStorage
  let t ← t.execute
  t.verify
  fromRaced (← request .verified)
  pure { t with state := .completed }

/-! ### The world of a task -/

/-- The platforms of `TokioFile`: Linux reserves space, the others set the length. -/
inductive Platform where
  | linux
  | other
  deriving DecidableEq, Repr

/-- `TokioFile::allocate`: `fallocate` on Linux, `set_len` elsewhere. -/
def Platform.allocate : Platform → Bytes → ℕ → Bytes
  | .linux, file, size => reserve file size
  | .other, file, size => setLen file size

/-- The answers a task may get and what they leave at its save path, `none` being no file.
An opened file is created where it is missing and is never truncated; a step that failed
or lost its race may have had its effect or not. -/
def TaskHandles (platform : Platform) (env : Environment) (metadata : FileMetadata) :
    (r : TaskRequest) → Option Bytes → TaskAnswer r → Option Bytes → Prop
  | .probe, file, x, file' => file' = file ∧ ∀ m, x = .finished (.ok m) → m = metadata
  | .openStorage _ _, file, x, file' =>
    match x with
    | .ok _ => file' = some (file.getD [])
    | .error _ => file' = file ∨ file' = some (file.getD [])
  | .allocate size, file, x, file' =>
    match x with
    | .finished (.ok _) => file' = file.map (platform.allocate · size)
    | _ => file' = file ∨ file' = file.map (platform.allocate · size)
  | .executeFull expectedSize maxFullStreamBytes host storageReady fragments, file, x, file' =>
    ∃ w, Yields (Handles env)
        (executeFullDownload expectedSize maxFullStreamBytes host storageReady fragments)
        (.initial (file.getD [])) x w ∧ file' = file.map fun _ => w.file
  | .executeFragmented maxConcurrentFragments maxRetries host url storageReady fragments,
      file, x, file' =>
    match startFragmented maxConcurrentFragments maxRetries host url
      (if storageReady then file else none) fragments with
    | .error e => x = .error e ∧ file' = file
    | .ok s₀ => ∃ s, Relation.ReflTransGen (FragmentedStep env) s₀ s ∧
        s.outcome = some (x.map fun _ => ()) ∧
        (∀ records, x = .ok records → s.fragments = records) ∧
        file' = some s.world.file
  | .validateSavePath _ _, file, _, file' | .checkCancelled, file, _, file'
  | .skipAllocate, file, _, file' | .hashRange _ _, file, _, file'
  | .verified, file, _, file' => file' = file
  | .panic, _, x, _ => x.elim

end Tachyon
