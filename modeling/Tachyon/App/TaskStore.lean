import Tachyon.Core.Types

/-!
# Task records and their snapshots

`TaskInfo` is what the application shows of a task, `TaskSnapshot` what it keeps on
disk. The conversions between the two and the restart's choice of snapshots are the
source's; a time is the text the clock gave.
-/

namespace Tachyon

/-- `TaskInfo`. `progress` is the exact value of the quotient the code rounds to an `f64`. -/
structure TaskInfo where
  id : String
  url : String
  fileName : String
  fileSize : Option UInt64
  downloaded : ℕ
  speed : ℕ
  status : DownloadState
  progress : ℚ
  fragmentsTotal : ℕ
  fragmentsDone : ℕ
  createdAt : String

/-- `TaskSnapshot`. -/
structure TaskSnapshot where
  id : String
  url : String
  savePath : String
  fileName : String
  fileSize : Option UInt64
  downloaded : ℕ
  completedFragments : List ℕ
  totalFragments : ℕ
  fragmentSize : ℕ
  status : DownloadState
  etag : Option String
  lastModified : Option String
  contentLength : Option UInt64
  createdAt : String
  updatedAt : String
  failReason : Option String
  retryCount : ℕ
  deriving DecidableEq

/-- `Path::join`, on a Unix path. -/
def joinPath (dir name : String) : String :=
  if name.startsWith "/" then name
  else if dir.isEmpty || dir.endsWith "/" then dir ++ name
  else dir ++ "/" ++ name

/-- `task_info_to_snapshot`, at the time `now`. -/
def taskInfoToSnapshot (now : String) (task : TaskInfo) (savePath : String) (fragmentSize : ℕ)
    (completedFragments : List ℕ) (etag lastModified : Option String) : TaskSnapshot where
  id := task.id
  url := task.url
  savePath := savePath
  fileName := task.fileName
  fileSize := task.fileSize
  downloaded := task.downloaded
  completedFragments := completedFragments
  totalFragments := task.fragmentsTotal
  fragmentSize := fragmentSize
  status := task.status
  etag := etag
  lastModified := lastModified
  contentLength := task.fileSize
  createdAt := task.createdAt
  updatedAt := now
  failReason := none
  retryCount := 0

/-- `normalize_recovered_status`. -/
def normalizeRecoveredStatus : DownloadState → DownloadState
  | .downloading | .verifying => .pending
  | other => other

/-- `snapshot_to_task_info`. -/
def snapshotToTaskInfo (snapshot : TaskSnapshot) : TaskInfo where
  id := snapshot.id
  url := snapshot.url
  fileName := snapshot.fileName
  fileSize := snapshot.fileSize
  downloaded := snapshot.downloaded
  speed := 0
  status := normalizeRecoveredStatus snapshot.status
  progress :=
    if snapshot.fileSize.getD 0 = 0 then 0
    else snapshot.downloaded / (snapshot.fileSize.getD 1).toNat
  fragmentsTotal := snapshot.totalFragments
  fragmentsDone := snapshot.completedFragments.length % u32Bound
  createdAt := snapshot.createdAt

/-- The test of `recover_pending_snapshots`. -/
def TaskSnapshot.recoverable (snapshot : TaskSnapshot) : Bool :=
  snapshot.status = .downloading || snapshot.status = .paused

/-- `update_task_status`, on the task's entry. -/
def TaskInfo.updateStatus (task : TaskInfo) (newStatus : DownloadState) : TaskInfo :=
  if newStatus = .completed || newStatus = .failed || newStatus = .cancelled then
    { task with status := newStatus, speed := 0 }
  else { task with status := newStatus }

/-- The snapshot `persist_task_snapshot` saves for its copy of the task, over the one it loaded. -/
def persistedSnapshot (now downloadDir : String) (task : TaskInfo) (existing : Option TaskSnapshot)
    (failReason : Option String) : TaskSnapshot :=
  let savePath := match existing with
    | some snapshot => snapshot.savePath
    | none => joinPath downloadDir task.fileName
  let snapshot := taskInfoToSnapshot now task savePath 0 [] none none
  match existing with
  | some existing => { snapshot with
      fragmentSize := existing.fragmentSize
      completedFragments := existing.completedFragments
      etag := existing.etag
      lastModified := existing.lastModified
      retryCount := existing.retryCount
      failReason := failReason }
  | none => { snapshot with failReason := failReason }

@[simp] theorem taskInfoToSnapshot_completedFragments (now : String) (task : TaskInfo)
    (savePath : String) (fragmentSize : ℕ) (completedFragments : List ℕ)
    (etag lastModified : Option String) :
    (taskInfoToSnapshot now task savePath fragmentSize completedFragments etag
      lastModified).completedFragments = completedFragments := rfl

/-- A status persist keeps the indices of the snapshot it loaded, none if it loaded none. -/
theorem persistedSnapshot_completedFragments (now downloadDir : String) (task : TaskInfo)
    (existing : Option TaskSnapshot) (failReason : Option String) :
    (persistedSnapshot now downloadDir task existing failReason).completedFragments =
      (existing.map TaskSnapshot.completedFragments).getD [] := by
  cases existing with
  | none => rfl
  | some snapshot => rfl

/-- A status persist writes the status of its copy of the task. -/
@[simp] theorem persistedSnapshot_status (now downloadDir : String) (task : TaskInfo)
    (existing : Option TaskSnapshot) (failReason : Option String) :
    (persistedSnapshot now downloadDir task existing failReason).status = task.status := by
  cases existing with
  | none => rfl
  | some snapshot => rfl

end Tachyon
