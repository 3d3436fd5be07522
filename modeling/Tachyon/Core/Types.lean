import Tachyon.Core.Error
import Tachyon.Core.Machine
import Mathlib.Data.Rat.Defs

/-!
# Core types

Task states, the metadata a probe returns, the plan of one fragment, and the
parts of the configuration that planning and downloading read.
-/

namespace Tachyon

/-- Bytes in memory or in a file. -/
abbrev Bytes := List UInt8

/-- `DownloadState`. -/
inductive DownloadState where
  | pending
  | connecting
  | downloading
  | paused
  | resuming
  | verifying
  | completed
  | failed
  | cancelled
  deriving DecidableEq, Repr

/-- `Debug` of a `DownloadState`. -/
def DownloadState.debug : DownloadState → String
  | .pending => "Pending"
  | .connecting => "Connecting"
  | .downloading => "Downloading"
  | .paused => "Paused"
  | .resuming => "Resuming"
  | .verifying => "Verifying"
  | .completed => "Completed"
  | .failed => "Failed"
  | .cancelled => "Cancelled"

/-- The changes of state that `try_transition` accepts. -/
def DownloadState.mayBecome : DownloadState → DownloadState → Bool
  | .pending, .connecting
  | .connecting, .downloading | .connecting, .failed | .connecting, .cancelled
  | .downloading, .paused | .downloading, .verifying | .downloading, .failed
  | .downloading, .cancelled
  | .paused, .resuming | .paused, .cancelled
  | .resuming, .downloading | .resuming, .failed | .resuming, .cancelled
  | .verifying, .completed | .verifying, .failed | .verifying, .cancelled
  | .failed, .pending | .cancelled, .pending => true
  | _, _ => false

/-- `DownloadState::try_transition`. -/
def DownloadState.tryTransition (state next : DownloadState) : DownloadResult DownloadState :=
  if state.mayBecome next then .ok next
  else .error (.config s!"非法状态转换: {state.debug} -> {next.debug}")

/-- A task in one of these states has ended. -/
def DownloadState.isTerminal : DownloadState → Bool
  | .completed | .failed | .cancelled => true
  | _ => false

/-- `FileMetadata`, what a probe found out about the remote file. -/
structure FileMetadata where
  fileName : String
  /-- `none` when the server sent no usable Content-Length. -/
  fileSize : Option UInt64
  contentType : Option String
  supportsRange : Bool
  etag : Option String
  lastModified : Option String
  deriving DecidableEq

/-- `FragmentInfo`. `end_` is the last offset of the fragment. -/
structure FragmentInfo where
  index : ℕ
  start : ℕ
  end_ : ℕ
  size : ℕ
  downloaded : ℕ
  hash : Option String
  deriving DecidableEq, Repr

/-- `FragmentInfo::new`. `none` is a panic: an overflow, or ends that do not fit the size. -/
def FragmentInfo.new (index start end_ size : ℕ) : Option FragmentInfo := do
  let endPlus1 ← checkedAdd end_ 1
  let startPlusSize ← checkedAdd start size
  if endPlus1 = startPlusSize then some ⟨index, start, end_, size, 0, none⟩ else none

/-- `IoStrategy`. -/
inductive IoStrategy where
  | standard
  | winAligned
  | iocp
  | ioUring
  deriving DecidableEq, Repr

/-- `DownloadConfig`, the fields a download reads. -/
structure DownloadConfig where
  downloadDir : String
  maxConcurrentFragments : ℕ
  maxRetries : ℕ
  verifyChecksum : Bool
  maxFullStreamBytes : UInt64
  ioStrategy : IoStrategy

/-- `default_max_full_stream_bytes`. -/
def defaultMaxFullStreamBytes : UInt64 := 64 * 1024 * 1024 * 1024

/-- `DownloadConfig::default`, for a given download directory. -/
def DownloadConfig.default (downloadDir : String) : DownloadConfig where
  downloadDir := downloadDir
  maxConcurrentFragments := 16
  maxRetries := 3
  verifyChecksum := true
  maxFullStreamBytes := defaultMaxFullStreamBytes
  ioStrategy := .standard

/-- `SchedulerConfig`, the fields planning reads. -/
structure SchedulerConfig where
  minFragmentSize : ℕ
  maxFragmentSize : ℕ
  defaultTargetFragments : ℕ
  highBandwidthThreshold : ℕ
  mediumBandwidthThreshold : ℕ

/-- `SchedulerConfig::default`. -/
def SchedulerConfig.default : SchedulerConfig where
  minFragmentSize := 1024 * 1024
  maxFragmentSize := 64 * 1024 * 1024
  defaultTargetFragments := 16
  highBandwidthThreshold := 100 * 1024 * 1024
  mediumBandwidthThreshold := 10 * 1024 * 1024

/-- `ScheduleRecommendation`. -/
structure ScheduleRecommendation where
  concurrency : ℕ
  fragmentSize : ℕ
  confidence : ℚ

theorem FragmentInfo.new_eq_some {index start end_ size : ℕ} (hend : end_ + 1 = start + size)
    (hbound : start + size < u64Bound) :
    FragmentInfo.new index start end_ size = some ⟨index, start, end_, size, 0, none⟩ := by
  have h1 : checkedAdd end_ 1 = some (end_ + 1) := checkedAdd_eq_some.mpr ⟨by omega, rfl⟩
  have h2 : checkedAdd start size = some (start + size) := checkedAdd_eq_some.mpr ⟨hbound, rfl⟩
  simp [FragmentInfo.new, h1, h2, hend]

end Tachyon
