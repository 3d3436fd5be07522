import Tachyon.Core.Types

/-!
# Fragment records

The state of one fragment while a task downloads it. Only `start_download` and
`complete_download_fast` are called on the download path; both refuse a record
that is in any other state than the one they leave.
-/

namespace Tachyon

/-- `FragmentState`. -/
inductive FragmentState where
  | pending
  | downloading
  | verifying
  | writing
  | done
  | failed
  deriving DecidableEq, Repr

/-- The `Debug` text of a state, as error messages show it. -/
def FragmentState.debug : FragmentState → String
  | .pending => "Pending"
  | .downloading => "Downloading"
  | .verifying => "Verifying"
  | .writing => "Writing"
  | .done => "Done"
  | .failed => "Failed"

/-- `FragmentRecord`. Durations are counted in nanoseconds. -/
structure FragmentRecord where
  info : FragmentInfo
  state : FragmentState
  retryCount : ℕ
  maxRetries : ℕ
  lastDuration : Option ℕ
  deriving DecidableEq

/-- `FragmentRecord::new`. -/
def FragmentRecord.new (info : FragmentInfo) (maxRetries : ℕ) : FragmentRecord :=
  ⟨info, .pending, 0, maxRetries, none⟩

/-- `FragmentRecord::start_download`, allowed from Pending only. -/
def FragmentRecord.startDownload (r : FragmentRecord) : DownloadResult FragmentRecord :=
  if r.state ≠ .pending then
    let state := r.state.debug
    .error (.fragment s!"非法状态转换: {state} -> Downloading")
  else .ok { r with state := .downloading }

/-- `FragmentRecord::complete_download_fast`, allowed from Downloading only. -/
def FragmentRecord.completeDownloadFast (r : FragmentRecord) (downloaded duration : ℕ) :
    DownloadResult FragmentRecord :=
  if r.state ≠ .downloading then
    let state := r.state.debug
    .error (.fragment s!"非法状态转换: {state} -> Done(fast)")
  else .ok { r with
    info := { r.info with downloaded := downloaded }
    lastDuration := some duration
    state := .done }

/-- `FragmentRecord::force_fail`. -/
def FragmentRecord.forceFail (r : FragmentRecord) : FragmentRecord := { r with state := .failed }

/-- A started record was Pending, and only its state changed. -/
theorem FragmentRecord.startDownload_ok {r r' : FragmentRecord} :
    r.startDownload = .ok r' ↔ r.state = .pending ∧ r' = { r with state := .downloading } := by
  unfold startDownload
  by_cases h : r.state = .pending
  · simp [h, eq_comm]
  · simp [h]

/-- A completed record was Downloading; it is Done with the reported length. -/
theorem FragmentRecord.completeDownloadFast_ok {r r' : FragmentRecord} {downloaded duration : ℕ} :
    r.completeDownloadFast downloaded duration = .ok r' ↔
      r.state = .downloading ∧ r' = { r with
        info := { r.info with downloaded := downloaded }
        lastDuration := some duration
        state := .done } := by
  unfold completeDownloadFast
  by_cases h : r.state = .downloading
  · simp [h, eq_comm]
  · simp [h]

end Tachyon
