import Tachyon.Core.Error
import Tachyon.Core.Types

/-!
# The configuration and its checks

`DownloadConfig`, `ConnectionConfig`, `SchedulerConfig` and `AppConfig` with all their fields, their
defaults, and the `validate` of each. A check fails with the first value that is out of range;
what passes is in range throughout.
-/

namespace Tachyon

/-- `MAX_CONCURRENT_FRAGMENTS_LIMIT` -/
def maxConcurrentFragmentsLimit : ℕ := 256

/-- `MAX_RETRIES_LIMIT` -/
def maxRetriesLimit : ℕ := 100

/-- `REQUEST_TIMEOUT_SECS_LIMIT` -/
def requestTimeoutSecsLimit : ℕ := 3600

/-- `CONNECT_TIMEOUT_SECS_LIMIT` -/
def connectTimeoutSecsLimit : ℕ := 300

/-- `PAUSE_TIMEOUT_SECS_LIMIT` -/
def pauseTimeoutSecsLimit : ℕ := 86400

/-- `MAX_CONNECTIONS_PER_HOST_LIMIT` -/
def maxConnectionsPerHostLimit : ℕ := 128

/-- `MAX_GLOBAL_CONNECTIONS_LIMIT` -/
def maxGlobalConnectionsLimit : ℕ := 4096

/-- `MAX_CONCURRENT_TASKS_LIMIT` -/
def maxConcurrentTasksLimit : ℕ := 100

/-- `DownloadConfig`, with the fields that a download does not read. The headers are listed as
the map gives them. -/
structure DownloadSettings extends DownloadConfig where
  requestTimeoutSecs : ℕ
  connectTimeoutSecs : ℕ
  userAgent : String
  headers : List (String × String)
  pauseTimeoutSecs : ℕ
  authorizedDirs : List String
  rateLimitBytesPerSec : Option ℕ

/-- `DownloadConfig::default`, for the directory it finds. -/
def DownloadSettings.default (downloadDir : String) : DownloadSettings where
  toDownloadConfig := .default downloadDir
  requestTimeoutSecs := 30
  connectTimeoutSecs := 10
  userAgent := "Tachyon/0.1.0"
  headers := []
  pauseTimeoutSecs := 300
  authorizedDirs := [downloadDir]
  rateLimitBytesPerSec := none

/-- `ConnectionConfig` -/
structure ConnectionConfig where
  maxConnectionsPerHost : ℕ
  maxGlobalConnections : ℕ
  keepAliveTimeoutSecs : ℕ
  connectTimeoutSecs : ℕ
  enableHttp2 : Bool
  enableQuic : Bool

/-- `ConnectionConfig::default` -/
def ConnectionConfig.default : ConnectionConfig where
  maxConnectionsPerHost := 16
  maxGlobalConnections := 256
  keepAliveTimeoutSecs := 30
  connectTimeoutSecs := 10
  enableHttp2 := true
  enableQuic := false

/-- `SchedulerConfig`, with the fields planning does not read. `ewmaAlpha` is an `f64`, by its
bits. -/
structure SchedulerSettings extends SchedulerConfig where
  samplingIntervalSecs : ℕ
  ewmaAlpha : UInt64

/-- `SchedulerConfig::default`. The smoothing factor is 0.3. -/
def SchedulerSettings.default : SchedulerSettings where
  toSchedulerConfig := .default
  samplingIntervalSecs := 60
  ewmaAlpha := 0x3FD3333333333333

/-- `(0.0..=1.0).contains(..)` on the bits of an `f64`: the numbers that are not negative are
ordered as their bits, with those of no number above them, and -0.0 is as large as 0.0. -/
def isUnit (bits : UInt64) : Bool := bits ≤ 0x3FF0000000000000 || bits == 0x8000000000000000

/-- `AppConfig` -/
structure AppConfig where
  maxConcurrentTasks : ℕ
  download : DownloadSettings
  connection : ConnectionConfig
  scheduler : SchedulerSettings

/-- `AppConfig::default`, for the directory `DownloadConfig::default` finds. -/
def AppConfig.default (downloadDir : String) : AppConfig where
  maxConcurrentTasks := 5
  download := .default downloadDir
  connection := .default
  scheduler := .default

/-! ### The checks -/

/-- One check of a `validate`. -/
def refuseIf (outOfRange : Bool) (message : String) : DownloadResult Unit :=
  if outOfRange then .error (.config message) else .ok ()

/-- `DownloadConfig::validate` -/
def DownloadSettings.validate (config : DownloadSettings) : DownloadResult Unit := do
  refuseIf (config.maxConcurrentFragments = 0) "max_concurrent_fragments 必须 >= 1"
  refuseIf (config.maxConcurrentFragments > maxConcurrentFragmentsLimit)
    s!"max_concurrent_fragments 不能超过 {maxConcurrentFragmentsLimit}"
  refuseIf (config.maxRetries > maxRetriesLimit) s!"max_retries 不能超过 {maxRetriesLimit}"
  refuseIf (config.requestTimeoutSecs = 0) "request_timeout_secs 必须 >= 1"
  refuseIf (config.requestTimeoutSecs > requestTimeoutSecsLimit)
    s!"request_timeout_secs 不能超过 {requestTimeoutSecsLimit}"
  refuseIf (config.connectTimeoutSecs = 0) "connect_timeout_secs 必须 >= 1"
  refuseIf (config.connectTimeoutSecs > connectTimeoutSecsLimit)
    s!"connect_timeout_secs 不能超过 {connectTimeoutSecsLimit}"
  refuseIf config.downloadDir.isEmpty "download_dir 不能为空"
  refuseIf (config.pauseTimeoutSecs = 0) "pause_timeout_secs 必须 >= 1"
  refuseIf (config.pauseTimeoutSecs > pauseTimeoutSecsLimit)
    s!"pause_timeout_secs 不能超过 {pauseTimeoutSecsLimit} (24h)"
  refuseIf (config.rateLimitBytesPerSec = some 0)
    "rate_limit_bytes_per_sec 不能为 0,使用 None 表示不限速"
  refuseIf (config.maxFullStreamBytes = 0) "max_full_stream_bytes 必须 >= 1"
  refuseIf config.userAgent.isEmpty "user_agent 不能为空"
  refuseIf config.authorizedDirs.isEmpty "authorized_dirs 不能为空"

/-- `ConnectionConfig::validate` -/
def ConnectionConfig.validate (config : ConnectionConfig) : DownloadResult Unit := do
  refuseIf (config.maxConnectionsPerHost = 0) "max_connections_per_host 必须 >= 1"
  refuseIf (config.maxConnectionsPerHost > maxConnectionsPerHostLimit)
    s!"max_connections_per_host 不能超过 {maxConnectionsPerHostLimit}"
  refuseIf (config.maxGlobalConnections = 0) "max_global_connections 必须 >= 1"
  refuseIf (config.maxGlobalConnections > maxGlobalConnectionsLimit)
    s!"max_global_connections 不能超过 {maxGlobalConnectionsLimit}"

/-- `SchedulerConfig::validate` -/
def SchedulerSettings.validate (config : SchedulerSettings) : DownloadResult Unit := do
  refuseIf (config.minFragmentSize = 0) "min_fragment_size 必须 >= 1"
  refuseIf (config.maxFragmentSize = 0) "max_fragment_size 必须 >= 1"
  refuseIf (config.minFragmentSize > config.maxFragmentSize)
    "min_fragment_size 不能大于 max_fragment_size"
  refuseIf (!isUnit config.ewmaAlpha) "ewma_alpha 必须在 0.0 ~ 1.0 之间"
  refuseIf (config.defaultTargetFragments = 0) "default_target_fragments 必须 >= 1"
  refuseIf (config.samplingIntervalSecs = 0) "sampling_interval_secs 必须 >= 1"

/-- `AppConfig::validate` -/
def AppConfig.validate (config : AppConfig) : DownloadResult Unit := do
  refuseIf (config.maxConcurrentTasks = 0) "max_concurrent_tasks 必须 >= 1"
  refuseIf (config.maxConcurrentTasks > maxConcurrentTasksLimit)
    s!"max_concurrent_tasks 不能超过 {maxConcurrentTasksLimit}"
  config.download.validate
  config.connection.validate
  config.scheduler.validate

/-! ### What passes -/

/-- The values of a download's configuration are in range. -/
structure DownloadSettings.InRange (config : DownloadSettings) : Prop where
  fragments : 1 ≤ config.maxConcurrentFragments ∧ config.maxConcurrentFragments ≤ 256
  retries : config.maxRetries ≤ 100
  requestTimeout : 1 ≤ config.requestTimeoutSecs ∧ config.requestTimeoutSecs ≤ 3600
  connectTimeout : 1 ≤ config.connectTimeoutSecs ∧ config.connectTimeoutSecs ≤ 300
  pauseTimeout : 1 ≤ config.pauseTimeoutSecs ∧ config.pauseTimeoutSecs ≤ 86400
  rateLimit : config.rateLimitBytesPerSec ≠ some 0
  fullStream : config.maxFullStreamBytes ≠ 0
  downloadDir : config.downloadDir ≠ ""
  userAgent : config.userAgent ≠ ""
  authorizedDirs : config.authorizedDirs ≠ []

/-- The values of a connection pool's configuration are in range. -/
structure ConnectionConfig.InRange (config : ConnectionConfig) : Prop where
  perHost : 1 ≤ config.maxConnectionsPerHost ∧ config.maxConnectionsPerHost ≤ 128
  global : 1 ≤ config.maxGlobalConnections ∧ config.maxGlobalConnections ≤ 4096

/-- The values of a scheduler's configuration are in range. -/
structure SchedulerSettings.InRange (config : SchedulerSettings) : Prop where
  sizes : 1 ≤ config.minFragmentSize ∧ config.minFragmentSize ≤ config.maxFragmentSize
  alpha : isUnit config.ewmaAlpha = true
  target : 1 ≤ config.defaultTargetFragments
  sampling : 1 ≤ config.samplingIntervalSecs

/-- The values of a configuration are in range. -/
structure AppConfig.InRange (config : AppConfig) : Prop where
  tasks : 1 ≤ config.maxConcurrentTasks ∧ config.maxConcurrentTasks ≤ 100
  download : config.download.InRange
  connection : config.connection.InRange
  scheduler : config.scheduler.InRange

theorem refuseIf_eq_ok {outOfRange : Bool} {message : String} :
    refuseIf outOfRange message = .ok () ↔ outOfRange = false := by
  cases outOfRange <;> simp [refuseIf]

/-- Both of two checks pass. -/
theorem then_eq_ok {ε : Type} {first rest : Except ε Unit} :
    (first >>= fun _ => rest) = .ok () ↔ first = .ok () ∧ rest = .ok () := by
  cases first <;> simp [bind, Except.bind]

theorem DownloadSettings.validate_eq_ok {config : DownloadSettings} :
    config.validate = .ok () ↔ config.InRange := by
  simp only [validate, then_eq_ok, refuseIf_eq_ok, decide_eq_false_iff_not, gt_iff_lt, Nat.not_lt,
    String.isEmpty_eq_false_iff, List.isEmpty_eq_false_iff, maxConcurrentFragmentsLimit,
    maxRetriesLimit, requestTimeoutSecsLimit, connectTimeoutSecsLimit, pauseTimeoutSecsLimit]
  constructor
  · rintro ⟨hsome, hfragments, hretries, hrequest, hrequest', hconnect, hconnect', hdir, hpause,
      hpause', hrate, hfull, hagent, hdirs⟩
    exact ⟨by omega, by omega, by omega, by omega, by omega, hrate, hfull, hdir, hagent, hdirs⟩
  · rintro ⟨hfragments, hretries, hrequest, hconnect, hpause, hrate, hfull, hdir, hagent, hdirs⟩
    exact ⟨by omega, by omega, by omega, by omega, by omega, by omega, by omega, hdir, by omega,
      by omega, hrate, hfull, hagent, hdirs⟩

theorem ConnectionConfig.validate_eq_ok {config : ConnectionConfig} :
    config.validate = .ok () ↔ config.InRange := by
  simp only [validate, then_eq_ok, refuseIf_eq_ok, decide_eq_false_iff_not, gt_iff_lt,
    Nat.not_lt, maxConnectionsPerHostLimit, maxGlobalConnectionsLimit]
  constructor
  · rintro ⟨hhost, hhost', hglobal, hglobal'⟩
    exact ⟨by omega, by omega⟩
  · rintro ⟨hhost, hglobal⟩
    omega

theorem SchedulerSettings.validate_eq_ok {config : SchedulerSettings} :
    config.validate = .ok () ↔ config.InRange := by
  simp only [validate, then_eq_ok, refuseIf_eq_ok, decide_eq_false_iff_not, gt_iff_lt,
    Nat.not_lt, Bool.not_eq_false']
  constructor
  · rintro ⟨hmin, hmax, hsizes, halpha, htarget, hsampling⟩
    exact ⟨by omega, halpha, by omega, by omega⟩
  · rintro ⟨hsizes, halpha, htarget, hsampling⟩
    exact ⟨by omega, by omega, by omega, halpha, by omega, by omega⟩

theorem AppConfig.validate_eq_ok {config : AppConfig} :
    config.validate = .ok () ↔ config.InRange := by
  simp only [validate, then_eq_ok, refuseIf_eq_ok, decide_eq_false_iff_not, gt_iff_lt,
    Nat.not_lt, maxConcurrentTasksLimit, DownloadSettings.validate_eq_ok,
    ConnectionConfig.validate_eq_ok, SchedulerSettings.validate_eq_ok]
  constructor
  · rintro ⟨htasks, htasks', hdownload, hconnection, hscheduler⟩
    exact ⟨by omega, hdownload, hconnection, hscheduler⟩
  · rintro ⟨htasks, hdownload, hconnection, hscheduler⟩
    exact ⟨by omega, by omega, hdownload, hconnection, hscheduler⟩

theorem DownloadSettings.inRange_default {downloadDir : String} (hdir : downloadDir ≠ "") :
    (DownloadSettings.default downloadDir).InRange := by
  constructor <;>
    simp [DownloadSettings.default, DownloadConfig.default, defaultMaxFullStreamBytes, hdir]

theorem ConnectionConfig.inRange_default : ConnectionConfig.default.InRange := by
  constructor <;> decide

theorem SchedulerSettings.inRange_default : SchedulerSettings.default.InRange := by
  constructor <;> decide

/-- Every default passes its own check. -/
theorem AppConfig.inRange_default {downloadDir : String} (hdir : downloadDir ≠ "") :
    (AppConfig.default downloadDir).InRange where
  tasks := by simp [AppConfig.default]
  download := DownloadSettings.inRange_default hdir
  connection := ConnectionConfig.inRange_default
  scheduler := SchedulerSettings.inRange_default

end Tachyon
