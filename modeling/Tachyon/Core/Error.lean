/-!
# Download errors

The errors the crates share, with the texts their callers build, and the retry
classification the fragment loop consults.
-/

namespace Tachyon

/-- The kind of an I/O error, as far as the downloader chooses one itself. -/
inductive ErrorKind where
  | invalidData
  | invalidInput
  | other
  deriving DecidableEq, Repr

/-- `DownloadError`. -/
inductive DownloadError where
  | network (message : String)
  | protocol (message : String)
  | io (kind : ErrorKind) (message : String)
  | fragment (message : String)
  | checksumMismatch (expected actual : String)
  | noExpectedChecksum
  | config (message : String)
  | cancelled
  | taskNotFound (message : String)
  | connectionPoolExhausted
  | timeout (message : String)
  | throttled (retryAfterSecs : Option Nat)
  | forbidden (status : Nat)
  | http (status : Nat) (reason : String)
  | urlParse (message : String)
  | serialization (message : String)
  | other (message : String)
  deriving DecidableEq, Repr

/-- `DownloadError::is_retryable`: cancellation, permission, checksum and
configuration errors end a task, most others may be tried again. -/
def DownloadError.isRetryable : DownloadError → Bool
  | .cancelled | .forbidden _ | .checksumMismatch _ _ | .noExpectedChecksum
  | .taskNotFound _ | .config _ => false
  | .http status _ => status == 429 || status == 408 || status ≥ 500
  | .other _ => false
  | _ => true

/-- `Display` of a `DownloadError`. -/
def DownloadError.display : DownloadError → String
  | .network message => s!"网络错误: {message}"
  | .protocol message => s!"协议错误: {message}"
  | .io _ message => s!"I/O 错误: {message}"
  | .fragment message => s!"分片错误: {message}"
  | .checksumMismatch expected actual => s!"校验失败: 预期 {expected}, 实际 {actual}"
  | .noExpectedChecksum => "校验失败: 已启用校验但没有期望校验摘要"
  | .config message => s!"配置错误: {message}"
  | .cancelled => "任务已取消"
  | .taskNotFound message => s!"任务不存在: {message}"
  | .connectionPoolExhausted => "连接池已耗尽"
  | .timeout message => s!"超时: {message}"
  | .throttled (some secs) => s!"服务端限流: 建议 {secs}s 后重试"
  | .throttled none => "服务端限流"
  | .forbidden status => s!"权限不足(HTTP {status})"
  | .http status reason => s!"HTTP 错误: {status} {reason}"
  | .urlParse message => s!"URL 解析错误: {message}"
  | .serialization message => s!"序列化错误: {message}"
  | .other message => s!"其他错误: {message}"

/-- `DownloadResult`. -/
abbrev DownloadResult (α : Type) := Except DownloadError α

/-- What a sequence of two steps that can fail went through. -/
theorem bind_eq_ok {ε α γ : Type} {x : Except ε α} {f : α → Except ε γ} {c : γ} :
    x >>= f = .ok c ↔ ∃ a, x = .ok a ∧ f a = .ok c := by
  cases x with
  | error e => simp [bind, Except.bind]
  | ok a => simp [bind, Except.bind]

/-- `AppError`, the error of an application command. -/
inductive AppError where
  | taskNotFound (message : String)
  | taskAlreadyExists (message : String)
  | network (message : String)
  | config (message : String)
  | unsupportedProtocol (message : String)
  | core (error : DownloadError)
  deriving DecidableEq, Repr

end Tachyon
