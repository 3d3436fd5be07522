import Tachyon.Core.FileName
import Tachyon.Core.Types
import Tachyon.Library.Resumption
import Tachyon.Library.ShortReads
import Tachyon.Protocol.UrlChecks

/-!
# The FTP client

A call of the `Protocol` trait connects, logs in, does its work and disconnects. Each of these
steps takes the lock of the connection state, which all clones of a client share; what a call does
between two of them is its own. The calls are programs over the steps, so that they can be run
alone or side by side.
-/

namespace Tachyon

open Resumption

/-- `FtpDataStream`. -/
abbrev FtpDataStream := Feed UInt8 String

/-- What the network answers: the resolver, and the server on a control connection. -/
structure FtpServer where
  resolve : String → Except String (List IpAddr)
  dial : String → Except String Unit
  login : String → String → Except String Unit
  size : String → Except String UInt64
  transferType : Except String Unit
  resumeTransfer : ℕ → Except String Unit
  /-- The data connection of `RETR`, after `REST` with the offset. -/
  retr : String → ℕ → Except String FtpDataStream
  /-- The reply once the data connection is closed, with what has not been read of it. -/
  finalize : Bytes → Except String Unit

namespace FtpServer

variable (server : FtpServer)

/-- The address that `FtpClient::connect` dials: never a name, which could resolve anew. -/
def address (host : String) (port : ℕ) : DownloadResult String := do
  let normalizedHost := trimEndMatches host '.'
  if eqIgnoreAsciiCase normalizedHost "localhost" then
    throw (.protocol "FTP 不允许访问 localhost")
  let stripped := trimEndMatches (String.ofList (normalizedHost.toList.dropWhile (· == '['))) ']'
  match parseIpAddr stripped with
  | some ip =>
    (rejectForbiddenIp ip).mapError fun e => .protocol e.display
    let shown := ip.display
    pure s!"{shown}:{port}"
  | none =>
    let addrs ← (server.resolve s!"{stripped}:{port}").mapError fun e =>
      .network s!"FTP DNS 解析失败: {e}"
    for ip in addrs do
      (rejectForbiddenIp ip).mapError fun e =>
        let shown := e.display
        .protocol s!"FTP DNS Rebinding 拦截: {shown}"
    match addrs with
    | [] => throw (.network "FTP DNS 解析无结果")
    | ip :: _ =>
      let shown := ip.display
      pure s!"{shown}:{port}"

/-- `FtpClient::connect`, before it takes the lock. -/
def connect (host : String) (port : ℕ) : DownloadResult Unit := do
  let addr ← server.address host port
  (server.dial addr).mapError fun e => .network s!"FTP 连接失败: {e}"

/-- The reply to USER and PASS in `FtpClient::login`. -/
def authenticate (user pass : String) : DownloadResult Unit :=
  (server.login user pass).mapError fun e => .protocol s!"FTP 登录失败: {e}"

/-- `FtpClient::file_size`, on a connection. -/
def fileSize (path : String) : DownloadResult UInt64 :=
  (server.size path).mapError fun e => .protocol s!"获取文件大小失败: {e}"

/-- The replies that open a data connection; `failed` is the text for a refused RETR. -/
def openRetr (failed path : String) (offset : ℕ) : DownloadResult FtpDataStream := do
  if offset > 0 then
    (server.resumeTransfer offset).mapError fun e => .protocol s!"REST 命令失败: {e}"
  (server.retr path offset).mapError fun e => .protocol s!"{failed}: {e}"

def binary : DownloadResult Unit :=
  server.transferType.mapError fun e => .protocol s!"设置传输模式失败: {e}"

/-- `FtpClient::finalize_retr_stream`, on a connection. -/
def finalizeRetrStream (data : FtpDataStream) : DownloadResult Unit :=
  (server.finalize data.left).mapError fun e => .protocol s!"完成 FTP 传输失败: {e}"

def readError (e : String) : DownloadError := .network s!"读取 FTP 数据流失败: {e}"

/-- `MAX_FULL_DOWNLOAD_SIZE`. -/
def maxFullDownloadSize : ℕ := 64 * 1024 * 1024

/-- `FtpClient::retrieve`, on a connection. -/
def retrieve (path : String) : DownloadResult Bytes := do
  server.binary
  let data ← server.openRetr "下载文件失败" path 0
  let (buf, rest) ← (data.collect 8192 maxFullDownloadSize []).mapError readError
  match buf with
  | none =>
    let limit := maxFullDownloadSize / (1024 * 1024)
    throw (.protocol s!"FTP 文件过大: 超过单次全量下载上限 {limit} MB, 请使用分片下载")
  | some buf =>
    server.finalizeRetrStream rest
    pure buf

/-- `FtpClient::retrieve_range`, on a connection. -/
def retrieveRange (path : String) (start end_ : UInt64) : DownloadResult Bytes := do
  server.binary
  if end_ < start then throw (.protocol "FTP Range 无效: end < start")
  let need := end_ - start + 1
  let data ← server.openRetr "下载文件失败" path start.toNat
  let (buf, rest) ← (data.fill need.toNat []).mapError readError
  server.finalizeRetrStream rest
  pure buf

/-- `FtpClient::open_data_stream`, on a connection. -/
def openDataStream (path : String) (start : Option UInt64) : DownloadResult FtpDataStream := do
  server.binary
  server.openRetr "打开 FTP 数据流失败" path (start.getD 0).toNat

end FtpServer

/-! ### The shared connection -/

/-- `FtpState`. -/
inductive FtpState where
  | disconnected
  | connected
  | authenticated
  deriving DecidableEq, Repr

/-- `ConnectionState`. A control connection is known by the call that opened it. -/
structure ConnectionState where
  state : FtpState
  stream : Option ℕ
  host : String
  port : ℕ
  username : Option String
  deriving DecidableEq, Repr

/-- `FtpClient::new`. -/
def ConnectionState.new : ConnectionState := ⟨.disconnected, none, "", 0, none⟩

/-- `FtpClient::require_stream`. -/
def ConnectionState.requireStream (guard : ConnectionState) : DownloadResult ℕ :=
  match guard.stream with
  | none => .error (.protocol "FTP 未连接,无法执行命令 -- 请先调用 connect()")
  | some conn => .ok conn

/-- The steps of a call that take the lock. -/
inductive FtpOp where
  | connect (host : String) (port : ℕ)
  | login (user pass : String)
  | fileSize (path : String)
  | retrieve (path : String)
  | retrieveRange (path : String) (start end_ : UInt64)
  | openDataStream (path : String) (start : Option UInt64)
  | finalizeRetrStream (data : FtpDataStream)
  | disconnect

namespace FtpOp

/-- What the methods of `FtpClient` return. -/
def Ans : FtpOp → Type
  | connect .. | login .. | finalizeRetrStream _ => DownloadResult Unit
  | fileSize _ => DownloadResult UInt64
  | retrieve _ | retrieveRange .. => DownloadResult Bytes
  | openDataStream .. => DownloadResult FtpDataStream
  | disconnect => Unit

/-- The methods of `FtpClient`, for the call `c`. -/
def handle (server : ℕ → FtpServer) (c : ℕ) :
    (op : FtpOp) → ConnectionState → op.Ans × ConnectionState
  | connect host port, guard =>
    match (server c).connect host port with
    | .error e => (.error e, guard)
    | .ok () => (.ok (),
        { guard with stream := some c, host := host, port := port, state := .connected })
  | login user pass, guard =>
    if guard.state ≠ .connected then
      (.error (.protocol "FTP 未连接,无法登录 -- 请先调用 connect()"), guard)
    else
      match guard.stream with
      | none => (.error (.protocol "FTP 流不可用"), guard)
      | some conn =>
        match (server conn).authenticate user pass with
        | .error e => (.error e, guard)
        | .ok () => (.ok (), { guard with username := some user, state := .authenticated })
  | fileSize path, guard => (guard.requireStream >>= fun conn => (server conn).fileSize path, guard)
  | retrieve path, guard => (guard.requireStream >>= fun conn => (server conn).retrieve path, guard)
  | retrieveRange path start end_, guard =>
    (guard.requireStream >>= fun conn => (server conn).retrieveRange path start end_, guard)
  | openDataStream path start, guard =>
    (guard.requireStream >>= fun conn => (server conn).openDataStream path start, guard)
  | finalizeRetrStream data, guard =>
    match guard.stream with
    | none => (.error (.protocol "FTP 流不可用"), guard)
    | some conn => ((server conn).finalizeRetrStream data, guard)
  | disconnect, _ => ((), .new)

end FtpOp

/-! ### The calls of the `Protocol` trait -/

section

variable (text : Ipv6Addr → String) (parse : String → Except String Url) {α : Type}

/-- What every call does first: it parses the URL, connects and logs in. -/
def ftpSession (url : String) (body : FtpUrl → Prog FtpOp.Ans (DownloadResult α)) :
    Prog FtpOp.Ans (DownloadResult α) :=
  match parseFtpUrl text (parse url) with
  | .error e => .done (.error e)
  | .ok info =>
    .call (.connect info.host info.port) fun
      | .error e => .done (.error e)
      | .ok () =>
        .call (.login info.username info.password) fun
          | .error e => .call .disconnect fun () => .done (.error e)
          | .ok () => body info

/-- `FtpClient::extract_filename_from_path`. -/
def extractFilenameFromPath (path : String) : String :=
  let last := String.ofList (path.toList.rtakeWhile (· ≠ '/'))
  if last.isEmpty then "download" else last

/-- `FtpClient::probe`. -/
def ftpProbe (url : String) : Prog FtpOp.Ans (DownloadResult FileMetadata) :=
  ftpSession text parse url fun info =>
    .call (.fileSize info.path) fun (sizeResult : DownloadResult UInt64) =>
      .call .disconnect fun () => .done (sizeResult.map fun size => {
        fileName := extractFilenameFromPath info.path
        fileSize := some size
        contentType := none
        supportsRange := false
        etag := none
        lastModified := none })

/-- `FtpClient::download_full`. -/
def ftpDownloadFull (url : String) : Prog FtpOp.Ans (DownloadResult Bytes) :=
  ftpSession text parse url fun info =>
    .call (.retrieve info.path) fun result => .call .disconnect fun () => .done result

/-- `FtpClient::download_range`. -/
def ftpDownloadRange (url : String) (start end_ : UInt64) : Prog FtpOp.Ans (DownloadResult Bytes) :=
  if start = 0 ∧ end_ = 0 then ftpDownloadFull text parse url
  else ftpSession text parse url fun info =>
    .call (.retrieveRange info.path start end_) fun result =>
      .call .disconnect fun () => .done result

/-- The stream that a data connection is read through, polled a number of times and then dropped:
before its end the guard disconnects, at its end the stream does. -/
def ftpStream : ℕ → FtpDataStream → Prog FtpOp.Ans (List (DownloadResult Bytes))
  | 0, _ => .call .disconnect fun () => .done []
  | polls + 1, data =>
    match data.read (64 * 1024) with
    | .error e => .call (.finalizeRetrStream data) fun _ =>
        .call .disconnect fun () => .done [.error (FtpServer.readError e)]
    | .ok ([], rest) =>
      .call (.finalizeRetrStream rest) fun _ => .call .disconnect fun () => .done []
    | .ok (piece, rest) => ftpStream polls rest >>= fun items => .done (.ok piece :: items)

/-- The stream that a call returns, and what its consumer sees of it. -/
def ftpOpened (start : Option UInt64) (polls : ℕ) (info : FtpUrl) :
    Prog FtpOp.Ans (DownloadResult (List (DownloadResult Bytes))) :=
  .call (.openDataStream info.path start) fun
    | .error e => .call .disconnect fun () => .done (.error e)
    | .ok data => ftpStream polls data >>= fun items => .done (.ok items)

/-- `FtpClient::download_full_stream`. -/
def ftpDownloadFullStream (url : String) (polls : ℕ) :
    Prog FtpOp.Ans (DownloadResult (List (DownloadResult Bytes))) :=
  ftpSession text parse url (ftpOpened none polls)

/-- `FtpClient::download_range_stream`. -/
def ftpDownloadRangeStream (url : String) (start end_ : UInt64) (polls : ℕ) :
    Prog FtpOp.Ans (DownloadResult (List (DownloadResult Bytes))) :=
  if start = 0 ∧ end_ = 0 then ftpDownloadFullStream text parse url polls
  else ftpSession text parse url (ftpOpened (some start) polls)

end

end Tachyon
