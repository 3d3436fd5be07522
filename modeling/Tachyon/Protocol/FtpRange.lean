import Tachyon.Protocol.Ftp
import Mathlib.Data.List.TakeDrop

/-!
# Ranges over FTP

FTP has no end offset: a transfer starts where `REST` says and goes on to the end of the file. The
buffered call stops reading at the end of the range; the stream goes on.
-/

namespace Tachyon

open Resumption

/-- A remote file; its size fits a `u64`. -/
structure RemoteFile where
  bytes : Bytes
  length_lt : bytes.length < UInt64.size

/-- The bytes `start..=end` of the file. -/
def RemoteFile.range (file : RemoteFile) (start end_ : UInt64) : Bytes :=
  (file.bytes.drop start.toNat).take (end_.toNat + 1 - start.toNat)

namespace FtpServer

variable (server : FtpServer)

/-- `RETR` sends the file from the offset of `REST` to its end. -/
def Sends (path : String) (file : RemoteFile) : Prop :=
  ∀ offset data, server.retr path offset = .ok data →
    data.left = file.bytes.drop offset ∧ data.fault = none

/-- The server can be reached and lets the user in. -/
structure Admits (info : FtpUrl) : Prop where
  connect : server.connect info.host info.port = .ok ()
  login : server.authenticate info.username info.password = .ok ()

/-- The server takes the commands up to the data connection. -/
structure Grants (path : String) (offset : ℕ) : Prop where
  binary : server.transferType = .ok ()
  rest : 0 < offset → server.resumeTransfer offset = .ok ()
  retr : ∃ data, server.retr path offset = .ok data

end FtpServer

/-- Only the error of a reply is worded anew. -/
theorem mapError_ok_iff {ε ε' α : Type} {reply : Except ε α} {word : ε → ε'} {a : α} :
    reply.mapError word = .ok a ↔ reply = .ok a := by
  cases reply with
  | error e => simp [Except.mapError]
  | ok b => simp [Except.mapError]

/-- What a command and the steps after it went through. -/
theorem command_bind_eq_ok {ε γ : Type} {reply : Except ε Unit} {f : Unit → Except ε γ} {a : γ} :
    reply >>= f = .ok a ↔ reply = .ok () ∧ f () = .ok a := by
  rw [bind_eq_ok]
  exact ⟨fun ⟨(), h⟩ => h, fun h => ⟨(), h⟩⟩

namespace FtpServer

variable {server : FtpServer} {failed path : String} {offset : ℕ} {data : FtpDataStream}
  {file : RemoteFile} {start end_ : UInt64} {buf : Bytes}

theorem admits_iff {info : FtpUrl} : server.Admits info ↔
    server.connect info.host info.port = .ok () ∧
      server.authenticate info.username info.password = .ok () :=
  ⟨fun h => ⟨h.connect, h.login⟩, fun h => ⟨h.1, h.2⟩⟩

theorem openRetr_eq_ok : server.openRetr failed path offset = .ok data ↔
    (0 < offset → server.resumeTransfer offset = .ok ()) ∧ server.retr path offset = .ok data := by
  unfold openRetr
  by_cases hoffset : 0 < offset
  · simp [hoffset, command_bind_eq_ok, mapError_ok_iff]
  · simp [hoffset, mapError_ok_iff]

/-- The replies before the data connection, and what the connection is used for. -/
theorem binary_openRetr_eq_ok {γ : Type} {f : FtpDataStream → DownloadResult γ} {a : γ} :
    (server.binary >>= fun _ => server.openRetr failed path offset >>= f) = .ok a ↔
      server.Grants path offset ∧ ∃ data, server.retr path offset = .ok data ∧ f data = .ok a := by
  rw [command_bind_eq_ok, bind_eq_ok]
  simp only [openRetr_eq_ok, binary, mapError_ok_iff]
  constructor
  · rintro ⟨hbinary, data, ⟨hrest, hretr⟩, hf⟩
    exact ⟨⟨hbinary, hrest, data, hretr⟩, data, hretr, hf⟩
  · rintro ⟨hgrants, data, hretr, hf⟩
    exact ⟨hgrants.binary, data, ⟨hgrants.rest, hretr⟩, hf⟩

theorem openDataStream_eq_ok {start : Option UInt64} :
    server.openDataStream path start = .ok data ↔
      server.Grants path (start.getD 0).toNat ∧
        server.retr path (start.getD 0).toNat = .ok data := by
  rw [openDataStream, command_bind_eq_ok, openRetr_eq_ok, binary, mapError_ok_iff]
  constructor
  · rintro ⟨hbinary, hrest, hretr⟩
    exact ⟨⟨hbinary, hrest, data, hretr⟩, hretr⟩
  · rintro ⟨hgrants, hretr⟩
    exact ⟨hgrants.binary, hgrants.rest, hretr⟩

/-- The buffered range is the range, if the reply to closing the data connection where the range
ends is good. -/
theorem retrieveRange_eq_ok (hsends : server.Sends path file) (hle : start ≤ end_)
    (hend : end_.toNat < file.bytes.length) : server.retrieveRange path start end_ = .ok buf ↔
      server.Grants path start.toNat ∧
        server.finalize (file.bytes.drop (end_.toNat + 1)) = .ok () ∧
        buf = file.range start end_ := by
  have hlt := file.length_lt
  have hle' := UInt64.le_iff_toNat_le.mp hle
  have hneed : (end_ - start + 1).toNat = end_.toNat + 1 - start.toNat := by
    rw [UInt64.toNat_add, UInt64.toNat_sub_of_le _ _ hle, UInt64.toNat_one, Nat.mod_eq_of_lt]
    · omega
    · simp only [UInt64.size] at hlt
      omega
  have hnot : ¬end_ < start := UInt64.not_lt.mpr hle
  simp only [retrieveRange, if_neg hnot]
  rw [binary_openRetr_eq_ok]
  refine and_congr_right fun hgrants => ?_
  obtain ⟨data, hretr⟩ := hgrants.retr
  obtain ⟨hleft, hfault⟩ := hsends _ _ hretr
  have henough : (end_ - start + 1).toNat ≤ ([] : Bytes).length + data.left.length := by
    rw [hneed, hleft, List.length_nil, List.length_drop]
    omega
  obtain ⟨rest, hfill, hrest, -⟩ := Feed.fill_of_le (Nat.zero_le _) henough
  have hdrop : rest.left = file.bytes.drop (end_.toNat + 1) := by
    rw [hrest, hleft, hneed, List.length_nil, List.drop_drop]
    congr 1
    omega
  have hbuf : [] ++ data.left.take ((end_ - start + 1).toNat - 0) = file.range start end_ := by
    rw [hleft, hneed]
    rfl
  rw [List.length_nil, hbuf] at hfill
  simp only [hretr, Except.ok.injEq, exists_eq_left', hfill]
  rw [bind_eq_ok]
  simp only [mapError_ok_iff, Except.ok.injEq, exists_eq_left', command_bind_eq_ok,
    finalizeRetrStream, hdrop]
  exact and_congr_right fun _ => ⟨fun h => (Except.ok.inj h).symm, fun h => by rw [h]; rfl⟩

/-- The whole file is buffered if it is small enough. -/
theorem retrieve_eq_ok (hsends : server.Sends path file) : server.retrieve path = .ok buf ↔
    server.Grants path 0 ∧ file.bytes.length ≤ maxFullDownloadSize ∧ server.finalize [] = .ok () ∧
      buf = file.bytes := by
  rw [retrieve, binary_openRetr_eq_ok]
  refine and_congr_right fun hgrants => ?_
  obtain ⟨data, hretr⟩ := hgrants.retr
  obtain ⟨hleft, hfault⟩ := hsends _ _ hretr
  rw [List.drop_zero] at hleft
  have hcap : 0 < 8192 := by omega
  have hgot : ([] : Bytes).length ≤ maxFullDownloadSize := Nat.zero_le _
  obtain ⟨rest, -, hcollect, hrest⟩ := Feed.collect_eq hcap hfault hgot
  simp only [List.length_nil, Nat.zero_add, List.nil_append, hleft] at hcollect hrest
  by_cases hsmall : file.bytes.length ≤ maxFullDownloadSize
  · rw [if_pos hsmall] at hcollect
    simp only [hretr, Except.ok.injEq, exists_eq_left', hcollect]
    rw [bind_eq_ok]
    simp only [mapError_ok_iff, Except.ok.injEq, exists_eq_left', command_bind_eq_ok,
      finalizeRetrStream, hrest hsmall, hsmall, true_and]
    exact and_congr_right fun _ => ⟨fun h => (Except.ok.inj h).symm, fun h => by rw [h]; rfl⟩
  · rw [if_neg hsmall] at hcollect
    simp only [hretr, Except.ok.injEq, exists_eq_left', hcollect]
    rw [bind_eq_ok]
    simp only [mapError_ok_iff, Except.ok.injEq, exists_eq_left', hsmall, false_and, iff_false]
    exact fun h => nomatch h

end FtpServer

/-- The connection of a call that has logged in. -/
def ConnectionState.ofSession (c : ℕ) (info : FtpUrl) : ConnectionState :=
  ⟨.authenticated, some c, info.host, info.port, some info.username⟩

section

variable {text : Ipv6Addr → String} {parse : String → Except String Url} {url : String}
  {server : ℕ → FtpServer} {c : ℕ} {guard : ConnectionState} {α ε ε' : Type}

/-- A call succeeds when the URL is good, the server lets it in and the rest of it succeeds. -/
theorem exec_ftpSession {body : FtpUrl → Prog FtpOp.Ans (DownloadResult α)} {a : α} :
    ((ftpSession text parse url body).exec (FtpOp.handle server c) guard).1 = .ok a ↔
      ∃ info, parseFtpUrl text (parse url) = .ok info ∧
        (server c).Admits info ∧
        ((body info).exec (FtpOp.handle server c) (.ofSession c info)).1 = .ok a := by
  cases hinfo : parseFtpUrl text (parse url) with
  | error e => simp [ftpSession, hinfo, Prog.exec]
  | ok info =>
    cases hconnect : (server c).connect info.host info.port with
    | error e =>
      simp [ftpSession, hinfo, Prog.exec, FtpOp.handle, FtpServer.admits_iff, hconnect]
    | ok _ =>
      cases hlogin : (server c).authenticate info.username info.password with
      | error e =>
        simp [ftpSession, hinfo, Prog.exec, FtpOp.handle, FtpServer.admits_iff, hconnect, hlogin]
      | ok _ =>
        simp [ftpSession, hinfo, Prog.exec, FtpOp.handle, FtpServer.admits_iff, hconnect, hlogin,
          ConnectionState.ofSession]

/-- What the consumer sees of a stream. -/
theorem exec_ftpStream {polls : ℕ} {data : FtpDataStream} :
    ((ftpStream polls data).exec (FtpOp.handle server c) guard).1 =
      (Feed.pieces (64 * 1024) polls data).map (·.mapError FtpServer.readError) := by
  induction polls generalizing data guard with
  | zero => rfl
  | succ polls ih =>
    cases hread : data.read (64 * 1024) with
    | error e => simp [ftpStream, Feed.pieces, hread, Prog.exec, Except.mapError]
    | ok result =>
      obtain ⟨piece, rest⟩ := result
      cases piece with
      | nil => simp [ftpStream, Feed.pieces, hread, Prog.exec]
      | cons x xs =>
        simp [ftpStream, Feed.pieces, hread, Prog.exec, Prog.exec_bind, ih, Except.mapError]

/-- What the consumer sees of the stream that a call returns. -/
theorem exec_ftpOpened {polls : ℕ} {start : Option UInt64} {info : FtpUrl}
    {items : List (DownloadResult Bytes)} :
    ((ftpOpened start polls info).exec (FtpOp.handle server c) (.ofSession c info)).1 = .ok items ↔
      (server c).Grants info.path (start.getD 0).toNat ∧
        ∃ data, (server c).retr info.path (start.getD 0).toNat = .ok data ∧
          items = (Feed.pieces (64 * 1024) polls data).map (·.mapError FtpServer.readError) := by
  cases hopen : (server c).openDataStream info.path start with
  | error e =>
    have hanswer : FtpOp.handle server c (.openDataStream info.path start) (.ofSession c info) =
        (.error e, .ofSession c info) := Prod.ext hopen rfl
    rw [ftpOpened, Prog.exec, hanswer]
    constructor
    · intro h
      cases h
    · rintro ⟨hgrants, data, hretr, -⟩
      rw [FtpServer.openDataStream_eq_ok.mpr ⟨hgrants, hretr⟩] at hopen
      cases hopen
  | ok data =>
    obtain ⟨hgrants, hretr⟩ := FtpServer.openDataStream_eq_ok.mp hopen
    have hanswer : FtpOp.handle server c (.openDataStream info.path start) (.ofSession c info) =
        (.ok data, .ofSession c info) := Prod.ext hopen rfl
    rw [ftpOpened, Prog.exec, hanswer]
    simp only [Prog.exec_bind, hretr, Except.ok.injEq, exists_eq_left', hgrants, true_and,
      exec_ftpStream]
    exact ⟨fun h => (Except.ok.inj h).symm, fun h => by rw [h]; rfl⟩

/-- A buffered range: a byte at the front of the file is cut out of nothing. -/
theorem exec_ftpDownloadRange {file : RemoteFile} {start end_ : UInt64} {buf : Bytes}
    (hsends : ∀ info, parseFtpUrl text (parse url) = .ok info → (server c).Sends info.path file)
    (hle : start ≤ end_) (hend : end_.toNat < file.bytes.length) :
    ((ftpDownloadRange text parse url start end_).exec (FtpOp.handle server c) guard).1 = .ok buf ↔
      ∃ info, parseFtpUrl text (parse url) = .ok info ∧ (server c).Admits info ∧
        (server c).Grants info.path start.toNat ∧
        if start = 0 ∧ end_ = 0 then
          file.bytes.length ≤ FtpServer.maxFullDownloadSize ∧ (server c).finalize [] = .ok () ∧
            buf = file.bytes
        else
          (server c).finalize (file.bytes.drop (end_.toNat + 1)) = .ok () ∧
            buf = file.range start end_ := by
  unfold ftpDownloadRange
  by_cases hzero : start = 0 ∧ end_ = 0
  · rw [if_pos hzero, ftpDownloadFull, exec_ftpSession]
    refine exists_congr fun info => and_congr_right fun hinfo => and_congr_right fun _ => ?_
    rw [if_pos hzero, hzero.1]
    exact FtpServer.retrieve_eq_ok (hsends info hinfo)
  · rw [if_neg hzero, exec_ftpSession]
    refine exists_congr fun info => and_congr_right fun hinfo => and_congr_right fun _ => ?_
    rw [if_neg hzero]
    exact FtpServer.retrieveRange_eq_ok (hsends info hinfo) hle hend

/-- A streamed range: its end plays no part. -/
theorem exec_ftpDownloadRangeStream {start end_ : UInt64} {polls : ℕ}
    {items : List (DownloadResult Bytes)} :
    ((ftpDownloadRangeStream text parse url start end_ polls).exec
        (FtpOp.handle server c) guard).1 = .ok items ↔
      ∃ info, parseFtpUrl text (parse url) = .ok info ∧ (server c).Admits info ∧
        (server c).Grants info.path start.toNat ∧
        ∃ data, (server c).retr info.path start.toNat = .ok data ∧
          items = (Feed.pieces (64 * 1024) polls data).map (·.mapError FtpServer.readError) := by
  unfold ftpDownloadRangeStream
  by_cases hzero : start = 0 ∧ end_ = 0
  · rw [if_pos hzero, ftpDownloadFullStream, exec_ftpSession, hzero.1]
    exact exists_congr fun info => and_congr_right fun _ => and_congr_right fun _ => exec_ftpOpened
  · rw [if_neg hzero, exec_ftpSession]
    exact exists_congr fun info => and_congr_right fun _ => and_congr_right fun _ => exec_ftpOpened

end

/-- Both calls return the bytes `start..=end`; the stream does to a consumer that polls it to its
end. -/
structure DeliversRange (text : Ipv6Addr → String) (parse : String → Except String Url)
    (server : FtpServer) (guard : ConnectionState) (url : String) (file : RemoteFile)
    (start end_ : UInt64) : Prop where
  buffered : ((ftpDownloadRange text parse url start end_).exec
    (FtpOp.handle (fun _ => server) 0) guard).1 = .ok (file.range start end_)
  streamed : ∀ polls, file.bytes.length < polls → ∃ parts : List Bytes,
    ((ftpDownloadRangeStream text parse url start end_ polls).exec
      (FtpOp.handle (fun _ => server) 0) guard).1 = .ok (parts.map .ok) ∧
      parts.flatten = file.range start end_

/-- What follows a range is nothing exactly when the range reaches the end. -/
theorem RemoteFile.drop_eq_range {file : RemoteFile} {start end_ : UInt64} (hle : start ≤ end_)
    (hend : end_.toNat < file.bytes.length) :
    file.bytes.drop start.toNat = file.range start end_ ↔
      end_.toNat + 1 = file.bytes.length := by
  have hle' := UInt64.le_iff_toNat_le.mp hle
  rw [RemoteFile.range, eq_comm, List.take_eq_self_iff, List.length_drop]
  omega

/-- A streamed range goes on to the end of the file. -/
theorem streamed_range_iff {text : Ipv6Addr → String} {parse : String → Except String Url}
    {server : FtpServer} {guard : ConnectionState} {url : String} {file : RemoteFile}
    {start end_ : UInt64} {polls : ℕ} {whole : Bytes}
    (hsends : ∀ info, parseFtpUrl text (parse url) = .ok info → server.Sends info.path file)
    (hpolls : file.bytes.length < polls) :
    (∃ parts : List Bytes, ((ftpDownloadRangeStream text parse url start end_ polls).exec
        (FtpOp.handle (fun _ => server) 0) guard).1 = .ok (parts.map .ok) ∧ parts.flatten = whole) ↔
      (∃ info, parseFtpUrl text (parse url) = .ok info ∧ server.Admits info ∧
        server.Grants info.path start.toNat) ∧ file.bytes.drop start.toNat = whole := by
  have hpieces : ∀ {info data}, parseFtpUrl text (parse url) = .ok info →
      server.retr info.path start.toNat = .ok data → ∃ parts : List Bytes,
        (Feed.pieces (64 * 1024) polls data).map (·.mapError FtpServer.readError) =
          parts.map .ok ∧ parts.flatten = file.bytes.drop start.toNat := by
    intro info data hinfo hretr
    obtain ⟨hleft, hfault⟩ := hsends info hinfo _ _ hretr
    have hlength := congrArg List.length hleft
    rw [List.length_drop] at hlength
    obtain ⟨parts, hparts, hflatten⟩ :=
      Feed.pieces_eq (by omega : 0 < 64 * 1024) (by omega : data.left.length < polls) hfault
    refine ⟨parts, ?_, hflatten.trans hleft⟩
    rw [hparts, List.map_map]
    rfl
  constructor
  · rintro ⟨parts, hresult, rfl⟩
    obtain ⟨info, hinfo, hadmits, hgrants, data, hretr, hitems⟩ :=
      exec_ftpDownloadRangeStream.mp hresult
    obtain ⟨parts', hparts, hflatten⟩ := hpieces hinfo hretr
    have hsame : parts = parts' :=
      List.map_injective_iff.mpr (fun _ _ => Except.ok.inj) (hitems.trans hparts)
    exact ⟨⟨info, hinfo, hadmits, hgrants⟩, by rw [hsame, hflatten]⟩
  · rintro ⟨⟨info, hinfo, hadmits, hgrants⟩, rfl⟩
    obtain ⟨data, hretr⟩ := hgrants.retr
    obtain ⟨parts, hparts, hflatten⟩ := hpieces hinfo hretr
    exact ⟨parts, exec_ftpDownloadRangeStream.mpr
      ⟨info, hinfo, hadmits, hgrants, data, hretr, hparts.symm⟩, hflatten⟩

/-- A range is delivered by both calls exactly when it reaches the end of the file, the URL is one
of a server that grants the transfer, and the reply at its end is good. -/
theorem delivers_range_iff {text : Ipv6Addr → String} {parse : String → Except String Url}
    {server : FtpServer} {guard : ConnectionState} {url : String} {file : RemoteFile}
    {start end_ : UInt64} (hle : start ≤ end_) (hend : end_.toNat < file.bytes.length)
    (hsends : ∀ info, parseFtpUrl text (parse url) = .ok info → server.Sends info.path file) :
    DeliversRange text parse server guard url file start end_ ↔
      end_.toNat + 1 = file.bytes.length ∧ server.finalize [] = .ok () ∧
        ∃ info, parseFtpUrl text (parse url) = .ok info ∧ server.Admits info ∧
          server.Grants info.path start.toNat := by
  have hdrop := RemoteFile.drop_eq_range hle hend
  constructor
  · rintro ⟨hbuffered, hstreamed⟩
    obtain ⟨hgranted, hwhole⟩ :=
      (streamed_range_iff hsends (Nat.lt_succ_self _)).mp (hstreamed _ (Nat.lt_succ_self _))
    have hlast := hdrop.mp hwhole
    obtain ⟨info, -, -, -, hcut⟩ :=
      (exec_ftpDownloadRange (fun _ => hsends _) hle hend).mp hbuffered
    refine ⟨hlast, ?_, hgranted⟩
    split at hcut
    · exact hcut.2.1
    · rw [hlast, List.drop_length] at hcut
      exact hcut.1
  · rintro ⟨hlast, hfinal, info, hinfo, hadmits, hgrants⟩
    refine ⟨(exec_ftpDownloadRange (fun _ => hsends _) hle hend).mpr
      ⟨info, hinfo, hadmits, hgrants, ?_⟩, fun polls hpolls => ?_⟩
    · rw [hlast, List.drop_length]
      split
      · rename_i hzero
        have hone : file.bytes.length = 1 := by
          rw [← hlast, hzero.2]
          rfl
        refine ⟨by rw [hone]; decide, hfinal, ?_⟩
        rw [← hdrop.mpr hlast, hzero.1]
        rfl
      · exact ⟨hfinal, rfl⟩
    · exact (streamed_range_iff hsends hpolls).mpr
        ⟨⟨info, hinfo, hadmits, hgrants⟩, hdrop.mpr hlast⟩

/-- A server that takes every command and delivers one byte at a time. -/
def FtpServer.granting (file : RemoteFile) : FtpServer where
  resolve := fun _ => .ok [.v4 ⟨93, 184, 216, 34⟩]
  dial := fun _ => .ok ()
  login := fun _ _ => .ok ()
  size := fun _ => .ok (UInt64.ofNat file.bytes.length)
  transferType := .ok ()
  resumeTransfer := fun _ => .ok ()
  retr := fun _ offset => .ok ⟨file.bytes.drop offset, fun _ => 0, none⟩
  finalize := fun _ => .ok ()

theorem FtpServer.granting_sends (file : RemoteFile) (path : String) :
    (granting file).Sends path file := by
  intro offset data h
  obtain rfl := Except.ok.inj h
  exact ⟨rfl, rfl⟩

theorem FtpServer.granting_grants (file : RemoteFile) (path : String) (offset : ℕ) :
    (granting file).Grants path offset :=
  ⟨rfl, fun _ => rfl, _, rfl⟩

/-- A file of three bytes, on a server with a name. -/
def remoteBytes : RemoteFile := ⟨[1, 2, 3], by decide⟩

def remoteUrl (_ : String) : Except String Url :=
  .ok ⟨"ftp", "", none, some (.domain "ftp.example"), none, "/three"⟩

theorem remoteUrl_admits : parseFtpUrl (fun _ => "") (remoteUrl "") = .ok
      ⟨"ftp.example", 21, "anonymous", "anonymous@aimodeldownloader", "/three"⟩ ∧
    (FtpServer.granting remoteBytes).Admits
      ⟨"ftp.example", 21, "anonymous", "anonymous@aimodeldownloader", "/three"⟩ := by
  refine ⟨by decide +kernel, ?_⟩
  rw [FtpServer.admits_iff]
  decide +kernel

theorem delivers_range_last :
    DeliversRange (fun _ => "") remoteUrl (.granting remoteBytes) .new "" remoteBytes 1 2 := by
  have hsends := fun (info : FtpUrl) (_ : parseFtpUrl (fun _ => "") (remoteUrl "") = .ok info) =>
    FtpServer.granting_sends remoteBytes info.path
  exact (delivers_range_iff (by decide) (by decide) hsends).mpr ⟨rfl, rfl, _, remoteUrl_admits.1,
    remoteUrl_admits.2, FtpServer.granting_grants remoteBytes _ _⟩

/-- Asked for the first two of three bytes, the stream delivers three; asked for the first byte, the
buffered call returns three. -/
theorem range_end_ignored :
    (∃ parts : List Bytes, ((ftpDownloadRangeStream (fun _ => "") remoteUrl "" 0 1 4).exec
        (FtpOp.handle (fun _ => .granting remoteBytes) 0) .new).1 = .ok (parts.map .ok) ∧
        parts.flatten = [1, 2, 3]) ∧
      ((ftpDownloadRange (fun _ => "") remoteUrl "" 0 0).exec
        (FtpOp.handle (fun _ => .granting remoteBytes) 0) .new).1 = .ok [1, 2, 3] ∧
      remoteBytes.range 0 1 = [1, 2] ∧ remoteBytes.range 0 0 = [1] := by
  have hsends := fun (info : FtpUrl) (_ : parseFtpUrl (fun _ => "") (remoteUrl "") = .ok info) =>
    FtpServer.granting_sends remoteBytes info.path
  have hgrants := FtpServer.granting_grants remoteBytes "/three"
  refine ⟨(streamed_range_iff hsends (by decide)).mpr ⟨⟨_, remoteUrl_admits.1, remoteUrl_admits.2,
    hgrants _⟩, rfl⟩, ?_, rfl, rfl⟩
  exact (exec_ftpDownloadRange (fun _ => hsends _) (by decide) (by decide)).mpr
    ⟨_, remoteUrl_admits.1, remoteUrl_admits.2, hgrants _, by decide, rfl, rfl⟩

end Tachyon
