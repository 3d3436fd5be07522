import Tachyon.Library.EventRuns
import Tachyon.Protocol.Ftp

/-!
# Calls that share an FTP client

All clones of a client keep their control connection in one place, and a call lets go of the lock
between its steps. Calls run here in any interleaving of these steps.
-/

namespace Tachyon

open Resumption EventRuns

/-- What the calls of the `Protocol` trait return; of a stream, what its consumer sees. -/
inductive FtpAnswer where
  | metadata (metadata : FileMetadata)
  | bytes (bytes : Bytes)
  | items (items : List (DownloadResult Bytes))
  deriving DecidableEq

/-- A call of the `Protocol` trait; a stream is dropped after a number of polls. -/
inductive FtpCall where
  | probe (url : String)
  | downloadRange (url : String) (start end_ : UInt64)
  | downloadRangeStream (url : String) (start end_ : UInt64) (polls : ℕ)
  | downloadFull (url : String)
  | downloadFullStream (url : String) (polls : ℕ)

/-- A call as a program over the steps that take the lock. -/
abbrev FtpProgram := Prog FtpOp.Ans (DownloadResult FtpAnswer)

/-- The call's program. -/
def FtpCall.program (text : Ipv6Addr → String) (parse : String → Except String Url) :
    FtpCall → FtpProgram
  | .probe url => ftpProbe text parse url >>= fun r => .done (r.map .metadata)
  | .downloadRange url start end_ =>
    ftpDownloadRange text parse url start end_ >>= fun r => .done (r.map .bytes)
  | .downloadRangeStream url start end_ polls =>
    ftpDownloadRangeStream text parse url start end_ polls >>= fun r => .done (r.map .items)
  | .downloadFull url => ftpDownloadFull text parse url >>= fun r => .done (r.map .bytes)
  | .downloadFullStream url polls =>
    ftpDownloadFullStream text parse url polls >>= fun r => .done (r.map .items)

/-! ### The shape of a call -/

/-- The steps that send commands to a server the call has logged in to. -/
def FtpOp.IsCommand : FtpOp → Prop
  | .connect .. | .login .. | .disconnect => False
  | _ => True

/-- What a call that has connected does: it logs in before it sends commands, and its last step
disconnects. -/
inductive InSession {α : Type} : FtpState → Prog FtpOp.Ans α → Prop where
  | login {user pass : String} {k : DownloadResult Unit → Prog FtpOp.Ans α}
      (hrefused : ∀ e, InSession .connected (k (.error e)))
      (haccepted : InSession .authenticated (k (.ok ()))) :
      InSession .connected (.call (.login user pass) k)
  | command {op : FtpOp} {k : op.Ans → Prog FtpOp.Ans α} (hop : op.IsCommand)
      (hrest : ∀ x, InSession .authenticated (k x)) : InSession .authenticated (.call op k)
  | disconnect {state : FtpState} {k : Unit → Prog FtpOp.Ans α} {a : α} (hend : k () = .done a) :
      InSession state (.call .disconnect k)

/-- A call connects first, if it does anything. -/
inductive IsCall {α : Type} : Prog FtpOp.Ans α → Prop where
  | ended (a : α) : IsCall (.done a)
  | connect {host : String} {port : ℕ} {k : DownloadResult Unit → Prog FtpOp.Ans α}
      (hrefused : ∀ e, ∃ a, k (.error e) = .done a)
      (haccepted : InSession .connected (k (.ok ()))) :
      IsCall (.call (.connect host port) k)

section

variable {α γ : Type} {state : FtpState} {p : Prog FtpOp.Ans α}

theorem InSession.map (h : InSession state p) (f : α → γ) :
    InSession state (p >>= fun a => .done (f a)) := by
  induction h with
  | login _ _ hrefused haccepted => exact .login hrefused haccepted
  | command hop _ hrest => exact .command hop hrest
  | @disconnect state k a hend => exact .disconnect (a := f a) (by rw [hend]; rfl)

theorem IsCall.map (h : IsCall p) (f : α → γ) : IsCall (p >>= fun a => .done (f a)) := by
  cases h with
  | ended a => exact .ended (f a)
  | connect hrefused haccepted =>
    refine .connect (fun e => ?_) (haccepted.map f)
    obtain ⟨a, ha⟩ := hrefused e
    exact ⟨f a, by rw [ha]; rfl⟩

variable {text : Ipv6Addr → String} {parse : String → Except String Url} {url : String}

theorem isCall_ftpSession {body : FtpUrl → Prog FtpOp.Ans (DownloadResult α)}
    (h : ∀ info, InSession .authenticated (body info)) :
    IsCall (ftpSession text parse url body) := by
  unfold ftpSession
  cases parseFtpUrl text (parse url) with
  | error e => exact .ended _
  | ok info => exact .connect (fun e => ⟨_, rfl⟩) (.login (fun e => .disconnect rfl) (h info))

theorem inSession_ftpStream (polls : ℕ) (data : FtpDataStream) :
    InSession .authenticated (ftpStream polls data) := by
  induction polls generalizing data with
  | zero => exact .disconnect rfl
  | succ polls ih =>
    unfold ftpStream
    split
    · exact .command trivial fun _ => .disconnect rfl
    · exact .command trivial fun _ => .disconnect rfl
    · exact (ih _).map _

theorem inSession_ftpOpened (start : Option UInt64) (polls : ℕ) (info : FtpUrl) :
    InSession .authenticated (ftpOpened start polls info) := by
  refine .command trivial fun x => ?_
  cases x with
  | error e => exact .disconnect rfl
  | ok data => exact (inSession_ftpStream polls data).map _

theorem FtpCall.isCall_program (call : FtpCall) : IsCall (call.program text parse) := by
  have hwhole : ∀ url, IsCall (ftpDownloadFull text parse url) := fun url =>
    isCall_ftpSession fun info => .command trivial fun _ => .disconnect rfl
  have hstream : ∀ url start polls, IsCall (ftpSession text parse url (ftpOpened start polls)) :=
    fun url start polls => isCall_ftpSession (inSession_ftpOpened start polls)
  cases call with
  | probe url =>
    have hprobe : IsCall (ftpProbe text parse url) :=
      isCall_ftpSession fun info => .command trivial fun _ => .disconnect rfl
    exact hprobe.map _
  | downloadRange url start end_ =>
    refine IsCall.map ?_ _
    unfold ftpDownloadRange
    split
    · exact hwhole url
    · exact isCall_ftpSession fun info => .command trivial fun _ => .disconnect rfl
  | downloadRangeStream url start end_ polls =>
    refine IsCall.map ?_ _
    unfold ftpDownloadRangeStream
    split
    · exact hstream url none polls
    · exact hstream url (some start) polls
  | downloadFull url => exact (hwhole url).map _
  | downloadFullStream url polls => exact (hstream url none polls).map _

end

/-! ### Calls side by side -/

/-- A client with its clones, and what is left of each call. -/
structure SharedFtp where
  guard : ConnectionState
  calls : ℕ → FtpProgram

namespace SharedFtp

variable (text : Ipv6Addr → String) (parse : String → Except String Url)
  (server : ℕ → FtpServer) (calls : ℕ → FtpCall)

/-- Before the first step. -/
def initial : SharedFtp := ⟨.new, fun c => (calls c).program text parse⟩

/-- The next step of a call. -/
def step (s : SharedFtp) (c : ℕ) : Option SharedFtp :=
  match s.calls c with
  | .done _ => none
  | .call op k =>
    let (x, guard) := op.handle server c s.guard
    some ⟨guard, Function.update s.calls c (k x)⟩

/-- What a call returns when nothing runs beside it. -/
def alone (c : ℕ) : DownloadResult FtpAnswer :=
  (((calls c).program text parse).exec (FtpOp.handle server c) .new).1

/-- What a call has returned. -/
def returned (s : SharedFtp) (c : ℕ) : Option (DownloadResult FtpAnswer) :=
  match s.calls c with
  | .done a => some a
  | .call _ _ => none

/-- Every call that has returned has returned what it returns alone. -/
def ResultsAlone (s : SharedFtp) : Prop :=
  ∀ c a, s.returned c = some a → a = alone text parse server calls c

/-- The step uses or replaces the connection that it finds: all do but a refused connect. -/
def Touches (c : ℕ) : FtpOp → Prop
  | .connect host port => (server c).connect host port = .ok ()
  | _ => True

/-- The step touches no connection but the call's own, and sends a command only where it has logged
in. -/
def Isolated (s : SharedFtp) (c : ℕ) : Prop :=
  match s.calls c with
  | .done _ => True
  | .call op _ => Touches server c op → ∀ conn, s.guard.stream = some conn →
      conn = c ∧ (op.IsCommand → s.guard.state = .authenticated)

/-- The call has connected and not yet disconnected: its next step is on its connection. -/
def Open (s : SharedFtp) (c : ℕ) : Prop :=
  match s.calls c with
  | .done _ | .call (.connect ..) _ => False
  | .call _ _ => True

/-- A call that gets a connection does so while no call has one. -/
def NoOverlap (s : SharedFtp) (c : ℕ) : Prop :=
  match s.calls c with
  | .call (.connect host port) _ =>
    (server c).connect host port = .ok () → ∀ d, ¬s.Open d
  | _ => True

/-- The client belongs to the call that is open, which goes on as it would alone; the others have
not begun, or have returned what they return alone. -/
structure Inv (s : SharedFtp) : Prop where
  idle : s.guard.stream = none → s.guard = .new
  busy : ∀ c, s.guard.stream = some c → InSession s.guard.state (s.calls c) ∧
    ((s.calls c).exec (FtpOp.handle server c) s.guard).1 = alone text parse server calls c
  others : ∀ c, s.guard.stream ≠ some c → s.calls c = (calls c).program text parse ∨
    s.calls c = .done (alone text parse server calls c)

section

variable {text parse server calls} {s s' : SharedFtp} {c d : ℕ}

theorem inv_initial : Inv text parse server calls (initial text parse calls) where
  idle := fun _ => rfl
  busy := fun c h => by cases h
  others := fun c _ => .inl rfl

theorem not_open_of_isCall (h : IsCall (s.calls c)) : ¬s.Open c := by
  unfold Open
  cases hcall : s.calls c with
  | done a => exact id
  | call op k =>
    rw [hcall] at h
    cases h
    exact id

theorem open_of_inSession {state : FtpState} (h : InSession state (s.calls c)) : s.Open c := by
  unfold Open
  cases hcall : s.calls c with
  | done a =>
    rw [hcall] at h
    cases h
  | call op k =>
    rw [hcall] at h
    cases h with
    | login => trivial
    | command hop => cases op <;> trivial
    | disconnect => trivial

/-- The call whose connection the client holds is the one that is open. -/
theorem Inv.open_iff (h : Inv text parse server calls s) : s.Open c ↔ s.guard.stream = some c := by
  constructor
  · intro hopen
    by_contra hother
    rcases h.others c hother with hstart | hended
    · exact not_open_of_isCall (hstart ▸ (calls c).isCall_program) hopen
    · exact not_open_of_isCall (hended ▸ .ended _) hopen
  · intro hstream
    exact open_of_inSession (h.busy c hstream).1

theorem handle_command {op : FtpOp} (hop : op.IsCommand) (guard : ConnectionState) :
    (op.handle server c guard).2 = guard := by
  cases op with
  | connect | login | disconnect => exact hop.elim
  | fileSize | retrieve | retrieveRange | openDataStream => rfl
  | finalizeRetrStream data =>
    rw [FtpOp.handle]
    split <;> rfl

/-- A call that goes on has the client, and no other call does. -/
theorem Inv.held {guard : ConnectionState} {p : FtpProgram} (h : Inv text parse server calls s)
    (hfree : ∀ d, d ≠ c → s.guard.stream ≠ some d) (hstream : guard.stream = some c)
    (hsession : InSession guard.state p)
    (hexec : (p.exec (FtpOp.handle server c) guard).1 = alone text parse server calls c) :
    Inv text parse server calls ⟨guard, Function.update s.calls c p⟩ where
  idle := fun hnone => by
    rw [hstream] at hnone
    cases hnone
  busy := fun d hd => by
    obtain rfl := Option.some.inj (hstream.symm.trans hd)
    simp only [Function.update_self]
    exact ⟨hsession, hexec⟩
  others := fun d hd => by
    have hne : d ≠ c := fun heq => hd (heq ▸ hstream)
    simp only [Function.update_of_ne hne]
    exact h.others d (hfree d hne)

/-- A call that ends leaves the client as it is or takes its own connection away. -/
theorem Inv.ended {guard : ConnectionState} (h : Inv text parse server calls s)
    (hguard : guard = s.guard ∧ s.guard.stream ≠ some c ∨
      guard = .new ∧ ∀ d, d ≠ c → s.guard.stream ≠ some d) :
    Inv text parse server calls
      ⟨guard, Function.update s.calls c (.done (alone text parse server calls c))⟩ := by
  have hafter : ∀ d, d ≠ c → guard.stream = some d → guard = s.guard := by
    rintro d hne hd
    rcases hguard with ⟨hsame, -⟩ | ⟨rfl, -⟩
    · exact hsame
    · cases hd
  have hnot : guard.stream ≠ some c := by
    rcases hguard with ⟨rfl, hnot⟩ | ⟨rfl, -⟩
    · exact hnot
    · exact fun hd => nomatch hd
  constructor
  · intro hnone
    rcases hguard with ⟨rfl, -⟩ | ⟨rfl, -⟩
    · exact h.idle hnone
    · rfl
  · intro d hd
    have hne : d ≠ c := fun heq => hnot (heq ▸ hd)
    obtain rfl := hafter d hne hd
    simp only [Function.update_of_ne hne]
    exact h.busy d hd
  · intro d hd
    by_cases heq : d = c
    · rw [heq]
      exact .inr (Function.update_self _ _ _)
    · simp only [Function.update_of_ne heq]
      refine h.others d ?_
      rcases hguard with ⟨rfl, -⟩ | ⟨-, hfree⟩
      · exact hd
      · exact hfree d heq

/-- Under the invariant a step is isolated exactly when it does not connect beside an open call. -/
theorem Inv.isolated_iff (h : Inv text parse server calls s) :
    Isolated server s c ↔ NoOverlap server s c := by
  unfold Isolated NoOverlap
  cases hcall : s.calls c with
  | done a => exact Iff.rfl
  | call op k =>
    by_cases hown : s.guard.stream = some c
    · have hsession := (h.busy c hown).1
      obtain ⟨state, hstate⟩ : ∃ state, s.guard.state = state := ⟨_, rfl⟩
      rw [hcall, hstate] at hsession
      rw [hown]
      cases hsession with
      | login => exact iff_of_true (fun _ _ hconn => ⟨(Option.some.inj hconn).symm, nofun⟩) trivial
      | command hop =>
        refine iff_of_true (fun _ _ hconn => ⟨(Option.some.inj hconn).symm, fun _ => hstate⟩) ?_
        cases op <;> trivial
      | disconnect =>
        exact iff_of_true (fun _ _ hconn => ⟨(Option.some.inj hconn).symm, nofun⟩) trivial
    · rcases h.others c hown with hstart | hended
      · have hisCall : IsCall ((calls c).program text parse) := (calls c).isCall_program
        rw [← hstart, hcall] at hisCall
        cases hisCall with
        | connect hrefused haccepted =>
          refine imp_congr_right fun _ => ?_
          simp only [h.open_iff]
          constructor
          · intro hisolated d hd
            exact hown ((hisolated d hd).1 ▸ hd)
          · intro hfree d hd
            exact absurd hd (hfree d)
      · rw [hcall] at hended
        cases hended

theorem step_eq_some (hstep : step server s c = some s') : ∃ op k, s.calls c = .call op k ∧
    s' = ⟨(op.handle server c s.guard).2,
      Function.update s.calls c (k (op.handle server c s.guard).1)⟩ := by
  unfold step at hstep
  split at hstep
  · cases hstep
  · rename_i op k hcall
    exact ⟨op, k, hcall, (Option.some.inj hstep).symm⟩

/-- A step of the call that has the client. -/
theorem Inv.step_own (h : Inv text parse server calls s) (hown : s.guard.stream = some c)
    (hstep : step server s c = some s') : Inv text parse server calls s' := by
  obtain ⟨op, k, hcall, rfl⟩ := step_eq_some hstep
  obtain ⟨hsession, hexec⟩ := h.busy c hown
  have hfree : ∀ d, d ≠ c → s.guard.stream ≠ some d := fun d hne hd =>
    hne (Option.some.inj (hd.symm.trans hown))
  obtain ⟨state, hstate⟩ : ∃ state, s.guard.state = state := ⟨_, rfl⟩
  rw [hcall, hstate] at hsession
  rw [hcall, Prog.exec] at hexec
  cases hsession with
  | @login user pass k hrefused haccepted =>
    cases hlogin : (server c).authenticate user pass with
    | error e =>
      have hhandle : FtpOp.handle server c (.login user pass) s.guard = (.error e, s.guard) := by
        simp [FtpOp.handle, hstate, hown, hlogin]
      rw [hhandle] at hexec ⊢
      exact h.held hfree hown (hstate ▸ hrefused e) hexec
    | ok _ =>
      have hhandle : FtpOp.handle server c (.login user pass) s.guard =
          (.ok (), { s.guard with username := some user, state := .authenticated }) := by
        simp [FtpOp.handle, hstate, hown, hlogin]
      rw [hhandle] at hexec ⊢
      exact h.held hfree hown haccepted hexec
  | command hop hrest =>
    rw [handle_command hop] at hexec ⊢
    exact h.held hfree hown (hstate ▸ hrest _) hexec
  | @disconnect _ k a hend =>
    have hresult : ((k ()).exec (FtpOp.handle server c) .new).1 =
        alone text parse server calls c := hexec
    rw [hend] at hresult
    have hlast : k () = .done (alone text parse server calls c) := hresult ▸ hend
    change Inv text parse server calls ⟨.new, Function.update s.calls c (k ())⟩
    rw [hlast]
    exact h.ended (.inr ⟨rfl, hfree⟩)

/-- A step of a call that does not have it: the call connects, and no call is open if it
succeeds. -/
theorem Inv.step_connect (h : Inv text parse server calls s) (hnot : s.guard.stream ≠ some c)
    (hfree : NoOverlap server s c) (hstep : step server s c = some s') :
    Inv text parse server calls s' := by
  obtain ⟨op, k, hcall, rfl⟩ := step_eq_some hstep
  rcases h.others c hnot with hstart | hended
  · have hisCall : IsCall ((calls c).program text parse) := (calls c).isCall_program
    have halone : alone text parse server calls c =
        ((s.calls c).exec (FtpOp.handle server c) .new).1 := by rw [alone, hstart]
    rw [← hstart, hcall] at hisCall
    rw [hcall, Prog.exec] at halone
    cases hisCall with
    | @connect host port k hrefused haccepted =>
      cases hconnect : (server c).connect host port with
      | error e =>
        have hhandle : ∀ guard, FtpOp.handle server c (.connect host port) guard =
            (.error e, guard) := fun guard => by rw [FtpOp.handle, hconnect]
        obtain ⟨a, ha⟩ := hrefused e
        simp only [hhandle, ha, Prog.exec] at halone ⊢
        rw [← halone]
        exact h.ended (.inl ⟨rfl, hnot⟩)
      | ok _ =>
        have hhandle : ∀ guard, FtpOp.handle server c (.connect host port) guard = (.ok (),
            { guard with stream := some c, host := host, port := port, state := .connected }) :=
          fun guard => by rw [FtpOp.handle, hconnect]
        have hnone : s.guard.stream = none := by
          unfold NoOverlap at hfree
          rw [hcall] at hfree
          by_contra hsome
          obtain ⟨d, hd⟩ := Option.ne_none_iff_exists'.mp hsome
          exact hfree hconnect d (h.open_iff.mpr hd)
        rw [hhandle, h.idle hnone]
        refine h.held (fun d _ hd => ?_) rfl haccepted ?_
        · rw [hnone] at hd
          cases hd
        · rw [halone, hhandle]
  · rw [hcall] at hended
    cases hended

theorem Inv.step (h : Inv text parse server calls s) (hfree : NoOverlap server s c)
    (hstep : step server s c = some s') : Inv text parse server calls s' := by
  by_cases hown : s.guard.stream = some c
  · exact h.step_own hown hstep
  · exact h.step_connect hown hfree hstep

theorem Inv.resultsAlone (h : Inv text parse server calls s) :
    ResultsAlone text parse server calls s := by
  intro c a hreturned
  unfold returned at hreturned
  split at hreturned
  · rename_i a' hcall
    obtain rfl := Option.some.inj hreturned
    by_cases hown : s.guard.stream = some c
    · have hexec := (h.busy c hown).2
      rw [hcall] at hexec
      exact hexec
    · rcases h.others c hown with hstart | hended
      · rw [alone, ← hstart, hcall, Prog.exec]
      · rw [hcall] at hended
        cases hended
        rfl
  · cases hreturned

end

end SharedFtp

/-- Whatever calls run on a client and its clones and however their steps follow each other: every
step stays on its own call's connection and every call returns what it returns alone, exactly
when no call connects beside one that has not disconnected. -/
theorem ftp_isolated_iff (text : Ipv6Addr → String) (parse : String → Except String Url)
    (server : ℕ → FtpServer) (calls : ℕ → FtpCall) (steps : List ℕ) :
    EachStep (SharedFtp.step server) (SharedFtp.Isolated server)
        (SharedFtp.initial text parse calls) steps ∧
      EachState (SharedFtp.step server) (SharedFtp.ResultsAlone text parse server calls)
        (SharedFtp.initial text parse calls) steps ↔
    EachStep (SharedFtp.step server) (SharedFtp.NoOverlap server)
      (SharedFtp.initial text parse calls) steps := by
  have hinitial : SharedFtp.Inv text parse server calls (SharedFtp.initial text parse calls) :=
    SharedFtp.inv_initial
  constructor
  · rintro ⟨hisolated, -⟩
    exact hisolated.imp (fun s c s' h hc hstep =>
      ⟨h.isolated_iff.mp hc, h.step (h.isolated_iff.mp hc) hstep⟩) hinitial
  · intro hfree
    exact ⟨hfree.imp (fun s c s' h hc hstep => ⟨h.isolated_iff.mpr hc, h.step hc hstep⟩) hinitial,
      (hfree.eachState (fun s c s' h hc hstep => h.step hc hstep) hinitial).imp
        fun s h => h.resultsAlone⟩

/-- The server that call 0 reaches has a file of 3 bytes, the others have one of 5. -/
def sizedServer (c : ℕ) : FtpServer where
  resolve := fun _ => .ok [.v4 ⟨93, 184, 216, 34⟩]
  dial := fun _ => .ok ()
  login := fun _ _ => .ok ()
  size := fun _ => .ok (if c = 0 then 3 else 5)
  transferType := .ok ()
  resumeTransfer := fun _ => .ok ()
  retr := fun _ _ => .error "550"
  finalize := fun _ => .ok ()

def namedUrl (name : String) : Except String Url :=
  .ok ⟨"ftp", "", none, some (.domain (name ++ ".example")), none, "/file"⟩

/-- Two probes: the second one connects and logs in before the first one asks for the size. The
first returns the size on the other server and disconnects the second. -/
theorem probes_interfere :
    ¬EachState (SharedFtp.step sizedServer)
      (SharedFtp.ResultsAlone (fun _ => "") namedUrl sizedServer fun c =>
        .probe (if c = 0 then "first" else "second"))
      (SharedFtp.initial (fun _ => "") namedUrl fun c =>
        .probe (if c = 0 then "first" else "second")) [0, 0, 1, 1, 0, 0, 1, 1] ∧
    ∃ s, run (SharedFtp.step sizedServer)
        (SharedFtp.initial (fun _ => "") namedUrl fun c =>
          .probe (if c = 0 then "first" else "second")) [0, 0, 1, 1, 0, 0, 1, 1] = some s ∧
      s.returned 0 = some (.ok (.metadata ⟨"file", some 5, none, false, none, none⟩)) ∧
      s.returned 1 =
        some (.error (.protocol "FTP 未连接,无法执行命令 -- 请先调用 connect()")) := by
  have hrun : (run (SharedFtp.step sizedServer)
      (SharedFtp.initial (fun _ => "") namedUrl fun c =>
        .probe (if c = 0 then "first" else "second")) [0, 0, 1, 1, 0, 0, 1, 1]).any (fun s =>
      s.returned 0 = some (.ok (.metadata ⟨"file", some 5, none, false, none, none⟩)) ∧
      s.returned 1 =
        some (.error (.protocol "FTP 未连接,无法执行命令 -- 请先调用 connect()"))) = true := by
    decide +kernel
  obtain ⟨s, hs, hreturned⟩ := (Option.any_eq_true _ _).mp hrun
  obtain ⟨hfirst, hsecond⟩ := of_decide_eq_true hreturned
  refine ⟨fun hstates => ?_, s, hs, hfirst, hsecond⟩
  have halone := hstates.last hs 0 _ hfirst
  revert halone
  decide +kernel

end Tachyon
