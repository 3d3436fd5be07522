import Tachyon.Core.UrlSafety
import Tachyon.Library.EventRuns
import Tachyon.Library.ExpiringCache

/-!
# Connections and sessions of the QUIC transport

`QuicTransport` over all that is done with it: `connect` goes step by step from one await to
the next, may fail or be dropped at each of them, and keeps a cache of the hosts it may try
0-RTT with. A log, latest first, says what was done.
-/

namespace Tachyon.Quic

open EventRuns ExpiringCache

/-- `SESSION_TOKEN_TTL`, in nanoseconds. -/
def sessionTokenTtl : ℕ := 3600 * 1000000000

/-- `MAX_SESSION_TOKENS`. -/
def maxSessionTokens : ℕ := 256

/-- A connection, by its number, with the host it is for and the address it goes to. -/
structure Conn where
  id : ℕ
  host : String
  ip : IpAddr
  deriving DecidableEq

/-- What was done, and when. -/
inductive Action where
  /-- A connection was begun, as 0-RTT or not. -/
  | attempt (conn : Conn) (zeroRtt : Bool) (time : ℕ)
  /-- The server rejected 0-RTT. -/
  | rejected (host : String)
  /-- A session was put into the cache. -/
  | recorded (session : Entry String (List UInt8))
  /-- A request was sent. -/
  | request (conn : Conn) (url : Url)
  deriving DecidableEq

/-- Where `connect` is. -/
inductive ConnectPhase where
  /-- No `connect` runs. -/
  | idle
  /-- In `lookup_host`. -/
  | lookup (host : String)
  /-- In `accepted` of a 0-RTT connection. -/
  | zeroRtt (conn : Conn)
  /-- In the handshake. -/
  | connecting (conn : Conn)
  /-- In `h3::client::new`. -/
  | http3 (conn : Conn)
  deriving DecidableEq

/-- `QuicTransport`, with the clock, its `connect` and the log. -/
structure Transport where
  now : ℕ
  phase : ConnectPhase
  connection : Option Conn
  /-- The connections the other side or a failure has closed. -/
  closed : List ℕ
  storedCrypto : Bool
  sessionTokens : Cache String (List UInt8)
  h3Send : Option Conn
  h3Conn : Option Conn
  nextId : ℕ
  log : List Action

/-- What happens to a transport. -/
inductive QuicEvent where
  | elapse (nanos : ℕ)
  /-- `connect` up to its lookup, with what the URL parser gave: a host, or an error. -/
  | connect (host : DownloadResult String)
  /-- The answer of `lookup_host`, whether the endpoint could begin a connection, and whether
  `into_0rtt` could. -/
  | found (answer : Except String (List IpAddr)) (begun : Except String Unit) (into0rtt : Bool)
  /-- What became of 0-RTT, and whether the endpoint could begin another connection. -/
  | accepted (accepted : Bool) (begun : Except String Unit)
  | established (result : Except String Unit)
  /-- Whether the HTTP/3 client could be made, the certificate of the peer if it has one, and
  the oldest session the map finds. -/
  | http3 (ready : Bool) (cert : Option (List UInt8)) (oldest : String)
  /-- The future of `connect` is dropped. -/
  | dropped
  | disconnect
  | cleanup
  /-- A connection is closed by the other side. -/
  | lost (id : ℕ)
  /-- A request of `probe` or a download. -/
  | request (url : Url)

namespace Transport

/-- `QuicTransport::new`, or `with_endpoint` without the crypto configuration. -/
def new (storedCrypto : Bool) : Transport :=
  ⟨0, .idle, none, [], storedCrypto, [], none, none, 0, []⟩

/-- Whether a session of the host is cached and not too old. -/
def hasValidSession (s : Transport) (host : String) : Bool :=
  s.sessionTokens.any fun e => decide (e.key = host) && decide (s.now - e.time < sessionTokenTtl)

/-- `connect` ends without a result of its own. -/
def stop (s : Transport) : Transport := { s with phase := .idle }

/-- `connect` begins a connection. -/
def begin (s : Transport) (conn : Conn) (zeroRtt : Bool) : Transport := { s with
  nextId := s.nextId + 1
  log := .attempt conn zeroRtt s.now :: s.log
  phase := if zeroRtt then .zeroRtt conn else .connecting conn }

/-- `connect` from the answer of `lookup_host` to the next await. -/
def begins (s : Transport) (host : String) (ip : IpAddr) (begun : Except String Unit)
    (into0rtt : Bool) : Transport :=
  let conn := ⟨s.nextId, host, ip⟩
  let s :=
    if s.storedCrypto && !s.hasValidSession host then
      { s with sessionTokens := remove host s.sessionTokens }
    else s
  match begun with
  | .error _ => s.stop
  | .ok () => s.begin conn (s.storedCrypto && s.hasValidSession host && into0rtt)

/-- The connection is there: the transport takes it, then makes the HTTP/3 client. -/
def takes (s : Transport) (conn : Conn) : Transport :=
  { s with connection := some conn, phase := .http3 conn }

/-- The session of a host is recorded unless there is one. -/
def recordSession (s : Transport) (host : String) (cert : Option (List UInt8))
    (oldest : String) : Option Transport :=
  match cert with
  | none => some s
  | some cert =>
    if s.sessionTokens.any fun e => decide (e.key = host) then some s
    else
      (makeRoom maxSessionTokens sessionTokenTtl s.now oldest s.sessionTokens).map fun tokens =>
        let session : Entry String (List UInt8) := ⟨host, cert, s.now⟩
        { s with sessionTokens := session :: tokens, log := .recorded session :: s.log }

/-- `is_connected`. -/
def isConnected (s : Transport) : Bool :=
  match s.connection with
  | some conn => decide (conn.id ∉ s.closed)
  | none => false

/-- One event. While `connect` runs it has the transport for itself. -/
def step (text : Ipv6Addr → String) (s : Transport) : QuicEvent → Option Transport
  | .elapse nanos => some { s with now := s.now + nanos }
  | .connect host =>
    match s.phase, host with
    | .idle, .ok host => some { s with phase := .lookup host }
    | .idle, .error _ => some s
    | _, _ => none
  | .found answer begun into0rtt =>
    match s.phase with
    | .lookup host =>
      match answer with
      | .error _ | .ok [] => some s.stop
      | .ok (ip :: _) =>
        match rejectForbiddenIp ip with
        | .error _ => some s.stop
        | .ok () => some (s.begins host ip begun into0rtt)
    | _ => none
  | .accepted accepted begun =>
    match s.phase with
    | .zeroRtt conn =>
      if accepted then some (s.takes conn)
      else
        let s := { s with
          closed := conn.id :: s.closed
          sessionTokens := remove conn.host s.sessionTokens
          log := .rejected conn.host :: s.log }
        match begun with
        | .error _ => some s.stop
        | .ok () => some (s.begin ⟨s.nextId, conn.host, conn.ip⟩ false)
    | _ => none
  | .established result =>
    match s.phase, result with
    | .connecting conn, .ok () => some (s.takes conn)
    | .connecting _, .error _ => some s.stop
    | _, _ => none
  | .http3 ready cert oldest =>
    match s.phase with
    | .http3 conn =>
      let s := if ready then { s with h3Send := some conn, h3Conn := some conn }
        else { s with h3Send := none }
      s.stop.recordSession conn.host cert oldest
    | _ => none
  | .dropped => some s.stop
  | .disconnect =>
    match s.phase with
    | .idle => some { s with
        h3Send := none, h3Conn := none, connection := none
        closed := (s.connection.map (·.id)).toList ++ s.closed }
    | _ => none
  | .cleanup =>
    match s.phase with
    | .idle => some { s with
        sessionTokens := retainYounger sessionTokenTtl s.now s.sessionTokens }
    | _ => none
  | .lost id => some { s with closed := id :: s.closed }
  | .request url =>
    match s.phase, s.isConnected, s.h3Send, validatePublicHttpUrl text url with
    | .idle, true, some conn, .ok () => some { s with log := .request conn url :: s.log }
    | .idle, _, _, _ => some s
    | _, _, _, _ => none

/-- A connection was begun. -/
def Begun (log : List Action) (conn : Conn) : Prop :=
  ∃ zeroRtt time, .attempt conn zeroRtt time ∈ log

/-- A session was recorded and 0-RTT to its host not rejected since. -/
def Unrejected (log : List Action) (session : Entry String (List UInt8)) : Prop :=
  ∃ recent older, log = recent ++ .recorded session :: older ∧ .rejected session.key ∉ recent

/-- Each 0-RTT connection relies on a session of its host, recorded less than an hour before
and not rejected since. -/
def Resumed (log : List Action) : Prop :=
  ∀ recent conn time old, log = recent ++ .attempt conn true time :: old →
    ∃ session, Unrejected old session ∧ session.key = conn.host ∧
      time - session.time < sessionTokenTtl

/-- Why a recorded session may be gone: its age, a rejection, or as many sessions of other hosts
as the cache has places, none of them older. -/
def Kept (s : Transport) : Prop :=
  ∀ recent session old, s.log = recent ++ .recorded session :: old →
    session ∈ s.sessionTokens ∨ sessionTokenTtl ≤ s.now - session.time ∨
      .rejected session.key ∈ recent ∨
      CrowdedOut maxSessionTokens (fun o => .recorded o ∈ s.log) session

/-- What holds of the transport whatever is done with it. -/
structure Sound (text : Ipv6Addr → String) (s : Transport) : Prop where
  bounded : s.sessionTokens.length ≤ maxSessionTokens
  distinct : Distinct s.sessionTokens
  vetted : ∀ conn, Begun s.log conn → rejectForbiddenIp conn.ip = .ok ()
  requested : ∀ conn url, .request conn url ∈ s.log →
    Begun s.log conn ∧ validatePublicHttpUrl text url = .ok ()
  resumed : Resumed s.log
  kept : s.Kept

/-- What every reachable state keeps. -/
structure Inv (text : Ipv6Addr → String) (s : Transport) : Prop extends Sound text s where
  live : ∀ session ∈ s.sessionTokens, Unrejected s.log session
  times : ∀ session, .recorded session ∈ s.log → session.time ≤ s.now
  phase : ∀ conn, s.phase = .zeroRtt conn ∨ s.phase = .connecting conn ∨ s.phase = .http3 conn →
    Begun s.log conn
  handle : ∀ conn, s.h3Send = some conn → Begun s.log conn

section

variable {text : Ipv6Addr → String} {s s' : Transport} {e : QuicEvent} {conn : Conn}
  {a : Action} {log : List Action} {session : Entry String (List UInt8)}

/-! ### One more action -/

/-- An action in a log with one more in front is the new one or in the old log. -/
theorem cons_eq_split {recent old : List Action} {b : Action}
    (h : a :: log = recent ++ b :: old) :
    (recent = [] ∧ a = b ∧ log = old) ∨ ∃ recent', recent = a :: recent' ∧
      log = recent' ++ b :: old := by
  cases recent with
  | nil =>
    obtain ⟨rfl, rfl⟩ := List.cons.inj h
    exact .inl ⟨rfl, rfl, rfl⟩
  | cons c recent' =>
    obtain ⟨rfl, hlog⟩ := List.cons.inj h
    exact .inr ⟨recent', rfl, hlog⟩

theorem Unrejected.cons (h : Unrejected log session) (ha : a ≠ .rejected session.key) :
    Unrejected (a :: log) session := by
  obtain ⟨recent, older, rfl, hnone⟩ := h
  exact ⟨a :: recent, older, rfl, fun hmem => (List.mem_cons.mp hmem).elim (ha ·.symm) hnone⟩

theorem Unrejected.recorded (h : Unrejected log session) : .recorded session ∈ log := by
  obtain ⟨recent, older, rfl, -⟩ := h
  exact List.mem_append_right _ List.mem_cons_self

theorem Resumed.cons (h : Resumed log) (ha : ∀ conn time, a = .attempt conn true time →
    ∃ session, Unrejected log session ∧ session.key = conn.host ∧
      time - session.time < sessionTokenTtl) : Resumed (a :: log) := by
  intro recent conn time old hsplit
  rcases cons_eq_split hsplit with ⟨-, rfl, rfl⟩ | ⟨recent', -, hlog⟩
  · exact ha conn time rfl
  · exact h recent' conn time old hlog

theorem Begun.cons (h : Begun log conn) : Begun (a :: log) conn := by
  obtain ⟨zeroRtt, time, hmem⟩ := h
  exact ⟨zeroRtt, time, List.mem_cons_of_mem a hmem⟩

theorem begun_attempt {zeroRtt : Bool} {time : ℕ} :
    Begun (.attempt conn zeroRtt time :: log) conn := ⟨zeroRtt, time, List.mem_cons_self⟩

/-- Sessions are lost to their age only. -/
theorem Inv.shrink (h : s.Inv text) (hlog : s'.log = s.log) (hnow : s.now ≤ s'.now)
    (hsub : s'.sessionTokens.Sublist s.sessionTokens)
    (hlost : ∀ x ∈ s.sessionTokens, x ∈ s'.sessionTokens ∨ sessionTokenTtl ≤ s'.now - x.time)
    (hphase : ∀ conn, s'.phase = .zeroRtt conn ∨ s'.phase = .connecting conn ∨
      s'.phase = .http3 conn → Begun s.log conn)
    (hhandle : ∀ conn, s'.h3Send = some conn → Begun s.log conn) : s'.Inv text where
  bounded := hsub.length_le.trans h.bounded
  distinct := h.distinct.sublist hsub
  vetted conn hconn := h.vetted conn (hlog ▸ hconn)
  requested conn url hmem := by
    rw [hlog] at hmem ⊢
    exact h.requested conn url hmem
  resumed := by
    rw [hlog]
    exact h.resumed
  kept recent session old hsplit := by
    rw [hlog] at hsplit ⊢
    rcases h.kept recent session old hsplit with hin | hage | hrest
    · exact (hlost session hin).imp_right .inl
    · exact .inr (.inl (by omega))
    · exact .inr (.inr hrest)
  live session hsession := by
    rw [hlog]
    exact h.live session (hsub.subset hsession)
  times session hsession := (h.times session (hlog ▸ hsession)).trans hnow
  phase := by
    rw [hlog]
    exact hphase
  handle := by
    rw [hlog]
    exact hhandle

/-- Nothing happens to the sessions. -/
theorem Inv.beside (h : s.Inv text) (hlog : s'.log = s.log) (hnow : s.now ≤ s'.now)
    (htokens : s'.sessionTokens = s.sessionTokens)
    (hphase : ∀ conn, s'.phase = .zeroRtt conn ∨ s'.phase = .connecting conn ∨
      s'.phase = .http3 conn → Begun s.log conn)
    (hhandle : ∀ conn, s'.h3Send = some conn → Begun s.log conn) : s'.Inv text :=
  h.shrink hlog hnow (htokens ▸ List.Sublist.refl _) (fun _ hx => .inl (htokens ▸ hx)) hphase
    hhandle

/-- An action other than the record of a session keeps every reason for a session's loss. -/
theorem Kept.cons (h : s.Kept) (hlog : s'.log = a :: s.log) (hnow : s'.now = s.now)
    (ha : ∀ session, a ≠ .recorded session)
    (hlost : ∀ x ∈ s.sessionTokens, x ∈ s'.sessionTokens ∨ a = .rejected x.key) : s'.Kept := by
  intro recent session old hsplit
  rw [hlog] at hsplit
  rcases cons_eq_split hsplit with ⟨-, hnew, -⟩ | ⟨recent', rfl, hold⟩
  · exact absurd hnew (ha session)
  rw [hnow, hlog]
  rcases h recent' session old hold with hin | hage | hrejected | hcrowded
  · refine (hlost session hin).imp_right fun hrejected => .inr (.inl ?_)
    exact hrejected ▸ List.mem_cons_self
  · exact .inr (.inl hage)
  · exact .inr (.inr (.inl (List.mem_cons_of_mem a hrejected)))
  · exact .inr (.inr (.inr (hcrowded.mono fun o ho => List.mem_cons_of_mem a ho)))

theorem Inv.begin (h : s.Inv text) {zeroRtt : Bool} (hip : rejectForbiddenIp conn.ip = .ok ())
    (hzero : zeroRtt = true → ∃ session, Unrejected s.log session ∧ session.key = conn.host ∧
      s.now - session.time < sessionTokenTtl) : (s.begin conn zeroRtt).Inv text where
  bounded := h.bounded
  distinct := h.distinct
  vetted c hc := by
    obtain ⟨z, t, hmem⟩ := hc
    rcases List.mem_cons.mp hmem with hnew | hold
    · obtain ⟨rfl, -, -⟩ := Action.attempt.inj hnew
      exact hip
    · exact h.vetted c ⟨z, t, hold⟩
  requested c url hmem := by
    rcases List.mem_cons.mp hmem with hnew | hold
    · cases hnew
    · exact ⟨(h.requested c url hold).1.cons, (h.requested c url hold).2⟩
  resumed := h.resumed.cons fun c t hnew => by
    obtain ⟨rfl, rfl, rfl⟩ := Action.attempt.inj hnew
    exact hzero rfl
  kept := h.kept.cons rfl rfl (fun _ => Action.noConfusion) fun _ hx => .inl hx
  live session hsession := (h.live session hsession).cons Action.noConfusion
  times session hsession := by
    rcases List.mem_cons.mp hsession with hnew | hold
    · cases hnew
    · exact h.times session hold
  phase c hc := by
    have hthis : c = conn := by
      simp only [Transport.begin] at hc
      cases zeroRtt <;> simp_all
    rw [hthis]
    exact begun_attempt
  handle c hc := (h.handle c hc).cons

theorem Inv.stop (h : s.Inv text) : s.stop.Inv text := by
  refine h.beside rfl (Nat.le_refl _) rfl (fun conn hconn => ?_) h.handle
  rcases hconn with hc | hc | hc <;> cases hc

theorem hasValidSession_iff {host : String} : s.hasValidSession host = true ↔
    ∃ session ∈ s.sessionTokens, session.key = host ∧ s.now - session.time < sessionTokenTtl := by
  simp [hasValidSession]

/-- An address that was not rejected is connected to, with 0-RTT only on a valid session. -/
theorem Inv.begins (h : s.Inv text) {host : String} {ip : IpAddr} {begun : Except String Unit}
    {into0rtt : Bool} (hphase : s.phase = .lookup host) (hip : rejectForbiddenIp ip = .ok ()) :
    (s.begins host ip begun into0rtt).Inv text := by
  have hnone (conn : Conn) : ¬(s.phase = .zeroRtt conn ∨ s.phase = .connecting conn ∨
      s.phase = .http3 conn) := by
    rw [hphase]
    rintro (hc | hc | hc) <;> cases hc
  have hlooked : ∀ s₁ : Transport, s₁.Inv text →
      (match begun with
      | .error _ => s₁.stop
      | .ok () => s₁.begin ⟨s.nextId, host, ip⟩
        (s₁.storedCrypto && s₁.hasValidSession host && into0rtt)).Inv text := by
    intro s₁ h₁
    cases begun with
    | error _ => exact h₁.stop
    | ok _ =>
      refine h₁.begin hip fun hzero => ?_
      simp only [Bool.and_eq_true] at hzero
      obtain ⟨session, hmem, hkey, hage⟩ := hasValidSession_iff.mp hzero.1.2
      exact ⟨session, h₁.live session hmem, hkey, hage⟩
  unfold Transport.begins
  apply hlooked
  split
  · rename_i hstale
    simp only [Bool.and_eq_true, Bool.not_eq_true'] at hstale
    refine h.shrink rfl (Nat.le_refl _) remove_sublist (fun x hx => ?_)
      (fun conn hconn => absurd hconn (hnone conn)) h.handle
    by_cases hkey : x.key = host
    · refine .inr (Nat.le_of_not_lt fun hage => ?_)
      have hvalid := hasValidSession_iff.mpr ⟨x, hx, hkey, hage⟩
      rw [hstale.2] at hvalid
      cases hvalid
    · exact .inl (mem_remove.mpr ⟨hx, hkey⟩)
  · exact h

/-- The session of a host that rejects 0-RTT is forgotten. -/
theorem Inv.reject (h : s.Inv text) {host : String} (hphase : s'.phase = .idle)
    (hlog : s'.log = .rejected host :: s.log) (hnow : s'.now = s.now)
    (htokens : s'.sessionTokens = remove host s.sessionTokens) (hhandle : s'.h3Send = s.h3Send) :
    s'.Inv text where
  bounded := by
    rw [htokens]
    exact remove_sublist.length_le.trans h.bounded
  distinct := by
    rw [htokens]
    exact h.distinct.sublist remove_sublist
  vetted conn hconn := by
    rw [hlog] at hconn
    obtain ⟨z, t, hmem⟩ := hconn
    rcases List.mem_cons.mp hmem with hnew | hold
    · cases hnew
    · exact h.vetted conn ⟨z, t, hold⟩
  requested conn url hmem := by
    rw [hlog] at hmem ⊢
    rcases List.mem_cons.mp hmem with hnew | hold
    · cases hnew
    · exact ⟨(h.requested conn url hold).1.cons, (h.requested conn url hold).2⟩
  resumed := by
    rw [hlog]
    exact h.resumed.cons fun _ _ hnew => Action.noConfusion hnew
  kept := by
    refine h.kept.cons hlog hnow (fun _ => Action.noConfusion) fun x hx => ?_
    by_cases hkey : x.key = host
    · exact .inr (by rw [hkey])
    · exact .inl (htokens ▸ mem_remove.mpr ⟨hx, hkey⟩)
  live session hsession := by
    rw [htokens] at hsession
    rw [hlog]
    obtain ⟨hmem, hkey⟩ := mem_remove.mp hsession
    exact (h.live session hmem).cons fun heq => hkey (Action.rejected.inj heq).symm
  times session hsession := by
    rw [hlog] at hsession
    rw [hnow]
    rcases List.mem_cons.mp hsession with hnew | hold
    · cases hnew
    · exact h.times session hold
  phase conn hconn := by
    rw [hphase] at hconn
    rcases hconn with hc | hc | hc <;> cases hc
  handle conn hconn := by
    rw [hhandle] at hconn
    rw [hlog]
    exact (h.handle conn hconn).cons

/-- A session that is recorded for a host without one makes the others older by comparison: one
that has to go is crowded out. -/
theorem Inv.record (h : s.Inv text) {host oldest : String} {cert : Option (List UInt8)}
    (hs : s.recordSession host cert oldest = some s') : s'.Inv text := by
  unfold recordSession at hs
  cases cert with
  | none =>
    obtain rfl := Option.some.inj hs
    exact h
  | some cert =>
    dsimp only at hs
    split_ifs at hs with hknown
    · obtain rfl := Option.some.inj hs
      exact h
    obtain ⟨tokens, htokens, rfl⟩ := Option.map_eq_some_iff.mp hs
    obtain ⟨hlength, hsub, hlost⟩ := makeRoom_spec htokens h.distinct h.bounded
    have hfresh : ∀ x ∈ tokens, x.key ≠ host := by
      intro x hx hkey
      exact hknown (List.any_eq_true.mpr ⟨x, hsub.subset hx, by simpa using hkey⟩)
    have hother : ∀ x ∈ s.sessionTokens, host ≠ x.key := by
      intro x hx hkey
      exact hknown (List.any_eq_true.mpr ⟨x, hx, by simpa using hkey.symm⟩)
    exact {
      bounded := hlength
      distinct := List.nodup_cons.mpr ⟨fun hmem => by
        obtain ⟨x, hx, hkey⟩ := List.mem_map.mp hmem
        exact hfresh x hx hkey, h.distinct.sublist hsub⟩
      vetted := fun conn ⟨z, t, hmem⟩ => by
        rcases List.mem_cons.mp hmem with hnew | hold
        · cases hnew
        · exact h.vetted conn ⟨z, t, hold⟩
      requested := fun conn url hmem => by
        rcases List.mem_cons.mp hmem with hnew | hold
        · cases hnew
        · exact ⟨(h.requested conn url hold).1.cons, (h.requested conn url hold).2⟩
      resumed := h.resumed.cons fun _ _ hnew => Action.noConfusion hnew
      kept := fun recent session old hsplit => by
        rcases cons_eq_split hsplit with ⟨-, hnew, -⟩ | ⟨recent', rfl, hold⟩
        · obtain rfl := Action.recorded.inj hnew
          exact .inl List.mem_cons_self
        rcases h.kept recent' session old hold with hin | hage | hrejected | hcrowded
        · rcases hlost session hin with hstays | hage | ⟨hfull, hyounger⟩
          · exact .inl (List.mem_cons_of_mem _ hstays)
          · exact .inr (.inl hage)
          · refine .inr (.inr (.inr (crowdedOut_of_full (h.distinct.sublist hsub) hfull
              List.mem_cons_self hfresh (hother session hin)
              (h.times session (h.live session hin).recorded) fun o ho => ⟨?_, hyounger o ho⟩)))
            exact List.mem_cons_of_mem _ (h.live o (hsub.subset ho)).recorded
        · exact .inr (.inl hage)
        · exact .inr (.inr (.inl (List.mem_cons_of_mem _ hrejected)))
        · exact .inr (.inr (.inr (hcrowded.mono fun o ho => List.mem_cons_of_mem _ ho)))
      live := fun session hsession => by
        rcases List.mem_cons.mp hsession with rfl | hold
        · exact ⟨[], s.log, rfl, List.not_mem_nil⟩
        · exact (h.live session (hsub.subset hold)).cons Action.noConfusion
      times := fun session hsession => by
        rcases List.mem_cons.mp hsession with hnew | hold
        · obtain rfl := Action.recorded.inj hnew
          exact Nat.le_refl _
        · exact h.times session hold
      phase := fun conn hconn => (h.phase conn hconn).cons
      handle := fun conn hconn => (h.handle conn hconn).cons }

/-- A transport that takes a connection of its own. -/
theorem Inv.takes (h : s.Inv text) (hconn : Begun s.log conn) : (s.takes conn).Inv text := by
  refine h.beside rfl (Nat.le_refl _) rfl (fun c hc => ?_) h.handle
  rcases hc with hc | hc | hc <;> cases hc
  exact hconn

theorem Inv.accepted (h : s.Inv text) {accepted : Bool} {begun : Except String Unit}
    (hs : s.step text (.accepted accepted begun) = some s') : s'.Inv text := by
  simp only [step] at hs
  cases hphase : s.phase with
  | zeroRtt conn =>
    have hconn := h.phase conn (.inl hphase)
    rw [hphase] at hs
    dsimp only at hs
    split_ifs at hs
    · obtain rfl := Option.some.inj hs
      exact h.takes hconn
    let rejected : Transport := { s with
      phase := .idle, closed := conn.id :: s.closed
      sessionTokens := remove conn.host s.sessionTokens
      log := .rejected conn.host :: s.log }
    have hrejected : rejected.Inv text := h.reject rfl rfl rfl rfl rfl
    cases begun with
    | error _ =>
      obtain rfl := Option.some.inj hs
      exact hrejected
    | ok _ =>
      obtain rfl := Option.some.inj hs
      have hagain : (rejected.begin ⟨s.nextId, conn.host, conn.ip⟩ false).Inv text :=
        hrejected.begin (h.vetted conn hconn) fun hzero => Bool.noConfusion hzero
      exact hagain
  | _ =>
    rw [hphase] at hs
    cases hs

theorem Inv.http3 (h : s.Inv text) {ready : Bool} {cert : Option (List UInt8)} {oldest : String}
    (hs : s.step text (.http3 ready cert oldest) = some s') : s'.Inv text := by
  simp only [step] at hs
  cases hphase : s.phase with
  | http3 conn =>
    have hconn := h.phase conn (.inr (.inr hphase))
    rw [hphase] at hs
    refine Inv.record ?_ hs
    cases ready with
    | true =>
      refine h.beside rfl (Nat.le_refl _) rfl (fun c hc => ?_) fun c hc => ?_
      · rcases hc with hc | hc | hc <;> cases hc
      · obtain rfl := Option.some.inj hc
        exact hconn
    | false =>
      refine h.beside rfl (Nat.le_refl _) rfl (fun c hc => ?_) fun c hc => ?_
      · rcases hc with hc | hc | hc <;> cases hc
      · cases hc
  | _ =>
    rw [hphase] at hs
    cases hs

theorem Inv.request (h : s.Inv text) {url : Url} (hs : s.step text (.request url) = some s') :
    s'.Inv text := by
  simp only [step] at hs
  split at hs
  · rename_i conn hphase hconnected hhandle hvalid
    obtain rfl := Option.some.inj hs
    have hconn := h.handle conn hhandle
    exact {
      bounded := h.bounded
      distinct := h.distinct
      vetted := fun c ⟨z, t, hmem⟩ => by
        rcases List.mem_cons.mp hmem with hnew | hold
        · cases hnew
        · exact h.vetted c ⟨z, t, hold⟩
      requested := fun c u hmem => by
        rcases List.mem_cons.mp hmem with hnew | hold
        · obtain ⟨rfl, rfl⟩ := Action.request.inj hnew
          exact ⟨hconn.cons, hvalid⟩
        · exact ⟨(h.requested c u hold).1.cons, (h.requested c u hold).2⟩
      resumed := h.resumed.cons fun _ _ hnew => Action.noConfusion hnew
      kept := h.kept.cons rfl rfl (fun _ => Action.noConfusion) fun _ hx => .inl hx
      live := fun session hsession => (h.live session hsession).cons Action.noConfusion
      times := fun session hsession => by
        rcases List.mem_cons.mp hsession with hnew | hold
        · cases hnew
        · exact h.times session hold
      phase := fun c hc => (h.phase c hc).cons
      handle := fun c hc => (h.handle c hc).cons }
  · obtain rfl := Option.some.inj hs
    exact h
  · cases hs

theorem Inv.found (h : s.Inv text) {answer : Except String (List IpAddr)}
    {begun : Except String Unit} {into0rtt : Bool}
    (hs : s.step text (.found answer begun into0rtt) = some s') : s'.Inv text := by
  simp only [step] at hs
  cases hphase : s.phase with
  | lookup host =>
    rw [hphase] at hs
    cases answer with
    | error _ =>
      obtain rfl := Option.some.inj hs
      exact h.stop
    | ok ips =>
      cases ips with
      | nil =>
        obtain rfl := Option.some.inj hs
        exact h.stop
      | cons ip rest =>
        dsimp only at hs
        cases hip : rejectForbiddenIp ip with
        | error _ =>
          rw [hip] at hs
          obtain rfl := Option.some.inj hs
          exact h.stop
        | ok _ =>
          rw [hip] at hs
          obtain rfl := Option.some.inj hs
          exact h.begins hphase hip
  | _ =>
    rw [hphase] at hs
    cases hs

theorem Inv.step (h : s.Inv text) (hs : s.step text e = some s') : s'.Inv text := by
  cases e with
  | elapse nanos =>
    obtain rfl := Option.some.inj hs
    exact h.beside rfl (Nat.le_add_right _ _) rfl h.phase h.handle
  | connect host =>
    simp only [Transport.step] at hs
    split at hs
    · obtain rfl := Option.some.inj hs
      refine h.beside rfl (Nat.le_refl _) rfl (fun conn hconn => ?_) h.handle
      rcases hconn with hc | hc | hc <;> cases hc
    · obtain rfl := Option.some.inj hs
      exact h
    · cases hs
  | found answer begun into0rtt => exact h.found hs
  | accepted accepted begun => exact h.accepted hs
  | established result =>
    simp only [Transport.step] at hs
    split at hs
    · rename_i conn hphase
      obtain rfl := Option.some.inj hs
      exact h.takes (h.phase conn (.inr (.inl hphase)))
    · obtain rfl := Option.some.inj hs
      exact h.stop
    · cases hs
  | http3 ready cert oldest => exact h.http3 hs
  | dropped =>
    obtain rfl := Option.some.inj hs
    exact h.stop
  | disconnect =>
    simp only [Transport.step] at hs
    split at hs
    · obtain rfl := Option.some.inj hs
      exact h.beside rfl (Nat.le_refl _) rfl h.phase fun _ hconn => by cases hconn
    · cases hs
  | cleanup =>
    simp only [Transport.step] at hs
    split at hs
    · obtain rfl := Option.some.inj hs
      refine h.shrink rfl (Nat.le_refl _) retainYounger_sublist (fun x hx => ?_) h.phase h.handle
      by_cases hage : s.now - x.time < sessionTokenTtl
      · exact .inl (mem_retainYounger.mpr ⟨hx, hage⟩)
      · exact .inr (Nat.le_of_not_lt hage)
    · cases hs
  | lost id =>
    obtain rfl := Option.some.inj hs
    exact h.beside rfl (Nat.le_refl _) rfl h.phase h.handle
  | request url => exact h.request hs

theorem inv_new (storedCrypto : Bool) : (new storedCrypto).Inv text where
  bounded := Nat.zero_le _
  distinct := List.nodup_nil
  vetted conn hconn := by
    obtain ⟨_, _, hmem⟩ := hconn
    cases hmem
  requested _ _ hmem := absurd hmem List.not_mem_nil
  resumed recent _ _ _ hsplit := by simp [new] at hsplit
  kept recent _ _ hsplit := by simp [new] at hsplit
  live _ hsession := absurd hsession List.not_mem_nil
  times _ hsession := absurd hsession List.not_mem_nil
  phase _ hconn := by rcases hconn with hc | hc | hc <;> cases hc
  handle _ hconn := by cases hconn

/-- Whatever is done with a transport, in any order and with every `connect` dropped wherever:
at most 256 sessions are cached, one for each host; every connection goes to an address that
`reject_forbidden_ip` accepts, and every request over such a connection; 0-RTT is tried only
on a session of the host that is less than an hour old and was not rejected since; and a
session is lost only to its age, to a rejection, or to 256 other hosts recorded since. -/
theorem sessions_sound (text : Ipv6Addr → String) (storedCrypto : Bool)
    (events : List QuicEvent) :
    EachState (Transport.step text) (Sound text) (new storedCrypto) events := by
  have hstep (s : Transport) (e : QuicEvent) (s' : Transport) (h : s.Inv text) (_ : True)
      (hs : s.step text e = some s') : s'.Inv text := h.step hs
  have hall : EachState (Transport.step text) (Inv text) (new storedCrypto) events :=
    EachStep.eachState hstep (inv_new storedCrypto) (.of_forall fun _ _ => trivial)
  exact hall.imp fun _ h => h.toSound

/-! ### The connection of a request -/

/-- The HTTP/3 handle belongs to the connection, but while `connect` replaces it. -/
def Agrees (s : Transport) : Prop :=
  (∀ conn, s.phase ≠ .http3 conn) → ∀ conn, s.h3Send = some conn → s.connection = some conn

/-- A `connect` that is dropped while it makes the HTTP/3 client leaves no handle behind. -/
def DropsNoHandle (s : Transport) (e : QuicEvent) : Prop :=
  e = .dropped → ∀ conn, s.phase = .http3 conn → s.h3Send = none

/-- The connection that `connect` makes is newer than the one in use. -/
structure Newer (s : Transport) : Prop where
  handle : ∀ conn, s.h3Send = some conn → conn.id < s.nextId
  phase : ∀ conn, s.phase = .zeroRtt conn ∨ s.phase = .connecting conn ∨ s.phase = .http3 conn →
    conn.id < s.nextId ∧ ∀ old, s.h3Send = some old → old.id < conn.id
  taken : ∀ conn, s.phase = .http3 conn → s.connection = some conn

theorem recordSession_same {host oldest : String} {cert : Option (List UInt8)}
    (hs : s.recordSession host cert oldest = some s') : s'.phase = s.phase ∧
      s'.connection = s.connection ∧ s'.h3Send = s.h3Send ∧ s'.nextId = s.nextId := by
  unfold recordSession at hs
  cases cert with
  | none =>
    obtain rfl := Option.some.inj hs
    exact ⟨rfl, rfl, rfl, rfl⟩
  | some cert =>
    dsimp only at hs
    split_ifs at hs
    · obtain rfl := Option.some.inj hs
      exact ⟨rfl, rfl, rfl, rfl⟩
    · obtain ⟨tokens, -, rfl⟩ := Option.map_eq_some_iff.mp hs
      exact ⟨rfl, rfl, rfl, rfl⟩

/-- A step that keeps connection and handle, with no connection under way afterwards. -/
theorem Newer.rest (h : s.Newer) (hagrees : ∀ conn, s.h3Send = some conn → s.connection = some conn)
    (hphase : s'.phase = .idle ∨ ∃ host, s'.phase = .lookup host)
    (hconnection : s'.connection = s.connection) (hhandle : s'.h3Send = s.h3Send)
    (hid : s'.nextId = s.nextId) : s'.Newer ∧ s'.Agrees := by
  have hnone (conn : Conn) : ¬(s'.phase = .zeroRtt conn ∨ s'.phase = .connecting conn ∨
      s'.phase = .http3 conn) := by
    rcases hphase with hp | ⟨host, hp⟩ <;> rw [hp] <;> rintro (hc | hc | hc) <;> cases hc
  refine ⟨⟨fun conn hconn => ?_, fun conn hconn => absurd hconn (hnone conn),
    fun conn hconn => absurd (.inr (.inr hconn)) (hnone conn)⟩, fun _ conn hconn => ?_⟩
  · rw [hid]
    exact h.handle conn (hhandle ▸ hconn)
  · rw [hconnection]
    exact hagrees conn (hhandle ▸ hconn)

theorem Newer.begin (h : s.Newer) {zeroRtt : Bool} {host : String} {ip : IpAddr}
    (hagrees : ∀ conn, s.h3Send = some conn → s.connection = some conn) :
    (s.begin ⟨s.nextId, host, ip⟩ zeroRtt).Newer ∧
      (s.begin ⟨s.nextId, host, ip⟩ zeroRtt).Agrees := by
  refine ⟨⟨fun conn hconn => Nat.lt_succ_of_lt (h.handle conn hconn), fun conn hconn => ?_,
    fun conn hconn => ?_⟩, fun _ => hagrees⟩
  · have hthis : conn = ⟨s.nextId, host, ip⟩ := by
      simp only [Transport.begin] at hconn
      cases zeroRtt <;> simp_all
    rw [hthis]
    exact ⟨Nat.lt_succ_self _, h.handle⟩
  · simp only [Transport.begin] at hconn
    cases zeroRtt <;> cases hconn

theorem Newer.takes (h : s.Newer)
    (hphase : s.phase = .zeroRtt conn ∨ s.phase = .connecting conn) :
    (s.takes conn).Newer ∧ (s.takes conn).Agrees := by
  have hnewer := h.phase conn (hphase.imp_right .inl)
  refine ⟨⟨h.handle, fun c hc => ?_, fun c hc => ?_⟩, fun hnone => absurd rfl (hnone conn)⟩
  · rcases hc with hc | hc | hc <;> cases hc
    exact hnewer
  · cases hc
    rfl

/-- The events other than the drop of a future. -/
theorem Newer.step (h : s.Newer) (hagrees : s.Agrees) (he : e ≠ .dropped)
    (hs : s.step text e = some s') : s'.Newer ∧ s'.Agrees := by
  cases e with
  | dropped => exact absurd rfl he
  | elapse nanos =>
    obtain rfl := Option.some.inj hs
    exact ⟨⟨h.handle, h.phase, h.taken⟩, hagrees⟩
  | lost id =>
    obtain rfl := Option.some.inj hs
    exact ⟨⟨h.handle, h.phase, h.taken⟩, hagrees⟩
  | connect host =>
    simp only [Transport.step] at hs
    split at hs
    · rename_i host' hphase
      obtain rfl := Option.some.inj hs
      refine h.rest (hagrees fun conn hconn => ?_) (.inr ⟨_, rfl⟩) rfl rfl rfl
      rw [hphase] at hconn
      cases hconn
    · obtain rfl := Option.some.inj hs
      exact ⟨h, hagrees⟩
    · cases hs
  | found answer begun into0rtt =>
    simp only [Transport.step] at hs
    cases hphase : s.phase with
    | lookup host =>
      have hof := hagrees fun conn hconn => by
        rw [hphase] at hconn
        cases hconn
      have hstop : s.stop.Newer ∧ s.stop.Agrees := h.rest hof (.inl rfl) rfl rfl rfl
      rw [hphase] at hs
      cases answer with
      | error _ => exact Option.some.inj hs ▸ hstop
      | ok ips =>
        cases ips with
        | nil => exact Option.some.inj hs ▸ hstop
        | cons ip rest =>
          dsimp only at hs
          cases hip : rejectForbiddenIp ip with
          | error _ =>
            rw [hip] at hs
            exact Option.some.inj hs ▸ hstop
          | ok _ =>
            rw [hip] at hs
            obtain rfl := Option.some.inj hs
            have hlooked (s₁ : Transport) (h₁ : s₁.Newer) (hid : s₁.nextId = s.nextId)
                (hof₁ : ∀ conn, s₁.h3Send = some conn → s₁.connection = some conn)
                (zeroRtt : Bool) : (match begun with
                  | .error _ => s₁.stop
                  | .ok () => s₁.begin ⟨s.nextId, host, ip⟩ zeroRtt).Newer ∧ (match begun with
                  | .error _ => s₁.stop
                  | .ok () => s₁.begin ⟨s.nextId, host, ip⟩ zeroRtt).Agrees := by
              cases begun with
              | error _ => exact h₁.rest hof₁ (.inl rfl) rfl rfl rfl
              | ok _ => exact hid ▸ h₁.begin hof₁
            unfold Transport.begins
            split
            · exact hlooked { s with sessionTokens := remove host s.sessionTokens }
                ⟨h.handle, h.phase, h.taken⟩ rfl hof _
            · exact hlooked s h rfl hof _
    | _ =>
      rw [hphase] at hs
      cases hs
  | accepted accepted begun =>
    simp only [Transport.step] at hs
    cases hphase : s.phase with
    | zeroRtt conn =>
      have hof := hagrees fun c hc => by
        rw [hphase] at hc
        cases hc
      rw [hphase] at hs
      dsimp only at hs
      split_ifs at hs
      · obtain rfl := Option.some.inj hs
        exact h.takes (.inl hphase)
      let rejected : Transport := { s with
        phase := .idle, closed := conn.id :: s.closed
        sessionTokens := remove conn.host s.sessionTokens
        log := .rejected conn.host :: s.log }
      have hrejected : rejected.Newer ∧ rejected.Agrees := h.rest hof (.inl rfl) rfl rfl rfl
      cases begun with
      | error _ => exact Option.some.inj hs ▸ hrejected
      | ok _ =>
        obtain rfl := Option.some.inj hs
        have hagain : (rejected.begin ⟨s.nextId, conn.host, conn.ip⟩ false).Newer ∧
            (rejected.begin ⟨s.nextId, conn.host, conn.ip⟩ false).Agrees := hrejected.1.begin hof
        exact hagain
    | _ =>
      rw [hphase] at hs
      cases hs
  | established result =>
    simp only [Transport.step] at hs
    split at hs
    · rename_i conn hphase
      obtain rfl := Option.some.inj hs
      exact h.takes (.inr hphase)
    · rename_i conn e hphase
      obtain rfl := Option.some.inj hs
      refine h.rest (hagrees fun c hc => ?_) (.inl rfl) rfl rfl rfl
      rw [hphase] at hc
      cases hc
    · cases hs
  | http3 ready cert oldest =>
    simp only [Transport.step] at hs
    cases hphase : s.phase with
    | http3 conn =>
      have htaken := h.taken conn hphase
      have hid := (h.phase conn (.inr (.inr hphase))).1
      rw [hphase] at hs
      obtain ⟨hphase', hconnection', hhandle', hid'⟩ := recordSession_same hs
      have hidle : s'.phase = .idle := hphase'
      have hmade (c : Conn) (hc : s'.h3Send = some c) : c = conn := by
        rw [hhandle'] at hc
        cases ready with
        | true => exact (Option.some.inj hc).symm
        | false => cases hc
      have hkept : s'.connection = s.connection := by
        rw [hconnection']
        cases ready <;> rfl
      have hnext : s'.nextId = s.nextId := by
        rw [hid']
        cases ready <;> rfl
      have hnone (c : Conn) : ¬(s'.phase = .zeroRtt c ∨ s'.phase = .connecting c ∨
          s'.phase = .http3 c) := by
        rw [hidle]
        rintro (hc | hc | hc) <;> cases hc
      refine ⟨⟨fun c hc => ?_, fun c hc => absurd hc (hnone c),
        fun c hc => absurd (.inr (.inr hc)) (hnone c)⟩, fun _ c hc => ?_⟩
      · rw [hmade c hc, hnext]
        exact hid
      · rw [hmade c hc, hkept]
        exact htaken
    | _ =>
      rw [hphase] at hs
      cases hs
  | disconnect =>
    simp only [Transport.step] at hs
    split at hs
    · rename_i hphase
      obtain rfl := Option.some.inj hs
      refine ⟨⟨fun _ hc => ?_, fun c hc => ?_, fun c hc => ?_⟩, fun _ _ hc => ?_⟩
      · cases hc
      · exact ⟨(h.phase c hc).1, fun _ hold => by cases hold⟩
      · exact absurd (hphase.symm.trans hc) ConnectPhase.noConfusion
      · cases hc
    · cases hs
  | cleanup =>
    simp only [Transport.step] at hs
    split at hs
    · obtain rfl := Option.some.inj hs
      exact ⟨⟨h.handle, h.phase, h.taken⟩, hagrees⟩
    · cases hs
  | request url =>
    simp only [Transport.step] at hs
    split at hs
    · obtain rfl := Option.some.inj hs
      exact ⟨⟨h.handle, h.phase, h.taken⟩, hagrees⟩
    · obtain rfl := Option.some.inj hs
      exact ⟨h, hagrees⟩
    · cases hs

/-- A dropped `connect` keeps the handle of the connection unless it has a new connection and
an old handle. -/
theorem Newer.dropped (h : s.Newer) (hagrees : s.Agrees) :
    s.stop.Newer ∧ (s.stop.Agrees ↔ s.DropsNoHandle .dropped) := by
  have hnone (c : Conn) : ¬(s.stop.phase = .zeroRtt c ∨ s.stop.phase = .connecting c ∨
      s.stop.phase = .http3 c) := by
    rintro (hc | hc | hc) <;> cases hc
  refine ⟨⟨h.handle, fun c hc => absurd hc (hnone c),
    fun c hc => absurd (.inr (.inr hc)) (hnone c)⟩, fun hstop _ conn hphase => ?_,
    fun hdrops _ conn hconn => ?_⟩
  · by_contra hsome
    obtain ⟨old, hold⟩ := Option.ne_none_iff_exists'.mp hsome
    have hconnection : s.connection = some old := hstop (fun c hc => by cases hc) old hold
    rw [h.taken conn hphase] at hconnection
    have hnewer := (h.phase conn (.inr (.inr hphase))).2 old hold
    rw [Option.some.inj hconnection] at hnewer
    exact Nat.lt_irrefl _ hnewer
  · by_cases hphase : ∃ c, s.phase = .http3 c
    · obtain ⟨c, hphase⟩ := hphase
      have hconn' : s.h3Send = some conn := hconn
      rw [hdrops rfl c hphase] at hconn'
      cases hconn'
    · exact hagrees (fun c hc => hphase ⟨c, hc⟩) conn hconn

/-- The HTTP/3 handle that requests go out on is always that of the current connection, exactly
where no `connect` is dropped while it replaces a handle. -/
theorem handle_of_connection_iff (text : Ipv6Addr → String) (storedCrypto : Bool)
    (events : List QuicEvent) :
    EachState (Transport.step text) Agrees (new storedCrypto) events ↔
      EachStep (Transport.step text) DropsNoHandle (new storedCrypto) events := by
  have hstep (s : Transport) (e : QuicEvent) (s' : Transport) (_ : True) (hnewer : s.Newer)
      (hagrees : s.Agrees) (hs : s.step text e = some s') :
      s'.Newer ∧ (s'.Agrees ↔ s.DropsNoHandle e) := by
    by_cases he : e = .dropped
    · subst he
      obtain rfl := Option.some.inj hs
      exact hnewer.dropped hagrees
    · obtain ⟨hnewer', hagrees'⟩ := hnewer.step hagrees he hs
      exact ⟨hnewer', iff_of_true hagrees' fun hdropped => absurd hdropped he⟩
  have hnewer : (new storedCrypto).Newer := by
    refine ⟨fun _ hc => ?_, fun _ hc => ?_, fun _ hc => ?_⟩
    · cases hc
    · rcases hc with hc | hc | hc <;> cases hc
    · cases hc
  exact eachState_iff_eachStep hstep (fun _ _ => trivial) hnewer fun _ _ hc => by cases hc

end

end Transport

end Tachyon.Quic
