import Tachyon.Dht.RecvLoop

/-!
# Requests and answers

`send_rpc` numbers its requests from a counter, and the receive loop gives a message to the
request that waits under its number. Other nodes number their requests from counters of
their own. This module says exactly when every answer goes to its request and every inbound
request is processed.
-/

namespace Tachyon

/-- A call of `send_rpc`: the count of its number, what it sends where, and whether its task
still waits. -/
structure RpcCall where
  number : ℕ
  targetAddr : String
  message : KademliaMessage
  live : Bool

/-- The number on the wire; the counter is an `AtomicU64`. -/
def requestIdOf (number : ℕ) : RequestId := UInt64.ofNat number

/-- A node with its calls: the receive loop, the next number, and what became of each datagram,
the latest first. A datagram that the addressed peer sent in answer to a call has its number. -/
structure RpcNode where
  receiver : Receiver RpcCall
  nextRequestId : ℕ
  log : List (Option ℕ × Outcome RpcCall)

/-- The state that `bind` and the start of the receive loop leave. -/
def RpcNode.new (dht : KademliaDht) (windowStart : ℕ) : RpcNode :=
  ⟨⟨dht, fun _ => none, ⟨windowStart, 0⟩⟩, 1, []⟩

/-- What happens at a node with calls. -/
inductive RpcEvent
  /-- `send_rpc` takes a number and registers its request. -/
  | call (targetAddr : String) (message : KademliaMessage)
  /-- A number for a message that waits for no answer. -/
  | skip
  /-- `send_rpc` returns an error before it waits; its request stays registered. -/
  | abandon (requestId : RequestId)
  /-- `send_rpc` gives up after five seconds. -/
  | timeout (requestId : RequestId)
  /-- A datagram that is no answer to a call: a request of a peer, or anything else. -/
  | inbound (g : Datagram)
  /-- The answer of the addressed peer to the call of a number. -/
  | answer (number : ℕ) (g : Datagram)

section Calls

variable (p : Primitives) (sign : List UInt8 → DhtSignature)

/-- What a peer that processes the request sends back: a response under the same number. -/
def Datagram.answers (number : ℕ) (g : Datagram) : Bool :=
  (g.accepted p).all fun m => m.1 = requestIdOf number && m.2.isResponse

/-- The node after a datagram. -/
def RpcNode.receive (origin : Option ℕ) (g : Datagram) (s : RpcNode) : RpcNode :=
  { s with
    receiver := (s.receiver.receive p sign g).1
    log := (origin, (s.receiver.receive p sign g).2) :: s.log }

/-- The node after an event; an answer answers a call that was made. -/
def RpcNode.step (s : RpcNode) : RpcEvent → Option RpcNode
  | .call targetAddr message =>
    some { s with
      receiver := s.receiver.handle p sign (.register (requestIdOf s.nextRequestId)
        ⟨s.nextRequestId, targetAddr, message, true⟩)
      nextRequestId := s.nextRequestId + 1 }
  | .skip => some { s with nextRequestId := s.nextRequestId + 1 }
  | .abandon requestId =>
    match s.receiver.pending requestId with
    | none => some s
    | some call =>
      some { s with
        receiver := s.receiver.handle p sign (.register requestId { call with live := false }) }
  | .timeout requestId =>
    some { s with receiver := s.receiver.handle p sign (.unregister requestId) }
  | .inbound g => some (s.receive p sign none g)
  | .answer number g =>
    if number < s.nextRequestId ∧ g.answers p number = true then
      some (s.receive p sign (some number) g)
    else none

/-- A message goes where it belongs: what a waiting call gets is a response, and the answer of
the addressed peer to this call; every request is processed. -/
def correlated : Option ℕ × Outcome RpcCall → Bool
  | (_, .dropped) | (_, .processed _ _) => true
  | (origin, .matched call msg) => msg.isResponse && (!call.live || origin = some call.number)
  | (_, .limited msg) => msg.isResponse

/-- All messages went where they belong. -/
def RpcNode.Correlated (s : RpcNode) : Prop := ∀ e ∈ s.log, correlated e = true

/-- The numbers tell the messages apart: no datagram bears the number of a waiting call but the
answers to it, and no request is over the rate limit or meets the entry of a call that failed. -/
def Distinguished (s : RpcNode) : RpcEvent → Bool
  | .call _ _ | .skip | .abandon _ | .timeout _ => true
  | .inbound g => (g.accepted p).all fun m =>
      match s.receiver.pending m.1 with
      | some call => !call.live && m.2.isResponse
      | none => m.2.isResponse || !(s.receiver.limit.count g.instant).exceeded
  | .answer number g => (g.accepted p).all fun m =>
      (s.receiver.pending m.1).all fun call => !call.live || call.number = number

variable {p sign} {s s' : RpcNode}

/-- The responses that a node sends are responses. -/
theorem processIncoming_isResponse {now : SystemTime} {msg response : KademliaMessage}
    {dht : KademliaDht} (h : (processIncoming p now msg dht).2 = some response) :
    response.isResponse = true := by
  unfold processIncoming at h
  cases msg with
  | ping | findNode | findValue =>
    obtain rfl := Option.some.inj h
    rfl
  | store =>
    dsimp only at h
    split at h <;> cases h
  | pong | findNodeResponse | findValueResponse => cases h

theorem correlated_receive_iff (origin : Option ℕ) (g : Datagram) (hs : s.Correlated) :
    (s.receive p sign origin g).Correlated ↔
      correlated (origin, (s.receiver.receive p sign g).2) = true := by
  constructor
  · exact fun h => h _ List.mem_cons_self
  · intro h e he
    rcases List.mem_cons.mp he with rfl | he
    · exact h
    · exact hs e he

/-- A step keeps every message where it belongs exactly when the numbers tell it apart. -/
theorem correlated_step_iff {e : RpcEvent} (hs : s.Correlated)
    (hstep : s.step p sign e = some s') : s'.Correlated ↔ Distinguished p s e = true := by
  cases e with
  | call targetAddr message =>
    obtain rfl := Option.some.inj hstep
    exact iff_of_true hs rfl
  | skip =>
    obtain rfl := Option.some.inj hstep
    exact iff_of_true hs rfl
  | abandon requestId =>
    unfold RpcNode.step at hstep
    dsimp only at hstep
    split at hstep
    · obtain rfl := Option.some.inj hstep
      exact iff_of_true hs rfl
    · obtain rfl := Option.some.inj hstep
      exact iff_of_true hs rfl
  | timeout requestId =>
    obtain rfl := Option.some.inj hstep
    exact iff_of_true hs rfl
  | inbound g =>
    obtain rfl := Option.some.inj hstep
    rw [correlated_receive_iff none g hs, Distinguished]
    rcases receive_cases p sign g s.receiver with ⟨haccepted, heq⟩ | ⟨requestId, msg, haccepted,
      ⟨call, hcall, heq⟩ | ⟨hnone, hlimit, heq⟩ | ⟨hnone, hlimit, heq⟩⟩
    · rw [heq, haccepted]
      exact iff_of_true rfl rfl
    · rw [heq, haccepted, Option.all_some]
      dsimp only
      rw [hcall]
      simp [correlated, and_comm]
    · rw [heq, haccepted, Option.all_some]
      dsimp only
      rw [hnone, hlimit]
      simp [correlated]
    · rw [heq, haccepted, Option.all_some]
      dsimp only
      rw [hnone, hlimit]
      simp [correlated]
  | answer number g =>
    unfold RpcNode.step at hstep
    dsimp only at hstep
    split at hstep
    · rename_i hanswer
      obtain rfl := Option.some.inj hstep
      rw [correlated_receive_iff (some number) g hs, Distinguished]
      rcases receive_cases p sign g s.receiver with ⟨haccepted, heq⟩ | ⟨requestId, msg, haccepted,
        ⟨call, hcall, heq⟩ | ⟨hnone, -, heq⟩ | ⟨hnone, -, heq⟩⟩
      · rw [heq, haccepted]
        exact iff_of_true rfl rfl
      all_goals
        have hresponse := hanswer.2
        rw [Datagram.answers, haccepted, Option.all_some, Bool.and_eq_true] at hresponse
      · rw [heq, haccepted, Option.all_some]
        dsimp only
        have hsame : some number = some call.number ↔ call.number = number := by
          rw [Option.some.injEq, eq_comm]
        rw [hcall, Option.all_some]
        simp only [correlated, hresponse.2, Bool.true_and, hsame]
      · rw [heq, haccepted, Option.all_some]
        dsimp only
        rw [hnone]
        exact iff_of_true hresponse.2 rfl
      · rw [heq, haccepted, Option.all_some]
        dsimp only
        rw [hnone]
        exact iff_of_true rfl rfl
    · cases hstep

end Calls

/-- In a run of calls and datagrams every message goes where it belongs, in every state, if and
only if at every datagram the numbers tell it apart. -/
theorem rpc_correlated_iff (p : Primitives) (sign : List UInt8 → DhtSignature) (dht : KademliaDht)
    (windowStart : ℕ) (events : List RpcEvent) :
    EventRuns.EachState (RpcNode.step p sign) RpcNode.Correlated (.new dht windowStart) events ↔
      EventRuns.EachStep (RpcNode.step p sign) (fun s e => Distinguished p s e = true)
        (.new dht windowStart) events :=
  @EventRuns.eachState_iff_eachStep _ _ (RpcNode.step p sign)
    (fun s e => Distinguished p s e = true) (fun _ => True) RpcNode.Correlated _ events
    (fun _ => True) (fun _ _ _ _ _ hs hstep => ⟨trivial, correlated_step_iff hs hstep⟩)
    (fun _ _ => trivial) trivial fun _ he => absurd he List.not_mem_nil

/-- Two nodes ping each other, both under the number `1`: the call gets the ping of the other. -/
theorem crossing_pings : ∃ p sign dht windowStart events,
    ¬EventRuns.EachState (RpcNode.step p sign) RpcNode.Correlated (.new dht windowStart)
      events := by
  let sign (_ : List UInt8) : DhtSignature := ⟨List.replicate 64 0, List.replicate 32 3,
    List.length_replicate, List.length_replicate⟩
  let dht := KademliaDht.new (.ofByte 0 0) 0
  let events : List RpcEvent := [.call "192.0.2.1:6881" dht.makePing,
    .inbound (pingDatagram 1 0 0x80 [0] 0)]
  refine ⟨pingPrimitives, sign, dht, 0, events, fun hstates => ?_⟩
  have hrun : (EventRuns.run (RpcNode.step pingPrimitives sign) (.new dht 0) events).any fun s =>
      s.log.any fun e => !correlated e := by
    decide +kernel
  obtain ⟨s, hs, hlog⟩ := (Option.any_eq_true _ _).mp hrun
  obtain ⟨e, he, hwrong⟩ := List.any_eq_true.mp hlog
  rw [hstates.last hs e he] at hwrong
  cases hwrong

end Tachyon
