import Tachyon.Dht.Kademlia

/-!
# The receive loop

What a node does with a datagram: the checks of its size, its format and its signature, the
requests of its own that wait for an answer, the limit on inbound requests, and
`process_incoming`. The tasks that send requests change the pending ones meanwhile.
-/

namespace Tachyon

/-- A datagram as the socket returns it, with the two clocks while it is handled. -/
structure Datagram where
  bytes : List UInt8
  srcAddr : String
  /-- The monotonic clock, in nanoseconds. -/
  instant : ℕ
  now : SystemTime

/-- `RequestId`. -/
abbrev RequestId := UInt64

/-- `u64::from_be_bytes`. -/
def RequestId.fromBeBytes (bytes : List UInt8) : RequestId :=
  UInt64.ofNat (BigEndian.value bytes)

/-- `u64::to_be_bytes`. -/
def RequestId.toBeBytes (requestId : RequestId) : List UInt8 :=
  (List.range 8).map fun i => UInt8.ofNat (requestId.toNat >>> (56 - 8 * i))

/-- `MAX_MESSAGE_SIZE`. -/
def maxMessageSize : ℕ := 8192

/-- `MAX_REQUESTS_PER_SEC`. -/
def maxRequestsPerSec : ℕ := 100

/-- What the checks of the loop let through: the request number and the message. A message
without a signature passes. -/
def Datagram.accepted (p : Primitives) (g : Datagram) : Option (RequestId × KademliaMessage) :=
  if g.bytes.length < 8 ∨ maxMessageSize < g.bytes.length then none
  else
    let requestId := RequestId.fromBeBytes (g.bytes.take 8)
    match p.fromBytes (g.bytes.drop 8) with
    | none => none
    | some msg =>
      match msg.signature with
      | none => some (requestId, msg)
      | some s => if p.verifyMessageSignature msg s then some (requestId, msg) else none

/-- The window of the rate limit. -/
structure RateLimit where
  windowStart : ℕ
  requestCount : UInt32
  deriving DecidableEq

namespace RateLimit

/-- One more inbound message; a window lasts a second. -/
def count (instant : ℕ) (l : RateLimit) : RateLimit :=
  if 10 ^ 9 ≤ instant - l.windowStart then ⟨instant, 1⟩
  else { l with requestCount := l.requestCount + 1 }

/-- The message counted last is over the limit. -/
def exceeded (l : RateLimit) : Bool := maxRequestsPerSec < l.requestCount.toNat

end RateLimit

/-- `process_incoming`, with the response to send back. -/
def processIncoming (p : Primitives) (now : SystemTime) (msg : KademliaMessage)
    (dht : KademliaDht) : KademliaDht × Option KademliaMessage :=
  let d := dht.handleMessage now msg
  match msg with
  | .ping _ _ => (d, some d.makePong)
  | .findNode _ target _ =>
    (d, some (d.makeFindNodeResponse (d.routingTable.findClosest target kBucketSize)))
  | .findValue _ key _ =>
    let (value, nodes) := d.findValueLocal p key
    (d, some (.findValueResponse d.localId value nodes none))
  | .store senderId key value _ =>
    if (d.routingTable.findClosest senderId kBucketSize).any fun n => n.id = senderId then
      (d.store key value, none)
    else (d, none)
  | .pong _ _ | .findNodeResponse _ _ _ | .findValueResponse _ _ _ _ => (d, none)

/-- The packet of a message under a request number, `none` where it cannot be encoded. -/
def wirePacket (p : Primitives) (sign : List UInt8 → DhtSignature) (requestId : RequestId)
    (msg : KademliaMessage) : Option (List UInt8) :=
  (p.toAllocvec (msg.setSignature (p.signMessage sign msg))).map fun payload =>
    RequestId.toBeBytes requestId ++ payload

/-- What the loop works on: the hash table, the requests of the node that wait for an answer,
and the rate limit. -/
structure Receiver (Call : Type) where
  dht : KademliaDht
  pending : RequestId → Option Call
  limit : RateLimit

/-- What becomes of a datagram. -/
inductive Outcome (Call : Type)
  /-- It does not pass the checks. -/
  | dropped
  /-- It goes to the request that waits under its number. -/
  | matched (call : Call) (msg : KademliaMessage)
  /-- It is over the rate limit. -/
  | limited (msg : KademliaMessage)
  /-- It is processed as an inbound message; a response goes back in a packet. -/
  | processed (msg : KademliaMessage) (packet : Option (List UInt8))

section Loop

variable {Call : Type} (p : Primitives) (sign : List UInt8 → DhtSignature)

/-- One turn of `recv_loop_inner`. -/
def Receiver.receive (g : Datagram) (s : Receiver Call) : Receiver Call × Outcome Call :=
  match g.accepted p with
  | none => (s, .dropped)
  | some (requestId, msg) =>
    match s.pending requestId with
    | some call =>
      ({ s with pending := Function.update s.pending requestId none }, .matched call msg)
    | none =>
      let limit := s.limit.count g.instant
      if limit.exceeded then ({ s with limit := limit }, .limited msg)
      else
        let (dht, response) := processIncoming p g.now msg s.dht
        ({ s with dht := dht, limit := limit },
          .processed msg (response.bind (wirePacket p sign requestId)))

/-- What changes the state of the loop: a datagram, or a task that registers or drops a
request of its own. -/
inductive LoopEvent (Call : Type)
  | datagram (g : Datagram)
  | register (requestId : RequestId) (call : Call)
  | unregister (requestId : RequestId)

/-- The state after an event. -/
def Receiver.handle (s : Receiver Call) : LoopEvent Call → Receiver Call
  | .datagram g => (s.receive p sign g).1
  | .register requestId call =>
    { s with pending := Function.update s.pending requestId (some call) }
  | .unregister requestId => { s with pending := Function.update s.pending requestId none }

/-- The state after a list of events. -/
def Receiver.runLoop (s : Receiver Call) (events : List (LoopEvent Call)) : Receiver Call :=
  events.foldl (Receiver.handle p sign) s

variable {p sign} {s : Receiver Call} {g : Datagram}

/-- What a turn of the loop does. -/
theorem receive_cases (p : Primitives) (sign : List UInt8 → DhtSignature) (g : Datagram)
    (s : Receiver Call) :
    (g.accepted p = none ∧ s.receive p sign g = (s, .dropped)) ∨
    ∃ requestId msg, g.accepted p = some (requestId, msg) ∧
      ((∃ call, s.pending requestId = some call ∧ s.receive p sign g =
        ({ s with pending := Function.update s.pending requestId none }, .matched call msg)) ∨
      (s.pending requestId = none ∧ (s.limit.count g.instant).exceeded = true ∧
        s.receive p sign g = ({ s with limit := s.limit.count g.instant }, .limited msg)) ∨
      (s.pending requestId = none ∧ (s.limit.count g.instant).exceeded = false ∧
        s.receive p sign g = ({ s with
          dht := (processIncoming p g.now msg s.dht).1
          limit := s.limit.count g.instant }, .processed msg
            ((processIncoming p g.now msg s.dht).2.bind (wirePacket p sign requestId))))) := by
  unfold Receiver.receive
  cases haccepted : g.accepted p with
  | none => exact Or.inl ⟨rfl, rfl⟩
  | some accepted =>
    obtain ⟨requestId, msg⟩ := accepted
    refine Or.inr ⟨requestId, msg, rfl, ?_⟩
    dsimp only
    cases hpending : s.pending requestId with
    | some call => exact Or.inl ⟨call, rfl, rfl⟩
    | none =>
      dsimp only
      cases hlimit : (s.limit.count g.instant).exceeded with
      | true => exact Or.inr (Or.inl ⟨rfl, rfl, if_pos rfl⟩)
      | false => exact Or.inr (Or.inr ⟨rfl, rfl, if_neg Bool.false_ne_true⟩)

/-- The part of `process_incoming` that can change the values: a `Store` of a sender that
`find_closest` finds. -/
theorem processIncoming_cases (p : Primitives) (now : SystemTime) (msg : KademliaMessage)
    (dht : KademliaDht) :
    (processIncoming p now msg dht).1 = dht.handleMessage now msg ∨
    ∃ senderId key value signature, msg = .store senderId key value signature ∧
      (∃ n ∈ (dht.handleMessage now msg).routingTable.findClosest senderId kBucketSize,
        n.id = senderId) ∧
      (processIncoming p now msg dht).1 = (dht.handleMessage now msg).store key value := by
  cases msg with
  | store senderId key value signature =>
    unfold processIncoming
    dsimp only
    split
    · rename_i hknown
      obtain ⟨n, hn, hid⟩ := List.any_eq_true.mp hknown
      exact Or.inr ⟨senderId, key, value, signature, rfl, ⟨n, hn, of_decide_eq_true hid⟩, rfl⟩
    · exact Or.inl rfl
  | ping | pong | findNode | findNodeResponse | findValue | findValueResponse => exact Or.inl rfl

end Loop

/-! ### Pings on the wire -/

/-- The decoder of pings and pongs, without a signature or with one. -/
def decodePing (bytes : List UInt8) : Option KademliaMessage :=
  if h : ((bytes.drop 1).take 20).length = 20 then
    let id : NodeId := ⟨(bytes.drop 1).take 20, h⟩
    let rest := bytes.drop 21
    let message (signature : Option DhtSignature) : Option KademliaMessage :=
      if bytes.head? = some 0 then some (.ping id signature)
      else if bytes.head? = some 1 then some (.pong id signature)
      else none
    if rest = [0] then message none
    else if h : rest.take 2 = [1, 64] ∧ ((rest.drop 2).take 64).length = 64 ∧
        rest[66]? = some 32 ∧ (rest.drop 67).length = 32 then
      message (some ⟨(rest.drop 2).take 64, rest.drop 67, h.2.1, h.2.2.2⟩)
    else none
  else none

/-- Primitives that decode only pings and pongs, under which every signature is valid, and in
which one key has an identifier of its own. -/
def pingPrimitives : Primitives where
  blake3 bytes := List.replicate 32 (if bytes = List.replicate 32 1 then 0x80 else 0x40)
  blake3_length _ := List.length_replicate
  toAllocvec _ := none
  fromBytes := decodePing
  verifies _ _ _ := true

/-- A datagram with a number below 256, the kind of the message, the sender and what follows. -/
def pingDatagram (number kind sender : UInt8) (signature : List UInt8) (now : SystemTime) :
    Datagram where
  bytes := List.replicate 7 0 ++ number :: kind :: List.replicate 20 sender ++ signature
  srcAddr := "198.51.100.1:6881"
  instant := 0
  now := now

/-- A signature under a key, as it follows the sender. -/
def pingSignature (key : UInt8) : List UInt8 :=
  [1, 64] ++ List.replicate 64 0 ++ [32] ++ List.replicate 32 key

end Tachyon
