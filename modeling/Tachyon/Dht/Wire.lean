import Tachyon.Library.Varint
import Tachyon.Dht.Message

/-!
# The wire format

A message is written field by field, as the derived serializers write it, with two formats of
the repository's own: a signature is a pair of byte vectors and a time a number of
milliseconds. How postcard writes a single number, string or option is left open. Reading a
time back adds it to the epoch, which panics beyond what the platform's clock can hold.
-/

namespace Tachyon

/-- How postcard writes and reads what has no parts. -/
structure Postcard where
  u8 : Codec UInt8 UInt8
  /-- The index of a variant. -/
  variant : Codec UInt8 UInt32
  u64 : Codec UInt8 UInt64
  /-- A length, a `usize`. -/
  len : Codec UInt8 ℕ
  str : Codec UInt8 String
  /-- Whether an option has a value. -/
  tag : Codec UInt8 Bool

/-- Whatever postcard writes, it reads back. -/
structure Postcard.Lawful (w : Postcard) : Prop where
  u8 : w.u8.RoundTrips
  variant : w.variant.RoundTrips
  u64 : w.u64.RoundTrips
  len : w.len.RoundTrips
  str : w.str.RoundTrips
  tag : w.tag.RoundTrips

/-- The numbers as varints. -/
def Postcard.varints : Postcard :=
  ⟨Varint.byte, Varint.u32, Varint.u64, Varint.nat, Varint.str, Varint.bool⟩

theorem Postcard.varints_lawful : Postcard.varints.Lawful :=
  ⟨Varint.byte_roundTrips, Varint.u32_roundTrips, Varint.u64_roundTrips, Varint.nat_roundTrips,
    Varint.str_roundTrips, Varint.bool_roundTrips⟩

/-- The clock of a platform, with the last millisecond after the epoch that its `SystemTime`
holds. -/
structure SystemClock where
  maxMillis : ℕ

/-- Seconds in 64 bits. -/
def SystemClock.linux : SystemClock := ⟨(2 ^ 63 - 1) * 1000 + 999⟩

/-- Units of 100 ns since 1601 in 64 bits. -/
def SystemClock.windows : SystemClock := ⟨(2 ^ 63 - 1) / 10000 - 11644473600000⟩

/-- Why decoding stops early. -/
inductive WireError
  | malformed
  | panic
  deriving DecidableEq

abbrev WireReader := TokenReader UInt8 WireError

/-- The milliseconds that `serde_system_time::serialize` writes. -/
def SystemTime.millis (time : SystemTime) : UInt64 := UInt64.ofNat (time / 10 ^ 6).toNat

/-- `UNIX_EPOCH + Duration::from_millis`. -/
def SystemTime.ofMillis (millis : UInt64) : SystemTime := millis.toNat * 10 ^ 6

namespace Postcard

variable (w : Postcard) (clock : SystemClock)

/-! ### Writing -/

def writeVec {α : Type} (write : α → List UInt8) (as : List α) : List UInt8 :=
  w.len.write as.length ++ as.flatMap write

def writeOption {α : Type} (write : α → List UInt8) : Option α → List UInt8
  | none => w.tag.write false
  | some a => w.tag.write true ++ write a

def writeBytes (bytes : List UInt8) : List UInt8 := w.writeVec w.u8.write bytes

/-- An array has no length. -/
def writeId (id : NodeId) : List UInt8 := id.bytes.flatMap w.u8.write

/-- `DhtSignature::serialize`. -/
def writeSignature (s : DhtSignature) : List UInt8 := w.writeBytes s.sig ++ w.writeBytes s.publicKey

def writeNode (n : DhtNode) : List UInt8 :=
  w.writeId n.id ++ (w.str.write n.addr ++ w.u64.write (SystemTime.millis n.lastSeen))

/-- The fields of a message after its variant. -/
def writeMessage (msg : KademliaMessage) : List UInt8 :=
  match msg with
  | .ping senderId signature =>
    w.variant.write 0 ++ (w.writeId senderId ++ w.writeOption w.writeSignature signature)
  | .pong senderId signature =>
    w.variant.write 1 ++ (w.writeId senderId ++ w.writeOption w.writeSignature signature)
  | .findNode senderId target signature =>
    w.variant.write 2 ++ (w.writeId senderId ++
      (w.writeId target ++ w.writeOption w.writeSignature signature))
  | .findNodeResponse senderId nodes signature =>
    w.variant.write 3 ++ (w.writeId senderId ++
      (w.writeVec w.writeNode nodes ++ w.writeOption w.writeSignature signature))
  | .findValue senderId key signature =>
    w.variant.write 4 ++ (w.writeId senderId ++
      (w.writeBytes key ++ w.writeOption w.writeSignature signature))
  | .findValueResponse senderId value nodes signature =>
    w.variant.write 5 ++ (w.writeId senderId ++ (w.writeOption w.writeBytes value ++
      (w.writeVec w.writeNode nodes ++ w.writeOption w.writeSignature signature)))
  | .store senderId key value signature =>
    w.variant.write 6 ++ (w.writeId senderId ++
      (w.writeBytes key ++ (w.writeBytes value ++ w.writeOption w.writeSignature signature)))

/-! ### Reading -/

def readU8 : WireReader UInt8 := w.u8.reader .malformed

def readLen : WireReader ℕ := w.len.reader .malformed

def readStr : WireReader String := w.str.reader .malformed

def readU64 : WireReader UInt64 := w.u64.reader .malformed

def readVec {α : Type} (read : WireReader α) : WireReader (List α) := do
  let n ← w.readLen
  read.many n

def readOption {α : Type} (read : WireReader α) : WireReader (Option α) := do
  let isSome ← w.tag.reader .malformed
  if isSome then do
    let a ← read
    pure (some a)
  else pure none

def readBytes : WireReader (List UInt8) := w.readVec w.readU8

def readId : WireReader NodeId := do
  let bytes ← w.readU8.many 20
  if h : bytes.length = 20 then pure ⟨bytes, h⟩ else .fail .malformed

/-- `DhtSignature::deserialize`. -/
def readSignature : WireReader DhtSignature := do
  let sig ← w.readBytes
  let publicKey ← w.readBytes
  if h : sig.length = 64 ∧ publicKey.length = 32 then pure ⟨sig, publicKey, h.1, h.2⟩
  else .fail .malformed

/-- `serde_system_time::deserialize`. -/
def readTime : WireReader SystemTime := do
  let millis ← w.readU64
  if millis.toNat ≤ clock.maxMillis then pure (SystemTime.ofMillis millis) else .fail .panic

def readNode : WireReader DhtNode := do
  let id ← w.readId
  let addr ← w.readStr
  let lastSeen ← w.readTime clock
  pure ⟨id, addr, lastSeen⟩

def readNodes : WireReader (List DhtNode) := w.readVec (w.readNode clock)

def readMessage : WireReader KademliaMessage := do
  let variant ← w.variant.reader .malformed
  match variant.toNat with
  | 0 => do
    let senderId ← w.readId
    let signature ← w.readOption w.readSignature
    pure (.ping senderId signature)
  | 1 => do
    let senderId ← w.readId
    let signature ← w.readOption w.readSignature
    pure (.pong senderId signature)
  | 2 => do
    let senderId ← w.readId
    let target ← w.readId
    let signature ← w.readOption w.readSignature
    pure (.findNode senderId target signature)
  | 3 => do
    let senderId ← w.readId
    let nodes ← w.readNodes clock
    let signature ← w.readOption w.readSignature
    pure (.findNodeResponse senderId nodes signature)
  | 4 => do
    let senderId ← w.readId
    let key ← w.readBytes
    let signature ← w.readOption w.readSignature
    pure (.findValue senderId key signature)
  | 5 => do
    let senderId ← w.readId
    let value ← w.readOption w.readBytes
    let nodes ← w.readNodes clock
    let signature ← w.readOption w.readSignature
    pure (.findValueResponse senderId value nodes signature)
  | 6 => do
    let senderId ← w.readId
    let key ← w.readBytes
    let value ← w.readBytes
    let signature ← w.readOption w.readSignature
    pure (.store senderId key value signature)
  | _ => .fail .malformed

/-- `wire_encode`; postcard writes every value of these types. -/
def wireEncode (msg : KademliaMessage) : Option (List UInt8) := some (w.writeMessage msg)

/-- `wire_decode`; what follows the message is left unread. -/
def wireDecode (bytes : List UInt8) : Except WireError KademliaMessage :=
  match w.readMessage clock bytes with
  | .ok (msg, _) => .ok msg
  | .error e => .error e

end Postcard

/-! ### What is read back -/

/-- The node as it arrives: its time loses what is finer than a millisecond. -/
def DhtNode.received (n : DhtNode) : DhtNode :=
  { n with lastSeen := SystemTime.ofMillis (SystemTime.millis n.lastSeen) }

namespace KademliaMessage

/-- The nodes in a message. -/
def nodes : KademliaMessage → List DhtNode
  | findNodeResponse _ nodes _ | findValueResponse _ _ nodes _ => nodes
  | ping .. | pong .. | findNode .. | findValue .. | store .. => []

/-- The message as it arrives. -/
def received : KademliaMessage → KademliaMessage
  | findNodeResponse id nodes s => findNodeResponse id (nodes.map DhtNode.received) s
  | findValueResponse id value nodes s =>
    findValueResponse id value (nodes.map DhtNode.received) s
  | msg => msg

@[simp] theorem received_withSignature (s : Option DhtSignature) (msg : KademliaMessage) :
    (msg.withSignature s).received = msg.received.withSignature s := by
  cases msg <;> rfl

@[simp] theorem senderId_received (msg : KademliaMessage) :
    msg.received.senderId = msg.senderId := by
  cases msg <;> rfl

@[simp] theorem nodes_withSignature (s : Option DhtSignature) (msg : KademliaMessage) :
    (msg.withSignature s).nodes = msg.nodes := by
  cases msg <;> rfl

/-- A message whose times are whole arrives as it was sent. -/
theorem received_of_whole {msg : KademliaMessage} (h : ∀ n ∈ msg.nodes, n.received = n) :
    msg.received = msg := by
  cases msg with
  | findNodeResponse id nodes s =>
    have hnodes : nodes.map DhtNode.received = nodes :=
      (List.map_congr_left h).trans (List.map_id nodes)
    simp only [received, hnodes]
  | findValueResponse id value nodes s =>
    have hnodes : nodes.map DhtNode.received = nodes :=
      (List.map_congr_left h).trans (List.map_id nodes)
    simp only [received, hnodes]
  | _ => rfl

end KademliaMessage

theorem SystemTime.millis_ofMillis (millis : UInt64) :
    SystemTime.millis (SystemTime.ofMillis millis) = millis := by
  unfold SystemTime.millis SystemTime.ofMillis
  rw [Int.mul_ediv_cancel _ (by decide), Int.toNat_natCast, UInt64.ofNat_toNat]

namespace Postcard

variable {w : Postcard} {clock : SystemClock}

/-- A time is written as the time that is read for it. -/
theorem writeNode_received (n : DhtNode) : w.writeNode n.received = w.writeNode n := by
  unfold writeNode DhtNode.received
  rw [SystemTime.millis_ofMillis]

theorem writeVec_received (nodes : List DhtNode) :
    w.writeVec w.writeNode (nodes.map DhtNode.received) = w.writeVec w.writeNode nodes := by
  unfold writeVec
  rw [List.length_map, List.flatMap_map]
  simp only [writeNode_received]

/-- A message and what arrives of it are written alike. -/
theorem writeMessage_received (msg : KademliaMessage) :
    w.writeMessage msg.received = w.writeMessage msg := by
  cases msg <;> simp only [KademliaMessage.received, writeMessage, writeVec_received]

section RoundTrip

variable (hw : w.Lawful)

include hw

theorem readU8_reads (byte : UInt8) : w.readU8.Reads (w.u8.write byte) byte := hw.u8.reads _ byte

theorem reads_many (bytes : List UInt8) :
    (w.readU8.many bytes.length).Reads (bytes.flatMap w.u8.write) bytes :=
  TokenReader.Reads.many (List.forall₂_same.mpr fun byte _ => readU8_reads hw byte)

theorem readVec_reads {α β : Type} {read : WireReader β} {write : α → List UInt8} {as : List α}
    {bs : List β} (h : List.Forall₂ (fun a b => read.Reads (write a) b) as bs) :
    (w.readVec read).Reads (w.writeVec write as) bs :=
  (hw.len.reads _ as.length).bind (TokenReader.Reads.many h)

theorem readOption_reads {α : Type} {read : WireReader α} {write : α → List UInt8}
    (h : ∀ a, read.Reads (write a) a) (o : Option α) :
    (w.readOption read).Reads (w.writeOption write o) o := by
  cases o with
  | none =>
    intro rest
    unfold readOption writeOption
    rw [TokenReader.bind_of_ok (hw.tag.reads WireError.malformed false rest)]
    rfl
  | some a => exact (hw.tag.reads _ true).bind ((h a).bind_pure some)

theorem readBytes_reads (bytes : List UInt8) :
    w.readBytes.Reads (w.writeBytes bytes) bytes :=
  readVec_reads hw (List.forall₂_same.mpr fun byte _ => readU8_reads hw byte)

theorem readId_reads (id : NodeId) : w.readId.Reads (w.writeId id) id := by
  intro rest
  have hmany := reads_many hw id.bytes rest
  rw [id.length_eq] at hmany
  unfold readId
  rw [writeId, TokenReader.bind_of_ok hmany, dif_pos id.length_eq]
  rfl

theorem readSignature_reads (s : DhtSignature) :
    w.readSignature.Reads (w.writeSignature s) s := by
  intro rest
  unfold readSignature
  rw [writeSignature, List.append_assoc, TokenReader.bind_of_ok (readBytes_reads hw s.sig _),
    TokenReader.bind_of_ok (readBytes_reads hw s.publicKey rest),
    dif_pos ⟨s.sig_length, s.publicKey_length⟩]
  rfl

theorem readTime_reads {time : SystemTime} (h : (SystemTime.millis time).toNat ≤ clock.maxMillis) :
    (w.readTime clock).Reads (w.u64.write (SystemTime.millis time))
      (SystemTime.ofMillis (SystemTime.millis time)) := by
  intro rest
  have hmillis : w.readU64.Reads (w.u64.write (SystemTime.millis time)) (SystemTime.millis time) :=
    hw.u64.reads _ _
  unfold readTime
  rw [TokenReader.bind_of_ok (hmillis rest), if_pos h]
  rfl

theorem readNode_reads {n : DhtNode} (h : (SystemTime.millis n.lastSeen).toNat ≤ clock.maxMillis) :
    (w.readNode clock).Reads (w.writeNode n) n.received :=
  (readId_reads hw n.id).bind ((hw.str.reads _ n.addr).bind
    ((readTime_reads hw h).bind_pure (DhtNode.mk n.id n.addr)))

theorem readNodes_reads {nodes : List DhtNode}
    (h : ∀ n ∈ nodes, (SystemTime.millis n.lastSeen).toNat ≤ clock.maxMillis) :
    (w.readNodes clock).Reads (w.writeVec w.writeNode nodes) (nodes.map DhtNode.received) := by
  refine readVec_reads hw ?_
  rw [List.forall₂_map_right_iff, List.forall₂_same]
  exact fun n hn => readNode_reads hw (h n hn)

/-- A message is read as it arrives, if the clock can hold its times. -/
theorem readMessage_reads {msg : KademliaMessage}
    (h : ∀ n ∈ msg.nodes, (SystemTime.millis n.lastSeen).toNat ≤ clock.maxMillis) :
    (w.readMessage clock).Reads (w.writeMessage msg) msg.received := by
  have hsignature := readOption_reads hw (readSignature_reads hw)
  have hid := readId_reads hw
  have hbytes := readBytes_reads hw
  cases msg with
  | ping senderId signature =>
    exact (hw.variant.reads _ 0).bind ((hid senderId).bind ((hsignature signature).bind_pure _))
  | pong senderId signature =>
    exact (hw.variant.reads _ 1).bind ((hid senderId).bind ((hsignature signature).bind_pure _))
  | findNode senderId target signature =>
    exact (hw.variant.reads _ 2).bind ((hid senderId).bind
      ((hid target).bind ((hsignature signature).bind_pure _)))
  | findNodeResponse senderId nodes signature =>
    exact (hw.variant.reads _ 3).bind ((hid senderId).bind
      ((readNodes_reads hw h).bind ((hsignature signature).bind_pure _)))
  | findValue senderId key signature =>
    exact (hw.variant.reads _ 4).bind ((hid senderId).bind
      ((hbytes key).bind ((hsignature signature).bind_pure _)))
  | findValueResponse senderId value nodes signature =>
    exact (hw.variant.reads _ 5).bind ((hid senderId).bind ((readOption_reads hw hbytes value).bind
      ((readNodes_reads hw h).bind ((hsignature signature).bind_pure _))))
  | store senderId key value signature =>
    exact (hw.variant.reads _ 6).bind ((hid senderId).bind
      ((hbytes key).bind ((hbytes value).bind ((hsignature signature).bind_pure _))))

/-- What is encoded is decoded as it arrives. -/
theorem wireDecode_writeMessage {msg : KademliaMessage}
    (h : ∀ n ∈ msg.nodes, (SystemTime.millis n.lastSeen).toNat ≤ clock.maxMillis) :
    w.wireDecode clock (w.writeMessage msg) = .ok msg.received := by
  have hread := readMessage_reads hw h []
  rw [List.append_nil] at hread
  rw [wireDecode, hread]

end RoundTrip

end Postcard

end Tachyon
