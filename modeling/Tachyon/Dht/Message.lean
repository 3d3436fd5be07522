import Tachyon.Dht.Node

/-!
# Messages of the hash table

The seven messages and their signatures. The hash, the signature scheme and the wire format
come from other packages; what a node does with a message is stated for any of them.
-/

namespace Tachyon

/-- `DhtSignature`. -/
structure DhtSignature where
  sig : List UInt8
  publicKey : List UInt8
  sig_length : sig.length = 64
  publicKey_length : publicKey.length = 32
  deriving DecidableEq

/-- `KademliaMessage`. -/
inductive KademliaMessage
  | ping (senderId : NodeId) (signature : Option DhtSignature)
  | pong (senderId : NodeId) (signature : Option DhtSignature)
  | findNode (senderId target : NodeId) (signature : Option DhtSignature)
  | findNodeResponse (senderId : NodeId) (nodes : List DhtNode)
      (signature : Option DhtSignature)
  | findValue (senderId : NodeId) (key : List UInt8) (signature : Option DhtSignature)
  | findValueResponse (senderId : NodeId) (value : Option (List UInt8)) (nodes : List DhtNode)
      (signature : Option DhtSignature)
  | store (senderId : NodeId) (key value : List UInt8) (signature : Option DhtSignature)
  deriving DecidableEq

namespace KademliaMessage

/-- `sender_id`. -/
def senderId : KademliaMessage → NodeId
  | ping id _ | pong id _ | findNode id _ _ | findNodeResponse id _ _ | findValue id _ _
  | findValueResponse id _ _ _ | store id _ _ _ => id

/-- `signature`. -/
def signature : KademliaMessage → Option DhtSignature
  | ping _ s | pong _ s | findNode _ _ s | findNodeResponse _ _ s | findValue _ _ s
  | findValueResponse _ _ _ s | store _ _ _ s => s

/-- The message with another signature. -/
def withSignature (s : Option DhtSignature) : KademliaMessage → KademliaMessage
  | ping id _ => ping id s
  | pong id _ => pong id s
  | findNode id target _ => findNode id target s
  | findNodeResponse id nodes _ => findNodeResponse id nodes s
  | findValue id key _ => findValue id key s
  | findValueResponse id value nodes _ => findValueResponse id value nodes s
  | store id key value _ => store id key value s

/-- `set_signature`. -/
def setSignature (s : DhtSignature) (msg : KademliaMessage) : KademliaMessage :=
  msg.withSignature (some s)

/-- `clear_signature`. -/
def clearSignature (msg : KademliaMessage) : KademliaMessage := msg.withSignature none

/-- The messages that answer a request. -/
def isResponse : KademliaMessage → Bool
  | pong .. | findNodeResponse .. | findValueResponse .. => true
  | ping .. | findNode .. | findValue .. | store .. => false

@[simp] theorem senderId_withSignature (s : Option DhtSignature) (msg : KademliaMessage) :
    (msg.withSignature s).senderId = msg.senderId := by
  cases msg <;> rfl

@[simp] theorem signature_withSignature (s : Option DhtSignature) (msg : KademliaMessage) :
    (msg.withSignature s).signature = s := by
  cases msg <;> rfl

@[simp] theorem withSignature_withSignature (s s' : Option DhtSignature) (msg : KademliaMessage) :
    (msg.withSignature s).withSignature s' = msg.withSignature s' := by
  cases msg <;> rfl

@[simp] theorem isResponse_withSignature (s : Option DhtSignature) (msg : KademliaMessage) :
    (msg.withSignature s).isResponse = msg.isResponse := by
  cases msg <;> rfl

end KademliaMessage

/-! ### Signatures -/

/-- What the other packages compute. -/
structure Primitives where
  /-- `blake3::hash`. -/
  blake3 : List UInt8 → List UInt8
  blake3_length : ∀ bytes, (blake3 bytes).length = 32
  /-- `postcard::to_allocvec`, `none` for an error. -/
  toAllocvec : KademliaMessage → Option (List UInt8)
  /-- `postcard::from_bytes`, `none` for an error. -/
  fromBytes : List UInt8 → Option KademliaMessage
  /-- Whether the bytes are a key, and the signature of the message under it is valid. -/
  verifies : (publicKey message sig : List UInt8) → Bool

namespace Primitives

variable (p : Primitives)

/-- The first twenty bytes of the hash. -/
def hashId (bytes : List UInt8) : NodeId where
  bytes := (p.blake3 bytes).take 20
  length_eq := by rw [List.length_take, p.blake3_length, Nat.min_eq_left (by decide)]

/-- `public_key_to_node_id`. -/
def publicKeyToNodeId (publicKey : List UInt8) : NodeId := p.hashId publicKey

/-- `key_to_node_id`. -/
def keyToNodeId (key : List UInt8) : NodeId := p.hashId key

/-- `DhtSignature::verify`. -/
def verify (s : DhtSignature) (message : List UInt8) (expectedSenderId : NodeId) : Bool :=
  if p.publicKeyToNodeId s.publicKey ≠ expectedSenderId then false
  else p.verifies s.publicKey message s.sig

/-- What a signature of the message signs. -/
def signedBytes (msg : KademliaMessage) : List UInt8 :=
  (p.toAllocvec msg.clearSignature).getD []

/-- `verify_message_signature`. -/
def verifyMessageSignature (msg : KademliaMessage) (s : DhtSignature) : Bool :=
  p.verify s (p.signedBytes msg) msg.senderId

/-- `sign_message`, for the key pair of an identity. -/
def signMessage (sign : List UInt8 → DhtSignature) (msg : KademliaMessage) : DhtSignature :=
  sign (p.signedBytes msg)

end Primitives

end Tachyon
