import Tachyon.Dht.Wire

/-!
# Signed messages on the wire

A message is signed over what the sender writes without a signature, and verified over what
the receiver would write of the message it read. Both are the same bytes, although a time
loses its fraction of a millisecond on the way.
-/

namespace Tachyon

/-- Ed25519 as its package computes it. -/
structure Ed25519 where
  SigningKey : Type
  verifyingKey : SigningKey → List UInt8
  verifyingKey_length : ∀ key, (verifyingKey key).length = 32
  sign : SigningKey → List UInt8 → List UInt8
  sign_length : ∀ key message, (sign key message).length = 64
  /-- Whether the bytes are a key, and the signature of the message under it is valid. -/
  verifies : (publicKey message sig : List UInt8) → Bool

/-- A signature is valid under the key it was made for. -/
def Ed25519.Correct (ed : Ed25519) : Prop :=
  ∀ key message, ed.verifies (ed.verifyingKey key) message (ed.sign key message) = true

/-- The packages of a node. -/
structure Packages where
  postcard : Postcard
  blake3 : List UInt8 → List UInt8
  blake3_length : ∀ bytes, (blake3 bytes).length = 32
  ed25519 : Ed25519

namespace Packages

/-- What a node on a platform computes with its packages. -/
def primitives (k : Packages) (clock : SystemClock) : Primitives where
  blake3 := k.blake3
  blake3_length := k.blake3_length
  toAllocvec := k.postcard.wireEncode
  fromBytes bytes := (k.postcard.wireDecode clock bytes).toOption
  verifies := k.ed25519.verifies

/-- What the packages promise. -/
structure Lawful (k : Packages) : Prop where
  postcard : k.postcard.Lawful
  ed25519 : k.ed25519.Correct

end Packages

/-- `NodeIdentity`. -/
structure NodeIdentity (k : Packages) where
  signingKey : k.ed25519.SigningKey
  nodeId : NodeId
  nodeId_bytes : nodeId.bytes = (k.blake3 (k.ed25519.verifyingKey signingKey)).take 20

namespace NodeIdentity

variable {k : Packages}

/-- The identity of a signing key, as `generate` and `from_seed` make it. -/
def ofKey (key : k.ed25519.SigningKey) : NodeIdentity k :=
  ⟨key, ⟨(k.blake3 (k.ed25519.verifyingKey key)).take 20, by simp [k.blake3_length]⟩, rfl⟩

/-- `NodeIdentity::sign`. -/
def sign (identity : NodeIdentity k) (message : List UInt8) : DhtSignature where
  sig := k.ed25519.sign identity.signingKey message
  publicKey := k.ed25519.verifyingKey identity.signingKey
  sig_length := k.ed25519.sign_length _ _
  publicKey_length := k.ed25519.verifyingKey_length _

end NodeIdentity

namespace Packages

variable {k : Packages} {clock : SystemClock}

/-- The message with the signature of an identity. -/
def signed (k : Packages) (clock : SystemClock) (identity : NodeIdentity k)
    (msg : KademliaMessage) : KademliaMessage :=
  msg.setSignature ((k.primitives clock).signMessage identity.sign msg)

theorem signedBytes_eq (msg : KademliaMessage) :
    (k.primitives clock).signedBytes msg = k.postcard.writeMessage msg.clearSignature := rfl

/-- A signature binds the sender to its key and the message. -/
theorem verifyMessageSignature_iff {msg : KademliaMessage} {s : DhtSignature} :
    (k.primitives clock).verifyMessageSignature msg s = true ↔
      msg.senderId.bytes = (k.blake3 s.publicKey).take 20 ∧
        k.ed25519.verifies s.publicKey (k.postcard.writeMessage msg.clearSignature) s.sig =
          true := by
  unfold Primitives.verifyMessageSignature Primitives.verify
  rw [signedBytes_eq]
  by_cases h : (k.primitives clock).publicKeyToNodeId s.publicKey = msg.senderId
  · rw [if_neg (not_not.mpr h)]
    have hbytes : msg.senderId.bytes = (k.blake3 s.publicKey).take 20 := by
      rw [← h]
      rfl
    exact ⟨fun hv => ⟨hbytes, hv⟩, fun hv => hv.2⟩
  · rw [if_pos h]
    have hbytes : msg.senderId.bytes ≠ (k.blake3 s.publicKey).take 20 :=
      fun hsame => h (NodeId.eq_of_bytes hsame.symm)
    simp [hbytes]

/-- The signature of an identity holds for every message that writes as the one it signed. -/
theorem verifyMessageSignature_of_write (h : k.ed25519.Correct) {identity : NodeIdentity k}
    {msg msg' : KademliaMessage} (hsender : msg'.senderId = identity.nodeId)
    (hwrite : k.postcard.writeMessage msg'.clearSignature =
      k.postcard.writeMessage msg.clearSignature) :
    (k.primitives clock).verifyMessageSignature msg'
      ((k.primitives clock).signMessage identity.sign msg) = true := by
  rw [verifyMessageSignature_iff, hsender, hwrite]
  exact ⟨identity.nodeId_bytes, h identity.signingKey _⟩

/-- A message that is sent arrives as it was signed, without fractions of milliseconds, and its
signature holds there. -/
theorem signed_arrives (clock : SystemClock) (h : k.Lawful) {identity : NodeIdentity k}
    {msg : KademliaMessage}
    (hsender : msg.senderId = identity.nodeId)
    (hfits : ∀ n ∈ msg.nodes, (SystemTime.millis n.lastSeen).toNat ≤ clock.maxMillis) :
    k.postcard.wireDecode clock (k.postcard.writeMessage (k.signed clock identity msg)) =
        .ok (k.signed clock identity msg).received ∧
      (k.primitives clock).verifyMessageSignature (k.signed clock identity msg).received
        ((k.primitives clock).signMessage identity.sign msg) = true := by
  constructor
  · exact Postcard.wireDecode_writeMessage h.postcard (by
      rwa [signed, KademliaMessage.setSignature, KademliaMessage.nodes_withSignature])
  · refine verifyMessageSignature_of_write h.ed25519 ?_ ?_
    · simpa [signed, KademliaMessage.setSignature] using hsender
    · rw [← Postcard.writeMessage_received msg.clearSignature]
      simp [signed, KademliaMessage.setSignature, KademliaMessage.clearSignature]

end Packages

/-- The time is a whole number of milliseconds that the clock can hold. -/
def SystemClock.Whole (clock : SystemClock) (time : SystemTime) : Prop :=
  ∃ millis : UInt64, millis.toNat ≤ clock.maxMillis ∧ time = SystemTime.ofMillis millis

theorem SystemClock.Whole.millis_le {clock : SystemClock} {time : SystemTime}
    (h : clock.Whole time) : (SystemTime.millis time).toNat ≤ clock.maxMillis := by
  obtain ⟨millis, hle, rfl⟩ := h
  rwa [SystemTime.millis_ofMillis]

theorem SystemClock.Whole.received {clock : SystemClock} {n : DhtNode}
    (h : clock.Whole n.lastSeen) : n.received = n := by
  obtain ⟨millis, -, htime⟩ := h
  unfold DhtNode.received
  rw [htime, SystemTime.millis_ofMillis, ← htime]

/-- A signed message with whole times arrives as it was sent and is accepted; an accepted message
is that of its key; and a signed message with any times is accepted where it arrives. -/
theorem signed_message_round_trip (k : Packages) (clock : SystemClock) (hlawful : k.Lawful) :
    (∀ (identity : NodeIdentity k) (msg : KademliaMessage), msg.senderId = identity.nodeId →
      (∀ n ∈ msg.nodes, clock.Whole n.lastSeen) →
      ∃ s bytes, s = (k.primitives clock).signMessage identity.sign msg ∧
        k.postcard.wireEncode (msg.setSignature s) = some bytes ∧
        k.postcard.wireDecode clock bytes = .ok (msg.setSignature s) ∧
        (k.primitives clock).verifyMessageSignature (msg.setSignature s) s = true) ∧
    (∀ (msg : KademliaMessage) (s : DhtSignature),
      (k.primitives clock).verifyMessageSignature msg s = true →
      msg.senderId.bytes = (k.blake3 s.publicKey).take 20 ∧
        ∃ bytes, k.postcard.wireEncode msg.clearSignature = some bytes ∧
          k.ed25519.verifies s.publicKey bytes s.sig = true) ∧
    (∀ (identity : NodeIdentity k) (msg : KademliaMessage), msg.senderId = identity.nodeId →
      (∀ n ∈ msg.nodes, (SystemTime.millis n.lastSeen).toNat ≤ clock.maxMillis) →
      ∃ s bytes received, s = (k.primitives clock).signMessage identity.sign msg ∧
        k.postcard.wireEncode (msg.setSignature s) = some bytes ∧
        k.postcard.wireDecode clock bytes = .ok received ∧ received.signature = some s ∧
        (k.primitives clock).verifyMessageSignature received s = true) := by
  refine ⟨fun identity msg hsender hwhole => ?_, fun msg s haccepted => ?_,
    fun identity msg hsender hfits => ?_⟩
  · obtain ⟨hdecode, hverify⟩ := Packages.signed_arrives clock hlawful hsender
      fun n hn => (hwhole n hn).millis_le
    have hreceived : (k.signed clock identity msg).received = k.signed clock identity msg := by
      refine KademliaMessage.received_of_whole fun n hn => (hwhole n ?_).received
      rwa [Packages.signed, KademliaMessage.setSignature, KademliaMessage.nodes_withSignature] at hn
    rw [hreceived] at hdecode hverify
    exact ⟨_, _, rfl, rfl, hdecode, hverify⟩
  · obtain ⟨hid, hverifies⟩ := Packages.verifyMessageSignature_iff.mp haccepted
    exact ⟨hid, _, rfl, hverifies⟩
  · obtain ⟨hdecode, hverify⟩ := Packages.signed_arrives clock hlawful hsender hfits
    refine ⟨_, _, _, rfl, rfl, hdecode, ?_, hverify⟩
    simp [Packages.signed, KademliaMessage.setSignature]

/-- Packages in which a hash is the padded input, and a signature the key before the padded
message. -/
def paddingPackages : Packages where
  postcard := .varints
  blake3 bytes := (bytes ++ List.replicate 32 0).take 32
  blake3_length bytes := by simp
  ed25519 :=
    { SigningKey := UInt8
      verifyingKey := List.replicate 32
      verifyingKey_length := fun _ => List.length_replicate
      sign := fun key message => List.replicate 32 key ++ (message ++ List.replicate 32 0).take 32
      sign_length := fun key message => by simp
      verifies := fun publicKey message sig =>
        sig = publicKey ++ (message ++ List.replicate 32 0).take 32 }

theorem paddingPackages_lawful : paddingPackages.Lawful :=
  ⟨Postcard.varints_lawful, fun _ _ => decide_eq_true rfl⟩

/-- A node list with a time of the year 2024, signed and sent to a Windows machine. -/
theorem signed_node_list : ∃ (identity : NodeIdentity paddingPackages) (msg : KademliaMessage)
    (s : DhtSignature) (bytes : List UInt8),
    msg = .findNodeResponse identity.nodeId
      [⟨.ofByte 0 0x80, "192.0.2.1:6881", 1709251200000 * 10 ^ 6⟩] none ∧
    paddingPackages.postcard.wireEncode (msg.setSignature s) = some bytes ∧
    paddingPackages.postcard.wireDecode .windows bytes = .ok (msg.setSignature s) := by
  let identity : NodeIdentity paddingPackages := .ofKey (7 : UInt8)
  let node : DhtNode := ⟨.ofByte 0 0x80, "192.0.2.1:6881", 1709251200000 * 10 ^ 6⟩
  have hwhole : ∀ n ∈ [node], SystemClock.windows.Whole n.lastSeen := by
    intro n hn
    obtain rfl := List.mem_singleton.mp hn
    exact ⟨1709251200000, by decide, by decide⟩
  obtain ⟨s, bytes, -, hencode, hdecode, -⟩ :=
    (signed_message_round_trip paddingPackages .windows paddingPackages_lawful).1 identity
      (.findNodeResponse identity.nodeId [node] none) rfl hwhole
  exact ⟨identity, _, s, bytes, rfl, hencode, hdecode⟩

end Tachyon
