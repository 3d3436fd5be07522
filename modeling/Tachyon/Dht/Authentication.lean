import Tachyon.Dht.Inbound

/-!
# Datagrams of others

A run of the receive loop is compared with the run without the datagrams of an adversary who
has no private key of a node in the table. Messages without a signature are accepted, so
such datagrams have an influence; with signatures they have none, unless they take the
answer of a request or a place under the rate limit from another message.
-/

namespace Tachyon

/-! ### The adversary -/

/-- An event of the receive loop: a datagram of the adversary, or any other event. -/
inductive MarkedEvent (Call : Type)
  | inserted (g : Datagram)
  | other (e : LoopEvent Call)

section Adversary

variable {Call : Type}

/-- The event itself. -/
def MarkedEvent.event : MarkedEvent Call → LoopEvent Call
  | .inserted g => .datagram g
  | .other e => e

/-- The events without those of the adversary. -/
def others (events : List (MarkedEvent Call)) : List (LoopEvent Call) :=
  events.filterMap fun
    | .inserted _ => none
    | .other e => some e

/-- The adversary of a set of public keys, which are those of the nodes in a table: no other
key has an identifier of one of them, and none of the datagrams bears a valid signature
under one of them. -/
structure Adversary (p : Primitives) (keys : Set (List UInt8)) (t : RoutingTable)
    (events : List (MarkedEvent Call)) : Prop where
  node_keys : ∀ n ∈ t.allNodes, ∃ key ∈ keys, p.publicKeyToNodeId key = n.id
  collision_free : ∀ key ∈ keys, ∀ key',
    p.publicKeyToNodeId key' = p.publicKeyToNodeId key → key' = key
  unforgeable : ∀ g, .inserted g ∈ events → ∀ msg, p.fromBytes (g.bytes.drop 8) = some msg →
    ∀ s, msg.signature = some s → p.verifies s.publicKey (p.signedBytes msg) s.sig = true →
      s.publicKey ∉ keys

/-- The adversary's messages bear signatures. -/
def Signed (p : Primitives) (events : List (MarkedEvent Call)) : Prop :=
  ∀ g, .inserted g ∈ events → ∀ msg, p.fromBytes (g.bytes.drop 8) = some msg →
    msg.signature ≠ none

/-- The runs with and without the adversary's datagrams, side by side. -/
def pairStep (p : Primitives) (sign : List UInt8 → DhtSignature)
    (s : Receiver Call × Receiver Call) :
    MarkedEvent Call → Option (Receiver Call × Receiver Call)
  | .inserted g => some (s.1.handle p sign (.datagram g), s.2)
  | .other e => some (s.1.handle p sign e, s.2.handle p sign e)

/-- A datagram of the adversary does not bear the number of a request that waits for an
answer, and the rate limit decides about every other one as in the run without them. -/
def Quiet (p : Primitives) (s : Receiver Call × Receiver Call) : MarkedEvent Call → Prop
  | .inserted g => ∀ requestId msg, g.accepted p = some (requestId, msg) →
      s.1.pending requestId = none
  | .other (.datagram g) => ∀ requestId msg, g.accepted p = some (requestId, msg) →
      s.1.pending requestId = none →
      (s.1.limit.count g.instant).exceeded = (s.2.limit.count g.instant).exceeded
  | .other (.register _ _) | .other (.unregister _) => True

instance Quiet.decidable (p : Primitives) (s : Receiver Call × Receiver Call) :
    (e : MarkedEvent Call) → Decidable (Quiet p s e)
  | .inserted g =>
    decidable_of_iff ((g.accepted p).all fun m => (s.1.pending m.1).isNone)
      (by simp [Quiet, Option.all_eq_true])
  | .other (.datagram g) =>
    decidable_of_iff ((g.accepted p).all fun m => (s.1.pending m.1).isSome ||
        (s.1.limit.count g.instant).exceeded == (s.2.limit.count g.instant).exceeded)
      (by
        constructor
        · intro h requestId msg haccepted hnone
          rw [haccepted, Option.all_some, hnone] at h
          simpa using h
        · intro h
          cases haccepted : g.accepted p with
          | none => rfl
          | some m =>
            rw [Option.all_some]
            cases hpending : s.1.pending m.1 with
            | none => simp [h m.1 m.2 haccepted hpending]
            | some call => rfl)
  | .other (.register _ _) => isTrue trivial
  | .other (.unregister _) => isTrue trivial

end Adversary

/-! ### Unknown senders -/

namespace RoutingTable

variable {t : RoutingTable} {i : ℕ}

theorem modifyBucket_eq_of_forall {f : KBucket → KBucket}
    (h : ∀ b, t.bucket i = some b → f b = b) : t.modifyBucket i f = t := by
  have hsame : t.buckets.modify i f = t.buckets := by
    refine List.ext_getElem? fun j => ?_
    have hbucket := bucket_modifyBucket (t := t) (i := i) (j := j) f
    change (t.buckets.modify i f)[j]? = _ at hbucket
    rw [hbucket]
    change (t.bucket j).map _ = t.bucket j
    cases hb : t.bucket j with
    | none => rfl
    | some b =>
      rw [Option.map_some]
      split
      · rename_i hij
        rw [h b (hij ▸ hb)]
      · rfl
  cases t
  rw [modifyBucket, RoutingTable.mk.injEq]
  exact ⟨rfl, hsame⟩

end RoutingTable

theorem handleMessage_of_unknown {d : KademliaDht} {msg : KademliaMessage} (now : SystemTime)
    (h : ¬∃ n ∈ d.routingTable.allNodes, n.id = msg.senderId) : d.handleMessage now msg = d := by
  unfold KademliaDht.handleMessage
  cases d.routingTable.bucketIndex msg.senderId with
  | none => rfl
  | some i =>
    have hsame : d.routingTable.modifyBucket i (KBucket.refresh now msg.senderId) =
        d.routingTable := by
      refine RoutingTable.modifyBucket_eq_of_forall fun b hb => ?_
      rcases KBucket.refresh_spec now msg.senderId b with ⟨-, heq⟩ | ⟨n, hfind, -⟩
      · exact heq
      · have hn := RoutingTable.mem_allNodes_of_bucket hb (List.mem_of_find?_eq_some hfind)
        have hid := List.find?_some hfind
        exact absurd ⟨n, hn, of_decide_eq_true hid⟩ h
    dsimp only
    rw [hsame]

/-- A message of an unknown sender changes nothing. -/
theorem processIncoming_of_unknown {d : KademliaDht} {msg : KademliaMessage} (p : Primitives)
    (now : SystemTime) (h : ¬∃ n ∈ d.routingTable.allNodes, n.id = msg.senderId) :
    (processIncoming p now msg d).1 = d := by
  have hsame := handleMessage_of_unknown now h
  rcases processIncoming_cases p now msg d with heq | ⟨senderId, key, value, signature, rfl,
    ⟨n, hn, hid⟩, -⟩
  · rw [heq, hsame]
  · rw [hsame] at hn
    exact absurd ⟨n, RoutingTable.mem_allNodes_of_findClosest hn, hid⟩ h

section Runs

variable {Call : Type} {p : Primitives} {sign : List UInt8 → DhtSignature}
  {keys : Set (List UInt8)} {s s' : Receiver Call} {events : List (MarkedEvent Call)}
  {g : Datagram}

/-- A message that passes the checks with a signature is signed with the key of its sender. -/
theorem accepted_signed {requestId : RequestId} {msg : KademliaMessage}
    (h : g.accepted p = some (requestId, msg)) :
    p.fromBytes (g.bytes.drop 8) = some msg ∧ ∀ s, msg.signature = some s →
      p.publicKeyToNodeId s.publicKey = msg.senderId ∧
        p.verifies s.publicKey (p.signedBytes msg) s.sig = true := by
  unfold Datagram.accepted at h
  by_cases hsize : g.bytes.length < 8 ∨ maxMessageSize < g.bytes.length
  · rw [if_pos hsize] at h
    cases h
  · rw [if_neg hsize] at h
    dsimp only at h
    cases hmsg : p.fromBytes (g.bytes.drop 8) with
    | none =>
      rw [hmsg] at h
      cases h
    | some decoded =>
      rw [hmsg] at h
      dsimp only at h
      cases hsignature : decoded.signature with
      | none =>
        rw [hsignature] at h
        obtain ⟨-, rfl⟩ := Prod.mk.inj (Option.some.inj h)
        refine ⟨rfl, fun s hs => ?_⟩
        rw [hsignature] at hs
        cases hs
      | some s =>
        rw [hsignature] at h
        dsimp only at h
        split at h
        · rename_i hverify
          obtain ⟨-, rfl⟩ := Prod.mk.inj (Option.some.inj h)
          refine ⟨rfl, fun s' hs' => ?_⟩
          obtain rfl := Option.some.inj (hsignature.symm.trans hs')
          unfold Primitives.verifyMessageSignature Primitives.verify at hverify
          split at hverify
          · cases hverify
          · rename_i hid
            exact ⟨not_not.mp hid, hverify⟩
        · cases h

/-- The sender of a signed message of the adversary is not in the table. -/
theorem Adversary.sender_unknown (h : Adversary p keys s.dht.routingTable events)
    (hsigned : Signed p events) (hg : .inserted g ∈ events) {requestId : RequestId}
    {msg : KademliaMessage} (haccepted : g.accepted p = some (requestId, msg)) :
    ¬∃ n ∈ s.dht.routingTable.allNodes, n.id = msg.senderId := by
  obtain ⟨hmsg, hverified⟩ := accepted_signed haccepted
  obtain ⟨signature, hsignature⟩ := Option.ne_none_iff_exists'.mp (hsigned g hg msg hmsg)
  obtain ⟨hid, hvalid⟩ := hverified signature hsignature
  rintro ⟨n, hn, hsender⟩
  obtain ⟨key, hkey, hnode⟩ := h.node_keys n hn
  have hsame := h.collision_free key hkey signature.publicKey
    (hid.trans (hsender.symm.trans hnode.symm))
  exact h.unforgeable g hg msg hmsg signature hsignature hvalid (hsame ▸ hkey)

/-- A signed datagram of the adversary that takes no answer changes only the rate limit. -/
theorem Adversary.receive_inserted (sign : List UInt8 → DhtSignature)
    (h : Adversary p keys s.dht.routingTable events) (hsigned : Signed p events)
    (hg : .inserted g ∈ events)
    (hquiet : ∀ requestId msg, g.accepted p = some (requestId, msg) →
      s.pending requestId = none) :
    (s.receive p sign g).1.dht = s.dht ∧ (s.receive p sign g).1.pending = s.pending := by
  rcases receive_cases p sign g s with ⟨-, heq⟩ | ⟨requestId, msg, haccepted,
    ⟨call, hcall, -⟩ | ⟨-, -, heq⟩ | ⟨-, -, heq⟩⟩
  · rw [heq]
    exact ⟨rfl, rfl⟩
  · rw [hquiet requestId msg haccepted] at hcall
    cases hcall
  · rw [heq]
    exact ⟨rfl, rfl⟩
  · rw [heq]
    exact ⟨processIncoming_of_unknown p g.now (h.sender_unknown hsigned hg haccepted), rfl⟩

/-- The same event in states that differ in the rate limit alone. -/
theorem handle_other (sign : List UInt8 → DhtSignature) (e : LoopEvent Call) (hdht : s.dht = s'.dht)
    (hpending : s.pending = s'.pending) (hquiet : Quiet p (s, s') (.other e)) :
    (s.handle p sign e).dht = (s'.handle p sign e).dht ∧
      (s.handle p sign e).pending = (s'.handle p sign e).pending := by
  obtain ⟨dht, pending, limit⟩ := s
  obtain ⟨dht', pending', limit'⟩ := s'
  dsimp only at hdht hpending
  subst hdht hpending
  cases e with
  | register requestId call => exact ⟨rfl, rfl⟩
  | unregister requestId => exact ⟨rfl, rfl⟩
  | datagram g =>
    unfold Receiver.handle
    dsimp only
    unfold Receiver.receive
    cases haccepted : g.accepted p with
    | none => exact ⟨rfl, rfl⟩
    | some accepted =>
      obtain ⟨requestId, msg⟩ := accepted
      dsimp only
      cases hcall : pending requestId with
      | some call => exact ⟨rfl, rfl⟩
      | none =>
        have hlimit : (limit.count g.instant).exceeded = (limit'.count g.instant).exceeded :=
          hquiet requestId msg haccepted hcall
        dsimp only
        rw [hlimit]
        split <;> exact ⟨rfl, rfl⟩

/-- The adversary knows no more of a table with the same contacts. -/
theorem Adversary.of_sameContacts {t t' : RoutingTable} {events' : List (MarkedEvent Call)}
    (h : Adversary p keys t events) (hsame : t.SameContacts t')
    (hsub : ∀ e ∈ events', e ∈ events) : Adversary p keys t' events' where
  node_keys n hn := by
    obtain ⟨m, hm, hid⟩ := hsame.mem_ids_iff.mp ⟨n, hn, rfl⟩
    rw [← hid]
    exact h.node_keys m hm
  collision_free := h.collision_free
  unforgeable g hg := h.unforgeable g (hsub _ hg)

/-- Two runs from states that differ in the rate limit alone. -/
theorem Adversary.same_dht (hadversary : Adversary p keys s.dht.routingTable events)
    (hsigned : Signed p events) (hdht : s.dht = s'.dht) (hpending : s.pending = s'.pending)
    (hquiet : EventRuns.EachStep (pairStep p sign) (Quiet p) (s, s') events) :
    (s.runLoop p sign (events.map MarkedEvent.event)).dht =
      (s'.runLoop p sign (others events)).dht := by
  induction events generalizing s s' with
  | nil => exact hdht
  | cons e events ih =>
    have hsub : ∀ e' ∈ events, e' ∈ e :: events := fun e' he' => List.mem_cons_of_mem e he'
    have hsigned' : Signed p events := fun g hg => hsigned g (hsub _ hg)
    cases e with
    | inserted g =>
      obtain ⟨hnone, hrest⟩ := hquiet _ rfl
      obtain ⟨hdht', hpending'⟩ :=
        hadversary.receive_inserted sign hsigned List.mem_cons_self hnone
      refine ih ?_ hsigned' (hdht'.trans hdht) (hpending'.trans hpending) hrest
      change Adversary p keys (s.receive p sign g).1.dht.routingTable events
      rw [hdht']
      exact hadversary.of_sameContacts (.refl _) hsub
    | other e =>
      obtain ⟨hsame, hrest⟩ := hquiet _ rfl
      obtain ⟨hdht', hpending'⟩ := handle_other sign e hdht hpending hsame
      refine ih ?_ hsigned' hdht' hpending' hrest
      exact hadversary.of_sameContacts (handle_spec p sign s e).1 hsub

/-- Signed datagrams of an adversary that take no answer of a request, and no place under the
rate limit, leave the hash table as it is without them. -/
theorem signed_datagrams_harmless (p : Primitives) (sign : List UInt8 → DhtSignature)
    (s : Receiver Call) (keys : Set (List UInt8)) (events : List (MarkedEvent Call))
    (hadversary : Adversary p keys s.dht.routingTable events) (hsigned : Signed p events)
    (hquiet : EventRuns.EachStep (pairStep p sign) (Quiet p) (s, s) events) :
    (s.runLoop p sign (events.map MarkedEvent.event)).dht =
      (s.runLoop p sign (others events)).dht :=
  hadversary.same_dht hsigned rfl rfl hquiet

end Runs

/-! ### A table of one node -/

/-- The key of the node in the table. -/
def nodeKeys : Set (List UInt8) := {List.replicate 32 1}

/-- A table of one node, `8080…`, heard of at time `0`; a request waits under the number `1`. -/
def oneNode : Receiver Unit where
  dht := ⟨.ofByte 0 0, .updated (.ofByte 0 0)
    [(0, ⟨⟨List.replicate 20 0x80, List.length_replicate⟩, "192.0.2.1:6881", 0⟩)], 0, fun _ => none⟩
  pending requestId := if requestId = 1 then some () else none
  limit := ⟨0, 0⟩

/-- The signature of the node itself. -/
def ownSign (_ : List UInt8) : DhtSignature :=
  ⟨List.replicate 64 0, List.replicate 32 3, List.length_replicate, List.length_replicate⟩

/-- The datagrams are of an adversary, and have an influence on the hash table. -/
def Influence (events : List (MarkedEvent Unit)) : Prop :=
  Adversary pingPrimitives nodeKeys oneNode.dht.routingTable events ∧
    (oneNode.runLoop pingPrimitives ownSign (events.map MarkedEvent.event)).dht ≠
      (oneNode.runLoop pingPrimitives ownSign (others events)).dht

/-- The key of a signature in a datagram of the adversary is not the node's. -/
def foreignSignature : MarkedEvent Unit → Bool
  | .inserted g => (decodePing (g.bytes.drop 8)).all fun msg =>
      msg.signature.all fun s => s.publicKey ≠ List.replicate 32 1
  | .other _ => true

/-- A message in a datagram of the adversary has a signature. -/
def hasSignature : MarkedEvent Unit → Bool
  | .inserted g => (decodePing (g.bytes.drop 8)).all fun msg => msg.signature.isSome
  | .other _ => true

theorem signed_of_hasSignature {events : List (MarkedEvent Unit)}
    (h : ∀ e ∈ events, hasSignature e = true) : Signed pingPrimitives events := by
  intro g hg msg hmsg hnone
  have hmsg : decodePing (g.bytes.drop 8) = some msg := hmsg
  have hsome : ((decodePing (g.bytes.drop 8)).all fun msg => msg.signature.isSome) = true :=
    h _ hg
  rw [hmsg, Option.all_some, hnone] at hsome
  cases hsome

theorem adversary_of_foreign {events : List (MarkedEvent Unit)}
    (h : ∀ e ∈ events, foreignSignature e = true) :
    Adversary pingPrimitives nodeKeys oneNode.dht.routingTable events where
  node_keys := by
    have hnode : ∀ n ∈ oneNode.dht.routingTable.allNodes,
        pingPrimitives.publicKeyToNodeId (List.replicate 32 1) = n.id := by
      decide +kernel
    exact fun n hn => ⟨_, rfl, hnode n hn⟩
  collision_free := by
    rintro key rfl key' hsame
    by_contra hne
    have hbytes := congrArg NodeId.bytes hsame
    change (List.replicate 32 (if key' = List.replicate 32 1 then 0x80 else 0x40)).take 20 =
      (List.replicate 32 (if List.replicate 32 1 = List.replicate 32 1 then 0x80 else 0x40)).take
        20 at hbytes
    rw [if_neg hne, if_pos rfl] at hbytes
    exact absurd hbytes (by decide)
  unforgeable := by
    intro g hg msg hmsg s hs _ hkey
    have hkey : s.publicKey = List.replicate 32 1 := hkey
    have hmsg : decodePing (g.bytes.drop 8) = some msg := hmsg
    have hforeign : ((decodePing (g.bytes.drop 8)).all fun msg =>
        msg.signature.all fun s => s.publicKey ≠ List.replicate 32 1) = true := h _ hg
    rw [hmsg, Option.all_some, hs, Option.all_some, hkey] at hforeign
    cases hforeign

/-- A signed ping of the adversary, and one of the node. -/
theorem signed_datagrams_harmless_two :
    (oneNode.runLoop pingPrimitives ownSign [.datagram (pingDatagram 0 0 0x40 (pingSignature 2) 1),
      .datagram (pingDatagram 0 0 0x80 [0] 2)]).dht =
    (oneNode.runLoop pingPrimitives ownSign [.datagram (pingDatagram 0 0 0x80 [0] 2)]).dht :=
  signed_datagrams_harmless pingPrimitives ownSign oneNode nodeKeys
    [.inserted (pingDatagram 0 0 0x40 (pingSignature 2) 1),
      .other (.datagram (pingDatagram 0 0 0x80 [0] 2))]
    (adversary_of_foreign (by decide +kernel)) (signed_of_hasSignature (by decide +kernel))
    (by decide +kernel)

/-- A signed ping under the number of the waiting request, and the pong of the node in answer. -/
def answerTaken : List (MarkedEvent Unit) :=
  [.inserted (pingDatagram 1 0 0x40 (pingSignature 2) 1),
    .other (.datagram (pingDatagram 1 1 0x80 [0] 1))]

/-- A hundred signed pings, and a ping of the node within the same second. -/
def placesTaken : List (MarkedEvent Unit) :=
  List.replicate 100 (.inserted (pingDatagram 0 0 0x40 (pingSignature 2) 1)) ++
    [.other (.datagram (pingDatagram 0 0 0x80 [0] 1))]

/-- An unsigned ping that pretends to come from the node refreshes it. A signed one that takes
the place of an answer, and signed ones that use up the rate limit, have an influence too. -/
theorem datagrams_influence : Influence [.inserted (pingDatagram 0 0 0x80 [0] 1)] ∧
    (Signed pingPrimitives answerTaken ∧ Influence answerTaken) ∧
    (Signed pingPrimitives placesTaken ∧ Influence placesTaken) := by
  refine ⟨⟨adversary_of_foreign (by decide +kernel), fun h => ?_⟩,
    ⟨signed_of_hasSignature (by decide +kernel), adversary_of_foreign (by decide +kernel),
      fun h => ?_⟩,
    ⟨signed_of_hasSignature (by decide +kernel), adversary_of_foreign (by decide +kernel),
      fun h => ?_⟩⟩
  all_goals
    refine absurd (congrArg (fun d => d.routingTable.nodesAt 159) h) ?_
    decide +kernel

end Tachyon
