import Tachyon.Dht.Lookup

/-!
# Values in the network

`distributed_store` keeps a value and sends it to the closest nodes; `distributed_find_value`
asks the closest nodes, and not the node itself. This module says exactly when it finds a
value that the node has stored.
-/

namespace Tachyon

open RoutingTable (distanceTo dedupById)

/-- What the network does with the packets of a node. -/
structure Network where
  /-- The nodes that a query of a lookup brings. -/
  respond : ℕ → DhtNode → List DhtNode
  /-- `send_rpc` to the address of a node, `none` for an error. -/
  sendRpc : DhtNode → KademliaMessage → Option KademliaMessage
  /-- Whether the socket takes a packet to the address of a node. -/
  sendTo : DhtNode → List UInt8 → Bool
  /-- The number that the counter of the node gives to the message to a node. -/
  requestId : DhtNode → RequestId

/-- What changes the hash table of a node: an operation on its table, an inbound message, or a
value that the node stores itself. -/
inductive NodeOp
  | table (op : TableOp)
  | inbound (now : SystemTime) (msg : KademliaMessage)
  | store (key value : List UInt8)

/-- The key of a store. -/
def NodeOp.storedKey : NodeOp → Option (List UInt8)
  | .inbound _ (.store _ key _ _) | .store key _ => some key
  | _ => none

namespace KademliaDht

variable (p : Primitives)

/-- The hash table after an operation. -/
def perform (d : KademliaDht) : NodeOp → KademliaDht
  | .table op => d.apply op
  | .inbound now msg => (processIncoming p now msg d).1
  | .store key value => d.store key value

/-- `find_value_rpc` to the address of a node, `none` for an error. -/
def findValueRpc (node : DhtNode) (key : List UInt8) (net : Network) (d : KademliaDht) :
    Option (Option (List UInt8) × List DhtNode) :=
  (net.sendRpc node (.findValue d.localId key none)).map fun
    | .findValueResponse _ value nodes _ => (value, nodes)
    | _ => (none, [])

/-- The value that a node answers with. -/
def answer (key : List UInt8) (net : Network) (d : KademliaDht) (node : DhtNode) :
    Option (List UInt8) :=
  (d.findValueRpc node key net).bind Prod.fst

/-- `distributed_find_value`. -/
def distributedFindValue (key : List UInt8) (net : Network) (d : KademliaDht) :
    Option (Option (List UInt8)) :=
  (d.routingTable.iterativeFindNode (p.keyToNodeId key) net.respond).map fun closest =>
    closest.findSome? (d.answer key net)

/-- `distributed_store`: the number of packets sent, and the hash table with the value. Other
operations can run between the lookup and the store. -/
def distributedStore (sign : List UInt8 → DhtSignature) (key value : List UInt8) (net : Network)
    (atLookup atStore : KademliaDht) : Option (ℕ × KademliaDht) :=
  (atLookup.routingTable.iterativeFindNode (p.keyToNodeId key) net.respond).map fun closest =>
    let sent := closest.filter fun node =>
      (wirePacket p sign (net.requestId node) (.store atLookup.localId key value none)).any
        fun packet => net.sendTo node packet
    (sent.length, atStore.store key value)

/-! ### The value in the node -/

section Kept

variable {p} {d : KademliaDht} {key : List UInt8}

theorem localStore_store_of_ne {key' value : List UInt8} (h : key ≠ key') :
    (d.store key' value).localStore key = d.localStore key :=
  Function.update_of_ne h ..

/-- An operation that stores nothing for a key keeps its value. -/
theorem perform_localStore {op : NodeOp} (h : op.storedKey ≠ some key) :
    (d.perform p op).localStore key = d.localStore key := by
  cases op with
  | table op =>
    obtain ⟨t, heq⟩ := d.apply_eq op
    rw [perform, heq]
  | inbound now msg =>
    rw [perform]
    rcases processIncoming_cases p now msg d with heq |
      ⟨senderId, key', value, signature, rfl, -, heq⟩
    · rw [heq, d.handleMessage_localStore]
    · have hkey : key ≠ key' := fun hkey => h (congrArg some hkey.symm)
      rw [heq, localStore_store_of_ne hkey, d.handleMessage_localStore]
  | store key' value =>
    have hkey : key ≠ key' := fun hkey => h (congrArg some hkey.symm)
    exact localStore_store_of_ne hkey

/-- A stored value stays until the next store for its key. -/
theorem localStore_of_store (p : Primitives) (key value : List UInt8) (d : KademliaDht)
    {ops : List NodeOp} (h : ∀ op ∈ ops, op.storedKey ≠ some key) :
    (ops.foldl (perform p) (d.store key value)).localStore key = some value := by
  induction ops using List.reverseRecOn with
  | nil => exact Function.update_self ..
  | append_singleton ops op ih =>
    rw [List.foldl_append, List.foldl_cons, List.foldl_nil,
      perform_localStore (h op (List.mem_append_right _ List.mem_cons_self))]
    exact ih fun op hop => h op (List.mem_append_left _ hop)

end Kept

/-! ### The values in the network -/

/-- A store always succeeds. -/
theorem distributedStore_spec (p : Primitives) (sign : List UInt8 → DhtSignature)
    (key value : List UInt8) (net : Network) (atLookup atStore : KademliaDht) :
    ∃ count, distributedStore p sign key value net atLookup atStore =
      some (count, atStore.store key value) := by
  obtain ⟨l, -, -, hfind⟩ := atLookup.routingTable.lookup_spec (p.keyToNodeId key) net.respond
  rw [distributedStore, hfind]
  exact ⟨_, rfl⟩

/-- A store always succeeds and the node keeps the value until the next store for the key. A
lookup of the value returns it exactly when one of the closest nodes that it learns of answers
with it, and all that are closer answer with none. -/
theorem stored_value_found_iff (p : Primitives) (sign : List UInt8 → DhtSignature)
    (key value : List UInt8) (storeNet findNet : Network) (atLookup atStore : KademliaDht)
    (ops : List NodeOp) (hops : ∀ op ∈ ops, op.storedKey ≠ some key) :
    ∃ count d l,
      distributedStore p sign key value storeNet atLookup atStore =
        some (count, atStore.store key value) ∧
      ops.foldl (perform p) (atStore.store key value) = d ∧ d.localStore key = some value ∧
      d.routingTable.lookup (p.keyToNodeId key) findNet.respond = some l ∧
      (distributedFindValue p key findNet d = some (some value) ↔
        ∃ n ∈ Selection.smallest (distanceTo (p.keyToNodeId key)) kBucketSize (dedupById []
            (d.routingTable.findClosest (p.keyToNodeId key) kBucketSize ++ learnedIn l.rounds)),
          d.answer key findNet n = some value ∧
          ∀ m ∈ dedupById [] (d.routingTable.findClosest (p.keyToNodeId key) kBucketSize ++
              learnedIn l.rounds),
            distanceTo (p.keyToNodeId key) m < distanceTo (p.keyToNodeId key) n →
              d.answer key findNet m = none) := by
  obtain ⟨count, hstore⟩ := distributedStore_spec p sign key value storeNet atLookup atStore
  have hkept := localStore_of_store p key value atStore hops
  generalize ops.foldl (perform p) (atStore.store key value) = d at hkept
  obtain ⟨l, hl, hend, hfind⟩ := d.routingTable.lookup_spec (p.keyToNodeId key) findNet.respond
  refine ⟨count, d, l, hstore, rfl, hkept, hl, ?_⟩
  have hknown := hend.known
  have hkeys := RoutingTable.nodup_distances (p.keyToNodeId key) hend.nodup_known
  rw [distributedFindValue, hfind, Option.map_some, Option.some_inj,
    Selection.smallest_perm hkeys hknown,
    Selection.findSome?_smallest ((hknown.map _).nodup_iff.mp hkeys)]

/-- A network in which every peer answers with one value and no peer knows another. -/
def answering (value : Option (List UInt8)) : Network where
  respond _ _ := []
  sendRpc _ _ := some (.findValueResponse (.ofByte 0 0x80) value [] none)
  sendTo _ _ := true
  requestId _ := 0

/-- A peer that is met later has the value. -/
theorem stored_value_found_at_peer : distributedFindValue pingPrimitives [1] (answering (some [2]))
    ([NodeOp.store [3] [4], .table (.addNode 0 (crowdNode 0))].foldl (perform pingPrimitives)
      ((new (.ofByte 0 0) 100).store [1] [2])) = some (some [2]) := by
  obtain ⟨count, d, l, -, rfl, -, hl, hiff⟩ := stored_value_found_iff pingPrimitives
    (fun _ => ⟨List.replicate 64 0, List.replicate 32 0, rfl, rfl⟩) [1] [2] (answering none)
    (answering (some [2])) (new (.ofByte 0 0) 100) (new (.ofByte 0 0) 100)
    [.store [3] [4], .table (.addNode 0 (crowdNode 0))] (by decide)
  have hrounds : (some l).any (fun l => l.rounds = [[(crowdNode 0, [])]]) = true := by
    rw [← hl]
    decide +kernel
  have hrounds : l.rounds = [[(crowdNode 0, [])]] := of_decide_eq_true hrounds
  refine hiff.mpr ⟨crowdNode 0, ?_, rfl, ?_⟩ <;> rw [hrounds] <;> decide +kernel

/-- A node without contacts stores a value, and does not find it. -/
theorem stored_value_not_found : ∃ p sign key value storeNet findNet d count stored,
    distributedStore p sign key value storeNet d d = some (count, stored) ∧
      distributedFindValue p key findNet stored ≠ some (some value) := by
  refine ⟨pingPrimitives, fun _ => ⟨List.replicate 64 0, List.replicate 32 0, rfl, rfl⟩, [1], [2],
    answering none, answering none, new (.ofByte 0 0) 100, 0,
    (new (.ofByte 0 0) 100).store [1] [2], ?_, ?_⟩
  · have hnone : (new (.ofByte 0 0) 100).routingTable.iterativeFindNode
        (pingPrimitives.keyToNodeId [1]) (answering none).respond = some [] := by
      decide +kernel
    rw [distributedStore, hnone]
    rfl
  · decide +kernel

end KademliaDht

end Tachyon
