import Tachyon.Dht.Buckets
import Tachyon.Dht.Message
import Tachyon.Library.EventRuns
import Mathlib.Data.List.MinMax

/-!
# The hash table of a node

The routing table with the rules for admitting nodes, and the values the node stores. Every
operation reads the clock once.
-/

namespace Tachyon

namespace KBucket

/-- The part of `handle_message` that refreshes the sender. -/
def refresh (now : SystemTime) (id : NodeId) (b : KBucket) : KBucket :=
  match b.nodes.find? fun n => n.id = id with
  | none => b
  | some node => (b.update now (node.touch now)).2

/-- The part of `evict_oldest` after the choice of the node: it is removed, and a node that is
then left in the cache is entered once more. -/
def evict (now : SystemTime) (id : NodeId) (b : KBucket) : KBucket :=
  let removed := (b.remove id).2
  match removed.replacementCache.getLast? with
  | none => removed
  | some replacement => (removed.update now replacement).2

end KBucket

namespace RoutingTable

/-- Whether a node is in its bucket. -/
def knows (t : RoutingTable) (id : NodeId) : Bool :=
  (t.bucketIndex id).elim false fun i => (t.bucket i).elim false fun b => b.contains id

/-- The first node of every bucket that has one. -/
def oldestNodes (t : RoutingTable) : List (ℕ × DhtNode) :=
  (List.range numBuckets).filterMap fun i =>
    ((t.bucket i).bind KBucket.oldest).map fun n => (i, n)

/-- The node to evict, with the index of its bucket: the first of those seen longest ago. -/
def victim (t : RoutingTable) : Option (ℕ × DhtNode) :=
  @List.argmin _ _ Int.instLinearOrder.toPreorder _ (fun v => v.2.lastSeen) t.oldestNodes

/-- `evict_oldest`. -/
def evictOldest (now : SystemTime) (t : RoutingTable) : RoutingTable :=
  match t.victim with
  | none => t
  | some (i, node) => t.modifyBucket i (KBucket.evict now node.id)

/-- Whether the check of `add_node` against many nodes of one subnet rejects an address. -/
def rejects (t : RoutingTable) (addr : String) : Bool :=
  match extractSubnetKey addr with
  | none => false
  | some subnetKey => 2 ≤ t.countNodesInSubnet subnetKey

end RoutingTable

/-- `KademliaDht`. -/
structure KademliaDht where
  localId : NodeId
  routingTable : RoutingTable
  maxNodes : ℕ
  localStore : List UInt8 → Option (List UInt8)

namespace KademliaDht

/-- `KademliaDht::new`. -/
def new (localId : NodeId) (maxNodes : ℕ) : KademliaDht :=
  ⟨localId, .new localId, maxNodes, fun _ => none⟩

/-- The number of nodes is limited, and reached. -/
def atLimit (d : KademliaDht) (t : RoutingTable) : Bool :=
  0 < d.maxNodes && d.maxNodes ≤ t.nodeCount

/-- What `add_node` does for a new node where the limit is reached: it cleans up, and if
that is not enough it evicts a node. -/
def makeRoom (now : SystemTime) (d : KademliaDht) : RoutingTable :=
  if d.atLimit d.routingTable then
    let t := d.routingTable.cleanupStale now
    if d.maxNodes ≤ t.nodeCount then t.evictOldest now else t
  else d.routingTable

/-- `add_node`. -/
def addNode (now : SystemTime) (node : DhtNode) (d : KademliaDht) : KademliaDht :=
  if d.routingTable.knows node.id then
    { d with routingTable := (d.routingTable.update now node).2 }
  else if d.routingTable.rejects node.addr then d
  else { d with routingTable := ((d.makeRoom now).update now node).2 }

/-- `cleanup_stale`. -/
def cleanupStale (now : SystemTime) (d : KademliaDht) : KademliaDht :=
  { d with routingTable := d.routingTable.cleanupStale now }

/-- `handle_message`. -/
def handleMessage (now : SystemTime) (msg : KademliaMessage) (d : KademliaDht) : KademliaDht :=
  match d.routingTable.bucketIndex msg.senderId with
  | none => d
  | some i =>
    { d with routingTable := d.routingTable.modifyBucket i (KBucket.refresh now msg.senderId) }

/-- `find_value_local`, and `find_value`, which has the same text. -/
def findValueLocal (p : Primitives) (key : List UInt8) (d : KademliaDht) :
    Option (List UInt8) × List DhtNode :=
  (d.localStore key, d.routingTable.findClosest (p.keyToNodeId key) kBucketSize)

/-- `store`. -/
def store (key value : List UInt8) (d : KademliaDht) : KademliaDht :=
  { d with localStore := Function.update d.localStore key (some value) }

/-- `make_pong`. -/
def makePong (d : KademliaDht) : KademliaMessage := .pong d.localId none

/-- `make_ping`. -/
def makePing (d : KademliaDht) : KademliaMessage := .ping d.localId none

/-- `make_find_node`. -/
def makeFindNode (target : NodeId) (d : KademliaDht) : KademliaMessage :=
  .findNode d.localId target none

/-- `make_find_node_response`. -/
def makeFindNodeResponse (nodes : List DhtNode) (d : KademliaDht) : KademliaMessage :=
  .findNodeResponse d.localId nodes none

end KademliaDht

/-! ### Runs -/

/-- The operations on the table of a node, with the time at which they run. -/
inductive TableOp
  | addNode (now : SystemTime) (node : DhtNode)
  | handleMessage (now : SystemTime) (msg : KademliaMessage)
  | cleanupStale (now : SystemTime)
  | update (now : SystemTime) (node : DhtNode)
  | remove (id : NodeId)
  | replaceOldest (index : ℕ)

/-- The hash table after an operation. -/
def KademliaDht.apply (d : KademliaDht) : TableOp → KademliaDht
  | .addNode now node => d.addNode now node
  | .handleMessage now msg => d.handleMessage now msg
  | .cleanupStale now => d.cleanupStale now
  | .update now node => { d with routingTable := (d.routingTable.update now node).2 }
  | .remove id => { d with routingTable := (d.routingTable.remove id).2 }
  | .replaceOldest index =>
    { d with routingTable := d.routingTable.modifyBucket index KBucket.replaceOldest }

/-- An operation changes the routing table only. -/
theorem KademliaDht.apply_eq (d : KademliaDht) (op : TableOp) :
    ∃ t, d.apply op = { d with routingTable := t } := by
  cases op with
  | addNode now node =>
    unfold apply addNode
    dsimp only
    split
    · exact ⟨_, rfl⟩
    · split <;> exact ⟨_, rfl⟩
  | handleMessage now msg =>
    unfold apply handleMessage
    dsimp only
    cases d.routingTable.bucketIndex msg.senderId <;> exact ⟨_, rfl⟩
  | cleanupStale | update | remove | replaceOldest => exact ⟨_, rfl⟩

/-- Operations happen in every state. -/
def KademliaDht.step (d : KademliaDht) (op : TableOp) : Option KademliaDht := some (d.apply op)

end Tachyon
