import Tachyon.Core.UrlSafety
import Tachyon.Dht.Node
import Tachyon.Library.Selection
import Mathlib.Algebra.BigOperators.Group.List.Basic

/-!
# Buckets and the routing table

A bucket has twenty places and a cache of as many nodes that found it full. The table has
one bucket for each possible position of the first bit in which an identifier differs from
the local one. The time of the last activity, which only the refresh of idle buckets
reads, is left out.
-/

namespace Tachyon

/-! ### Subnets -/

/-- The text before the last colon. -/
def beforeLastColon (text : List Char) : List Char :=
  if ':' ∈ text then (text.rdropWhile (· ≠ ':')).dropLast else text

/-- `extract_subnet_key`: what the addresses of a /24 or a /48 network have in common. -/
def extractSubnetKey (addr : String) : Option String :=
  let host := (beforeLastColon addr.toList).dropWhile (· == '[')
  match parseIpAddr (trimEndMatches (String.ofList host) ']') with
  | some (.v4 ip) =>
    let a := toString ip.a.toNat
    let b := toString ip.b.toNat
    let c := toString ip.c.toNat
    some s!"{a}.{b}.{c}"
  | some (.v6 ip) =>
    let s0 := lowerHex ip.s0.toNat
    let s1 := lowerHex ip.s1.toNat
    let s2 := lowerHex ip.s2.toNat
    some s!"{s0}:{s1}:{s2}"
  | none => none

/-! ### Buckets -/

/-- `KBucket`. The nodes stand from the one heard of longest ago to the latest. -/
structure KBucket where
  nodes : List DhtNode
  replacementCache : List DhtNode
  deriving DecidableEq

namespace KBucket

/-- `KBucket::new`. -/
def new : KBucket := ⟨[], []⟩

/-- `is_full`. -/
def isFull (b : KBucket) : Bool := kBucketSize ≤ b.nodes.length

/-- `contains`. -/
def contains (b : KBucket) (id : NodeId) : Bool := b.nodes.any fun n => n.id = id

/-- `update`, with its answer. -/
def update (now : SystemTime) (node : DhtNode) (b : KBucket) : Bool × KBucket :=
  if b.contains node.id then
    (true, { b with nodes := b.nodes.eraseP (fun n => n.id = node.id) ++ [node.touch now] })
  else if !b.isFull then (true, { b with nodes := b.nodes ++ [node] })
  else
    let cache := if kBucketSize ≤ b.replacementCache.length then b.replacementCache.drop 1
      else b.replacementCache
    (false, { b with replacementCache := cache ++ [node] })

/-- `remove`, with its answer: the latest of the cache moves up. -/
def remove (id : NodeId) (b : KBucket) : Bool × KBucket :=
  if b.contains id then
    let nodes := b.nodes.eraseP fun n => n.id = id
    (true, ⟨nodes ++ b.replacementCache.getLast?.toList, b.replacementCache.dropLast⟩)
  else (false, b)

/-- `oldest`. -/
def oldest (b : KBucket) : Option DhtNode := b.nodes.head?

/-- `replace_oldest`. -/
def replaceOldest (b : KBucket) : KBucket :=
  match b.replacementCache.getLast? with
  | none => b
  | some replacement =>
    { nodes := if b.nodes.isEmpty then [] else replacement :: b.nodes.tail
      replacementCache := b.replacementCache.dropLast }

/-- The loop of `evict_stale` that fills up from the cache, given from its latest entry on:
the nodes, and what is left of the cache. -/
def refill (now : SystemTime) : List DhtNode → List DhtNode → List DhtNode × List DhtNode
  | [], nodes => (nodes, [])
  | candidate :: rest, nodes =>
    if kBucketSize ≤ nodes.length then (nodes, candidate :: rest)
    else if candidate.isStale now then refill now rest nodes
    else refill now rest (nodes ++ [candidate])

/-- `evict_stale`. -/
def evictStale (now : SystemTime) (b : KBucket) : KBucket :=
  let fresh := b.nodes.filter fun n => !n.isStale now
  let (nodes, rest) := refill now b.replacementCache.reverse fresh
  ⟨nodes, rest.reverse⟩

end KBucket

/-! ### The table -/

/-- `RoutingTable`. -/
structure RoutingTable where
  localId : NodeId
  buckets : List KBucket
  length_eq : buckets.length = numBuckets

namespace RoutingTable

/-- `RoutingTable::new`. -/
def new (localId : NodeId) : RoutingTable :=
  ⟨localId, List.replicate numBuckets .new, List.length_replicate⟩

/-- `bucket_index`. -/
def bucketIndex (t : RoutingTable) (remoteId : NodeId) : Option ℕ :=
  let lz := leadingZeros (xorDistance t.localId remoteId)
  if 160 ≤ lz then none else some (159 - lz)

/-- `bucket`. -/
def bucket (t : RoutingTable) (index : ℕ) : Option KBucket := t.buckets[index]?

/-- A change of one bucket, through `bucket_mut`. -/
def modifyBucket (t : RoutingTable) (index : ℕ) (f : KBucket → KBucket) : RoutingTable where
  localId := t.localId
  buckets := t.buckets.modify index f
  length_eq := by rw [List.length_modify, t.length_eq]

/-- The nodes of a bucket. -/
def nodesAt (t : RoutingTable) (index : ℕ) : List DhtNode :=
  (t.bucket index).elim [] KBucket.nodes

/-- `update`, with its answer. -/
def update (now : SystemTime) (node : DhtNode) (t : RoutingTable) : Bool × RoutingTable :=
  match t.bucketIndex node.id with
  | none => (false, t)
  | some i =>
    (((t.bucket i).elim false fun b => (b.update now node).1),
      t.modifyBucket i fun b => (b.update now node).2)

/-- `remove`, with its answer. -/
def remove (id : NodeId) (t : RoutingTable) : Bool × RoutingTable :=
  match t.bucketIndex id with
  | none => (false, t)
  | some i =>
    (((t.bucket i).elim false fun b => (b.remove id).1),
      t.modifyBucket i fun b => (b.remove id).2)

/-- `node_count`. -/
def nodeCount (t : RoutingTable) : ℕ := (t.buckets.map fun b => b.nodes.length).sum

/-- `cleanup_stale`. -/
def cleanupStale (now : SystemTime) (t : RoutingTable) : RoutingTable where
  localId := t.localId
  buckets := t.buckets.map (KBucket.evictStale now)
  length_eq := by rw [List.length_map, t.length_eq]

/-- `count_nodes_in_subnet`. -/
def countNodesInSubnet (t : RoutingTable) (subnetKey : String) : ℕ :=
  (t.buckets.map fun b => b.nodes.countP fun n => extractSubnetKey n.addr = some subnetKey).sum

/-- The loop of `find_closest` over the buckets on both sides: the lowest and the highest
bucket it has reached, and the nodes it has found. -/
def expand (t : RoutingTable) (count : ℕ) :
    ℕ → ℕ → ℕ → List DhtNode → ℕ × ℕ × List DhtNode
  | 0, lo, hi, candidates => (lo, hi, candidates)
  | fuel + 1, lo, hi, candidates =>
    if count ≤ candidates.length ∨ (hi = numBuckets - 1 ∧ lo = 0) then (lo, hi, candidates)
    else
      let hi' := if hi < numBuckets - 1 then hi + 1 else hi
      let candidates := if hi < numBuckets - 1 then candidates ++ t.nodesAt hi' else candidates
      let lo' := lo - 1
      let candidates := if 0 < lo then candidates ++ t.nodesAt lo' else candidates
      expand t count fuel lo' hi' candidates

/-- The bucket `find_closest` starts from. -/
def center (t : RoutingTable) (target : NodeId) : ℕ := (t.bucketIndex target).getD 0

/-- What `find_closest` has gone through when it stops. -/
def visit (t : RoutingTable) (target : NodeId) (count : ℕ) : ℕ × ℕ × List DhtNode :=
  let center := t.center target
  t.expand count numBuckets center center (t.nodesAt center)

/-- The candidates without repeated identifiers. -/
def dedupById : List NodeId → List DhtNode → List DhtNode
  | _, [] => []
  | seen, n :: rest =>
    if n.id ∈ seen then dedupById seen rest else n :: dedupById (n.id :: seen) rest

/-- `find_closest`. The partial selection of the code leaves the first `count` in front; no
two of the candidates are at one distance. -/
def findClosest (t : RoutingTable) (target : NodeId) (count : ℕ) : List DhtNode :=
  let candidates := dedupById [] (t.visit target count).2.2
  Selection.smallest (fun n : DhtNode => xorDistance n.id target) count candidates

/-- All nodes, bucket by bucket. -/
def allNodes (t : RoutingTable) : List DhtNode := t.buckets.flatMap KBucket.nodes

end RoutingTable

end Tachyon
