import Tachyon.Dht.BucketSteps
import Tachyon.Dht.Kademlia
import Tachyon.Library.EventRuns

/-!
# The order in a bucket

The nodes of a bucket should stand from the one heard of longest ago to the latest. A node that is
entered or refreshed goes to the end with the time of the clock. One that moves up from the cache
keeps its time: `remove` and `evict_stale` put it at the end, `replace_oldest` in front.
-/

namespace Tachyon

open EventRuns

/-- The operations of a bucket. The nodes of `update` come with the time of the clock. -/
inductive BucketOp where
  | update (node : DhtNode)
  | remove (id : NodeId)
  | replaceOldest
  | evictStale

namespace KBucket

/-- An operation at a time. -/
def apply (b : KBucket) (now : SystemTime) : BucketOp → KBucket
  | .update node => (b.update now (node.touch now)).2
  | .remove id => (b.remove id).2
  | .replaceOldest => b.replaceOldest
  | .evictStale => b.evictStale now

/-- From the node heard of longest ago to the latest. -/
def Sorted (nodes : List DhtNode) : Prop := nodes.Pairwise fun m n => m.lastSeen ≤ n.lastSeen

/-- The nodes stand from the one heard of longest ago to the latest, so that the candidate for a
ping or an eviction is one heard of longest ago. -/
structure LeastRecentFirst (b : KBucket) : Prop where
  sorted : Sorted b.nodes
  oldest : ∀ n, b.oldest = some n → ∀ m ∈ b.nodes, n.lastSeen ≤ m.lastSeen

/-- The nodes that move up from the cache were heard of at times that fit where they are put:
no earlier than the nodes in front of them, no later than those behind. -/
def Fits (b : KBucket) (now : SystemTime) : BucketOp → Prop
  | .update _ => True
  | .remove id => b.contains id = true → ∀ r ∈ b.replacementCache.getLast?.toList,
      ∀ n ∈ b.nodes.eraseP (fun n => n.id = id), n.lastSeen ≤ r.lastSeen
  | .replaceOldest => ∀ r ∈ b.replacementCache.getLast?.toList,
      ∀ n ∈ b.nodes.tail, r.lastSeen ≤ n.lastSeen
  | .evictStale => Sorted (b.promoted now) ∧
      ∀ n ∈ b.fresh now, ∀ r ∈ b.promoted now, n.lastSeen ≤ r.lastSeen

variable {b : KBucket} {now time : SystemTime}

theorem leastRecentFirst_iff : b.LeastRecentFirst ↔ Sorted b.nodes := by
  refine ⟨fun h => h.sorted, fun h => ⟨h, fun n hn m hm => ?_⟩⟩
  obtain ⟨rest, hrest⟩ := List.head?_eq_some_iff.mp hn
  rw [Sorted, hrest, List.pairwise_cons] at h
  rw [hrest] at hm
  rcases List.mem_cons.mp hm with rfl | hm
  · exact Int.le_refl _
  · exact h.1 m hm

/-- Nobody was heard of after the time of the clock. -/
def Past (b : KBucket) (now : SystemTime) : Prop := ∀ n ∈ b.members, n.lastSeen ≤ now

theorem Past.mono (h : b.Past now) (hle : now ≤ time) : b.Past time :=
  fun n hn => Int.le_trans (h n hn) hle

/-- An operation brings in no node but the one of `update`. -/
theorem Past.apply (h : b.Past now) (hle : now ≤ time) (op : BucketOp) :
    (b.apply time op).Past time := by
  intro n hn
  have hmembers : n ∈ b.members ∨ n.lastSeen = time := by
    cases op with
    | update node =>
      rcases mem_members_update hn with hn | rfl | rfl
      · exact Or.inl hn
      · exact Or.inr rfl
      · exact Or.inr rfl
    | remove id => exact Or.inl ((remove_subperm id b).subset hn)
    | replaceOldest => exact Or.inl ((replaceOldest_subperm b).subset hn)
    | evictStale => exact Or.inl ((evictStale_spec time b).2.1.subset hn)
  rcases hmembers with hn | heq
  · exact h.mono hle n hn
  · exact Int.le_of_eq heq

theorem sorted_append {nodes later : List DhtNode} (h : Sorted nodes) :
    Sorted (nodes ++ later) ↔
      Sorted later ∧ ∀ n ∈ nodes, ∀ r ∈ later, n.lastSeen ≤ r.lastSeen := by
  rw [Sorted, List.pairwise_append]
  exact and_iff_right h

/-- An entry with the time of the clock fits at the end. -/
theorem Past.sorted_concat {nodes : List DhtNode} {node : DhtNode} (h : b.Past now)
    (hle : now ≤ time) (hnodes : nodes ⊆ b.nodes) (hsorted : Sorted nodes)
    (hnode : node.lastSeen = time) : Sorted (nodes ++ [node]) := by
  refine (sorted_append hsorted).mpr ⟨List.pairwise_singleton _ node, fun n hn r hr => ?_⟩
  obtain rfl := List.mem_singleton.mp hr
  rw [hnode]
  exact h.mono hle n (List.mem_append_left _ (hnodes hn))

/-- A sorted bucket stays sorted exactly when what moves up from the cache fits. -/
theorem sorted_apply_iff (hpast : b.Past now) (hle : now ≤ time) (hsorted : Sorted b.nodes)
    (op : BucketOp) : Sorted (b.apply time op).nodes ↔ b.Fits time op := by
  cases op with
  | update node =>
    refine iff_of_true ?_ trivial
    change Sorted (b.update time (node.touch time)).2.nodes
    rcases update_cases time (node.touch time) b with ⟨-, heq⟩ | ⟨-, -, heq⟩ | ⟨-, -, heq⟩
    · rw [heq]
      exact hpast.sorted_concat hle List.eraseP_subset (hsorted.sublist List.eraseP_sublist) rfl
    · rw [heq]
      exact hpast.sorted_concat hle (List.Subset.refl _) hsorted rfl
    · rw [heq]
      exact hsorted
  | remove id =>
    change Sorted (b.remove id).2.nodes ↔ (b.contains id = true → _)
    rcases remove_cases id b with ⟨hnot, heq⟩ | ⟨hcontains, heq⟩
    · rw [heq, hnot]
      exact iff_of_true hsorted fun h => absurd h Bool.false_ne_true
    · rw [heq]
      have hkept : Sorted (b.nodes.eraseP fun n => n.id = id) :=
        hsorted.sublist List.eraseP_sublist
      have hsingle : Sorted b.replacementCache.getLast?.toList := by
        cases b.replacementCache.getLast? with
        | none => exact List.Pairwise.nil
        | some r => exact List.pairwise_singleton _ r
      refine (sorted_append hkept).trans ((and_iff_right hsingle).trans ?_)
      exact ⟨fun h _ r hr n hn => h n hn r hr, fun h n hn r hr => h hcontains r hr n hn⟩
  | replaceOldest =>
    change Sorted b.replaceOldest.nodes ↔
      ∀ r ∈ b.replacementCache.getLast?.toList, ∀ n ∈ b.nodes.tail, r.lastSeen ≤ n.lastSeen
    rcases replaceOldest_cases b with ⟨hcache, heq⟩ | ⟨rest, r, hcache, hnodes, heq⟩ |
      ⟨rest, r, n, ns, hcache, hnodes, heq⟩
    · rw [heq, hcache]
      exact iff_of_true hsorted fun r hr => absurd hr List.not_mem_nil
    · rw [heq, hnodes]
      exact iff_of_true List.Pairwise.nil fun r _ n hn => absurd hn List.not_mem_nil
    · rw [hnodes] at hsorted
      rw [heq, hcache, hnodes, List.getLast?_concat]
      change List.Pairwise _ (r :: ns) ↔ ∀ r' ∈ [r], ∀ n ∈ ns, r'.lastSeen ≤ n.lastSeen
      rw [List.pairwise_cons, List.forall_mem_singleton]
      exact and_iff_left (List.pairwise_cons.mp hsorted).2
  | evictStale =>
    change Sorted (b.evictStale time).nodes ↔ _
    rw [(evictStale_spec time b).1]
    exact sorted_append (hsorted.sublist List.filter_sublist)

end KBucket

/-! ### Runs -/

/-- A bucket, and the time of its last operation. -/
structure ClockedBucket where
  bucket : KBucket
  now : SystemTime

namespace ClockedBucket

/-- An operation on the bucket. The clock does not go back. -/
def step (s : ClockedBucket) (e : SystemTime × BucketOp) : Option ClockedBucket := do
  guard (s.now ≤ e.1)
  some ⟨s.bucket.apply e.1 e.2, e.1⟩

end ClockedBucket

/-- In a table whose buckets are in order, the node `evict_oldest` takes is one heard of longest
ago. -/
theorem RoutingTable.victim_le {t : RoutingTable} (h : t.Each fun _ b => b.LeastRecentFirst)
    {i : ℕ} {n m : DhtNode} (hn : t.victim = some (i, n)) (hm : m ∈ t.allNodes) :
    n.lastSeen ≤ m.lastSeen := by
  rw [RoutingTable.allNodes_eq, List.mem_flatMap] at hm
  obtain ⟨j, hj, hm⟩ := hm
  obtain ⟨b, hb, hm⟩ := RoutingTable.mem_nodesAt_iff.mp hm
  obtain ⟨o, ho⟩ : ∃ o, b.oldest = some o := by
    obtain ⟨o, rest, hnodes⟩ := List.exists_cons_of_ne_nil (List.ne_nil_of_mem hm)
    exact ⟨o, by rw [KBucket.oldest, hnodes, List.head?_cons]⟩
  have hoffered : (j, o) ∈ t.oldestNodes :=
    List.mem_filterMap.mpr ⟨j, hj, by rw [hb, Option.bind_some, ho, Option.map_some]⟩
  have hleast := List.le_of_mem_argmin hoffered hn
  exact Int.le_trans hleast ((h j b hb).oldest o ho m hm)

/-- Over the operations on a new bucket, its nodes are in order in every state exactly when each
node that moves up from the cache fits where it is put. In a table whose buckets are in order,
`evict_oldest` takes a node heard of longest ago. -/
theorem bucket_order_iff (start : SystemTime) (events : List (SystemTime × BucketOp)) :
    (EachState ClockedBucket.step (fun s => s.bucket.LeastRecentFirst) ⟨.new, start⟩ events ↔
      EachStep ClockedBucket.step (fun s e => s.bucket.Fits e.1 e.2) ⟨.new, start⟩ events) ∧
    ∀ t : RoutingTable, (t.Each fun _ b => b.LeastRecentFirst) → ∀ i n, t.victim = some (i, n) →
      ∀ m ∈ t.allNodes, n.lastSeen ≤ m.lastSeen := by
  refine ⟨?_, fun t ht i n hn m hm => t.victim_le ht hn hm⟩
  have hstep (s : ClockedBucket) (e : SystemTime × BucketOp) (s' : ClockedBucket) (_ : True)
      (hpast : s.bucket.Past s.now) (hordered : s.bucket.LeastRecentFirst)
      (h : s.step e = some s') :
      s'.bucket.Past s'.now ∧ (s'.bucket.LeastRecentFirst ↔ s.bucket.Fits e.1 e.2) := by
    obtain ⟨hle, h⟩ := guard_bind_eq_some.mp h
    obtain rfl := Option.some.inj h
    refine ⟨hpast.apply hle e.2, ?_⟩
    rw [KBucket.leastRecentFirst_iff]
    exact KBucket.sorted_apply_iff hpast hle hordered.sorted e.2
  refine eachState_iff_eachStep hstep (fun _ _ => trivial) ?_ ?_
  · exact fun n hn => absurd hn List.not_mem_nil
  · exact KBucket.leastRecentFirst_iff.mpr List.Pairwise.nil

/-- A node of the range of one bucket. -/
def neighbour (k : ℕ) : DhtNode := ⟨.ofByte 0 (0x80 + .ofNat k), "example.org:6881", 0⟩

/-- The twenty-first node finds the bucket full and waits in the cache. The first is heard of once
more, then the second leaves, and the one that moves up stands behind the first. -/
theorem moved_up_out_of_order : ¬∀ (start : SystemTime) (events : List (SystemTime × BucketOp)),
    EachState ClockedBucket.step (fun s => s.bucket.LeastRecentFirst) ⟨.new, start⟩ events := by
  intro h
  let events : List (SystemTime × BucketOp) :=
    ((List.range 21).map fun k : ℕ => ((k : ℤ), .update (neighbour k))) ++
      [(21, .update (neighbour 0)), (22, .remove (neighbour 1).id)]
  have hrun : (run ClockedBucket.step ⟨.new, 0⟩ events).any fun s =>
      decide ¬(s.bucket.nodes.map DhtNode.lastSeen).Pairwise (· ≤ ·) := by
    decide +kernel
  obtain ⟨s, hs, hnot⟩ := (Option.any_eq_true _ _).mp hrun
  have hsorted := ((h 0 events).last hs).sorted
  exact of_decide_eq_true hnot (List.pairwise_map.mpr hsorted)

end Tachyon
