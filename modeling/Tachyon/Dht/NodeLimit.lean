import Tachyon.Dht.UniqueNodes
import Mathlib.Algebra.Order.BigOperators.Group.List
import Mathlib.Algebra.Order.Ring.Nat

/-!
# The number of nodes

`add_node` makes room where the limit is reached, but the eviction frees no place in a
bucket that has a cache. The number of active nodes is followed through every operation;
from it comes the exact condition under which the limit is kept.
-/

namespace Tachyon

/-! ### Lengths of buckets -/

namespace KBucket

variable {b : KBucket} {node : DhtNode} {now : SystemTime} {id localId : NodeId} {i : ℕ}

/-- The bucket takes the node as a new active one. -/
def hasPlace (id : NodeId) (b : KBucket) : Bool := !b.contains id && !b.isFull

theorem length_update (now : SystemTime) (node : DhtNode) (b : KBucket) :
    (b.update now node).2.nodes.length =
      b.nodes.length + if b.hasPlace node.id then 1 else 0 := by
  unfold hasPlace isFull
  rcases update_cases now node b with ⟨hcontains, heq⟩ | ⟨hnew, hroom, heq⟩ | ⟨hnew, hfull, heq⟩
  · have hlength := length_eraseP hcontains
    rw [heq, hcontains, List.length_append, List.length_singleton, hlength]
    rfl
  · rw [heq, hnew, decide_eq_false (not_le.mpr hroom), List.length_append]
    rfl
  · rw [heq, hnew, decide_eq_true hfull]
    rfl

/-- A cleanup leaves no more active nodes than there were. -/
theorem Sound.length_evictStale_le (now : SystemTime) (hb : Sound localId i b) :
    (b.evictStale now).nodes.length ≤ b.nodes.length := by
  by_cases hcache : b.replacementCache = []
  · have hpromoted : b.promoted now = [] := by
      rw [promoted, hcache, List.reverse_nil, List.filter_nil, List.take_nil]
    rw [(evictStale_spec now b).1, hpromoted, List.append_nil]
    exact List.filter_sublist.length_le
  · exact (length_evictStale now hb.nodes_le).trans (hb.full hcache)

/-- An eviction frees a place in a bucket without a cache. -/
theorem Sound.length_evict (now : SystemTime) (hb : Sound localId i b)
    (hc : b.contains id = true) :
    (b.evict now id).nodes.length + (if b.replacementCache = [] then 1 else 0) =
      b.nodes.length := by
  have hlength := length_eraseP hc
  by_cases hcache : b.replacementCache = []
  · have hle : b.replacementCache.length ≤ 1 := by
      rw [hcache]
      exact Nat.zero_le 1
    rw [if_pos hcache, (evict_of_le_one now hc hle).1]
    rcases remove_cases id b with ⟨hnot, -⟩ | ⟨-, heq⟩
    · rw [hc] at hnot
      cases hnot
    · rw [heq, hcache]
      exact (congrArg (· + 1) (congrArg List.length (List.append_nil _))).trans hlength
  · have hfull := hb.full hcache
    have hremoved : (b.remove id).2.nodes.length = b.nodes.length := by
      rcases remove_cases id b with ⟨hnot, -⟩ | ⟨-, heq⟩
      · rw [hc] at hnot
        cases hnot
      · rw [heq, List.length_append, List.getLast?_eq_some_getLast hcache]
        exact hlength
    rw [if_neg hcache, Nat.add_zero, ← hremoved]
    rcases evict_cases now id b with ⟨-, heq⟩ | ⟨rest, r, -, heq⟩
    · rw [heq]
    · have hplace : (b.remove id).2.hasPlace r.id = false := by
        rw [hasPlace, isFull, hremoved, decide_eq_true hfull, Bool.not_true, Bool.and_false]
      rw [heq, length_update, hplace, if_neg Bool.false_ne_true, Nat.add_zero]

end KBucket

/-! ### Sums over the buckets -/

namespace RoutingTable

variable {t : RoutingTable} {id : NodeId} {i : ℕ} {b : KBucket}

/-- A number for every bucket, added up. -/
def total (g : KBucket → ℕ) (t : RoutingTable) : ℕ := (t.buckets.map g).sum

theorem total_modifyBucket (g : KBucket → ℕ) (f : KBucket → KBucket) (hb : t.bucket i = some b) :
    (t.modifyBucket i f).total g + g b = t.total g + g (f b) := by
  unfold total modifyBucket
  dsimp only
  have hget : t.buckets[i]? = some b := hb
  clear hb
  generalize t.buckets = buckets at hget ⊢
  induction buckets generalizing i with
  | nil => cases hget
  | cons c buckets ih =>
    cases i with
    | zero =>
      obtain rfl := Option.some.inj hget
      rw [List.modify_zero_cons, List.map_cons, List.map_cons, List.sum_cons, List.sum_cons]
      omega
    | succ i =>
      have hrest := ih hget
      rw [List.modify_succ_cons, List.map_cons, List.map_cons, List.sum_cons, List.sum_cons]
      omega

theorem nodeCount_cleanupStale (now : SystemTime) (hs : t.Sound) :
    (t.cleanupStale now).nodeCount ≤ t.nodeCount := by
  unfold nodeCount cleanupStale
  rw [List.map_map]
  refine List.sum_le_sum fun b hb => ?_
  obtain ⟨i, hi⟩ := List.getElem?_of_mem hb
  exact (hs i b hi).length_evictStale_le now

/-- The table takes the node as a new active one. -/
def hasPlace (id : NodeId) (t : RoutingTable) : Bool :=
  (t.bucketIndex id).elim false fun i => (t.bucket i).elim false fun b => b.hasPlace id

/-- The node to evict is in a bucket without a cache. -/
def victimUncached (t : RoutingTable) : Bool :=
  t.victim.elim false fun v => (t.bucket v.1).elim false fun b => b.replacementCache.isEmpty

theorem nodeCount_update (now : SystemTime) (node : DhtNode) (t : RoutingTable) :
    (t.update now node).2.nodeCount = t.nodeCount + if t.hasPlace node.id then 1 else 0 := by
  unfold RoutingTable.update hasPlace
  cases hi : t.bucketIndex node.id with
  | none => rfl
  | some i =>
    obtain ⟨b, hb⟩ := t.bucket_isSome (bucketIndex_lt hi)
    have htotal := total_modifyBucket (fun b => b.nodes.length)
      (fun b => (b.update now node).2) hb
    dsimp only at htotal ⊢
    rw [KBucket.length_update] at htotal
    rw [Option.elim_some, hb, Option.elim_some]
    change total (fun b => b.nodes.length) _ = total (fun b => b.nodes.length) _ + _
    omega

/-- An eviction frees a place unless its bucket has a cache, and then the places are the same
as before. -/
theorem evictOldest_spec (now : SystemTime) (id : NodeId) (hs : t.Sound) :
    (t.victimUncached = true ∧ (t.evictOldest now).nodeCount + 1 = t.nodeCount) ∨
    (t.victimUncached = false ∧ (t.evictOldest now).nodeCount = t.nodeCount ∧
      (t.evictOldest now).hasPlace id = t.hasPlace id) := by
  unfold evictOldest victimUncached
  cases hv : t.victim with
  | none => exact Or.inr ⟨rfl, rfl, rfl⟩
  | some v =>
    obtain ⟨i, n⟩ := v
    obtain ⟨b, hb, holdest⟩ := victim_spec hv
    have hlength := (hs i b hb).length_evict now (contains_of_oldest holdest)
    have htotal := total_modifyBucket (fun b => b.nodes.length) (KBucket.evict now n.id) hb
    dsimp only at htotal ⊢
    rw [Option.elim_some, hb, Option.elim_some]
    by_cases hcache : b.replacementCache = []
    · rw [if_pos hcache] at hlength
      refine Or.inl ⟨List.isEmpty_iff.mpr hcache, ?_⟩
      change total (fun b => b.nodes.length) _ + 1 = total (fun b => b.nodes.length) _
      omega
    · rw [if_neg hcache, Nat.add_zero] at hlength
      refine Or.inr ⟨?_, ?_, ?_⟩
      · rw [← Bool.not_eq_true, List.isEmpty_iff]
        exact hcache
      · change total (fun b => b.nodes.length) _ = total (fun b => b.nodes.length) _
        omega
      · -- the bucket of the evicted node is full before and after
        have hfull := (hs i b hb).full hcache
        have hplace {b' : KBucket} (h : b'.nodes.length = b.nodes.length) :
            b'.hasPlace id = false := by
          rw [KBucket.hasPlace, KBucket.isFull, h, decide_eq_true hfull, Bool.not_true,
            Bool.and_false]
        unfold hasPlace
        change (t.bucketIndex id).elim _ _ = _
        cases hj : t.bucketIndex id with
        | none => rfl
        | some j =>
          rw [Option.elim_some, Option.elim_some, bucket_modifyBucket]
          by_cases hij : i = j
          · subst hij
            rw [hb, Option.map_some, if_pos rfl, Option.elim_some, Option.elim_some, hplace rfl,
              hplace hlength]
          · cases t.bucket j with
            | none => rfl
            | some b' => rw [Option.map_some, if_neg hij]

end RoutingTable

/-! ### Runs of `add_node` -/

namespace KademliaDht

variable {d : KademliaDht}

/-- `add_node` as a step, with the time at which it runs. -/
def addStep (d : KademliaDht) (add : SystemTime × DhtNode) : Option KademliaDht :=
  some (d.addNode add.1 add.2)

/-- `add_node` has a place for a new active node: the table keeps below the limit after a
cleanup, or the node to evict is in a bucket without a cache, unless the node is known or
rejected or would not become active. -/
def FreesPlace (d : KademliaDht) (add : SystemTime × DhtNode) : Prop :=
  let cleaned := d.routingTable.cleanupStale add.1
  d.routingTable.knows add.2.id = true ∨ d.routingTable.rejects add.2.addr = true ∨
    cleaned.nodeCount < d.maxNodes ∨ cleaned.victimUncached = true ∨
    cleaned.hasPlace add.2.id = false

instance (d : KademliaDht) (add : SystemTime × DhtNode) : Decidable (d.FreesPlace add) :=
  inferInstanceAs (Decidable (_ ∨ _ ∨ _ ∨ _ ∨ _))

theorem addNode_maxNodes (now : SystemTime) (node : DhtNode) (d : KademliaDht) :
    (d.addNode now node).maxNodes = d.maxNodes := by
  unfold addNode
  split
  · rfl
  · split <;> rfl

theorem hasPlace_of_knows {t : RoutingTable} {id : NodeId} (h : t.knows id = true) :
    t.hasPlace id = false := by
  obtain ⟨i, b, hi, hb, hcontains⟩ := RoutingTable.knows_iff.mp h
  rw [RoutingTable.hasPlace, hi, Option.elim_some, hb, Option.elim_some, KBucket.hasPlace,
    hcontains, Bool.not_true, Bool.false_and]

/-- A call within the limit stays within it exactly when it has a place for the node. -/
theorem nodeCount_addNode_le_iff (add : SystemTime × DhtNode) (hs : d.Sound)
    (hpos : 0 < d.maxNodes) (hle : d.routingTable.nodeCount ≤ d.maxNodes) :
    (d.addNode add.1 add.2).routingTable.nodeCount ≤ d.maxNodes ↔ d.FreesPlace add := by
  obtain ⟨now, node⟩ := add
  unfold addNode FreesPlace
  dsimp only
  by_cases hknown : d.routingTable.knows node.id = true
  · rw [if_pos hknown]
    refine iff_of_true ?_ (Or.inl hknown)
    change ((d.routingTable.update now node).2).nodeCount ≤ _
    rw [RoutingTable.nodeCount_update, hasPlace_of_knows hknown, if_neg Bool.false_ne_true]
    exact hle
  · rw [if_neg hknown, or_iff_right hknown]
    by_cases hrejects : d.routingTable.rejects node.addr = true
    · rw [if_pos hrejects]
      exact iff_of_true hle (Or.inl hrejects)
    · rw [if_neg hrejects, or_iff_right hrejects]
      change ((d.makeRoom now).update now node).2.nodeCount ≤ _ ↔ _
      have hcleaned := RoutingTable.nodeCount_cleanupStale now hs.table
      have hone (p : Bool) : (if p then 1 else 0) ≤ 1 := by cases p <;> decide
      rw [RoutingTable.nodeCount_update]
      unfold makeRoom atLimit
      by_cases hbelow : d.routingTable.nodeCount < d.maxNodes
      · rw [if_neg (by simp [hpos, hbelow])]
        have hplace := hone (d.routingTable.hasPlace node.id)
        exact iff_of_true (by omega) (Or.inl (hcleaned.trans_lt hbelow))
      · rw [if_pos (by simp [hpos]; omega)]
        dsimp only
        by_cases hroom : (d.routingTable.cleanupStale now).nodeCount < d.maxNodes
        · rw [if_neg (not_le.mpr hroom)]
          have hplace := hone ((d.routingTable.cleanupStale now).hasPlace node.id)
          exact iff_of_true (by omega) (Or.inl hroom)
        · rw [if_pos (not_lt.mp hroom), or_iff_right hroom]
          rcases RoutingTable.evictOldest_spec now node.id (hs.table.cleanupStale now) with
            ⟨hvictim, hcount⟩ | ⟨hvictim, hcount, hplace⟩
          · have hplace := hone
              (((d.routingTable.cleanupStale now).evictOldest now).hasPlace node.id)
            exact iff_of_true (by omega) (Or.inl hvictim)
          · rw [hcount, hplace, hvictim, or_iff_right Bool.false_ne_true]
            cases (d.routingTable.cleanupStale now).hasPlace node.id with
            | true => exact iff_of_false (by rw [if_pos rfl]; omega) Bool.noConfusion
            | false => exact iff_of_true (by rw [if_neg Bool.false_ne_true]; omega) rfl

/-- Calls of `add_node` keep the limit in every state if and only if each of them has a place
for its node. -/
theorem node_limit_iff (localId : NodeId) {maxNodes : ℕ} (hpos : 0 < maxNodes)
    (adds : List (SystemTime × DhtNode)) :
    EventRuns.EachState addStep (fun d => d.routingTable.nodeCount ≤ maxNodes)
        (new localId maxNodes) adds ↔
      EventRuns.EachStep addStep FreesPlace (new localId maxNodes) adds := by
  refine @EventRuns.eachState_iff_eachStep _ _ addStep FreesPlace
    (fun d => d.Sound ∧ d.maxNodes = maxNodes) (fun d => d.routingTable.nodeCount ≤ maxNodes) _
    adds (fun _ => True) ?_ (fun _ _ => trivial) ⟨sound_new localId maxNodes, rfl⟩ ?_
  · rintro d add d' - ⟨hs, hmax⟩ hle hstep
    obtain rfl := Option.some.inj hstep
    subst hmax
    exact ⟨⟨hs.apply (.addNode add.1 add.2), addNode_maxNodes add.1 add.2 d⟩,
      nodeCount_addNode_le_iff add hs hpos hle⟩
  · change (RoutingTable.new localId).nodeCount ≤ maxNodes
    have hzero : (RoutingTable.new localId).nodeCount = 0 := by
      rw [RoutingTable.nodeCount, RoutingTable.new, List.map_replicate, List.sum_replicate]
      rfl
    rw [hzero]
    exact Nat.zero_le maxNodes

/-- Two nodes and a limit of two. -/
theorem node_limit_two : EventRuns.EachState addStep
    (fun d => d.routingTable.nodeCount ≤ 2) (new (.ofByte 0 0) 2)
      [(0, crowdNode 0), (0, crowdNode 1)] :=
  (node_limit_iff (.ofByte 0 0) (by decide) _).mpr (by decide +kernel)

/-- A bucket with one cached node, and two nodes of another bucket: the eviction for the second
of them lets the cached node in. -/
theorem node_limit_exceeded : ∃ localId maxNodes adds, 0 < maxNodes ∧
    ¬EventRuns.EachState addStep (fun d => d.routingTable.nodeCount ≤ maxNodes)
      (new localId maxNodes) adds := by
  let adds : List (SystemTime × DhtNode) := ((List.range 21).map fun k => (0, crowdNode k)) ++
    [(1, ⟨.ofByte 0 0x40, "example.org:6881", 1⟩), (1, ⟨.ofByte 0 0x41, "example.org:6881", 1⟩)]
  refine ⟨.ofByte 0 0, 21, adds, by decide, fun hstates => ?_⟩
  have hrun : (EventRuns.run addStep (new (.ofByte 0 0) 21) adds).any fun d =>
      decide (21 < d.routingTable.nodeCount) := by
    decide +kernel
  obtain ⟨d, hd, hcount⟩ := (Option.any_eq_true _ _).mp hrun
  exact absurd (hstates.last hd) (not_le.mpr (of_decide_eq_true hcount))

end KademliaDht

end Tachyon
