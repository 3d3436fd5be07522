import Tachyon.Dht.NodeLimit

/-!
# Nodes of one subnet

`add_node` counts the nodes of a subnet when it admits a node. Nodes that move up from a
cache and addresses that change are not counted: the bound of two holds as long as none of
these goes to a subnet that has two nodes.
-/

namespace Tachyon

namespace RoutingTable

variable {t : RoutingTable} {i : ℕ} {b : KBucket} {node old r : DhtNode} {id : NodeId}
  {now : SystemTime}

/-- The node has an address in the subnet. -/
def inSubnet (subnetKey : String) (n : DhtNode) : Bool := extractSubnetKey n.addr = some subnetKey

theorem inSubnet_iff {subnetKey : String} {n : DhtNode} :
    inSubnet subnetKey n = true ↔ extractSubnetKey n.addr = some subnetKey := by
  rw [inSubnet, decide_eq_true_eq]

/-- At most two active nodes have addresses in one subnet. -/
def Bounded (t : RoutingTable) : Prop := ∀ subnetKey, t.countNodesInSubnet subnetKey ≤ 2

/-! ### The conditions -/

/-- A node that takes the place of another one has its subnet, or one with less than two. -/
def canReplace (t : RoutingTable) (old node : DhtNode) : Bool :=
  extractSubnetKey old.addr = extractSubnetKey node.addr || !t.rejects node.addr

/-- An update gives a known node an address, or an active place to a new one, within the bound. -/
def keepsUpdate (node : DhtNode) (t : RoutingTable) : Bool :=
  (t.bucketIndex node.id).all fun i => (t.bucket i).all fun b =>
    match b.nodes.find? fun n => n.id = node.id with
    | some old => t.canReplace old node
    | none => b.isFull || !t.rejects node.addr

/-- The cached node that a removal moves up is within the bound. -/
def keepsRemove (id : NodeId) (t : RoutingTable) : Bool :=
  (t.bucketIndex id).all fun i => (t.bucket i).all fun b =>
    (b.nodes.find? fun n => n.id = id).all fun old =>
      b.replacementCache.getLast?.all fun r => t.canReplace old r

/-- The cached node that replaces the oldest one is within the bound. -/
def keepsReplaceOldest (index : ℕ) (t : RoutingTable) : Bool :=
  (t.bucket index).all fun b => b.oldest.all fun old =>
    b.replacementCache.getLast?.all fun r => t.canReplace old r

/-- The cached nodes that a cleanup moves up are within the bound, beside the active nodes
that are not stale. -/
def keepsCleanup (now : SystemTime) (t : RoutingTable) : Bool :=
  t.buckets.all fun b => (b.promoted now).all fun r =>
    (extractSubnetKey r.addr).all fun subnetKey =>
      t.total (fun b => (b.fresh now).countP (inSubnet subnetKey) +
        (b.promoted now).countP (inSubnet subnetKey)) ≤ 2

/-- The cached nodes that an eviction moves up are within the bound: it removes the node and
updates the bucket with the last node that is left in the cache. -/
def keepsEvict (t : RoutingTable) : Bool :=
  t.victim.all fun v => t.keepsRemove v.2.id &&
    ((t.remove v.2.id).2.bucket v.1).all fun b =>
      b.replacementCache.getLast?.all fun r => (t.remove v.2.id).2.keepsUpdate r

/-! ### One bucket -/

theorem modifyBucket_eq_self (f : KBucket → KBucket) (hb : t.bucket i = none) :
    t.modifyBucket i f = t := by
  have hsame : t.buckets.modify i f = t.buckets :=
    List.modify_eq_self (List.getElem?_eq_none_iff.mp hb)
  cases t
  rw [RoutingTable.mk.injEq]
  exact ⟨rfl, hsame⟩

theorem countNodesInSubnet_eq (subnetKey : String) (t : RoutingTable) :
    t.countNodesInSubnet subnetKey = t.total fun b => b.nodes.countP (inSubnet subnetKey) := rfl

/-- How a subnet of a bucket grows. -/
theorem countNodesInSubnet_modifyBucket (subnetKey : String) (f : KBucket → KBucket)
    (hb : t.bucket i = some b) :
    (t.modifyBucket i f).countNodesInSubnet subnetKey + b.nodes.countP (inSubnet subnetKey) =
      t.countNodesInSubnet subnetKey + (f b).nodes.countP (inSubnet subnetKey) := by
  rw [countNodesInSubnet_eq, countNodesInSubnet_eq]
  exact total_modifyBucket (fun b => b.nodes.countP (inSubnet subnetKey)) f hb

theorem rejects_of_key {addr subnetKey : String} (h : extractSubnetKey addr = some subnetKey) :
    t.rejects addr = decide (2 ≤ t.countNodesInSubnet subnetKey) := by
  unfold rejects
  rw [h]

theorem rejects_eq_false (h : t.rejects node.addr = false) {subnetKey : String}
    (hkey : inSubnet subnetKey node = true) : t.countNodesInSubnet subnetKey < 2 := by
  rw [rejects_of_key (inSubnet_iff.mp hkey)] at h
  exact not_le.mp (of_decide_eq_false h)

/-- A bucket whose nodes are all from before keeps the bound. -/
theorem Bounded.of_countP_le {f : KBucket → KBucket} (h : t.Bounded) (hb : t.bucket i = some b)
    (hcount : ∀ p : DhtNode → Bool, (f b).nodes.countP p ≤ b.nodes.countP p) :
    (t.modifyBucket i f).Bounded := by
  intro subnetKey
  have htotal := countNodesInSubnet_modifyBucket subnetKey f hb
  have hle := h subnetKey
  have hbucket := hcount (inSubnet subnetKey)
  omega

/-- A new node of a subnet that has less than two keeps the bound. -/
theorem Bounded.of_insert {f : KBucket → KBucket} (h : t.Bounded) (node : DhtNode)
    (hb : t.bucket i = some b)
    (hcount : ∀ p : DhtNode → Bool,
      (f b).nodes.countP p = b.nodes.countP p + if p node then 1 else 0)
    (hadmits : t.rejects node.addr = false) : (t.modifyBucket i f).Bounded := by
  intro subnetKey
  have htotal := countNodesInSubnet_modifyBucket subnetKey f hb
  have hle := h subnetKey
  rw [hcount] at htotal
  split at htotal
  · rename_i hkey
    have hfew := rejects_eq_false hadmits hkey
    omega
  · omega

/-- A node in the place of another one keeps the bound. -/
theorem Bounded.of_replace {f : KBucket → KBucket} (h : t.Bounded) (old node : DhtNode)
    (hb : t.bucket i = some b)
    (hcount : ∀ p : DhtNode → Bool, (f b).nodes.countP p + (if p old then 1 else 0) =
      b.nodes.countP p + if p node then 1 else 0)
    (hreplace : t.canReplace old node = true) : (t.modifyBucket i f).Bounded := by
  intro subnetKey
  have htotal := countNodesInSubnet_modifyBucket subnetKey f hb
  have hle := h subnetKey
  have hbucket := hcount (inSubnet subnetKey)
  rcases (Bool.or_eq_true _ _).mp hreplace with hsame | hadmits
  · have hsame := of_decide_eq_true hsame
    have hold : inSubnet subnetKey old = inSubnet subnetKey node := by
      rw [inSubnet, inSubnet, hsame]
    rw [hold] at hbucket
    omega
  · by_cases hkey : inSubnet subnetKey node = true
    · have hfew := rejects_eq_false (Bool.not_eq_true' _ ▸ hadmits) hkey
      rw [if_pos hkey] at hbucket
      omega
    · rw [if_neg hkey] at hbucket
      omega

/-! ### The operations -/

/-- The count without the first node that a predicate finds. -/
theorem countP_eraseP {l : List DhtNode} {q : DhtNode → Bool} (hfind : l.find? q = some old)
    (p : DhtNode → Bool) : (l.eraseP q).countP p + (if p old then 1 else 0) = l.countP p := by
  rw [(KBucket.find_perm hfind).countP_eq, List.countP_cons]

/-- The update of one bucket. -/
theorem Bounded.updateBucket (now : SystemTime) (h : t.Bounded)
    (hi : t.bucketIndex node.id = some i) (hkeeps : t.keepsUpdate node = true) :
    (t.modifyBucket i fun b => (b.update now node).2).Bounded := by
  obtain ⟨b, hb⟩ := t.bucket_isSome (bucketIndex_lt hi)
  rw [keepsUpdate, hi, Option.all_some, hb, Option.all_some] at hkeeps
  rcases KBucket.update_cases now node b with ⟨hcontains, heq⟩ | ⟨hnew, hroom, heq⟩ | ⟨-, -, heq⟩
  · obtain ⟨old, hfind⟩ := KBucket.find_of_contains hcontains
    rw [hfind] at hkeeps
    refine h.of_replace old (node.touch now) hb (fun p => ?_) hkeeps
    have herase := countP_eraseP hfind p
    rw [heq, List.countP_append, List.countP_singleton]
    omega
  · have hfind : (b.nodes.find? fun n => n.id = node.id) = none := by
      rw [List.find?_eq_none]
      intro n hn hid
      have hcontains := KBucket.contains_iff.mpr ⟨n, hn, of_decide_eq_true hid⟩
      rw [hnew] at hcontains
      cases hcontains
    rw [hfind] at hkeeps
    have hadmits : t.rejects node.addr = false := by
      simpa [KBucket.isFull, not_le.mpr hroom] using hkeeps
    refine h.of_insert node hb (fun p => ?_) hadmits
    rw [heq, List.countP_append, List.countP_singleton]
  · refine h.of_countP_le hb fun p => ?_
    rw [heq]

theorem Bounded.update (now : SystemTime) (h : t.Bounded) (hkeeps : t.keepsUpdate node = true) :
    (t.update now node).2.Bounded := by
  unfold RoutingTable.update
  cases hi : t.bucketIndex node.id with
  | none => exact h
  | some i => exact h.updateBucket now hi hkeeps

theorem Bounded.remove (h : t.Bounded) (hkeeps : t.keepsRemove id = true) :
    (t.remove id).2.Bounded := by
  unfold RoutingTable.remove
  cases hi : t.bucketIndex id with
  | none => exact h
  | some i =>
    obtain ⟨b, hb⟩ := t.bucket_isSome (bucketIndex_lt hi)
    rw [keepsRemove, hi, Option.all_some, hb, Option.all_some] at hkeeps
    rcases KBucket.remove_cases id b with ⟨-, heq⟩ | ⟨hcontains, heq⟩
    · refine h.of_countP_le hb fun p => ?_
      rw [heq]
    · obtain ⟨old, hfind⟩ := KBucket.find_of_contains hcontains
      rw [hfind, Option.all_some] at hkeeps
      cases hcache : b.replacementCache.getLast? with
      | none =>
        refine h.of_countP_le hb fun p => ?_
        have herase := countP_eraseP hfind p
        rw [heq, hcache, Option.toList_none, List.append_nil]
        exact Nat.le.intro herase
      | some r =>
        rw [hcache, Option.all_some] at hkeeps
        refine h.of_replace old r hb (fun p => ?_) hkeeps
        have herase := countP_eraseP hfind p
        rw [heq, hcache, Option.toList_some, List.countP_append, List.countP_singleton]
        omega

theorem Bounded.replaceOldest (h : t.Bounded) (hkeeps : t.keepsReplaceOldest i = true) :
    (t.modifyBucket i KBucket.replaceOldest).Bounded := by
  cases hb : t.bucket i with
  | none =>
    rw [modifyBucket_eq_self _ hb]
    exact h
  | some b =>
    rw [keepsReplaceOldest, hb, Option.all_some] at hkeeps
    rcases KBucket.replaceOldest_cases b with ⟨-, heq⟩ | ⟨rest, r, -, hnodes, heq⟩ |
      ⟨rest, r, n, ns, hcache, hnodes, heq⟩
    · refine h.of_countP_le hb fun p => ?_
      rw [heq]
    · refine h.of_countP_le hb fun p => ?_
      rw [heq]
      exact Nat.zero_le _
    · rw [KBucket.oldest, hnodes, List.head?_cons, Option.all_some, hcache, List.getLast?_concat,
        Option.all_some] at hkeeps
      refine h.of_replace n r hb (fun p => ?_) hkeeps
      rw [heq, hnodes, List.countP_cons, List.countP_cons]
      omega

theorem Bounded.refresh (now : SystemTime) (id : NodeId) (h : t.Bounded)
    (hb : t.bucket i = some b) : (t.modifyBucket i (KBucket.refresh now id)).Bounded := by
  rcases KBucket.refresh_spec now id b with ⟨-, heq⟩ | ⟨n, hfind, heq⟩
  · refine h.of_countP_le hb fun p => ?_
    rw [heq]
  · refine h.of_replace n (n.touch now) hb (fun p => ?_) ?_
    · have herase := countP_eraseP hfind p
      rw [heq, List.countP_append, List.countP_singleton]
      omega
    · rw [canReplace, DhtNode.touch_addr, decide_eq_true rfl, Bool.true_or]

theorem countNodesInSubnet_cleanupStale (now : SystemTime) (subnetKey : String)
    (t : RoutingTable) : (t.cleanupStale now).countNodesInSubnet subnetKey =
      t.total fun b => (b.fresh now).countP (inSubnet subnetKey) +
        (b.promoted now).countP (inSubnet subnetKey) := by
  unfold countNodesInSubnet cleanupStale total
  rw [List.map_map]
  congr 1
  refine List.map_congr_left fun b _ => ?_
  rw [← List.countP_append, ← (KBucket.evictStale_spec now b).1]
  rfl

theorem Bounded.cleanupStale (now : SystemTime) (h : t.Bounded)
    (hkeeps : t.keepsCleanup now = true) : (t.cleanupStale now).Bounded := by
  intro subnetKey
  rw [countNodesInSubnet_cleanupStale]
  by_cases hpromoted : ∃ b ∈ t.buckets, ∃ r ∈ b.promoted now, inSubnet subnetKey r = true
  · obtain ⟨b, hb, r, hr, hkey⟩ := hpromoted
    have hall := List.all_eq_true.mp (List.all_eq_true.mp hkeeps b hb) r hr
    rw [inSubnet_iff.mp hkey, Option.all_some] at hall
    exact of_decide_eq_true hall
  · -- no node of the subnet moves up
    refine le_trans (List.sum_le_sum fun b hb => ?_) (h subnetKey)
    have hnone : (b.promoted now).countP (inSubnet subnetKey) = 0 := by
      rw [List.countP_eq_zero]
      exact fun r hr hkey => hpromoted ⟨b, hb, r, hr, hkey⟩
    rw [hnone, Nat.add_zero]
    exact List.filter_sublist.countP_le

theorem modifyBucket_congr {f g : KBucket → KBucket} (hb : t.bucket i = some b)
    (h : f b = g b) : t.modifyBucket i f = t.modifyBucket i g := by
  rw [modifyBucket, modifyBucket, RoutingTable.mk.injEq]
  refine ⟨rfl, List.ext_getElem? fun j => ?_⟩
  rw [List.getElem?_modify, List.getElem?_modify]
  by_cases hij : i = j
  · subst hij
    have hget : t.buckets[i]? = some b := hb
    rw [hget, Option.map_eq_map, Option.map_eq_map, Option.map_some, Option.map_some, if_pos rfl,
      if_pos rfl, h]
  · simp only [if_neg hij]

theorem modifyBucket_modifyBucket (f g : KBucket → KBucket) :
    (t.modifyBucket i f).modifyBucket i g = t.modifyBucket i fun b => g (f b) := by
  rw [modifyBucket, modifyBucket, modifyBucket, RoutingTable.mk.injEq]
  exact ⟨rfl, List.modify_modify_eq f g i t.buckets⟩

/-- An eviction is a removal and perhaps an update, both within the bound. -/
theorem Bounded.evictOldest (now : SystemTime) (hs : t.Sound) (h : t.Bounded)
    (hkeeps : t.keepsEvict = true) : (t.evictOldest now).Bounded := by
  unfold RoutingTable.evictOldest
  unfold keepsEvict at hkeeps
  cases hv : t.victim with
  | none => exact h
  | some v =>
    obtain ⟨i, n⟩ := v
    obtain ⟨b, hb, holdest⟩ := victim_spec hv
    rw [hv, Option.all_some, Bool.and_eq_true] at hkeeps
    obtain ⟨hremove, hupdate⟩ := hkeeps
    have hi : t.bucketIndex n.id = some i :=
      bucketIndex_eq_some.mpr ((hs i b hb).placed n (List.mem_append_left _
        (List.mem_of_head? holdest)))
    have hremoved : (t.remove n.id).2 = t.modifyBucket i fun b => (b.remove n.id).2 := by
      unfold RoutingTable.remove
      rw [hi]
    have hbounded := h.remove hremove
    have hafter : (t.remove n.id).2.bucket i = some (b.remove n.id).2 := by
      rw [hremoved, bucket_modifyBucket, hb, Option.map_some, if_pos rfl]
    rw [hafter, Option.all_some] at hupdate
    dsimp only
    rcases KBucket.evict_cases now n.id b with ⟨-, heq⟩ | ⟨rest, r, hcache, heq⟩
    · rw [modifyBucket_congr (g := fun b => (b.remove n.id).2) hb heq, ← hremoved]
      exact hbounded
    · rw [hcache, List.getLast?_concat, Option.all_some] at hupdate
      have hplaced := ((hs i b hb).remove n.id).placed r (List.mem_append_right _
        (hcache ▸ List.mem_append_right _ List.mem_cons_self))
      have hr : (t.remove n.id).2.bucketIndex r.id = some i := by
        rw [hremoved]
        exact bucketIndex_eq_some.mpr hplaced
      have htwo : t.modifyBucket i (KBucket.evict now n.id) =
          (t.remove n.id).2.modifyBucket i fun b => (b.update now r).2 := by
        rw [hremoved, modifyBucket_modifyBucket]
        exact modifyBucket_congr hb heq
      rw [htwo]
      exact hbounded.updateBucket now hr hupdate

end RoutingTable

/-! ### Runs -/

namespace KademliaDht

variable {d : KademliaDht}

/-- `add_node` with the node keeps the bound: a new node for which no room is made is within
it by the check. -/
def keepsAdd (now : SystemTime) (node : DhtNode) (d : KademliaDht) : Bool :=
  let t := d.routingTable
  let cleaned := t.cleanupStale now
  if t.knows node.id then t.keepsUpdate node
  else if t.rejects node.addr then true
  else if d.atLimit t then
    t.keepsCleanup now &&
      if d.maxNodes ≤ cleaned.nodeCount then
        cleaned.keepsEvict && (cleaned.evictOldest now).keepsUpdate node
      else cleaned.keepsUpdate node
  else true

/-- The operation brings no node into a subnet that has two, but by the check of `add_node`. -/
def keepsSubnets (d : KademliaDht) : TableOp → Bool
  | .addNode now node => d.keepsAdd now node
  | .handleMessage .. => true
  | .cleanupStale now => d.routingTable.keepsCleanup now
  | .update _ node => d.routingTable.keepsUpdate node
  | .remove id => d.routingTable.keepsRemove id
  | .replaceOldest index => d.routingTable.keepsReplaceOldest index

/-- A node that passed the check is within the bound. -/
theorem keepsUpdate_of_admitted {t : RoutingTable} {node : DhtNode}
    (hknown : ¬t.knows node.id = true) (hadmits : ¬t.rejects node.addr = true) :
    t.keepsUpdate node = true := by
  unfold RoutingTable.keepsUpdate
  cases hi : t.bucketIndex node.id with
  | none => rfl
  | some i =>
    rw [Option.all_some]
    cases hb : t.bucket i with
    | none => rfl
    | some b =>
      rw [Option.all_some]
      cases hfind : b.nodes.find? fun n => n.id = node.id with
      | none =>
        rw [Bool.not_eq_true] at hadmits
        rw [hadmits, Bool.not_false, Bool.or_true]
      | some n =>
        have hid := List.find?_some hfind
        have hmem := List.mem_of_find?_eq_some hfind
        exact absurd (RoutingTable.knows_iff.mpr ⟨i, b, hi, hb,
          KBucket.contains_iff.mpr ⟨n, hmem, of_decide_eq_true hid⟩⟩) hknown

theorem bounded_addNode (now : SystemTime) (node : DhtNode) (hs : d.Sound)
    (h : d.routingTable.Bounded) (hkeeps : d.keepsAdd now node = true) :
    (d.addNode now node).routingTable.Bounded := by
  unfold KademliaDht.addNode
  unfold keepsAdd at hkeeps
  dsimp only at hkeeps
  by_cases hknown : d.routingTable.knows node.id = true
  · rw [if_pos hknown] at hkeeps ⊢
    exact h.update now hkeeps
  · rw [if_neg hknown] at hkeeps ⊢
    by_cases hrejects : d.routingTable.rejects node.addr = true
    · rw [if_pos hrejects]
      exact h
    · rw [if_neg hrejects] at hkeeps ⊢
      change ((d.makeRoom now).update now node).2.Bounded
      unfold makeRoom
      by_cases hlimit : d.atLimit d.routingTable = true
      · rw [if_pos hlimit, Bool.and_eq_true] at hkeeps
        rw [if_pos hlimit]
        obtain ⟨hcleanup, hrest⟩ := hkeeps
        have hcleaned := h.cleanupStale now hcleanup
        dsimp only
        split at hrest
        · rename_i hfull
          rw [Bool.and_eq_true] at hrest
          rw [if_pos hfull]
          exact (hcleaned.evictOldest now (hs.table.cleanupStale now) hrest.1).update now hrest.2
        · rename_i hroom
          rw [if_neg hroom]
          exact hcleaned.update now hrest
      · rw [if_neg hlimit]
        exact h.update now (keepsUpdate_of_admitted hknown hrejects)

/-- An operation that keeps to the subnets keeps the bound. -/
theorem bounded_apply (op : TableOp) (hs : d.Sound) (h : d.routingTable.Bounded)
    (hkeeps : d.keepsSubnets op = true) : (d.apply op).routingTable.Bounded := by
  cases op with
  | addNode now node => exact bounded_addNode now node hs h hkeeps
  | handleMessage now msg =>
    unfold KademliaDht.apply KademliaDht.handleMessage
    dsimp only
    cases hi : d.routingTable.bucketIndex msg.senderId with
    | none => exact h
    | some i =>
      obtain ⟨b, hb⟩ := d.routingTable.bucket_isSome (RoutingTable.bucketIndex_lt hi)
      exact h.refresh now msg.senderId hb
  | cleanupStale now => exact h.cleanupStale now hkeeps
  | update now node => exact h.update now hkeeps
  | remove id => exact h.remove hkeeps
  | replaceOldest index => exact h.replaceOldest hkeeps

/-- From the empty table on, no subnet has more than two active nodes in any state of a run
whose operations keep to the subnets. -/
theorem sybil_bound (localId : NodeId) (maxNodes : ℕ) (ops : List TableOp)
    (hkeeps : EventRuns.EachStep step (fun d op => d.keepsSubnets op = true)
      (new localId maxNodes) ops) :
    EventRuns.EachState step (fun d => d.routingTable.Bounded) (new localId maxNodes) ops := by
  have hstates : EventRuns.EachState step (fun d => d.Sound ∧ d.routingTable.Bounded)
      (new localId maxNodes) ops := by
    refine hkeeps.eachState ?_ ⟨sound_new localId maxNodes, fun subnetKey => ?_⟩
    · rintro d op d' ⟨hs, h⟩ hkeeps hstep
      obtain rfl := Option.some.inj hstep
      exact ⟨hs.apply op, bounded_apply op hs h hkeeps⟩
    · change (RoutingTable.new localId).countNodesInSubnet subnetKey ≤ 2
      rw [RoutingTable.countNodesInSubnet_eq, RoutingTable.total, RoutingTable.new,
        List.map_replicate, List.sum_replicate]
      exact Nat.zero_le 2
  exact hstates.imp fun d hd => hd.2

/-- Two nodes of one subnet are admitted, a third is not. -/
theorem sybil_bound_three : EventRuns.EachState step (fun d => d.routingTable.Bounded)
    (new (.ofByte 0 0) 0) [.addNode 0 ⟨.ofByte 0 1, "192.0.2.1:6881", 0⟩,
      .addNode 0 ⟨.ofByte 0 2, "192.0.2.2:6881", 0⟩,
      .addNode 0 ⟨.ofByte 0 3, "192.0.2.3:6881", 0⟩] :=
  sybil_bound (.ofByte 0 0) 0 _ (by decide +kernel)

/-- A known node that is added again under another address is not checked. -/
theorem sybil_bound_exceeded : ∃ localId maxNodes ops,
    ¬EventRuns.EachState step (fun d => d.routingTable.Bounded) (new localId maxNodes) ops := by
  let ops : List TableOp := [.addNode 0 ⟨.ofByte 0 1, "192.0.2.1:6881", 0⟩,
    .addNode 0 ⟨.ofByte 0 2, "192.0.2.2:6881", 0⟩,
    .addNode 0 ⟨.ofByte 0 3, "198.51.100.3:6881", 0⟩,
    .addNode 0 ⟨.ofByte 0 3, "192.0.2.3:6881", 0⟩]
  refine ⟨.ofByte 0 0, 0, ops, fun hstates => ?_⟩
  have hrun : (EventRuns.run step (new (.ofByte 0 0) 0) ops).any fun d =>
      decide (2 < d.routingTable.countNodesInSubnet "192.0.2") := by
    decide +kernel
  obtain ⟨d, hd, hcount⟩ := (Option.any_eq_true _ _).mp hrun
  exact absurd (hstates.last hd "192.0.2") (not_le.mpr (of_decide_eq_true hcount))

end KademliaDht

end Tachyon
