import Tachyon.Dht.BucketSteps

/-!
# No node twice

The cache takes a node that it already has, and `evict_oldest` enters a cached node once
more. These are the only ways for a node to be in a bucket twice: this module states the
condition of a single operation, and relates it to whole runs.
-/

namespace Tachyon

namespace KBucket

variable {b : KBucket} {node : DhtNode} {now : SystemTime} {id localId : NodeId} {i : ℕ}

/-- No identifier occurs twice in a bucket. -/
def Distinct (b : KBucket) : Prop := (b.members.map DhtNode.id).Nodup

/-- An update with the identifier would put it into the cache once more. -/
def CachesAgain (id : NodeId) (b : KBucket) : Prop :=
  b.contains id = false ∧ kBucketSize ≤ b.nodes.length ∧ id ∈ b.keptCache.map DhtNode.id

theorem Distinct.of_subperm {b' : KBucket} (hb : b.Distinct)
    (h : b'.members.Subperm b.members) : b'.Distinct := by
  obtain ⟨l, hperm, hsub⟩ := h
  exact (hperm.map DhtNode.id).nodup_iff.mp (hb.sublist (hsub.map DhtNode.id))

theorem not_cachesAgain_of_contains (h : b.contains id = true) : ¬b.CachesAgain id := by
  rintro ⟨hnot, -⟩
  rw [h] at hnot
  cases hnot

/-- An update keeps the nodes distinct unless it caches one that is cached. -/
theorem distinct_update_iff (now : SystemTime) (node : DhtNode) (hb : Sound localId i b)
    (hdistinct : b.Distinct) : (b.update now node).2.Distinct ↔ ¬b.CachesAgain node.id := by
  rcases update_cases now node b with ⟨hcontains, heq⟩ | ⟨hnew, hroom, heq⟩ | ⟨hnew, hfull, heq⟩
  · refine iff_of_true ?_ (not_cachesAgain_of_contains hcontains)
    rw [Distinct, members, List.map_append] at hdistinct
    rw [heq, Distinct, members, List.map_append]
    exact ((refresh_ids_perm now hcontains).append_right _).nodup_iff.mpr hdistinct
  · refine iff_of_true ?_ fun hagain => absurd hagain.2.1 (not_le.mpr hroom)
    have hcache := hb.cache_eq_nil hroom
    rw [Distinct, members_eq_nodes hcache] at hdistinct
    have hmembers : (b.update now node).2.members = b.nodes ++ [node] := by
      rw [heq]
      exact members_eq_nodes hcache
    rw [Distinct, hmembers, List.map_append, List.map_singleton, ← List.concat_eq_append,
      List.nodup_concat]
    refine ⟨?_, hdistinct⟩
    rw [← contains_iff_mem, hnew]
    exact Bool.false_ne_true
  · have hkept : ((b.nodes ++ b.keptCache).map DhtNode.id).Nodup :=
      hdistinct.sublist ((b.keptCache_sublist.append_left b.nodes).map DhtNode.id)
    have hnode : node.id ∉ b.nodes.map DhtNode.id := by
      rw [← contains_iff_mem, hnew]
      exact Bool.false_ne_true
    have hmembers : (b.update now node).2.members.map DhtNode.id =
        ((b.nodes ++ b.keptCache).map DhtNode.id).concat node.id := by
      rw [heq, List.concat_eq_append, members, ← List.map_singleton, ← List.map_append,
        List.append_assoc]
      rfl
    rw [Distinct, hmembers, List.nodup_concat, List.map_append, List.mem_append, not_or]
    constructor
    · rintro ⟨⟨-, hcached⟩, -⟩ hagain
      exact hcached hagain.2.2
    · intro hagain
      rw [List.map_append] at hkept
      exact ⟨⟨hnode, fun hcached => hagain ⟨hnew, hfull, hcached⟩⟩, hkept⟩

theorem Distinct.refresh (now : SystemTime) (id : NodeId) (hb : Sound localId i b)
    (hdistinct : b.Distinct) : (b.refresh now id).Distinct := by
  rcases refresh_cases now id b with ⟨-, heq⟩ | ⟨n, hfind, heq⟩
  · rw [heq]
    exact hdistinct
  · have hn := List.mem_of_find?_eq_some hfind
    rw [heq, distinct_update_iff now _ hb hdistinct]
    exact not_cachesAgain_of_contains (contains_iff.mpr ⟨n, hn, rfl⟩)

/-! ### The eviction -/

theorem remove_cache (h : b.contains id = true) :
    (b.remove id).2.replacementCache = b.replacementCache.dropLast := by
  rcases remove_cases id b with ⟨hnot, -⟩ | ⟨-, heq⟩
  · rw [h] at hnot
    cases hnot
  · rw [heq]

/-- With at most one cached node the eviction is a removal, which empties the cache. -/
theorem evict_of_le_one (now : SystemTime) (hc : b.contains id = true)
    (h : b.replacementCache.length ≤ 1) :
    b.evict now id = (b.remove id).2 ∧ (b.evict now id).replacementCache = [] := by
  have hcache := remove_cache hc
  have hnil : b.replacementCache.dropLast = [] := by
    rw [← List.length_eq_zero_iff, List.length_dropLast]
    omega
  rcases evict_cases now id b with ⟨hempty, heq⟩ | ⟨rest, r, hsome, -⟩
  · exact ⟨heq, heq ▸ hempty⟩
  · rw [hcache, hnil] at hsome
    simp at hsome

/-- With more cached nodes the eviction leaves one of them in the cache twice. -/
theorem evict_of_two_le (now : SystemTime) (hb : Sound localId i b) (hdistinct : b.Distinct)
    (hc : b.contains id = true) (h : 2 ≤ b.replacementCache.length) :
    ∃ rest r, (b.evict now id).replacementCache = rest ++ [r, r] := by
  have hcache := remove_cache hc
  have hlength : (b.remove id).2.replacementCache.length + 1 = b.replacementCache.length := by
    rw [hcache, List.length_dropLast]
    omega
  have hle := hb.cache_le
  rcases evict_cases now id b with ⟨hempty, -⟩ | ⟨rest, r, hsome, heq⟩
  · rw [hempty, List.length_nil] at hlength
    omega
  · have hremoved := hb.remove id
    have hactive : (b.remove id).2.contains r.id = false := by
      rw [← Bool.not_eq_true, contains_iff_mem]
      intro hmem
      have hnodup := hdistinct.of_subperm (remove_subperm id b)
      rw [Distinct, members, hsome, List.map_append, List.map_append] at hnodup
      refine List.disjoint_of_nodup_append hnodup hmem ?_
      exact List.mem_append_right _ List.mem_cons_self
    have hfull := hremoved.full (by rw [hsome]; simp)
    refine ⟨rest, r, ?_⟩
    rcases update_cases now r (b.remove id).2 with ⟨hnot, -⟩ | ⟨-, hroom, -⟩ | ⟨-, -, hupdate⟩
    · rw [hactive] at hnot
      cases hnot
    · omega
    · rw [heq, hupdate]
      dsimp only
      rw [if_neg (by omega), hsome, List.append_assoc]
      rfl

theorem not_distinct_of_twice {r : DhtNode} (h : [r, r].Sublist b.replacementCache) :
    ¬b.Distinct := by
  intro hdistinct
  have hpair := hdistinct.sublist ((h.trans (List.sublist_append_right _ _)).map DhtNode.id)
  simp at hpair

/-- A node that is in the cache twice stays there twice. -/
theorem twice_update {rest : List DhtNode} {r : DhtNode} (now : SystemTime) (node : DhtNode)
    (h : b.replacementCache = rest ++ [r, r]) :
    [r, r].Sublist (b.update now node).2.replacementCache := by
  have htwice : [r, r].Sublist b.keptCache := by
    unfold keptCache
    rw [h]
    split
    · rename_i hlong
      cases rest with
      | nil => simp [kBucketSize] at hlong
      | cons c rest => exact List.sublist_append_right rest [r, r]
    · exact List.sublist_append_right rest [r, r]
  rcases update_cases now node b with ⟨-, heq⟩ | ⟨-, -, heq⟩ | ⟨-, -, heq⟩
  · rw [heq]
    exact htwice.trans b.keptCache_sublist
  · rw [heq]
    exact htwice.trans b.keptCache_sublist
  · rw [heq]
    exact htwice.trans (List.sublist_append_left _ _)

end KBucket

namespace RoutingTable

variable {t : RoutingTable} {id : NodeId}

/-- No identifier occurs twice in a bucket of the table. -/
def Distinct (t : RoutingTable) : Prop := t.Each fun _ b => b.Distinct

/-- An update with the identifier would put it into a cache once more. -/
def CachesAgain (id : NodeId) (t : RoutingTable) : Prop :=
  ∃ i b, t.bucketIndex id = some i ∧ t.bucket i = some b ∧ b.CachesAgain id

/-- An eviction, and an update with the identifier after it, put no node into a cache once
more: the bucket of the evicted node has at most one cached node, and the update goes to
that bucket or caches no node again. -/
def EvictsOnce (id : NodeId) (t : RoutingTable) : Prop :=
  match t.victim with
  | none => ¬t.CachesAgain id
  | some (i, _) => (∀ b, t.bucket i = some b → b.replacementCache.length ≤ 1) ∧
      (t.bucketIndex id = some i ∨ ¬t.CachesAgain id)

theorem Each.modifyBucket_iff {P : ℕ → KBucket → Prop} {i : ℕ} {f : KBucket → KBucket}
    (h : t.Each P) :
    (t.modifyBucket i f).Each P ↔ ∀ b, t.bucket i = some b → P i (f b) := by
  constructor
  · intro hafter b hb
    refine hafter i (f b) ?_
    rw [bucket_modifyBucket, hb, Option.map_some, if_pos rfl]
  · exact h.modifyBucket

theorem knows_iff :
    t.knows id = true ↔ ∃ i b, t.bucketIndex id = some i ∧ t.bucket i = some b ∧
      b.contains id = true := by
  unfold knows
  cases hi : t.bucketIndex id with
  | none => simp
  | some i =>
    cases hb : t.bucket i with
    | none => simp [hb]
    | some b => simp [hb]

theorem distinct_update_iff (now : SystemTime) (node : DhtNode) (hs : t.Sound)
    (hd : t.Distinct) : (t.update now node).2.Distinct ↔ ¬t.CachesAgain node.id := by
  unfold RoutingTable.update
  cases hi : t.bucketIndex node.id with
  | none =>
    refine iff_of_true hd ?_
    rintro ⟨i, b, hindex, -⟩
    rw [hi] at hindex
    cases hindex
  | some i =>
    rw [Distinct, hd.modifyBucket_iff]
    constructor
    · rintro h ⟨j, b, hindex, hb, hagain⟩
      obtain rfl := Option.some.inj (hi.symm.trans hindex)
      exact (KBucket.distinct_update_iff now node (hs i b hb) (hd i b hb)).mp (h b hb) hagain
    · intro h b hb
      rw [KBucket.distinct_update_iff now node (hs i b hb) (hd i b hb)]
      exact fun hagain => h ⟨i, b, hi, hb, hagain⟩

theorem Distinct.cleanupStale (now : SystemTime) (hd : t.Distinct) :
    (t.cleanupStale now).Distinct :=
  Each.cleanupStale now hd fun _ b hb => hb.of_subperm (KBucket.evictStale_spec now b).2.1

/-- A bucket with an empty cache does not cache again. -/
theorem cachesAgain_modifyBucket_iff {i : ℕ} {f : KBucket → KBucket} {b : KBucket}
    (hb : t.bucket i = some b) (hempty : (f b).replacementCache = []) :
    (t.modifyBucket i f).CachesAgain id ↔ t.bucketIndex id ≠ some i ∧ t.CachesAgain id := by
  constructor
  · rintro ⟨j, b', hj, hb', hagain⟩
    rw [bucket_modifyBucket] at hb'
    obtain ⟨b₀, hb₀, heq⟩ := Option.map_eq_some_iff.mp hb'
    by_cases hij : i = j
    · subst hij
      obtain rfl := Option.some.inj (hb.symm.trans hb₀)
      rw [if_pos rfl] at heq
      have hkept := hagain.2.2
      have hnil : b'.keptCache = [] := by
        rw [← List.sublist_nil, ← hempty, heq]
        exact b'.keptCache_sublist
      rw [hnil] at hkept
      cases hkept
    · rw [if_neg hij] at heq
      have hne : t.bucketIndex id ≠ some i := fun hi => hij (Option.some.inj (hi.symm.trans hj))
      exact ⟨hne, j, b₀, hj, hb₀, heq ▸ hagain⟩
  · rintro ⟨hne, j, b', hj, hb', hagain⟩
    refine ⟨j, b', hj, ?_, hagain⟩
    rw [bucket_modifyBucket, hb', Option.map_some, if_neg]
    rintro rfl
    exact hne hj

/-- A node that is in a cache twice is so after an update. -/
theorem not_distinct_update {i : ℕ} {b : KBucket} {rest : List DhtNode} {r : DhtNode}
    (now : SystemTime) (node : DhtNode) (hb : t.bucket i = some b)
    (htwice : b.replacementCache = rest ++ [r, r]) : ¬(t.update now node).2.Distinct := by
  have hsub : [r, r].Sublist b.replacementCache := by
    rw [htwice]
    exact List.sublist_append_right rest [r, r]
  have hafter : ∃ b', (t.update now node).2.bucket i = some b' ∧
      [r, r].Sublist b'.replacementCache := by
    unfold RoutingTable.update
    cases t.bucketIndex node.id with
    | none => exact ⟨b, hb, hsub⟩
    | some j =>
      refine ⟨_, (bucket_modifyBucket _).trans (by rw [hb, Option.map_some]), ?_⟩
      split
      · exact KBucket.twice_update now node htwice
      · exact hsub
  obtain ⟨b', hb', hsub'⟩ := hafter
  exact fun hd => KBucket.not_distinct_of_twice hsub' (hd i b' hb')

/-- An eviction, and an update after it. -/
theorem distinct_evict_update_iff (now : SystemTime) (node : DhtNode) (hs : t.Sound)
    (hd : t.Distinct) :
    ((t.evictOldest now).update now node).2.Distinct ↔ t.EvictsOnce node.id := by
  unfold RoutingTable.evictOldest EvictsOnce
  cases hv : t.victim with
  | none => exact distinct_update_iff now node hs hd
  | some v =>
    obtain ⟨i, n⟩ := v
    obtain ⟨b, hb, holdest⟩ := victim_spec hv
    have hc := contains_of_oldest holdest
    dsimp only
    have hone : (∀ b', t.bucket i = some b' → b'.replacementCache.length ≤ 1) ↔
        b.replacementCache.length ≤ 1 := by
      rw [hb]
      exact ⟨fun h => h b rfl, fun h b' hb' => Option.some.inj hb' ▸ h⟩
    rw [hone]
    by_cases hcache : b.replacementCache.length ≤ 1
    · obtain ⟨hevict, hempty⟩ := KBucket.evict_of_le_one now hc hcache
      have hs' : (t.modifyBucket i (KBucket.evict now n.id)).Sound :=
        Each.modifyBucket hs fun b' hb' => (hs i b' hb').evict now n.id
      have hd' : (t.modifyBucket i (KBucket.evict now n.id)).Distinct := by
        refine Each.modifyBucket hd fun b' hb' => ?_
        obtain rfl := Option.some.inj (hb.symm.trans hb')
        rw [hevict]
        exact (hd i b hb).of_subperm (KBucket.remove_subperm n.id b)
      rw [distinct_update_iff now node hs' hd', cachesAgain_modifyBucket_iff hb hempty,
        and_iff_right hcache, not_and_or, not_not]
    · obtain ⟨rest, r, htwice⟩ :=
        KBucket.evict_of_two_le now (hs i b hb) (hd i b hb) hc (by omega)
      refine iff_of_false (not_distinct_update (i := i) now node ?_ htwice) fun h => hcache h.1
      rw [bucket_modifyBucket, hb, Option.map_some, if_pos rfl]

end RoutingTable

/-! ### Runs -/

namespace KademliaDht

/-- What is expected of the table of a node in every state. -/
structure Represents (d : KademliaDht) : Prop where
  nodes_le : d.routingTable.Each fun _ b => b.nodes.length ≤ kBucketSize
  cache_le : d.routingTable.Each fun _ b => b.replacementCache.length ≤ kBucketSize
  placed : d.routingTable.Each fun i b =>
    ∀ n ∈ b.members, d.routingTable.bucketIndex n.id = some i
  local_absent : d.routingTable.Each fun _ b => ∀ n ∈ b.members, n.id ≠ d.localId
  distinct : d.routingTable.Distinct

/-- `add_node` with the node puts no node into a cache once more. -/
def AddsOnce (now : SystemTime) (node : DhtNode) (d : KademliaDht) : Prop :=
  let t := d.routingTable
  let cleaned := t.cleanupStale now
  t.knows node.id = true ∨ t.rejects node.addr = true ∨
    if d.atLimit t then
      if d.maxNodes ≤ cleaned.nodeCount then cleaned.EvictsOnce node.id
      else ¬cleaned.CachesAgain node.id
    else ¬t.CachesAgain node.id

/-- The operation puts no node into a cache once more. -/
def CachesOnce (d : KademliaDht) : TableOp → Prop
  | .addNode now node => d.AddsOnce now node
  | .update _ node => ¬d.routingTable.CachesAgain node.id
  | .handleMessage .. | .cleanupStale _ | .remove _ | .replaceOldest _ => True

variable {d : KademliaDht}

/-- In a sound table only the identifiers are left to ask for. -/
theorem Sound.represents_iff (h : d.Sound) : d.Represents ↔ d.routingTable.Distinct := by
  refine ⟨Represents.distinct, fun hd => ⟨fun i b hb => (h.table i b hb).nodes_le,
    fun i b hb => (h.table i b hb).cache_le, fun i b hb n hn => ?_, fun i b hb n hn => ?_, hd⟩⟩
  · exact RoutingTable.bucketIndex_eq_some.mpr ((h.table i b hb).placed n hn)
  · rw [← h.localId_eq]
    exact ((h.table i b hb).placed n hn).1

theorem distinct_addNode_iff (now : SystemTime) (node : DhtNode) (hs : d.Sound)
    (hd : d.routingTable.Distinct) :
    (d.addNode now node).routingTable.Distinct ↔ d.AddsOnce now node := by
  unfold KademliaDht.addNode AddsOnce
  dsimp only
  by_cases hknown : d.routingTable.knows node.id = true
  · rw [if_pos hknown]
    refine iff_of_true ?_ (Or.inl hknown)
    rw [RoutingTable.distinct_update_iff now node hs.table hd]
    rintro ⟨i, b, hi, hb, hagain⟩
    obtain ⟨j, b', hj, hb', hcontains⟩ := RoutingTable.knows_iff.mp hknown
    obtain rfl := Option.some.inj (hi.symm.trans hj)
    obtain rfl := Option.some.inj (hb.symm.trans hb')
    exact KBucket.not_cachesAgain_of_contains hcontains hagain
  · rw [if_neg hknown]
    by_cases hrejects : d.routingTable.rejects node.addr = true
    · rw [if_pos hrejects]
      exact iff_of_true hd (Or.inr (Or.inl hrejects))
    · rw [if_neg hrejects, or_iff_right hknown, or_iff_right hrejects]
      unfold makeRoom
      dsimp only
      split
      · split
        · exact RoutingTable.distinct_evict_update_iff now node (hs.table.cleanupStale now)
            (hd.cleanupStale now)
        · exact RoutingTable.distinct_update_iff now node (hs.table.cleanupStale now)
            (hd.cleanupStale now)
      · exact RoutingTable.distinct_update_iff now node hs.table hd

/-- An operation on a table of distinct nodes keeps them distinct exactly when it puts no node
into a cache once more. -/
theorem distinct_apply_iff (op : TableOp) (hs : d.Sound) (hd : d.routingTable.Distinct) :
    (d.apply op).routingTable.Distinct ↔ d.CachesOnce op := by
  cases op with
  | addNode now node => exact distinct_addNode_iff now node hs hd
  | handleMessage now msg =>
    refine iff_of_true ?_ trivial
    unfold KademliaDht.apply KademliaDht.handleMessage
    dsimp only
    cases d.routingTable.bucketIndex msg.senderId with
    | none => exact hd
    | some i =>
      exact RoutingTable.Each.modifyBucket hd fun b hb =>
        (hd i b hb).refresh now msg.senderId (hs.table i b hb)
  | cleanupStale now => exact iff_of_true (hd.cleanupStale now) trivial
  | update now node => exact RoutingTable.distinct_update_iff now node hs.table hd
  | remove id =>
    exact iff_of_true (RoutingTable.Each.remove id hd fun i b _ hb =>
      (hd i b hb).of_subperm (KBucket.remove_subperm id b)) trivial
  | replaceOldest index =>
    exact iff_of_true (RoutingTable.Each.modifyBucket hd fun b hb =>
      (hd index b hb).of_subperm (KBucket.replaceOldest_subperm b)) trivial

/-- From the empty table on, the table is as expected in every state if and only if no
operation puts a node into a cache once more. -/
theorem table_represented_iff (localId : NodeId) (maxNodes : ℕ) (ops : List TableOp) :
    EventRuns.EachState step Represents (new localId maxNodes) ops ↔
      EventRuns.EachStep step CachesOnce (new localId maxNodes) ops := by
  refine @EventRuns.eachState_iff_eachStep _ _ step CachesOnce Sound Represents _ ops
    (fun _ => True) ?_ (fun _ _ => trivial) (sound_new localId maxNodes) ?_
  · intro d op d' _ hs hrepresents hstep
    obtain rfl := Option.some.inj hstep
    have hs' := hs.apply op
    exact ⟨hs', hs'.represents_iff.trans (distinct_apply_iff op hs hrepresents.distinct)⟩
  · refine (sound_new localId maxNodes).represents_iff.mpr ?_
    exact RoutingTable.Each.new fun _ => List.nodup_nil

/-- A node of the highest bucket of the table for the identifier `0`. -/
def crowdNode (k : ℕ) : DhtNode := ⟨.ofByte 0 (0x80 + k.toUInt8), "example.org:6881", 0⟩

/-- Twenty nodes fill a bucket; the next one, added twice, is in its cache twice. -/
theorem cached_twice : ∃ localId maxNodes ops,
    ¬EventRuns.EachState step Represents (new localId maxNodes) ops := by
  let ops := ((List.range 21).map fun k => TableOp.addNode 0 (crowdNode k)) ++
    [.addNode 1 (crowdNode 20)]
  refine ⟨.ofByte 0 0, 100, ops, fun hstates => ?_⟩
  have hrun : (EventRuns.run step (new (.ofByte 0 0) 100) ops).any fun d =>
      (d.routingTable.bucket 159).any fun b => !decide (b.members.map DhtNode.id).Nodup := by
    decide +kernel
  obtain ⟨d, hd, hbucket⟩ := (Option.any_eq_true _ _).mp hrun
  obtain ⟨b, hb, htwice⟩ := (Option.any_eq_true _ _).mp hbucket
  have hdistinct : (b.members.map DhtNode.id).Nodup := (hstates.last hd).distinct 159 b hb
  rw [decide_eq_true hdistinct] at htwice
  cases htwice

end KademliaDht

end Tachyon
