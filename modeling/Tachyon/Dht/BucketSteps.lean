import Tachyon.Dht.Kademlia
import Mathlib.Data.List.Perm.Subperm

/-!
# The members of a bucket

What each operation makes of the active and the cached nodes of a bucket. No operation
but `update` brings in a node; the bounds, the place of every node, and that only a full
bucket has a cache are kept by all of them.
-/

namespace Tachyon

namespace KBucket

variable {b : KBucket} {node : DhtNode} {now : SystemTime} {id localId : NodeId} {i : ℕ}

/-- The nodes of a bucket, active or cached. -/
def members (b : KBucket) : List DhtNode := b.nodes ++ b.replacementCache

/-- The cache with room for one more entry. -/
def keptCache (b : KBucket) : List DhtNode :=
  if kBucketSize ≤ b.replacementCache.length then b.replacementCache.drop 1
  else b.replacementCache

/-- The bounds of a bucket, and where its nodes belong; only a full bucket has a cache. -/
structure Sound (localId : NodeId) (i : ℕ) (b : KBucket) : Prop where
  nodes_le : b.nodes.length ≤ kBucketSize
  cache_le : b.replacementCache.length ≤ kBucketSize
  full : b.replacementCache ≠ [] → kBucketSize ≤ b.nodes.length
  placed : ∀ n ∈ b.members, n.id ≠ localId ∧ (localId.value ^^^ n.id.value).log2 = i

theorem sound_new (localId : NodeId) (i : ℕ) : Sound localId i .new where
  nodes_le := Nat.zero_le _
  cache_le := Nat.zero_le _
  full h := absurd rfl h
  placed _ hn := absurd hn List.not_mem_nil

theorem keptCache_sublist (b : KBucket) : b.keptCache.Sublist b.replacementCache := by
  unfold keptCache
  split
  · exact List.drop_sublist 1 _
  · exact List.Sublist.refl _

theorem length_keptCache (h : b.replacementCache.length ≤ kBucketSize) :
    b.keptCache.length < kBucketSize := by
  unfold keptCache kBucketSize at *
  split
  · rw [List.length_drop]
    omega
  · omega

theorem members_eq_nodes (h : b.replacementCache = []) : b.members = b.nodes := by
  rw [members, h, List.append_nil]

/-- A bucket with room has no cache. -/
theorem Sound.cache_eq_nil (hb : Sound localId i b) (h : b.nodes.length < kBucketSize) :
    b.replacementCache = [] := by
  by_contra hne
  exact absurd (hb.full hne) (not_le.mpr h)

theorem Sound.of_subperm {b' : KBucket} (hb : Sound localId i b)
    (hmembers : b'.members.Subperm b.members) (hnodes : b'.nodes.length ≤ kBucketSize)
    (hcache : b'.replacementCache.length ≤ kBucketSize)
    (hfull : b'.replacementCache ≠ [] → kBucketSize ≤ b'.nodes.length) : Sound localId i b' where
  nodes_le := hnodes
  cache_le := hcache
  full := hfull
  placed n hn := hb.placed n (hmembers.subset hn)

/-! ### `update` -/

/-- `update` brings in no node but its own. -/
theorem mem_members_update {n : DhtNode} (hn : n ∈ (b.update now node).2.members) :
    n ∈ b.members ∨ n = node ∨ n = node.touch now := by
  rcases update_cases now node b with ⟨-, heq⟩ | ⟨-, -, heq⟩ | ⟨-, -, heq⟩
  · rw [heq] at hn
    rcases List.mem_append.mp hn with hn | hn
    · rcases List.mem_append.mp hn with hn | hn
      · exact Or.inl (List.mem_append_left _ (List.mem_of_mem_eraseP hn))
      · exact Or.inr (Or.inr (List.mem_singleton.mp hn))
    · exact Or.inl (List.mem_append_right _ hn)
  · rw [heq] at hn
    rcases List.mem_append.mp hn with hn | hn
    · rcases List.mem_append.mp hn with hn | hn
      · exact Or.inl (List.mem_append_left _ hn)
      · exact Or.inr (Or.inl (List.mem_singleton.mp hn))
    · exact Or.inl (List.mem_append_right _ hn)
  · rw [heq] at hn
    rcases List.mem_append.mp hn with hn | hn
    · exact Or.inl (List.mem_append_left _ hn)
    · rcases List.mem_append.mp hn with hn | hn
      · exact Or.inl (List.mem_append_right _ (b.keptCache_sublist.subset hn))
      · exact Or.inr (Or.inl (List.mem_singleton.mp hn))

theorem Sound.update (now : SystemTime) (hb : Sound localId i b)
    (hnode : node.id ≠ localId ∧ (localId.value ^^^ node.id.value).log2 = i) :
    Sound localId i (b.update now node).2 := by
  have hplaced : ∀ n ∈ (b.update now node).2.members,
      n.id ≠ localId ∧ (localId.value ^^^ n.id.value).log2 = i := by
    intro n hn
    rcases mem_members_update hn with hn | rfl | rfl
    · exact hb.placed n hn
    · exact hnode
    · exact hnode
  rcases update_cases now node b with ⟨hcontains, heq⟩ | ⟨-, hroom, heq⟩ | ⟨-, hfull, heq⟩
  · have hlength := length_eraseP hcontains
    have hle := hb.nodes_le
    rw [heq] at hplaced ⊢
    refine ⟨?_, hb.cache_le, fun hne => ?_, hplaced⟩
    · rw [List.length_append, List.length_singleton, hlength]
      exact hle
    · rw [List.length_append, List.length_singleton, hlength]
      exact hb.full hne
  · rw [heq] at hplaced ⊢
    refine ⟨?_, hb.cache_le, fun hne => absurd (hb.cache_eq_nil hroom) hne, hplaced⟩
    rw [List.length_append, List.length_singleton]
    omega
  · have hkept := length_keptCache hb.cache_le
    rw [heq] at hplaced ⊢
    refine ⟨hb.nodes_le, ?_, fun _ => hfull, hplaced⟩
    rw [List.length_append, List.length_singleton]
    exact hkept

/-! ### `remove` and `replace_oldest` -/

/-- A removed node leaves, and no other. -/
theorem remove_members (h : b.contains id = true) :
    ∃ n ∈ b.nodes, n.id = id ∧ b.members.Perm (n :: (b.remove id).2.members) := by
  rcases remove_cases id b with ⟨hnot, -⟩ | ⟨-, heq⟩
  · rw [h] at hnot
    cases hnot
  · obtain ⟨n, hn, hid, hperm⟩ := eraseP_perm h
    refine ⟨n, hn, hid, ?_⟩
    rw [heq, members, members, List.append_assoc]
    have hcache := (getLast_toList_perm b.replacementCache).symm
    exact (hperm.append_right _).trans ((hcache.append_left _).cons n)

theorem remove_subperm (id : NodeId) (b : KBucket) :
    (b.remove id).2.members.Subperm b.members := by
  rcases hcontains : b.contains id with _ | _
  · rcases remove_cases id b with ⟨-, heq⟩ | ⟨h, -⟩
    · rw [heq]
    · rw [hcontains] at h
      cases h
  · obtain ⟨n, -, -, hperm⟩ := remove_members hcontains
    exact ((List.sublist_cons_self n _).subperm).trans hperm.symm.subperm

theorem Sound.remove (id : NodeId) (hb : Sound localId i b) : Sound localId i (b.remove id).2 := by
  have hsub := remove_subperm id b
  rcases remove_cases id b with ⟨-, heq⟩ | ⟨hcontains, heq⟩
  · rw [heq]
    exact hb
  · have hlength := length_eraseP hcontains
    have hnodes := hb.nodes_le
    have hcache := hb.cache_le
    refine hb.of_subperm hsub ?_ ?_ ?_ <;> rw [heq]
    · rw [List.length_append]
      have hle : b.replacementCache.getLast?.toList.length ≤ 1 := Option.length_toList_le
      omega
    · rw [List.length_dropLast]
      omega
    · intro hne
      have hcached : b.replacementCache ≠ [] := by
        rintro hnil
        rw [hnil] at hne
        exact hne rfl
      have hfull := hb.full hcached
      rw [List.length_append, List.getLast?_eq_some_getLast hcached]
      change kBucketSize ≤ _ + 1
      omega

theorem replaceOldest_cases (b : KBucket) :
    (b.replacementCache = [] ∧ b.replaceOldest = b) ∨
    (∃ rest r, b.replacementCache = rest ++ [r] ∧ b.nodes = [] ∧ b.replaceOldest = ⟨[], rest⟩) ∨
    ∃ rest r n ns, b.replacementCache = rest ++ [r] ∧ b.nodes = n :: ns ∧
      b.replaceOldest = ⟨r :: ns, rest⟩ := by
  obtain ⟨nodes, cache⟩ := b
  unfold replaceOldest
  rcases List.eq_nil_or_concat cache with rfl | ⟨rest, r, rfl⟩
  · exact Or.inl ⟨rfl, rfl⟩
  · dsimp only
    rw [List.concat_eq_append, List.getLast?_concat, List.dropLast_concat]
    cases nodes with
    | nil => exact Or.inr (Or.inl ⟨rest, r, rfl, rfl, rfl⟩)
    | cons n ns => exact Or.inr (Or.inr ⟨rest, r, n, ns, rfl, rfl, rfl⟩)

theorem replaceOldest_subperm (b : KBucket) : b.replaceOldest.members.Subperm b.members := by
  rcases replaceOldest_cases b with ⟨-, heq⟩ | ⟨rest, r, hcache, hnodes, heq⟩ |
    ⟨rest, r, n, ns, hcache, hnodes, heq⟩
  · rw [heq]
  · rw [heq, members, members, hcache, hnodes]
    exact (List.sublist_append_left rest [r]).subperm
  · rw [heq, members, members, hcache, hnodes]
    have hperm : (r :: (ns ++ rest)).Perm (ns ++ (rest ++ [r])) := by
      rw [← List.append_assoc]
      exact (List.perm_append_singleton r _).symm
    exact hperm.subperm.trans (List.sublist_cons_self n _).subperm

theorem Sound.replaceOldest (hb : Sound localId i b) : Sound localId i b.replaceOldest := by
  have hsub := replaceOldest_subperm b
  have hnodes := hb.nodes_le
  have hcache := hb.cache_le
  have hfull := hb.full
  rcases replaceOldest_cases b with ⟨-, heq⟩ | ⟨rest, r, hcached, hempty, heq⟩ |
    ⟨rest, r, n, ns, hcached, hsome, heq⟩
  · rw [heq]
    exact hb
  · -- an empty bucket has no cache
    rw [hcached, hempty] at hfull
    exact absurd (hfull (by simp)) (by decide)
  · rw [hcached, List.length_append, List.length_singleton] at hcache
    rw [hcached, hsome, List.length_cons] at hfull
    rw [hsome, List.length_cons] at hnodes
    refine hb.of_subperm hsub ?_ ?_ ?_ <;> rw [heq]
    · exact hnodes
    · exact Nat.le_of_succ_le hcache
    · exact fun _ => hfull (by simp)

/-! ### `evict_stale` -/

/-- The active nodes that are not stale. -/
def fresh (now : SystemTime) (b : KBucket) : List DhtNode := b.nodes.filter fun n => !n.isStale now

/-- The cached nodes that take the free places, the latest first. -/
def promoted (now : SystemTime) (b : KBucket) : List DhtNode :=
  (b.replacementCache.reverse.filter fun n => !n.isStale now).take
    (kBucketSize - (b.fresh now).length)

theorem refill_spec (now : SystemTime) (cache nodes : List DhtNode) :
    ∃ rest, refill now cache nodes = (nodes ++ (cache.filter fun n => !n.isStale now).take
        (kBucketSize - nodes.length), rest) ∧
      ((cache.filter fun n => !n.isStale now).take (kBucketSize - nodes.length) ++ rest).Sublist
        cache ∧
      (rest ≠ [] → kBucketSize ≤ nodes.length +
        ((cache.filter fun n => !n.isStale now).take (kBucketSize - nodes.length)).length) := by
  induction cache generalizing nodes with
  | nil =>
    refine ⟨[], ?_, ?_, fun h => absurd rfl h⟩
    · rw [refill, List.filter_nil, List.take_nil, List.append_nil]
    · rw [List.filter_nil, List.take_nil, List.append_nil]
  | cons candidate cache ih =>
    rw [refill]
    by_cases hfull : kBucketSize ≤ nodes.length
    · refine ⟨candidate :: cache, ?_⟩
      rw [if_pos hfull, Nat.sub_eq_zero_of_le hfull, List.take_zero, List.append_nil,
        List.nil_append]
      exact ⟨rfl, List.Sublist.refl _, fun _ => hfull⟩
    · rw [if_neg hfull]
      cases hstale : candidate.isStale now with
      | true =>
        obtain ⟨rest, hrefill, hsub, hend⟩ := ih nodes
        rw [if_pos rfl, List.filter_cons_of_neg (by rw [hstale]; decide)]
        exact ⟨rest, hrefill, hsub.cons candidate, hend⟩
      | false =>
        obtain ⟨rest, hrefill, hsub, hend⟩ := ih (nodes ++ [candidate])
        have hroom : kBucketSize - nodes.length =
            kBucketSize - (nodes ++ [candidate]).length + 1 := by
          rw [List.length_append, List.length_singleton]
          omega
        rw [if_neg Bool.false_ne_true, List.filter_cons_of_pos (by rw [hstale]; decide), hroom,
          List.take_succ_cons]
        refine ⟨rest, ?_, hsub.cons_cons candidate, fun hne => ?_⟩
        · rw [hrefill, List.append_assoc, List.singleton_append]
        · have hle := hend hne
          have hlength : (nodes ++ [candidate]).length = nodes.length + 1 := List.length_append
          rw [List.length_cons]
          omega

/-- What `evict_stale` leaves: the nodes that are not stale, and cached ones in the free
places. -/
theorem evictStale_spec (now : SystemTime) (b : KBucket) :
    (b.evictStale now).nodes = b.fresh now ++ b.promoted now ∧
      (b.evictStale now).members.Subperm b.members ∧
      ((b.evictStale now).replacementCache ≠ [] →
        kBucketSize ≤ (b.evictStale now).nodes.length) ∧
      (b.evictStale now).replacementCache.length ≤ b.replacementCache.length := by
  obtain ⟨rest, hrefill, hsub, hend⟩ :=
    refill_spec now b.replacementCache.reverse (b.nodes.filter fun n => !n.isStale now)
  have heq : b.evictStale now = ⟨b.fresh now ++ b.promoted now, rest.reverse⟩ := by
    unfold evictStale
    dsimp only
    rw [hrefill]
    rfl
  rw [heq]
  refine ⟨rfl, ?_, fun hne => ?_, ?_⟩
  · have hfresh : (b.fresh now).Sublist b.nodes := List.filter_sublist
    have hcache : (b.promoted now ++ rest.reverse).Subperm b.replacementCache :=
      ((List.reverse_perm rest).append_left _).subperm.trans
        (hsub.subperm.trans (List.reverse_perm _).subperm)
    rw [members, members, List.append_assoc]
    exact hfresh.subperm.append hcache
  · have hrest : rest ≠ [] := fun hnil => hne (by rw [hnil]; rfl)
    rw [List.length_append]
    exact hend hrest
  · have hlength := hsub.length_le
    rw [List.length_append, List.length_reverse] at hlength
    rw [List.length_reverse]
    omega

theorem length_evictStale (now : SystemTime) (hb : b.nodes.length ≤ kBucketSize) :
    (b.evictStale now).nodes.length ≤ kBucketSize := by
  have hfresh : (b.fresh now).length ≤ b.nodes.length := List.filter_sublist.length_le
  have hpromoted : (b.promoted now).length ≤ kBucketSize - (b.fresh now).length :=
    List.length_take_le _ _
  rw [(evictStale_spec now b).1, List.length_append]
  omega

theorem Sound.evictStale (now : SystemTime) (hb : Sound localId i b) :
    Sound localId i (b.evictStale now) := by
  obtain ⟨-, hsub, hfull, hlength⟩ := evictStale_spec now b
  exact hb.of_subperm hsub (length_evictStale now hb.nodes_le) (hlength.trans hb.cache_le) hfull

/-! ### The parts of `handle_message` and `evict_oldest` -/

/-- A refresh is the update of a node that is there. -/
theorem refresh_cases (now : SystemTime) (id : NodeId) (b : KBucket) :
    (b.contains id = false ∧ b.refresh now id = b) ∨
    ∃ n, (b.nodes.find? fun n => n.id = id) = some n ∧
      b.refresh now id = (b.update now (n.touch now)).2 := by
  unfold refresh
  cases hfind : b.nodes.find? fun n => n.id = id with
  | none =>
    refine Or.inl ⟨?_, rfl⟩
    rw [← Bool.not_eq_true, contains_iff]
    rintro ⟨n, hn, hid⟩
    exact List.find?_eq_none.mp hfind n hn (decide_eq_true hid)
  | some n => exact Or.inr ⟨n, rfl, rfl⟩

/-- A refresh moves a node to the end and sets its time. -/
theorem refresh_spec (now : SystemTime) (id : NodeId) (b : KBucket) :
    (b.contains id = false ∧ b.refresh now id = b) ∨
    ∃ n, (b.nodes.find? fun n => n.id = id) = some n ∧
      b.refresh now id =
        { b with nodes := b.nodes.eraseP (fun n => n.id = id) ++ [n.touch now] } := by
  rcases refresh_cases now id b with hnot | ⟨n, hfind, heq⟩
  · exact Or.inl hnot
  · have hid := List.find?_some hfind
    obtain rfl : n.id = id := of_decide_eq_true hid
    have hcontains : b.contains (n.touch now).id = true :=
      contains_iff.mpr ⟨n, List.mem_of_find?_eq_some hfind, rfl⟩
    refine Or.inr ⟨n, hfind, ?_⟩
    rcases update_cases now (n.touch now) b with ⟨-, hupdate⟩ | ⟨hnew, -⟩ | ⟨hnew, -⟩
    · rw [heq, hupdate]
      rfl
    · rw [hcontains] at hnew
      cases hnew
    · rw [hcontains] at hnew
      cases hnew

theorem Sound.refresh (now : SystemTime) (id : NodeId) (hb : Sound localId i b) :
    Sound localId i (b.refresh now id) := by
  rcases refresh_cases now id b with ⟨-, heq⟩ | ⟨n, hfind, heq⟩
  · rw [heq]
    exact hb
  · have hn := List.mem_of_find?_eq_some hfind
    rw [heq]
    exact hb.update now (hb.placed n (List.mem_append_left _ hn))

theorem evict_cases (now : SystemTime) (id : NodeId) (b : KBucket) :
    ((b.remove id).2.replacementCache = [] ∧ b.evict now id = (b.remove id).2) ∨
    ∃ rest r, (b.remove id).2.replacementCache = rest ++ [r] ∧
      b.evict now id = ((b.remove id).2.update now r).2 := by
  unfold evict
  dsimp only
  rcases List.eq_nil_or_concat (b.remove id).2.replacementCache with heq | ⟨rest, r, heq⟩
  · rw [heq]
    exact Or.inl ⟨rfl, rfl⟩
  · rw [heq, List.concat_eq_append, List.getLast?_concat]
    exact Or.inr ⟨rest, r, rfl, rfl⟩

theorem Sound.evict (now : SystemTime) (id : NodeId) (hb : Sound localId i b) :
    Sound localId i (b.evict now id) := by
  have hremoved := hb.remove id
  rcases evict_cases now id b with ⟨-, heq⟩ | ⟨rest, r, hcache, heq⟩
  · rw [heq]
    exact hremoved
  · rw [heq]
    refine hremoved.update now (hremoved.placed r (List.mem_append_right _ ?_))
    rw [hcache]
    exact List.mem_append_right _ List.mem_cons_self

end KBucket

/-! ### The table -/

namespace RoutingTable

variable {t : RoutingTable}

theorem victim_spec {i : ℕ} {n : DhtNode} (h : t.victim = some (i, n)) :
    ∃ b, t.bucket i = some b ∧ b.oldest = some n := by
  have hmem : (i, n) ∈ t.oldestNodes := List.argmin_mem h
  obtain ⟨j, -, hj⟩ := List.mem_filterMap.mp hmem
  obtain ⟨m, hm, heq⟩ := Option.map_eq_some_iff.mp hj
  obtain ⟨rfl, rfl⟩ := Prod.mk.inj heq
  exact Option.bind_eq_some_iff.mp hm

theorem contains_of_oldest {b : KBucket} {n : DhtNode} (h : b.oldest = some n) :
    b.contains n.id = true :=
  KBucket.contains_iff.mpr ⟨n, List.mem_of_head? h, rfl⟩

theorem Each.evictOldest {P : ℕ → KBucket → Prop} (now : SystemTime) (h : t.Each P)
    (hf : ∀ i n b, t.victim = some (i, n) → t.bucket i = some b → P i (b.evict now n.id)) :
    (t.evictOldest now).Each P := by
  unfold RoutingTable.evictOldest
  cases hv : t.victim with
  | none => exact h
  | some v => exact h.modifyBucket fun b hb => hf v.1 v.2 b hv hb

theorem evictOldest_localId (now : SystemTime) (t : RoutingTable) :
    (t.evictOldest now).localId = t.localId := by
  unfold RoutingTable.evictOldest
  cases t.victim <;> rfl

/-- Every bucket of the table is sound. -/
abbrev Sound (t : RoutingTable) : Prop := t.Each (KBucket.Sound t.localId)

theorem Sound.update (now : SystemTime) (node : DhtNode) (h : t.Sound) :
    (t.update now node).2.Sound := by
  unfold RoutingTable.Sound
  rw [update_localId]
  exact Each.update now node h fun i b hi hb =>
    (h i b hb).update now (bucketIndex_eq_some.mp hi)

theorem Sound.cleanupStale (now : SystemTime) (h : t.Sound) : (t.cleanupStale now).Sound :=
  Each.cleanupStale now h fun _ _ hb => hb.evictStale now

theorem Sound.evictOldest (now : SystemTime) (h : t.Sound) : (t.evictOldest now).Sound := by
  unfold RoutingTable.Sound
  rw [evictOldest_localId]
  exact Each.evictOldest now h fun i n b _ hb => (h i b hb).evict now n.id

end RoutingTable

/-- The table of a node is one for its identifier, and sound. -/
structure KademliaDht.Sound (d : KademliaDht) : Prop where
  localId_eq : d.routingTable.localId = d.localId
  table : d.routingTable.Sound

namespace KademliaDht

variable {d : KademliaDht}

theorem sound_new (localId : NodeId) (maxNodes : ℕ) : (new localId maxNodes).Sound where
  localId_eq := rfl
  table := RoutingTable.Each.new fun i => KBucket.sound_new localId i

theorem makeRoom_localId (now : SystemTime) (d : KademliaDht) :
    (d.makeRoom now).localId = d.routingTable.localId := by
  unfold makeRoom
  split
  · dsimp only
    split
    · exact RoutingTable.evictOldest_localId now _
    · rfl
  · rfl

theorem Sound.makeRoom (now : SystemTime) (h : d.Sound) : (d.makeRoom now).Sound := by
  unfold KademliaDht.makeRoom
  split
  · dsimp only
    split
    · exact (h.table.cleanupStale now).evictOldest now
    · exact h.table.cleanupStale now
  · exact h.table

/-- Every operation keeps the table sound. -/
theorem Sound.apply (h : d.Sound) (op : TableOp) : (d.apply op).Sound := by
  cases op with
  | addNode now node =>
    unfold KademliaDht.apply KademliaDht.addNode
    dsimp only
    split
    · exact ⟨(RoutingTable.update_localId now node).trans h.localId_eq,
        h.table.update now node⟩
    · split
      · exact h
      · exact ⟨(RoutingTable.update_localId now node).trans
          ((makeRoom_localId now d).trans h.localId_eq), (h.makeRoom now).update now node⟩
  | handleMessage now msg =>
    unfold KademliaDht.apply KademliaDht.handleMessage
    dsimp only
    cases hi : d.routingTable.bucketIndex msg.senderId with
    | none => exact h
    | some i =>
      exact ⟨h.localId_eq, RoutingTable.Each.modifyBucket h.table fun b hb =>
        (h.table i b hb).refresh now msg.senderId⟩
  | cleanupStale now => exact ⟨h.localId_eq, h.table.cleanupStale now⟩
  | update now node =>
    exact ⟨(RoutingTable.update_localId now node).trans h.localId_eq, h.table.update now node⟩
  | remove id =>
    have hlocal : (d.routingTable.remove id).2.localId = d.routingTable.localId := by
      unfold RoutingTable.remove
      cases d.routingTable.bucketIndex id <;> rfl
    refine ⟨hlocal.trans h.localId_eq, ?_⟩
    change RoutingTable.Each _ (KBucket.Sound (d.routingTable.remove id).2.localId)
    rw [hlocal]
    exact RoutingTable.Each.remove id h.table fun i b _ hb => (h.table i b hb).remove id
  | replaceOldest index =>
    exact ⟨h.localId_eq, RoutingTable.Each.modifyBucket h.table fun b hb =>
      (h.table index b hb).replaceOldest⟩

end KademliaDht

end Tachyon
