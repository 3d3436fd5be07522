import Tachyon.Dht.KBucket

/-!
# What the buckets keep

Every operation keeps the number of places, the bucket in which a node belongs, and that
only a full bucket has a cache. Each operation is described once for a bucket; what holds
of every bucket is then kept by the operations of the table.
-/

namespace Tachyon

namespace RoutingTable

variable {t : RoutingTable} {id : NodeId} {i j : ℕ}

/-- The bucket of an identifier is that of the first bit in which it differs. -/
theorem bucketIndex_eq_some :
    t.bucketIndex id = some i ↔ id ≠ t.localId ∧ (t.localId.value ^^^ id.value).log2 = i := by
  unfold bucketIndex
  by_cases hid : id = t.localId
  · subst hid
    rw [leadingZeros_self, if_pos (le_refl _)]
    constructor
    · rintro ⟨⟩
    · rintro ⟨hne, -⟩
      exact absurd rfl hne
  · have hsum := leadingZeros_of_ne (Ne.symm hid)
    rw [if_neg (by omega), Option.some.injEq]
    constructor
    · rintro rfl
      exact ⟨hid, by omega⟩
    · rintro ⟨-, rfl⟩
      omega

theorem bucketIndex_lt (h : t.bucketIndex id = some i) : i < numBuckets := by
  obtain ⟨hne, rfl⟩ := bucketIndex_eq_some.mp h
  have hsum := leadingZeros_of_ne (Ne.symm hne)
  unfold numBuckets
  omega

theorem bucket_isSome (h : i < numBuckets) : ∃ b, t.bucket i = some b := by
  rw [← t.length_eq] at h
  exact ⟨_, List.getElem?_eq_getElem h⟩

theorem lt_of_bucket {b : KBucket} (h : t.bucket i = some b) : i < numBuckets := by
  obtain ⟨hlt, -⟩ := List.getElem?_eq_some_iff.mp h
  rwa [t.length_eq] at hlt

theorem bucket_modifyBucket (f : KBucket → KBucket) :
    (t.modifyBucket i f).bucket j = (t.bucket j).map fun b => if i = j then f b else b :=
  List.getElem?_modify f i t.buckets j

theorem bucket_cleanupStale (now : SystemTime) :
    (t.cleanupStale now).bucket j = (t.bucket j).map (KBucket.evictStale now) :=
  List.getElem?_map

theorem update_localId (now : SystemTime) (node : DhtNode) :
    (t.update now node).2.localId = t.localId := by
  unfold RoutingTable.update
  cases t.bucketIndex node.id <;> rfl

theorem nodesAt_eq {b : KBucket} (h : t.bucket i = some b) : t.nodesAt i = b.nodes := by
  rw [nodesAt, h]
  rfl

theorem mem_nodesAt_iff {n : DhtNode} :
    n ∈ t.nodesAt i ↔ ∃ b, t.bucket i = some b ∧ n ∈ b.nodes := by
  cases hb : t.bucket i with
  | none =>
    rw [nodesAt, hb]
    refine iff_of_false List.not_mem_nil ?_
    rintro ⟨b, hnone, -⟩
    cases hnone
  | some b =>
    rw [nodesAt_eq hb]
    refine ⟨fun hn => ⟨b, rfl, hn⟩, ?_⟩
    rintro ⟨b', hb', hn⟩
    obtain rfl := Option.some.inj hb'
    exact hn

/-- All nodes, bucket by bucket. -/
theorem allNodes_eq (t : RoutingTable) :
    t.allNodes = (List.range numBuckets).flatMap t.nodesAt := by
  rw [allNodes, List.flatMap_def, List.flatMap_def]
  congr 1
  refine List.ext_getElem? fun i => ?_
  rw [List.getElem?_map, List.getElem?_map]
  by_cases hi : i < numBuckets
  · obtain ⟨b, hb⟩ := t.bucket_isSome hi
    have hget : t.buckets[i]? = some b := hb
    rw [hget, List.getElem?_range hi, Option.map_some, Option.map_some, nodesAt_eq hb]
  · have hlength := t.length_eq
    rw [List.getElem?_eq_none (by omega), List.getElem?_eq_none (by simpa using hi)]
    rfl

/-- A property of every bucket and its index. -/
def Each (t : RoutingTable) (P : ℕ → KBucket → Prop) : Prop := ∀ i b, t.bucket i = some b → P i b

section Each

variable {P : ℕ → KBucket → Prop}

theorem Each.new {localId : NodeId} (h : ∀ i, P i .new) : (RoutingTable.new localId).Each P := by
  intro i b hb
  have hmem : b ∈ List.replicate numBuckets KBucket.new := List.mem_of_getElem? hb
  rw [List.eq_of_mem_replicate hmem]
  exact h i

theorem Each.modifyBucket {f : KBucket → KBucket} (h : t.Each P)
    (hf : ∀ b, t.bucket i = some b → P i (f b)) : (t.modifyBucket i f).Each P := by
  intro j b hb
  rw [bucket_modifyBucket] at hb
  obtain ⟨b₀, hb₀, rfl⟩ := Option.map_eq_some_iff.mp hb
  split
  · rename_i hij
    subst hij
    exact hf b₀ hb₀
  · exact h j b₀ hb₀

theorem Each.cleanupStale (now : SystemTime) (h : t.Each P)
    (hf : ∀ i b, P i b → P i (b.evictStale now)) : (t.cleanupStale now).Each P := by
  intro j b hb
  rw [bucket_cleanupStale] at hb
  obtain ⟨b₀, hb₀, rfl⟩ := Option.map_eq_some_iff.mp hb
  exact hf j b₀ (h j b₀ hb₀)

theorem Each.update (now : SystemTime) (node : DhtNode) (h : t.Each P)
    (hf : ∀ i b, t.bucketIndex node.id = some i → t.bucket i = some b →
      P i (b.update now node).2) : (t.update now node).2.Each P := by
  unfold RoutingTable.update
  cases hi : t.bucketIndex node.id with
  | none => exact h
  | some i => exact h.modifyBucket fun b hb => hf i b hi hb

theorem Each.remove (id : NodeId) (h : t.Each P)
    (hf : ∀ i b, t.bucketIndex id = some i → t.bucket i = some b → P i (b.remove id).2) :
    (t.remove id).2.Each P := by
  unfold RoutingTable.remove
  cases hi : t.bucketIndex id with
  | none => exact h
  | some i => exact h.modifyBucket fun b hb => hf i b hi hb

end Each

end RoutingTable

namespace KBucket

variable {b : KBucket} {node : DhtNode} {now : SystemTime} {id : NodeId}

theorem contains_iff : b.contains id = true ↔ ∃ n ∈ b.nodes, n.id = id := by
  simp [contains]

/-- What `update` does: it refreshes a node, enters one where there is a place, or caches it. -/
theorem update_cases (now : SystemTime) (node : DhtNode) (b : KBucket) :
    (b.contains node.id = true ∧ b.update now node = (true,
      { b with nodes := b.nodes.eraseP (fun n => n.id = node.id) ++ [node.touch now] })) ∨
    (b.contains node.id = false ∧ b.nodes.length < kBucketSize ∧
      b.update now node = (true, { b with nodes := b.nodes ++ [node] })) ∨
    (b.contains node.id = false ∧ kBucketSize ≤ b.nodes.length ∧
      b.update now node = (false, { b with
        replacementCache := (if kBucketSize ≤ b.replacementCache.length then
          b.replacementCache.drop 1 else b.replacementCache) ++ [node] })) := by
  unfold update isFull
  cases hcontains : b.contains node.id with
  | true => exact Or.inl ⟨rfl, if_pos rfl⟩
  | false =>
    rw [if_neg Bool.false_ne_true]
    by_cases hfull : kBucketSize ≤ b.nodes.length
    · exact Or.inr (Or.inr ⟨rfl, hfull, if_neg (by simpa using hfull)⟩)
    · exact Or.inr (Or.inl ⟨rfl, by omega, if_pos (by simpa using hfull)⟩)

/-- What `remove` does. -/
theorem remove_cases (id : NodeId) (b : KBucket) :
    (b.contains id = false ∧ b.remove id = (false, b)) ∨
    (b.contains id = true ∧ b.remove id = (true, ⟨b.nodes.eraseP (fun n => n.id = id) ++
      b.replacementCache.getLast?.toList, b.replacementCache.dropLast⟩)) := by
  unfold remove
  cases hcontains : b.contains id with
  | true => exact Or.inr ⟨rfl, if_pos rfl⟩
  | false => exact Or.inl ⟨rfl, if_neg Bool.false_ne_true⟩

theorem contains_iff_mem : b.contains id = true ↔ id ∈ b.nodes.map DhtNode.id := by
  rw [contains_iff, List.mem_map]

theorem find_of_contains (h : b.contains id = true) :
    ∃ n, (b.nodes.find? fun n => n.id = id) = some n := by
  obtain ⟨n, hn, hid⟩ := contains_iff.mp h
  exact Option.isSome_iff_exists.mp (List.find?_isSome.mpr ⟨n, hn, decide_eq_true hid⟩)

/-- The first node that a predicate finds, and the others. -/
theorem find_perm {l : List DhtNode} {q : DhtNode → Bool} {n : DhtNode}
    (hfind : l.find? q = some n) : l.Perm (n :: l.eraseP q) := by
  induction l with
  | nil => cases hfind
  | cons m l ih =>
    cases hm : q m with
    | true =>
      rw [List.find?_cons_of_pos hm] at hfind
      obtain rfl := Option.some.inj hfind
      rw [List.eraseP_cons_of_pos hm]
    | false =>
      have hneg : ¬q m = true := by
        rw [hm]
        exact Bool.false_ne_true
      rw [List.find?_cons_of_neg hneg] at hfind
      rw [List.eraseP_cons_of_neg hneg]
      exact ((ih hfind).cons m).trans (List.Perm.swap n m _)

/-- A node that is there, and the others. -/
theorem eraseP_perm (h : b.contains id = true) :
    ∃ n ∈ b.nodes, n.id = id ∧ b.nodes.Perm (n :: b.nodes.eraseP fun n => n.id = id) := by
  obtain ⟨n, hfind⟩ := find_of_contains h
  have hid := List.find?_some hfind
  exact ⟨n, List.mem_of_find?_eq_some hfind, of_decide_eq_true hid, find_perm hfind⟩

/-- A refreshed node stands for the one that was there. -/
theorem refresh_ids_perm (now : SystemTime) (h : b.contains node.id = true) :
    ((b.nodes.eraseP (fun n => n.id = node.id) ++ [node.touch now]).map DhtNode.id).Perm
      (b.nodes.map DhtNode.id) := by
  obtain ⟨n, -, hid, hperm⟩ := eraseP_perm h
  have hids := hperm.map DhtNode.id
  rw [List.map_cons, hid] at hids
  rw [List.map_append]
  exact List.perm_append_comm.trans hids.symm

theorem length_eraseP (h : b.contains id = true) :
    (b.nodes.eraseP fun n => n.id = id).length + 1 = b.nodes.length := by
  obtain ⟨n, -, -, hperm⟩ := eraseP_perm h
  rw [hperm.length_eq, List.length_cons]

/-- The latest entry of the cache and what stands before it. -/
theorem getLast_toList_perm (cache : List DhtNode) :
    (cache.getLast?.toList ++ cache.dropLast).Perm cache := by
  induction cache using List.reverseRecOn with
  | nil => exact .nil
  | append_singleton cache n =>
    rw [List.getLast?_concat, List.dropLast_concat]
    exact List.perm_append_comm

end KBucket

end Tachyon
