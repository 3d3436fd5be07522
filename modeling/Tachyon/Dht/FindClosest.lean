import Tachyon.Dht.Buckets

/-!
# The closest nodes

`find_closest` goes from the target's bucket to both sides in step and stops when it has
enough nodes. A bucket below the target's own holds closer nodes than every bucket above,
so it can stop too early; this module says exactly when.
-/

namespace Tachyon

namespace RoutingTable

/-- The table after updates from the empty one. -/
def updated (localId : NodeId) (updates : List (SystemTime × DhtNode)) : RoutingTable :=
  updates.foldl (fun t u => (t.update u.1 u.2).2) (.new localId)

/-- The distance of a node. -/
abbrev distanceTo (target : NodeId) (n : DhtNode) : NodeId := xorDistance n.id target

/-- The nodes of the buckets from the lowest to the highest. -/
def nodesBetween (t : RoutingTable) (lo hi : ℕ) : List DhtNode :=
  (List.range' lo (hi + 1 - lo)).flatMap t.nodesAt

/-- The number of nodes, from a bucket up to the target's own, in the buckets of the bits that
are set in the distance of the target. -/
def nodesToward (t : RoutingTable) (target : NodeId) (lo : ℕ) : ℕ :=
  ((List.range' lo (t.center target + 1 - lo)).map fun i =>
    if (xorDistance t.localId target).value.testBit i then (t.nodesAt i).length else 0).sum

/-- Every bucket below the target's own is empty, or the buckets nearer to the target's own
hold fewer than `count` nodes, or those above it hold `count` nodes that are closer. -/
def Covers (t : RoutingTable) (target : NodeId) (count : ℕ) : Prop :=
  ∀ j < t.center target, t.nodesAt j = [] ∨
    (t.nodesBetween (j + 1) (2 * t.center target - (j + 1))).length < count ∨
    count ≤ t.nodesToward target (j + 1)

instance (t : RoutingTable) (target : NodeId) (count : ℕ) : Decidable (t.Covers target count) :=
  inferInstanceAs (Decidable (∀ _ < _, _ ∨ _))

section Visit

variable {t : RoutingTable} {target : NodeId} {count lo hi : ℕ} {found : List DhtNode}

theorem nodesBetween_self (i : ℕ) : t.nodesBetween i i = t.nodesAt i := by
  rw [nodesBetween, Nat.add_sub_cancel_left, List.range'_one, List.flatMap_singleton]

theorem nodesBetween_above (h : lo ≤ hi + 1) :
    t.nodesBetween lo (hi + 1) = t.nodesBetween lo hi ++ t.nodesAt (hi + 1) := by
  have hlength : hi + 1 + 1 - lo = hi + 1 - lo + 1 := by omega
  have hlast : lo + (hi + 1 - lo) = hi + 1 := by omega
  rw [nodesBetween, hlength, List.range'_1_concat, List.flatMap_append, List.flatMap_singleton,
    hlast]
  rfl

theorem nodesBetween_below (h : lo ≤ hi) :
    t.nodesBetween lo hi = t.nodesAt lo ++ t.nodesBetween (lo + 1) hi := by
  have hlength : hi + 1 - lo = hi + 1 - (lo + 1) + 1 := by omega
  rw [nodesBetween, hlength, List.range'_succ, List.flatMap_cons]
  rfl

theorem nodesAt_eq_nil {i : ℕ} (h : numBuckets ≤ i) : t.nodesAt i = [] := by
  have hnone : t.bucket i = none := List.getElem?_eq_none (t.length_eq.le.trans h)
  rw [nodesAt, hnone]
  rfl

/-- There are no nodes above the highest bucket. -/
theorem nodesBetween_min (hlo : lo ≤ numBuckets - 1) (hle : lo ≤ hi) :
    t.nodesBetween lo (min (numBuckets - 1) hi) = t.nodesBetween lo hi := by
  induction hi, hle using Nat.le_induction with
  | base => rw [Nat.min_eq_right hlo]
  | succ hi hle ih =>
    by_cases htop : hi + 1 ≤ numBuckets - 1
    · rw [Nat.min_eq_right htop]
    · have hmin : min (numBuckets - 1) (hi + 1) = min (numBuckets - 1) hi := by omega
      rw [hmin, ih, nodesBetween_above (by omega), nodesAt_eq_nil (by omega), List.append_nil]

theorem length_nodesBetween_le {lo' hi' : ℕ} (hlo : lo ≤ lo') (hle : lo' ≤ hi') (hhi : hi' ≤ hi) :
    (t.nodesBetween lo' hi').length ≤ (t.nodesBetween lo hi).length := by
  have hbelow : (t.nodesBetween lo' hi').length ≤ (t.nodesBetween lo hi').length := by
    induction lo', hlo using Nat.le_induction with
    | base => exact le_refl _
    | succ k _ ih =>
      refine le_trans ?_ (ih (by omega))
      rw [nodesBetween_below (by omega : k ≤ hi'), List.length_append]
      omega
  induction hi, hhi using Nat.le_induction with
  | base => exact hbelow
  | succ k _ ih =>
    rw [nodesBetween_above (by omega), List.length_append]
    omega

/-- The search stops with the nodes of a range of buckets, which are enough or all. It goes on
below a bucket only with too few nodes, and as far above the first bucket as below. -/
theorem expand_spec (t : RoutingTable) (count : ℕ) {fuel c lo hi : ℕ} {found : List DhtNode}
    (hlo : lo ≤ c) (hc : c ≤ hi) (hhi : hi < numBuckets)
    (hfuel : lo < fuel ∧ numBuckets - 1 - hi < fuel)
    (hfound : found.Perm (t.nodesBetween lo hi))
    (heven : lo = 0 ∨ hi = min (numBuckets - 1) (2 * c - lo)) :
    ∃ lo' hi' found', t.expand count fuel lo hi found = (lo', hi', found') ∧ lo' ≤ lo ∧
      hi ≤ hi' ∧ hi' < numBuckets ∧ found'.Perm (t.nodesBetween lo' hi') ∧
      (count ≤ found'.length ∨ (hi' = numBuckets - 1 ∧ lo' = 0)) ∧
      (lo' = 0 ∨ hi' = min (numBuckets - 1) (2 * c - lo')) ∧
      ∀ j < lo, lo' ≤ j → (t.nodesBetween (j + 1) (2 * c - (j + 1))).length < count := by
  induction fuel generalizing lo hi found with
  | zero => omega
  | succ fuel ih =>
    unfold expand
    by_cases hstop : count ≤ found.length ∨ (hi = numBuckets - 1 ∧ lo = 0)
    · rw [if_pos hstop]
      exact ⟨lo, hi, found, rfl, le_refl _, le_refl _, hhi, hfound, hstop, heven,
        fun j hj hle => absurd hle (by omega)⟩
    · rw [if_neg hstop]
      dsimp only
      -- one bucket more on each side that has one
      have habove : (if hi < numBuckets - 1 then
            found ++ t.nodesAt (if hi < numBuckets - 1 then hi + 1 else hi)
          else found).Perm
          (t.nodesBetween lo (if hi < numBuckets - 1 then hi + 1 else hi)) := by
        by_cases hup : hi < numBuckets - 1
        · rw [if_pos hup, if_pos hup, nodesBetween_above (by omega)]
          exact hfound.append_right _
        · rw [if_neg hup, if_neg hup]
          exact hfound
      have hhi₁ : hi ≤ (if hi < numBuckets - 1 then hi + 1 else hi) ∧
          (if hi < numBuckets - 1 then hi + 1 else hi) < numBuckets ∧
          numBuckets - 1 - (if hi < numBuckets - 1 then hi + 1 else hi) < fuel ∧
          (if hi < numBuckets - 1 then hi + 1 else hi) = min (numBuckets - 1) (hi + 1) := by
        split <;> omega
      generalize (if hi < numBuckets - 1 then hi + 1 else hi) = hi₁ at habove hhi₁ ⊢
      generalize (if hi < numBuckets - 1 then found ++ t.nodesAt hi₁ else found) = found₁
        at habove ⊢
      have hbelow : (if 0 < lo then found₁ ++ t.nodesAt (lo - 1) else found₁).Perm
          (t.nodesBetween (lo - 1) hi₁) := by
        by_cases hdown : 0 < lo
        · have hlo : lo - 1 + 1 = lo := by omega
          rw [if_pos hdown, nodesBetween_below (by omega), hlo]
          exact (habove.append_right _).trans List.perm_append_comm
        · have hlo : lo - 1 = lo := by omega
          rw [if_neg hdown, hlo]
          exact habove
      obtain ⟨lo', hi', found', hrun, hlo', hhi', hlast, hperm, hend, heven', hreached⟩ :=
        ih (by omega) (by omega) hhi₁.2.1 ⟨by omega, hhi₁.2.2.1⟩ hbelow (by omega)
      refine ⟨lo', hi', found', hrun, by omega, by omega, hlast, hperm, hend, heven',
        fun j hj hle => ?_⟩
      by_cases hnext : j < lo - 1
      · exact hreached j hnext hle
      · -- the bucket just below, entered with too few nodes
        have hj : j + 1 = lo := by omega
        have hhi₀ : hi = min (numBuckets - 1) (2 * c - lo) := by omega
        have hcount : ¬count ≤ found.length := fun h => hstop (Or.inl h)
        rw [hj, ← nodesBetween_min (by omega) (by omega), ← hhi₀, ← hfound.length_eq]
        omega

/-- What `find_closest` visits: a range of buckets around the target's, which has enough nodes
or all. It reaches a bucket below when those nearer to the target's have too few. -/
theorem visit_spec (t : RoutingTable) (target : NodeId) (count : ℕ) :
    ∃ lo hi found, t.visit target count = (lo, hi, found) ∧ lo ≤ t.center target ∧
      t.center target ≤ hi ∧ hi < numBuckets ∧ found.Perm (t.nodesBetween lo hi) ∧
      (count ≤ found.length ∨ (hi = numBuckets - 1 ∧ lo = 0)) ∧
      ∀ j < t.center target, lo ≤ j ↔
        (t.nodesBetween (j + 1) (2 * t.center target - (j + 1))).length < count := by
  have hcenter : t.center target < numBuckets := by
    unfold center
    cases hindex : t.bucketIndex target with
    | none => exact Nat.zero_lt_succ _
    | some i => exact bucketIndex_lt hindex
  obtain ⟨lo, hi, found, hrun, hlo, hhi, hlast, hperm, hend, heven, hreached⟩ :=
    expand_spec t count (le_refl _) (le_refl _) hcenter ⟨hcenter, by omega⟩
      (List.Perm.of_eq (nodesBetween_self _).symm) (Or.inr (by omega))
  refine ⟨lo, hi, found, hrun, hlo, hhi, hlast, hperm, hend, fun j hj => ⟨hreached j hj, ?_⟩⟩
  -- the buckets below the last one visited find enough nodes nearer to the target's
  intro hfew
  by_contra hle
  have hmore := length_nodesBetween_le (t := t) (by omega : j + 1 ≤ lo) (by omega : lo ≤ hi)
    (by omega : hi ≤ 2 * t.center target - (j + 1))
  rw [← hperm.length_eq] at hmore
  omega

end Visit

/-! ### Tables of updates -/

/-- The nodes of a bucket belong there, and no two of them have one identifier. -/
structure Ordered (localId : NodeId) (i : ℕ) (b : KBucket) : Prop where
  placed : ∀ n ∈ b.nodes, n.id ≠ localId ∧ (localId.value ^^^ n.id.value).log2 = i
  nodup : (b.nodes.map DhtNode.id).Nodup

theorem Ordered.update {localId : NodeId} {i : ℕ} {b : KBucket} (now : SystemTime)
    {node : DhtNode} (hb : Ordered localId i b)
    (hindex : node.id ≠ localId ∧ (localId.value ^^^ node.id.value).log2 = i) :
    Ordered localId i (b.update now node).2 := by
  rcases KBucket.update_cases now node b with ⟨hcontains, heq⟩ | ⟨hnew, -, heq⟩ | ⟨-, -, heq⟩
  · rw [heq]
    refine ⟨fun n hn => ?_, (KBucket.refresh_ids_perm now hcontains).nodup_iff.mpr hb.nodup⟩
    rcases List.mem_append.mp hn with hn | hn
    · exact hb.placed n (List.mem_of_mem_eraseP hn)
    · rw [List.mem_singleton.mp hn]
      exact hindex
  · rw [heq]
    constructor
    · intro n hn
      rcases List.mem_append.mp hn with hn | hn
      · exact hb.placed n hn
      · rw [List.mem_singleton.mp hn]
        exact hindex
    · rw [List.map_append, List.map_singleton, ← List.concat_eq_append, List.nodup_concat]
      refine ⟨?_, hb.nodup⟩
      rw [← KBucket.contains_iff_mem, hnew]
      exact Bool.false_ne_true
  · rw [heq]
    exact ⟨hb.placed, hb.nodup⟩

theorem ordered_updated (localId : NodeId) (updates : List (SystemTime × DhtNode)) :
    (updated localId updates).localId = localId ∧
      (updated localId updates).Each (Ordered localId) := by
  have hstep (t : RoutingTable) (ht : t.localId = localId ∧ t.Each (Ordered localId)) :
      (updates.foldl (fun t u => (t.update u.1 u.2).2) t).localId = localId ∧
        (updates.foldl (fun t u => (t.update u.1 u.2).2) t).Each (Ordered localId) := by
    induction updates generalizing t with
    | nil => exact ht
    | cons u updates ih =>
      refine ih _ ⟨(update_localId u.1 u.2).trans ht.1, ?_⟩
      refine ht.2.update u.1 u.2 fun i b hindex hb => (ht.2 i b hb).update u.1 ?_
      rw [← ht.1]
      exact bucketIndex_eq_some.mp hindex
  exact hstep _ ⟨rfl, Each.new fun _ => ⟨fun _ hn => absurd hn List.not_mem_nil, List.nodup_nil⟩⟩

section Order

variable {t : RoutingTable} {target : NodeId} {count : ℕ}

theorem nodesAt_placed (ht : t.Each (Ordered t.localId)) {i : ℕ} {n : DhtNode}
    (hn : n ∈ t.nodesAt i) : n.id ≠ t.localId ∧ (t.localId.value ^^^ n.id.value).log2 = i := by
  obtain ⟨b, hb, hn⟩ := mem_nodesAt_iff.mp hn
  exact (ht i b hb).placed n hn

/-- No two nodes have one identifier. -/
theorem nodup_ids (ht : t.Each (Ordered t.localId)) : (t.allNodes.map DhtNode.id).Nodup := by
  rw [allNodes_eq, List.map_flatMap, List.nodup_flatMap]
  constructor
  · intro i _
    cases hb : t.bucket i with
    | none =>
      rw [nodesAt, hb]
      exact List.nodup_nil
    | some b =>
      rw [nodesAt_eq hb]
      exact (ht i b hb).nodup
  · refine List.nodup_range.imp fun {i j} hij id hi hj => hij ?_
    obtain ⟨n, hn, rfl⟩ := List.mem_map.mp hi
    obtain ⟨m, hm, hid⟩ := List.mem_map.mp hj
    rw [← (nodesAt_placed ht hn).2, ← (nodesAt_placed ht hm).2, hid]

theorem nodup_distances (target : NodeId) {l : List DhtNode} (h : (l.map DhtNode.id).Nodup) :
    (l.map (distanceTo target)).Nodup := by
  have hmap : l.map (distanceTo target) =
      (l.map DhtNode.id).map fun id => xorDistance id target := by
    rw [List.map_map]
    rfl
  rw [hmap]
  exact h.map fun _ _ h => xorDistance_left_inj.mp h

/-- Of two nodes the one in the higher bucket is closer exactly when the target differs from
the local identifier in the bit of that bucket. -/
theorem closer_iff (ht : t.Each (Ordered t.localId)) {i j : ℕ} {n y : DhtNode}
    (hn : n ∈ t.nodesAt i) (hy : y ∈ t.nodesAt j) (hji : j < i) :
    distanceTo target n < distanceTo target y ↔
      (xorDistance t.localId target).value.testBit i = true := by
  have hsplit (m : DhtNode) : m.id.value ^^^ target.value =
      (t.localId.value ^^^ m.id.value) ^^^ (t.localId.value ^^^ target.value) := by
    rw [Nat.xor_comm t.localId.value m.id.value, Nat.xor_assoc, ← Nat.xor_assoc t.localId.value,
      Nat.xor_self, Nat.zero_xor]
  obtain ⟨hne, hi⟩ := nodesAt_placed ht hn
  obtain ⟨hney, hj⟩ := nodesAt_placed ht hy
  have hzero {m : DhtNode} (hm : m.id ≠ t.localId) : t.localId.value ^^^ m.id.value ≠ 0 := by
    rw [← value_xorDistance, Ne, value_xorDistance_eq_zero]
    exact Ne.symm hm
  have hlow : t.localId.value ^^^ y.id.value < 2 ^ (t.localId.value ^^^ n.id.value).log2 := by
    rw [← Nat.log2_lt (hzero hney), hi, hj]
    exact hji
  rw [NodeId.lt_iff, value_xorDistance, value_xorDistance, value_xorDistance, hsplit n, hsplit y,
    BigEndian.xor_lt_xor_iff (hzero hne) hlow, hi]

/-- The target does not differ in the bits of the buckets above its own. -/
theorem testBit_above {i : ℕ} (h : t.center target < i) :
    (xorDistance t.localId target).value.testBit i = false := by
  by_cases htarget : target = t.localId
  · subst htarget
    rw [value_xorDistance_eq_zero.mpr rfl, Nat.zero_testBit]
  · have hindex := bucketIndex_eq_some.mpr ⟨htarget, rfl⟩
    rw [center, hindex, Option.getD_some, ← value_xorDistance] at h
    refine Nat.testBit_lt_two_pow (Nat.lt_of_lt_of_le Nat.lt_log2_self ?_)
    exact Nat.pow_le_pow_right (by decide) h

/-- The nodes of a bucket that are closer than a node of a lower bucket: all or none. -/
theorem countP_closer (ht : t.Each (Ordered t.localId)) {i j : ℕ} {y : DhtNode}
    (hy : y ∈ t.nodesAt j) (hji : j < i) :
    (t.nodesAt i).countP (fun n => distanceTo target n < distanceTo target y) =
      if (xorDistance t.localId target).value.testBit i then (t.nodesAt i).length else 0 := by
  split
  · rename_i hbit
    rw [List.countP_eq_length]
    intro n hn
    exact decide_eq_true ((closer_iff ht hn hy hji).mpr hbit)
  · rename_i hbit
    rw [List.countP_eq_zero]
    intro n hn
    rw [decide_eq_true_eq, closer_iff ht hn hy hji]
    exact hbit

/-- A node of a bucket above the target's own is farther than every node below. -/
theorem closer_of_below (ht : t.Each (Ordered t.localId)) {i j : ℕ} {n y : DhtNode}
    (hn : n ∈ t.nodesAt i) (hy : y ∈ t.nodesAt j) (hij : i < j) (hj : t.center target < j) :
    distanceTo target n < distanceTo target y := by
  have hnot : ¬distanceTo target y < distanceTo target n := by
    rw [closer_iff ht hy hn hij, testBit_above hj]
    exact Bool.false_ne_true
  refine lt_of_le_of_ne (not_lt.mp hnot) fun heq => ?_
  have hid := xorDistance_left_inj.mp heq
  have hi := (nodesAt_placed ht hn).2
  rw [hid, (nodesAt_placed ht hy).2] at hi
  omega

theorem lt_of_nodesAt {i : ℕ} {n : DhtNode} (hn : n ∈ t.nodesAt i) : i < numBuckets := by
  obtain ⟨b, hb, -⟩ := mem_nodesAt_iff.mp hn
  exact lt_of_bucket hb

theorem dedupById_eq {seen : List NodeId} {l : List DhtNode} (hnodup : (l.map DhtNode.id).Nodup)
    (hnew : ∀ n ∈ l, n.id ∉ seen) : dedupById seen l = l := by
  induction l generalizing seen with
  | nil => rfl
  | cons n l ih =>
    obtain ⟨hn, hl⟩ := List.nodup_cons.mp hnodup
    obtain ⟨hfirst, hrest⟩ := List.forall_mem_cons.mp hnew
    rw [dedupById, if_neg hfirst, ih hl]
    intro m hm hseen
    rcases List.mem_cons.mp hseen with heq | hseen
    · exact hn (heq ▸ List.mem_map_of_mem hm)
    · exact hrest m hm hseen

/-- The nodes of all buckets: those between two, those below and those above. -/
theorem allNodes_perm (t : RoutingTable) {lo hi : ℕ} (hle : lo ≤ hi) (hhi : hi < numBuckets) :
    t.allNodes.Perm (t.nodesBetween lo hi ++ ((List.range lo).flatMap t.nodesAt ++
      (List.range' (hi + 1) (numBuckets - (hi + 1))).flatMap t.nodesAt)) := by
  have hsplit : List.range numBuckets = List.range lo ++ (List.range' lo (hi + 1 - lo) ++
      List.range' (hi + 1) (numBuckets - (hi + 1))) := by
    have hmiddle : lo + (hi + 1 - lo) = hi + 1 := by omega
    have hlow : 0 + lo = lo := Nat.zero_add lo
    have hall : hi + 1 - lo + (numBuckets - (hi + 1)) = numBuckets - lo := by omega
    have htop : lo + (numBuckets - lo) = numBuckets := by omega
    have hupper := @List.range'_append_1 lo (hi + 1 - lo) (numBuckets - (hi + 1))
    rw [hmiddle, hall] at hupper
    have hlower := @List.range'_append_1 0 lo (numBuckets - lo)
    rw [hlow, htop] at hlower
    rw [hupper, List.range_eq_range', List.range_eq_range', hlower]
  rw [allNodes_eq, hsplit, List.flatMap_append, List.flatMap_append]
  rw [← List.append_assoc, ← List.append_assoc]
  exact List.perm_append_comm.append_right _

end Order

/-! ### When the search finds the closest nodes -/

section Toward

variable {t : RoutingTable} {target : NodeId}

theorem nodesToward_eq {i : ℕ} (h : i ≤ t.center target) : t.nodesToward target i =
    (if (xorDistance t.localId target).value.testBit i then (t.nodesAt i).length else 0) +
      t.nodesToward target (i + 1) := by
  have hlength : t.center target + 1 - i = t.center target + 1 - (i + 1) + 1 := by omega
  rw [nodesToward, hlength, List.range'_succ, List.map_cons, List.sum_cons]
  rfl

theorem nodesToward_antitone {i j : ℕ} (hij : i ≤ j) (hj : j ≤ t.center target) :
    t.nodesToward target j ≤ t.nodesToward target i := by
  induction j, hij using Nat.le_induction with
  | base => exact le_refl _
  | succ j _ ih =>
    refine le_trans ?_ (ih (by omega))
    rw [nodesToward_eq (by omega : j ≤ t.center target)]
    exact Nat.le_add_left _ _

/-- The highest bucket with nodes below a given one; the empty ones above it do not count. -/
theorem exists_highest {k : ℕ} (hk : k ≤ t.center target) (h : ∃ j < k, t.nodesAt j ≠ []) :
    ∃ j < k, t.nodesAt j ≠ [] ∧ t.nodesToward target (j + 1) = t.nodesToward target k := by
  induction k with
  | zero =>
    obtain ⟨j, hj, -⟩ := h
    exact absurd hj j.not_lt_zero
  | succ k ih =>
    by_cases hempty : t.nodesAt k = []
    · obtain ⟨j, hj, hne⟩ := h
      have hjk : j ≠ k := fun heq => hne (heq ▸ hempty)
      obtain ⟨i, hi, hnodes, hsum⟩ := ih (by omega) ⟨j, by omega, hne⟩
      refine ⟨i, by omega, hnodes, hsum.trans ?_⟩
      rw [nodesToward_eq (by omega), hempty, List.length_nil, ite_self, Nat.zero_add]
    · exact ⟨k, k.lt_succ_self, hempty, rfl⟩

/-- The buckets above the target's own do not count. -/
theorem nodesToward_range {lo hi : ℕ} (hlo : lo ≤ t.center target) (hhi : t.center target ≤ hi) :
    ((List.range' lo (hi + 1 - lo)).map fun i =>
      if (xorDistance t.localId target).value.testBit i then (t.nodesAt i).length else 0).sum =
      t.nodesToward target lo := by
  induction hi, hhi using Nat.le_induction with
  | base => rfl
  | succ hi hhi ih =>
    have hlength : hi + 1 + 1 - lo = hi + 1 - lo + 1 := by omega
    have hlast : lo + (hi + 1 - lo) = hi + 1 := by omega
    rw [hlength, List.range'_1_concat, List.map_append, List.sum_append, ih, List.map_singleton,
      List.sum_singleton, hlast, testBit_above (by omega), if_neg Bool.false_ne_true,
      Nat.add_zero]

end Toward

/-- After any updates, `find_closest` returns the first `count` of all nodes in the order of
their distances if and only if it does not stop above a bucket with nodes that count. -/
theorem find_closest_exact_iff (localId : NodeId) (updates : List (SystemTime × DhtNode))
    (target : NodeId) (count : ℕ) :
    (updated localId updates).findClosest target count =
        Selection.smallest (distanceTo target) count (updated localId updates).allNodes ↔
      (updated localId updates).Covers target count := by
  obtain ⟨hlocal, ht⟩ := ordered_updated localId updates
  generalize updated localId updates = t at hlocal ht ⊢
  subst hlocal
  obtain ⟨lo, hi, found, hrun, hlo, hhi, hlast, hfound, hend, hreached⟩ :=
    t.visit_spec target count
  have hperm := t.allNodes_perm (hlo.trans hhi) hlast
  have hperm' := hperm.trans (hfound.symm.append_right _)
  have hids := nodup_ids ht
  have hids' : (found.map DhtNode.id).Nodup := by
    have hall := (hperm'.map DhtNode.id).nodup_iff.mp hids
    rw [List.map_append] at hall
    exact hall.of_append_left
  have hclosest : t.findClosest target count =
      Selection.smallest (distanceTo target) count found := by
    rw [findClosest, hrun, dedupById_eq hids' fun _ _ => List.not_mem_nil]
  rw [hclosest, Selection.smallest_eq_iff (nodup_distances target hids) hperm']
  have hbelow {j : ℕ} (hj : j < lo) {y : DhtNode} (hy : y ∈ t.nodesAt j) :
      Selection.rank (distanceTo target) found y = t.nodesToward target lo := by
    rw [Selection.rank, hfound.countP_eq, nodesBetween, List.countP_flatMap,
      ← nodesToward_range hlo hhi]
    congr 1
    refine List.map_congr_left fun i hi' => ?_
    have hji : j < i := by
      have hle := (List.mem_range'_1.mp hi').1
      omega
    exact countP_closer ht hy hji
  have habove {j : ℕ} (hj : hi < j) {y : DhtNode} (hy : y ∈ t.nodesAt j) :
      count ≤ Selection.rank (distanceTo target) found y := by
    have hlength : count ≤ found.length := by
      refine hend.resolve_right fun h => ?_
      have hlt := lt_of_nodesAt hy
      omega
    rw [Selection.rank, List.countP_eq_length.mpr]
    · exact hlength
    · intro n hn
      obtain ⟨i, hi', hn⟩ := List.mem_flatMap.mp (hfound.mem_iff.mp hn)
      have hij : i < j := by
        have hlt := (List.mem_range'_1.mp hi').2
        omega
      exact decide_eq_true (closer_of_below ht hn hy hij (hhi.trans_lt hj))
  constructor
  · intro h j hj
    by_cases hempty : t.nodesAt j = []
    · exact Or.inl hempty
    · refine Or.inr (or_iff_not_imp_left.mpr fun hfar => ?_)
      have hjlo : j < lo := not_le.mp (mt (hreached j hj).mp hfar)
      obtain ⟨y, hy⟩ := List.exists_mem_of_ne_nil _ hempty
      have hrank : count ≤ t.nodesToward target lo := by
        rw [← hbelow hjlo hy]
        refine h y (List.mem_append_left _ ?_)
        exact List.mem_flatMap.mpr ⟨j, List.mem_range.mpr hjlo, hy⟩
      exact hrank.trans (nodesToward_antitone (by omega) hlo)
  · intro hcovers y hy
    rcases List.mem_append.mp hy with hy | hy
    · obtain ⟨j, hj, hy⟩ := List.mem_flatMap.mp hy
      have hj := List.mem_range.mp hj
      obtain ⟨i, hi', hnodes, hsum⟩ := exists_highest hlo ⟨j, hj, List.ne_nil_of_mem hy⟩
      rw [hbelow hj hy, ← hsum]
      have hfar : ¬(t.nodesBetween (i + 1) (2 * t.center target - (i + 1))).length < count :=
        mt (hreached i (by omega)).mpr (by omega)
      exact ((hcovers i (by omega)).resolve_left hnodes).resolve_left hfar
    · obtain ⟨j, hj, hy⟩ := List.mem_flatMap.mp hy
      exact habove (List.mem_range'_1.mp hj).1 hy

/-! ### A search that stops too early -/

/-- The bucket above the target's has the node `80…`, a low one has `0…01`; the node closest to
`40…` is the second. -/
theorem find_closest_misses : ∃ localId updates target count,
    (updated localId updates).findClosest target count ≠
      Selection.smallest (distanceTo target) count (updated localId updates).allNodes := by
  refine ⟨NodeId.ofByte 0 0, [(0, ⟨NodeId.ofByte 0 0x80, "192.0.2.1:1", 0⟩),
    (0, ⟨NodeId.ofByte 19 1, "198.51.100.1:1", 0⟩)], NodeId.ofByte 0 0x40, 1, ?_⟩
  decide +kernel

end RoutingTable

end Tachyon
