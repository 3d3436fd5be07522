import Tachyon.Dht.StoredValues
import Tachyon.Library.XorMetric

/-!
# Lookups in a network of nodes

Where every node answers, and knows a node of every class of identifiers that has one, a
lookup gets closer to the target by a bit with each round, until it is as close as any node.
That the search of a table can stop too early does no harm: it begins with the class of the
target.
-/

namespace Tachyon

open RoutingTable (distanceTo dedupById)

/-- A network: where its nodes are reached, and the state and the clock of a node when it
answers in a round of a lookup. -/
structure Overlay where
  address : NodeId → Option String
  dht : ℕ → NodeId → KademliaDht
  clock : ℕ → NodeId → SystemTime

/-- The nodes in the answer to a message, through `process_incoming`. -/
def KademliaDht.nodesFor (p : Primitives) (now : SystemTime) (msg : KademliaMessage)
    (d : KademliaDht) : List DhtNode :=
  match (processIncoming p now msg d).2 with
  | some (.findNodeResponse _ nodes _) => nodes
  | _ => []

/-- A node after some operations and messages. -/
def KademliaDht.performed (p : Primitives) (localId : NodeId) (maxNodes : ℕ)
    (ops : List NodeOp) : KademliaDht :=
  ops.foldl (perform p) (new localId maxNodes)

/-- The number of bits in which an identifier begins like the target. -/
def commonPrefix (target id : NodeId) : ℕ := leadingZeros (xorDistance id target)

namespace Overlay

variable (p : Primitives) (net : Overlay)

/-- The identifier of a node of the network. -/
def Member (id : NodeId) : Prop := net.address id ≠ none

/-- The contact of a node of the network. -/
def Reaches (n : DhtNode) : Prop := net.address n.id = some n.addr

instance : DecidablePred net.Member := fun _ => inferInstanceAs (Decidable (_ ≠ _))

instance : DecidablePred net.Reaches := fun _ => inferInstanceAs (Decidable (_ = _))

/-- What a query brings in a round. A node that asks itself finds its own question waiting for
an answer, and takes the one for the other. -/
def respond (localId target : NodeId) (round : ℕ) (n : DhtNode) : List DhtNode :=
  if n.id ≠ localId ∧ net.Reaches n then
    (net.dht round n.id).nodesFor p (net.clock round n.id) (.findNode localId target none)
  else []

/-- The states of the nodes come from operations and messages; their contacts are nodes of the
network, and of every class of identifiers that has a node they know one. -/
structure Healthy : Prop where
  reachable : ∀ round id, net.Member id → ∃ maxNodes ops,
    net.dht round id = .performed p id maxNodes ops
  contacts : ∀ round id, net.Member id →
    ∀ n ∈ (net.dht round id).routingTable.allNodes, net.Reaches n
  spread : ∀ round id id', net.Member id → net.Member id' → id' ≠ id →
    ∃ n ∈ (net.dht round id).routingTable.allNodes,
      (net.dht round id).routingTable.bucketIndex n.id =
        (net.dht round id).routingTable.bucketIndex id'

/-- No other node of the network begins like the target in more bits. -/
def Nearest (localId target : NodeId) (n : DhtNode) : Prop :=
  ∀ id, net.Member id → id ≠ localId → commonPrefix target id ≤ commonPrefix target n.id

end Overlay

/-! ### Common prefixes -/

section Prefix

variable {target id id' : NodeId}

theorem commonPrefix_self (target : NodeId) : commonPrefix target target = 160 :=
  leadingZeros_self target

theorem commonPrefix_of_ne (h : id ≠ target) :
    commonPrefix target id + (id.value ^^^ target.value).log2 + 1 = 160 := leadingZeros_of_ne h

theorem commonPrefix_le (target id : NodeId) : commonPrefix target id ≤ 160 := by
  by_cases h : id = target
  · rw [h, commonPrefix_self]
  · have hsum := commonPrefix_of_ne h
    omega

/-- A longer prefix is a smaller first bit of the distance. -/
theorem commonPrefix_lt_iff (h : id ≠ target) :
    commonPrefix target id < commonPrefix target id' ↔
      id'.value ^^^ target.value < 2 ^ (id.value ^^^ target.value).log2 := by
  have hsum := commonPrefix_of_ne h
  by_cases h' : id' = target
  · have hpos : 0 < 2 ^ (id.value ^^^ target.value).log2 := Nat.two_pow_pos _
    rw [h', commonPrefix_self, Nat.xor_self, iff_true_right hpos]
    omega
  · have hsum' := commonPrefix_of_ne h'
    have hne : id'.value ^^^ target.value ≠ 0 :=
      Nat.xor_ne_zero_iff.mpr (NodeId.value_injective.ne h')
    rw [← Nat.log2_lt hne]
    omega

/-- The closer of two identifiers has no shorter prefix. -/
theorem commonPrefix_le_of_le (h : xorDistance id' target ≤ xorDistance id target) :
    commonPrefix target id ≤ commonPrefix target id' := by
  by_contra hlt
  have hne : id' ≠ target := by
    rintro rfl
    rw [commonPrefix_self] at hlt
    exact hlt (commonPrefix_le id' id)
  have hbelow := (commonPrefix_lt_iff hne).mp (not_le.mp hlt)
  have hself := Nat.log2_self_le (Nat.xor_ne_zero_iff.mpr (NodeId.value_injective.ne hne))
  rw [NodeId.le_iff, value_xorDistance, value_xorDistance] at h
  omega

end Prefix

/-! ### The search of one table -/

namespace RoutingTable

variable {t : RoutingTable} {target id : NodeId} {count : ℕ} {n : DhtNode}

/-- The search finds a node at least as close as any of the target's own bucket. -/
theorem exists_findClosest_le (hcount : 0 < count) (hn : n ∈ t.nodesAt (t.center target)) :
    ∃ m ∈ t.findClosest target count, distanceTo target m ≤ distanceTo target n := by
  obtain ⟨lo, hi, found, hrun, hlo, hhi, -, hfound, -⟩ := t.visit_spec target count
  have hmem : n ∈ found := by
    rw [hfound.mem_iff]
    exact List.mem_flatMap.mpr ⟨_, List.mem_range'_1.mpr ⟨hlo, by omega⟩, hn⟩
  obtain ⟨n', hn', hid⟩ := List.mem_map.mp
    (mem_ids_dedupById.mpr ⟨List.mem_map_of_mem hmem, List.not_mem_nil⟩)
  rw [findClosest, hrun]
  obtain ⟨m, hm⟩ := @Selection.exists_head?_smallest _ _ _
    (fun n : DhtNode => xorDistance n.id target) _ _ hcount (List.ne_nil_of_mem hn')
  refine ⟨m, List.mem_of_head? hm, ?_⟩
  have hle := Selection.le_of_head?_smallest hm hn'
  rwa [hid] at hle

/-- A search of a table with nodes finds some. -/
theorem findClosest_ne_nil (hcount : 0 < count) (hn : n ∈ t.allNodes) :
    t.findClosest target count ≠ [] := by
  obtain ⟨lo, hi, found, hrun, hlo, hhi, -, hfound, hend, -⟩ := t.visit_spec target count
  have hne : found ≠ [] := by
    rcases hend with henough | ⟨rfl, rfl⟩
    · rintro rfl
      rw [List.length_nil] at henough
      omega
    · obtain ⟨i, hn⟩ := mem_allNodes_iff.mp hn
      refine List.ne_nil_of_mem (hfound.mem_iff.mpr (List.mem_flatMap.mpr ⟨i, ?_, hn⟩))
      have hlt := lt_of_nodesAt hn
      exact List.mem_range'_1.mpr ⟨Nat.zero_le i, by omega⟩
  obtain ⟨n', hn'⟩ := List.exists_mem_of_ne_nil found hne
  obtain ⟨n'', hn'', -⟩ := List.mem_map.mp
    (mem_ids_dedupById.mpr ⟨List.mem_map_of_mem hn', List.not_mem_nil⟩)
  rw [findClosest, hrun]
  obtain ⟨m, hm⟩ := @Selection.exists_head?_smallest _ _ _
    (fun n : DhtNode => xorDistance n.id target) _ _ hcount (List.ne_nil_of_mem hn'')
  exact List.ne_nil_of_mem (List.mem_of_head? hm)

/-- If an identifier begins like the target in more bits than the node's own, and the table has
a node of its class, then the search finds a node that does, too. -/
theorem exists_findClosest_closer (ht : t.Sound) (hcount : 0 < count)
    (hid : commonPrefix target t.localId < commonPrefix target id) (hn : n ∈ t.allNodes)
    (hindex : t.bucketIndex n.id = t.bucketIndex id) :
    ∃ m ∈ t.findClosest target count,
      commonPrefix target t.localId < commonPrefix target m.id := by
  have hne : t.localId ≠ target := by
    intro heq
    rw [heq, commonPrefix_self] at hid
    have hle := commonPrefix_le target id
    omega
  have hvalues : t.localId.value ≠ target.value := NodeId.value_injective.ne hne
  have hclass := (XorMetric.xor_lt_iff hvalues).mp ((commonPrefix_lt_iff hne).mp hid)
  have hidne : id ≠ t.localId := fun heq => hclass.1 (congrArg NodeId.value heq)
  have htarget : t.bucketIndex target = t.bucketIndex id := by
    rw [bucketIndex_eq_some.mpr ⟨hidne, rfl⟩, bucketIndex_eq_some]
    exact ⟨Ne.symm hne, hclass.2.symm⟩
  -- the node stands in the bucket of the target
  obtain ⟨i, hi⟩ := mem_allNodes_iff.mp hn
  obtain ⟨b, hb, hmem⟩ := mem_nodesAt_iff.mp hi
  have hplaced := (ht i b hb).placed n (List.mem_append_left _ hmem)
  have hcenter : t.center target = i := by
    rw [center, htarget, ← hindex, bucketIndex_eq_some.mpr hplaced, Option.getD_some]
  obtain ⟨m, hm, hle⟩ := exists_findClosest_le hcount (hcenter ▸ hi)
  refine ⟨m, hm, (Nat.lt_of_lt_of_le ?_ (commonPrefix_le_of_le hle))⟩
  refine (commonPrefix_lt_iff hne).mpr ((XorMetric.xor_lt_iff hvalues).mpr ⟨?_, ?_⟩)
  · exact NodeId.value_injective.ne hplaced.1
  · rw [hplaced.2]
    exact (bucketIndex_eq_some.mp ((htarget.trans hindex.symm).trans
      (bucketIndex_eq_some.mpr hplaced))).2.symm

end RoutingTable

/-! ### The nodes of a healthy network -/

namespace KademliaDht

variable {p : Primitives} {d : KademliaDht}

theorem perform_sound (h : d.Sound) (op : NodeOp) :
    (d.perform p op).Sound ∧ (d.perform p op).localId = d.localId := by
  have htable (op : TableOp) : (d.apply op).localId = d.localId := by
    obtain ⟨t, heq⟩ := d.apply_eq op
    rw [heq]
  cases op with
  | table op => exact ⟨h.apply op, htable op⟩
  | inbound now msg =>
    have hhandled : (d.handleMessage now msg).Sound := h.apply (.handleMessage now msg)
    rw [perform]
    rcases processIncoming_cases p now msg d with heq | ⟨_, _, _, _, -, -, heq⟩
    · rw [heq]
      exact ⟨hhandled, htable (.handleMessage now msg)⟩
    · rw [heq]
      exact ⟨⟨hhandled.localId_eq, hhandled.table⟩, htable (.handleMessage now msg)⟩
  | store key value => exact ⟨⟨h.localId_eq, h.table⟩, rfl⟩

theorem performed_spec (p : Primitives) (localId : NodeId) (maxNodes : ℕ) (ops : List NodeOp) :
    (performed p localId maxNodes ops).Sound ∧
      (performed p localId maxNodes ops).localId = localId := by
  unfold performed
  induction ops using List.reverseRecOn with
  | nil => exact ⟨sound_new localId maxNodes, rfl⟩
  | append_singleton ops op ih =>
    rw [List.foldl_append, List.foldl_cons, List.foldl_nil]
    obtain ⟨hsound, hlocal⟩ := perform_sound (p := p) ih.1 op
    exact ⟨hsound, hlocal.trans ih.2⟩

end KademliaDht

namespace Overlay

variable {p : Primitives} {net : Overlay} {round : ℕ} {localId target id id' : NodeId}
  {n : DhtNode} {t : RoutingTable}

theorem Reaches.member (h : net.Reaches n) : net.Member n.id := by
  intro hnone
  rw [Reaches, hnone] at h
  cases h

/-- The table of a node of the network, or what a message has made of it. -/
structure TableOf (net : Overlay) (round : ℕ) (id : NodeId) (t : RoutingTable) : Prop where
  same : (net.dht round id).routingTable.SameContacts t
  sound : t.Sound
  localId_eq : t.localId = id

theorem Healthy.tableOf (h : net.Healthy p) (round : ℕ) (hid : net.Member id) :
    net.TableOf round id (net.dht round id).routingTable := by
  obtain ⟨maxNodes, ops, heq⟩ := h.reachable round id hid
  obtain ⟨hsound, hlocal⟩ := KademliaDht.performed_spec p id maxNodes ops
  rw [heq]
  exact ⟨by rw [heq]; exact .refl _, hsound.table, hsound.localId_eq.trans hlocal⟩

/-- The answer to a query is a search of the table in which the sender is refreshed. -/
theorem Healthy.exists_answer (h : net.Healthy p) (round : ℕ) (localId target : NodeId)
    (hid : net.Member id) (now : SystemTime) :
    ∃ t, net.TableOf round id t ∧
      (net.dht round id).nodesFor p now (.findNode localId target none) =
        t.findClosest target kBucketSize := by
  obtain ⟨maxNodes, ops, heq⟩ := h.reachable round id hid
  obtain ⟨hsound, hlocal⟩ := KademliaDht.performed_spec p id maxNodes ops
  obtain ⟨hhandled, hsame⟩ := KademliaDht.perform_sound (p := p) hsound
    (.inbound now (.findNode localId target none))
  refine ⟨_, ⟨(net.dht round id).handleMessage_sameContacts now (.findNode localId target none),
    ?_, ?_⟩, rfl⟩
  · rw [heq]
    exact hhandled.table
  · rw [heq]
    exact hhandled.localId_eq.trans (hsame.trans hlocal)

/-- What a search of such a table finds are nodes of the network. -/
theorem TableOf.reaches (ht : net.TableOf round id t) (h : net.Healthy p) (hid : net.Member id)
    {count : ℕ} (hn : n ∈ t.findClosest target count) : net.Reaches n := by
  obtain ⟨i, hn⟩ := RoutingTable.mem_allNodes_iff.mp (RoutingTable.mem_allNodes_of_findClosest hn)
  obtain ⟨m, hm, hcontact⟩ := List.mem_map.mp
    ((ht.same i).1.mem_iff.mp (List.mem_map_of_mem hn))
  have hreaches := h.contacts round id hid m (RoutingTable.mem_allNodes_iff.mpr ⟨i, hm⟩)
  obtain ⟨hsameId, haddr⟩ := Prod.mk.inj hcontact
  rwa [Reaches, hsameId, haddr] at hreaches

/-- If another node begins like the target in more bits, then a search finds one that does. -/
theorem TableOf.exists_closer (ht : net.TableOf round id t) (h : net.Healthy p)
    (hid : net.Member id) (hid' : net.Member id')
    (hlt : commonPrefix target id < commonPrefix target id') :
    ∃ m ∈ t.findClosest target kBucketSize, commonPrefix target id < commonPrefix target m.id := by
  have hne : id' ≠ id := by
    rintro rfl
    exact lt_irrefl _ hlt
  obtain ⟨n, hn, hindex⟩ := h.spread round id id' hid hid' hne
  obtain ⟨n', hn', hsameId⟩ := ht.same.mem_ids_iff.mpr ⟨n, hn, rfl⟩
  have hlocal := (h.tableOf round hid).localId_eq
  have hbucket (id : NodeId) :
      t.bucketIndex id = (net.dht round t.localId).routingTable.bucketIndex id := by
    unfold RoutingTable.bucketIndex
    rw [ht.localId_eq, hlocal]
  rw [← ht.localId_eq] at hlt hindex ⊢
  refine RoutingTable.exists_findClosest_closer ht.sound (by decide) hlt hn' ?_
  rw [hsameId, hbucket, hbucket, hindex]

/-! ### The rounds of a lookup -/

/-- The nodes that a lookup starts from. -/
def start (net : Overlay) (localId target : NodeId) : List DhtNode :=
  (net.dht 0 localId).routingTable.findClosest target kBucketSize

/-- The queries bring what the network answers, and after `k` rounds a node is learned that is
nearest, or begins like the target in `k` bits. -/
structure Approach (p : Primitives) (net : Overlay) (localId target : NodeId)
    (rounds : List Round) : Prop where
  answers : ∀ q ∈ rounds.flatten, ∃ round, q.2 = net.respond p localId target round q.1
  nearer : ∀ k ≤ rounds.length, ∃ n ∈ net.start localId target ++ learnedIn (rounds.take k),
    net.Nearest localId target n ∨ k ≤ commonPrefix target n.id

section Rounds

variable {l l' : Lookup}

/-- What an answer brings are nodes of the network. -/
theorem reaches_of_respond (h : net.Healthy p) {m : DhtNode}
    (hm : m ∈ net.respond p localId target round n) : net.Reaches m := by
  unfold respond at hm
  split_ifs at hm with hasked
  · obtain ⟨t, ht, heq⟩ := h.exists_answer round localId target hasked.2.member
      (net.clock round n.id)
    rw [heq] at hm
    exact ht.reaches h hasked.2.member hm
  · cases hm

/-- Every node that a lookup knows is one of the network. -/
theorem reaches_of_known (h : net.Healthy p) (hlocal : net.Member localId)
    (hinv : LookupInvariant (net.start localId target) l)
    (hanswers : ∀ q ∈ l.rounds.flatten, ∃ round, q.2 = net.respond p localId target round q.1)
    (hn : n ∈ l.known) : net.Reaches n := by
  have hmem := (RoutingTable.dedupById_sublist [] _).subset (hinv.known.mem_iff.mp hn)
  rcases List.mem_append.mp hmem with hstart | hlearned
  · exact (h.tableOf 0 hlocal).reaches h hlocal hstart
  · obtain ⟨q, hq, hn⟩ := List.mem_flatMap.mp hlearned
    obtain ⟨round, hanswer⟩ := hanswers q hq
    exact reaches_of_respond h (hanswer ▸ hn)

/-- A node that the lookup has queried, or that looks up itself, is nearest, or a closer one is
known. -/
theorem nearest_or_closer (h : net.Healthy p) (hlocal : net.Member localId)
    (hinv : LookupInvariant (net.start localId target) l)
    (hanswers : ∀ q ∈ l.rounds.flatten, ∃ round, q.2 = net.respond p localId target round q.1)
    (hn : n ∈ queriedIn l.rounds) : net.Nearest localId target n ∨
      ∃ m ∈ l.known, commonPrefix target n.id < commonPrefix target m.id := by
  refine or_iff_not_imp_left.mpr fun hnot => ?_
  simp only [Nearest, not_forall, not_le] at hnot
  obtain ⟨id, hid, -, hlt⟩ := hnot
  have hlearned : ∃ m ∈ net.start localId target ++ learnedIn l.rounds,
      commonPrefix target n.id < commonPrefix target m.id := by
    by_cases hself : n.id = localId
    · rw [hself] at hlt ⊢
      obtain ⟨m, hm, hcloser⟩ := (h.tableOf 0 hlocal).exists_closer h hlocal hid hlt
      exact ⟨m, List.mem_append_left _ hm, hcloser⟩
    · obtain ⟨q, hq, rfl⟩ := List.mem_map.mp hn
      obtain ⟨round, hanswer⟩ := hanswers q hq
      have hreaches := reaches_of_known h hlocal hinv hanswers (hinv.queried q.1 hn)
      obtain ⟨t, ht, heq⟩ := h.exists_answer round localId target hreaches.member
        (net.clock round q.1.id)
      obtain ⟨m, hm, hcloser⟩ := ht.exists_closer h hreaches.member hid hlt
      refine ⟨m, List.mem_append_right _ (List.mem_flatMap.mpr ⟨q, hq, ?_⟩), hcloser⟩
      rw [hanswer, respond, if_pos ⟨hself, hreaches⟩, heq]
      exact hm
  obtain ⟨m, hm, hcloser⟩ := hlearned
  obtain ⟨m', hm', hsame⟩ := List.mem_map.mp (hinv.mem_ids_iff.mpr (List.mem_map_of_mem hm))
  exact ⟨m', hm', hsame ▸ hcloser⟩

/-- No known node begins like the target in more bits than the first of them. -/
theorem commonPrefix_le_first {first : DhtNode} {count : ℕ}
    (hfirst : (Selection.smallest (distanceTo target) count l.known).head? = some first)
    (hn : n ∈ l.known) : commonPrefix target n.id ≤ commonPrefix target first.id :=
  commonPrefix_le_of_le (Selection.le_of_head?_smallest hfirst hn)

/-- One round: the closest node that was known is queried, so it is nearest, or a node that
begins like the target in one more bit is learned. -/
theorem Approach.step (h : net.Healthy p) (hlocal : net.Member localId)
    (hinv : LookupInvariant (net.start localId target) l)
    (hinv' : LookupInvariant (net.start localId target) l')
    (ha : Approach p net localId target l.rounds) {targets : List DhtNode}
    (hrounds : l'.rounds = l.rounds ++
      [targets.map fun n => (n, net.respond p localId target l.rounds.length n)])
    {first : DhtNode}
    (hfirst : (Selection.smallest (distanceTo target) alpha l.known).head? = some first)
    (hqueried : first ∈ queriedIn l'.rounds) : Approach p net localId target l'.rounds := by
  have hanswers : ∀ q ∈ l'.rounds.flatten,
      ∃ round, q.2 = net.respond p localId target round q.1 := by
    intro q hq
    rw [hrounds, List.flatten_append, List.flatten_singleton] at hq
    rcases List.mem_append.mp hq with hq | hq
    · exact ha.answers q hq
    · obtain ⟨n, -, rfl⟩ := List.mem_map.mp hq
      exact ⟨_, rfl⟩
  refine ⟨hanswers, fun k hk => ?_⟩
  have hlength : l'.rounds.length = l.rounds.length + 1 := by
    rw [hrounds, List.length_append, List.length_singleton]
  by_cases hearlier : k ≤ l.rounds.length
  · rw [hrounds, List.take_append_of_le_length hearlier]
    exact ha.nearer k hearlier
  · obtain rfl : k = l.rounds.length + 1 := by omega
    rw [← hlength, List.take_length]
    obtain ⟨n, hn, hor⟩ := ha.nearer l.rounds.length (le_refl _)
    rw [List.take_length] at hn
    obtain ⟨n', hn', hsame⟩ := List.mem_map.mp (hinv.mem_ids_iff.mpr (List.mem_map_of_mem hn))
    have hle := commonPrefix_le_first hfirst hn'
    rw [hsame] at hle
    have hmore {m : DhtNode} (hm : m ∈ l'.known) :
        ∃ m' ∈ net.start localId target ++ learnedIn l'.rounds, m'.id = m.id :=
      List.mem_map.mp (hinv'.mem_ids_iff.mp (List.mem_map_of_mem hm))
    rcases nearest_or_closer h hlocal hinv' hanswers hqueried with hnearest | ⟨m, hm, hcloser⟩
    · obtain ⟨m, hm, hid⟩ := hmore (hinv'.queried first hqueried)
      refine ⟨m, hm, Or.inl fun id hid' hne => ?_⟩
      rw [hid]
      exact hnearest id hid' hne
    · obtain ⟨m', hm', hid⟩ := hmore hm
      refine ⟨m', hm', ?_⟩
      rcases hor with hnearest | hbits
      · refine Or.inl fun id hid' hne => ?_
        have hprefix := hnearest id hid' hne
        rw [hid]
        omega
      · rw [hlength, hid]
        exact Or.inr (by omega)

/-- The closest of the known nodes is queried in a round, if it was not before. -/
theorem first_queried (hinv : LookupInvariant (net.start localId target) l) {first : DhtNode}
    (hfirst : (Selection.smallest (distanceTo target) alpha l.known).head? = some first)
    {answer : DhtNode → List DhtNode} :
    first ∈ queriedIn (l.rounds ++ [(((Selection.sortByKey (distanceTo target) l.known).filter
      fun n => n.id ∉ l.queriedIds).take alpha).map fun n => (n, answer n)]) := by
  have hmem := List.mem_of_mem_take (List.mem_of_head? hfirst)
  rw [queriedIn_append, List.mem_append]
  by_cases hid : first.id ∈ l.queriedIds
  · exact Or.inl (hinv.mem_queriedIn ((Selection.sortByKey_perm _).mem_iff.mp hmem) hid)
  · refine Or.inr (List.mem_map_of_mem (f := Prod.fst) (a := (first, answer first)) ?_)
    rw [List.flatten_singleton]
    refine List.mem_map_of_mem ?_
    unfold Selection.smallest at hfirst
    cases hsorted : Selection.sortByKey (distanceTo target) l.known with
    | nil =>
      rw [hsorted] at hmem
      cases hmem
    | cons n rest =>
      rw [hsorted] at hfirst
      obtain rfl := Option.some.inj hfirst
      rw [List.filter_cons, if_pos (decide_eq_true hid)]
      exact List.mem_cons_self

/-- The whole loop. -/
theorem Approach.loop (h : net.Healthy p) (hlocal : net.Member localId) {fuel : ℕ}
    (hinv : LookupInvariant (net.start localId target) l) (hne : l.known ≠ [])
    (ha : Approach p net localId target l.rounds)
    (hrun : lookupLoop target (net.respond p localId target) fuel l = some l') :
    Approach p net localId target l'.rounds := by
  induction fuel generalizing l with
  | zero => cases hrun
  | succ fuel ih =>
    obtain ⟨first, hfirst⟩ := @Selection.exists_head?_smallest _ _ _ (distanceTo target) _ _
      (show 0 < alpha by decide) hne
    have hqueried := @first_queried _ _ _ _ hinv _ hfirst
      (net.respond p localId target l.rounds.length)
    rw [lookupLoop] at hrun
    dsimp only at hrun
    have hsub := List.take_sublist alpha ((Selection.sortByKey (distanceTo target) l.known).filter
      fun n => n.id ∉ l.queriedIds)
    generalize ((Selection.sortByKey (distanceTo target) l.known).filter
      fun n => n.id ∉ l.queriedIds).take alpha = targets at hrun hqueried hsub
    split_ifs at hrun with hnone hnew
    · obtain rfl := Option.some.inj hrun
      exact ha
    · obtain ⟨hround, -, -⟩ := hinv.round (net.respond p localId target l.rounds.length)
        (Selection.sortByKey_perm _) hsub hnone rfl
      refine ih hround ?_ (ha.step h hlocal hinv hround rfl hfirst hqueried) hrun
      exact List.ne_nil_of_mem (hround.queried first hqueried)
    · obtain ⟨hround, -, -⟩ := hinv.round (net.respond p localId target l.rounds.length)
        (Selection.sortByKey_perm _) hsub hnone rfl
      obtain rfl := Option.some.inj hrun
      exact ha.step h hlocal hinv hround rfl hfirst hqueried

end Rounds

section Lookup

variable {l : Lookup}

/-- A lookup of a node that is not alone. -/
theorem Healthy.lookup_spec (h : net.Healthy p) (target : NodeId) (hlocal : net.Member localId)
    (hother : ∃ id, net.Member id ∧ id ≠ localId) : ∃ l, l.known ≠ [] ∧
      (net.dht 0 localId).routingTable.lookup target (net.respond p localId target) = some l ∧
      (net.dht 0 localId).routingTable.iterativeFindNode target (net.respond p localId target) =
        some (Selection.smallest (distanceTo target) kBucketSize l.known) ∧
      LookupEnd target (net.start localId target) l ∧
      Approach p net localId target l.rounds := by
  obtain ⟨l, hl, hend, hresult⟩ := (net.dht 0 localId).routingTable.lookup_spec target
    (net.respond p localId target)
  obtain ⟨id, hid, hne⟩ := hother
  obtain ⟨n, hn, -⟩ := h.spread 0 localId id hlocal hid hne
  have hstart : net.start localId target ≠ [] :=
    RoutingTable.findClosest_ne_nil (by decide) hn
  obtain ⟨m, hm⟩ := List.exists_mem_of_ne_nil _ hstart
  have hknown : l.known ≠ [] := by
    obtain ⟨m', hm', -⟩ := List.mem_map.mp
      (hend.mem_ids_iff.mpr (List.mem_map_of_mem (List.mem_append_left _ hm)))
    exact List.ne_nil_of_mem hm'
  refine ⟨l, hknown, hl, hresult, hend, ?_⟩
  unfold RoutingTable.lookup at hl
  dsimp only at hl
  rw [if_neg (show ¬(net.dht 0 localId).routingTable.findClosest target kBucketSize = []
    from hstart)] at hl
  refine Approach.loop h hlocal
    ⟨?_, rfl, fun _ hn => absurd hn List.not_mem_nil, List.nodup_nil⟩ hstart
    ⟨fun _ hq => absurd hq List.not_mem_nil, fun k hk => ?_⟩ hl
  · have hnodup := (net.dht 0 localId).routingTable.nodup_findClosest target kBucketSize
    dsimp only
    rw [learnedIn, List.flatten_nil, List.flatMap_nil, List.append_nil, start,
      RoutingTable.dedupById_eq hnodup fun _ _ => List.not_mem_nil]
  · exact ⟨m, List.mem_append_left _ hm, Or.inr (hk.trans (Nat.zero_le _))⟩

/-- The first node of the result is nearest, since it is queried. -/
theorem nearest_first (h : net.Healthy p) (hlocal : net.Member localId)
    (hend : LookupEnd target (net.start localId target) l)
    (ha : Approach p net localId target l.rounds) {first : DhtNode}
    (hfirst : (Selection.smallest (distanceTo target) kBucketSize l.known).head? = some first) :
    first ∈ l.known ∧ net.Nearest localId target first := by
  have hmem : first ∈ l.known :=
    (Selection.sortByKey_perm _).mem_iff.mp (List.mem_of_mem_take (List.mem_of_head? hfirst))
  have hqueried : first ∈ queriedIn l.rounds := by
    refine hend.closest first ?_
    have htake : Selection.smallest (distanceTo target) alpha l.known =
        (Selection.smallest (distanceTo target) kBucketSize l.known).take alpha := by
      rw [Selection.smallest, Selection.smallest, List.take_take]
      rfl
    obtain ⟨rest, hrest⟩ := List.head?_eq_some_iff.mp hfirst
    rw [htake, hrest]
    exact List.mem_cons_self
  rcases nearest_or_closer h hlocal hend.toLookupInvariant ha.answers hqueried with
    hnearest | ⟨m, hm, hlt⟩
  · exact ⟨hmem, hnearest⟩
  · exact absurd hlt (not_lt.mpr (commonPrefix_le_first hfirst hm))

theorem Healthy.exists_first (h : net.Healthy p) (target : NodeId) (hlocal : net.Member localId)
    (hother : ∃ id, net.Member id ∧ id ≠ localId) : ∃ first rest,
      (net.dht 0 localId).routingTable.iterativeFindNode target (net.respond p localId target) =
        some (first :: rest) ∧
      (∀ n ∈ first :: rest, net.Reaches n) ∧ net.Nearest localId target first := by
  obtain ⟨l, hknown, -, hresult, hend, ha⟩ := h.lookup_spec target hlocal hother
  obtain ⟨first, hfirst⟩ := @Selection.exists_head?_smallest _ _ _ (distanceTo target) _ _
    (show 0 < kBucketSize by decide) hknown
  obtain ⟨rest, hrest⟩ := List.head?_eq_some_iff.mp hfirst
  refine ⟨first, rest, by rw [hresult, hrest], fun n hn => ?_,
    (nearest_first h hlocal hend ha hfirst).2⟩
  rw [← hrest] at hn
  exact reaches_of_known h hlocal hend.toLookupInvariant ha.answers
    ((Selection.sortByKey_perm _).mem_iff.mp (List.mem_of_mem_take hn))

/-- The node that is nearest among the first 160 rounds. -/
theorem exists_learned_nearest (h : net.Healthy p) (hlocal : net.Member localId)
    (hknown : l.known ≠ []) (hend : LookupEnd target (net.start localId target) l)
    (ha : Approach p net localId target l.rounds) :
    ∃ n ∈ net.start localId target ++ learnedIn (l.rounds.take 160),
      net.Nearest localId target n := by
  by_cases hlong : 160 ≤ l.rounds.length
  · obtain ⟨n, hn, hnearest | hbits⟩ := ha.nearer 160 hlong
    · exact ⟨n, hn, hnearest⟩
    · exact ⟨n, hn, fun id _ _ => (commonPrefix_le target id).trans hbits⟩
  · rw [List.take_of_length_le (by omega)]
    obtain ⟨first, hfirst⟩ := @Selection.exists_head?_smallest _ _ _ (distanceTo target) _ _
      (show 0 < kBucketSize by decide) hknown
    obtain ⟨hmem, hnearest⟩ := nearest_first h hlocal hend ha hfirst
    obtain ⟨n, hn, hsame⟩ := List.mem_map.mp (hend.mem_ids_iff.mp (List.mem_map_of_mem hmem))
    refine ⟨n, hn, fun id hid hne => ?_⟩
    rw [hsame]
    exact hnearest id hid hne

/-- A nearest node is the target, where that is another node of the network. -/
theorem Nearest.eq_target (hn : net.Nearest localId target n) (htarget : net.Member target)
    (hne : target ≠ localId) : n.id = target := by
  have hprefix := hn target htarget hne
  rw [commonPrefix_self] at hprefix
  by_contra hnot
  have hsum := commonPrefix_of_ne hnot
  omega

end Lookup

/-- In a healthy network, a lookup ends with a node that begins like the target in as many bits
as any other node of the network, and with the target itself if that is one. Such a node is
learned within the first 160 rounds, and only nodes of the network are returned. -/
theorem lookup_converges (p : Primitives) (net : Overlay) (h : net.Healthy p)
    {localId : NodeId} (target : NodeId) (hlocal : net.Member localId)
    (hother : ∃ id, net.Member id ∧ id ≠ localId) :
    ∃ l first rest,
      (net.dht 0 localId).routingTable.lookup target (net.respond p localId target) = some l ∧
      (net.dht 0 localId).routingTable.iterativeFindNode target (net.respond p localId target) =
        some (first :: rest) ∧
      (∀ n ∈ first :: rest, net.Reaches n) ∧ net.Nearest localId target first ∧
      (net.Member target → target ≠ localId → first.id = target) ∧
      ∃ n ∈ net.start localId target ++ learnedIn (l.rounds.take 160),
        net.Nearest localId target n := by
  obtain ⟨l, hknown, hl, -, hend, ha⟩ := h.lookup_spec target hlocal hother
  obtain ⟨first, rest, hresult, hreaches, hnearest⟩ := h.exists_first target hlocal hother
  exact ⟨l, first, rest, hl, hresult, hreaches, hnearest, hnearest.eq_target,
    exists_learned_nearest h hlocal hknown hend ha⟩

/-! ### Small networks -/

/-- A network whose nodes have all been told of each other, and have done something since. -/
def mesh (contacts : List DhtNode) (since : NodeId → List NodeOp) : Overlay where
  address id := (contacts.find? fun n => n.id = id).map DhtNode.addr
  dht _ id := .performed pingPrimitives id 100
    ((contacts.filter fun n => n.id ≠ id).map (fun n => .table (.addNode 0 n)) ++ since id)
  clock _ _ := 0

section Mesh

variable {contacts : List DhtNode} {since : NodeId → List NodeOp}

theorem mem_of_mesh_member {id : NodeId} (h : (mesh contacts since).Member id) :
    id ∈ contacts.map DhtNode.id := by
  obtain ⟨addr, haddr⟩ := Option.ne_none_iff_exists'.mp h
  obtain ⟨n, hfind, -⟩ := Option.map_eq_some_iff.mp haddr
  have hid := List.find?_some hfind
  exact List.mem_map.mpr ⟨n, List.mem_of_find?_eq_some hfind, of_decide_eq_true hid⟩

/-- It is enough to look at the nodes once. -/
theorem mesh_healthy
    (hcontacts : ∀ id ∈ contacts.map DhtNode.id,
      ∀ n ∈ ((mesh contacts since).dht 0 id).routingTable.allNodes,
        (mesh contacts since).Reaches n)
    (hspread : ∀ id ∈ contacts.map DhtNode.id, ∀ id' ∈ contacts.map DhtNode.id, id' ≠ id →
      ∃ n ∈ ((mesh contacts since).dht 0 id).routingTable.allNodes,
        ((mesh contacts since).dht 0 id).routingTable.bucketIndex n.id =
          ((mesh contacts since).dht 0 id).routingTable.bucketIndex id') :
    (mesh contacts since).Healthy pingPrimitives where
  reachable _ _ _ := ⟨_, _, rfl⟩
  contacts _ id hid := hcontacts id (mem_of_mesh_member hid)
  spread _ id id' hid hid' :=
    hspread id (mem_of_mesh_member hid) id' (mem_of_mesh_member hid')

end Mesh

/-- Two nodes that know each other. -/
def pair : Overlay :=
  mesh [⟨.ofByte 0 0, "192.0.2.1:1", 0⟩, ⟨.ofByte 0 0x80, "198.51.100.1:1", 0⟩] fun _ => []

/-- One of the two finds the other. -/
theorem lookup_converges_pair : ∃ first rest,
    (pair.dht 0 (.ofByte 0 0)).routingTable.iterativeFindNode (.ofByte 0 0x80)
      (pair.respond pingPrimitives (.ofByte 0 0) (.ofByte 0 0x80)) = some (first :: rest) ∧
      first.id = .ofByte 0 0x80 := by
  obtain ⟨l, first, rest, -, hresult, -, -, htarget, -⟩ := lookup_converges pingPrimitives pair
    (mesh_healthy (by decide +kernel) (by decide +kernel)) (.ofByte 0 0x80)
    (show pair.Member (.ofByte 0 0) by decide) ⟨.ofByte 0 0x80, by decide, by decide⟩
  exact ⟨first, rest, hresult, htarget (by decide) (by decide)⟩

end Overlay

end Tachyon
