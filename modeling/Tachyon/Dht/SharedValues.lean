import Tachyon.Dht.Convergence

/-!
# Values across a network of nodes

The node that is nearest to a key is the first to which a value is sent and the first that is
asked for it. It accepts the value only from a node in its own table.
-/

namespace Tachyon

namespace RoutingTable

/-- A search for a node of the table finds it: it is in the bucket with which the search
begins. -/
theorem find_known {t : RoutingTable} (ht : t.Sound) {n : DhtNode} (hn : n ∈ t.allNodes)
    {count : ℕ} (hcount : 0 < count) : ∃ m ∈ t.findClosest n.id count, m.id = n.id := by
  obtain ⟨i, hi⟩ := mem_allNodes_iff.mp hn
  obtain ⟨b, hb, hmem⟩ := mem_nodesAt_iff.mp hi
  have hplaced := (ht i b hb).placed n (List.mem_append_left _ hmem)
  have hcenter : t.center n.id = i := by
    rw [center, bucketIndex_eq_some.mpr hplaced, Option.getD_some]
  obtain ⟨m, hm, hle⟩ := exists_findClosest_le hcount (hcenter ▸ hi)
  refine ⟨m, hm, ?_⟩
  rw [NodeId.le_iff, value_xorDistance_eq_zero.mpr (rfl : n.id = n.id), Nat.le_zero] at hle
  exact value_xorDistance_eq_zero.mp hle

end RoutingTable

namespace KademliaDht

variable {p : Primitives} {writer : NodeId} {key : List UInt8} (value : List UInt8)
  (now : SystemTime) (signature : Option DhtSignature)

/-- A node stores what a node of its table sends. -/
theorem perform_store {d : KademliaDht} (hd : d.Sound)
    (hknows : ∃ n ∈ d.routingTable.allNodes, n.id = writer) :
    d.perform p (.inbound now (.store writer key value signature)) =
      (d.handleMessage now (.store writer key value signature)).store key value := by
  have hhandled : (d.handleMessage now (.store writer key value signature)).Sound :=
    hd.apply (.handleMessage now (.store writer key value signature))
  obtain ⟨n, hn, rfl⟩ := (d.handleMessage_sameContacts now
    (.store writer key value signature)).mem_ids_iff.mpr hknows
  obtain ⟨m, hm, hid⟩ := RoutingTable.find_known hhandled.table hn (show 0 < kBucketSize by decide)
  refine congrArg Prod.fst (if_pos ?_)
  exact List.any_eq_true.mpr ⟨m, hm, decide_eq_true hid⟩

/-- It keeps the value as long as nothing else is stored for the key. -/
theorem performed_localStore {maxNodes : ℕ} {localId : NodeId} {before later : List NodeOp}
    (hknows : ∃ n ∈ (performed p localId maxNodes before).routingTable.allNodes, n.id = writer)
    (hlater : ∀ op ∈ later, op.storedKey ≠ some key) :
    (performed p localId maxNodes
      (before ++ .inbound now (.store writer key value signature) :: later)).localStore key =
        some value := by
  have hsound := (performed_spec p localId maxNodes before).1
  unfold performed at hknows hsound ⊢
  rw [List.foldl_append, List.foldl_cons, perform_store value now signature hsound hknows]
  exact localStore_of_store p key value _ hlater

end KademliaDht

namespace Overlay

variable {p : Primitives} {net : Overlay} {localId target holder : NodeId} {n : DhtNode}

/-- The node begins like the target in more bits than every other. -/
structure Sole (net : Overlay) (target holder : NodeId) : Prop where
  member : net.Member holder
  nearest : ∀ id, net.Member id → id ≠ holder → commonPrefix target id < commonPrefix target holder

/-- What the network does with the packets of a node that looks up a target, and then asks when
the nodes are in the states of one time. -/
def network (p : Primitives) (net : Overlay) (localId target : NodeId) (asked : ℕ) : Network where
  respond := net.respond p localId target
  sendRpc n msg :=
    if n.id ≠ localId ∧ net.Reaches n then
      (processIncoming p (net.clock asked n.id) msg (net.dht asked n.id)).2
    else none
  sendTo n _ := net.Reaches n
  requestId _ := 0

/-- A lookup by another node puts it first. -/
theorem Sole.first (hsole : net.Sole target holder) (h : net.Healthy p)
    (hlocal : net.Member localId) (hne : localId ≠ holder) : ∃ first rest,
      (net.dht 0 localId).routingTable.iterativeFindNode target (net.respond p localId target) =
        some (first :: rest) ∧ first.id = holder ∧ net.Reaches first := by
  obtain ⟨first, rest, hresult, hreaches, hnearest⟩ :=
    h.exists_first target hlocal ⟨holder, hsole.member, hne.symm⟩
  have hfirst := hreaches first List.mem_cons_self
  refine ⟨first, rest, hresult, ?_, hfirst⟩
  by_contra hnot
  have hlt := hsole.nearest first.id hfirst.member hnot
  have hle := hnearest holder hsole.member hne.symm
  omega

/-- The value that a node answers with is the one in its store. -/
theorem answer_network (d : KademliaDht) (target : NodeId) {key : List UInt8} {asked : ℕ}
    (hne : n.id ≠ localId) (hreaches : net.Reaches n) :
    d.answer key (net.network p localId target asked) n =
      (net.dht asked n.id).localStore key := by
  rw [KademliaDht.answer, KademliaDht.findValueRpc, network]
  dsimp only
  rw [if_pos ⟨hne, hreaches⟩]
  exact congrFun ((net.dht asked n.id).handleMessage_localStore (net.clock asked n.id)
    (.findValue d.localId key none)) key

/-- Three nodes; the last begins like the identifier of the key `[1]` in nine bits. -/
def trio (since : List NodeOp) : Overlay :=
  mesh [⟨.ofByte 0 0, "192.0.2.1:1", 0⟩, ⟨.ofByte 0 0x80, "198.51.100.1:1", 0⟩,
    ⟨.ofByte 0 0x40, "203.0.113.1:1", 0⟩] fun id => if id = .ofByte 0 0x40 then since else []

theorem trio_sole (since : List NodeOp) :
    (trio since).Sole (pingPrimitives.keyToNodeId [1]) (.ofByte 0 0x40) where
  member := by
    unfold Member
    change (trio []).address (.ofByte 0 0x40) ≠ none
    decide
  nearest id hid := by
    have hall : ∀ id ∈ [NodeId.ofByte 0 0, .ofByte 0 0x80, .ofByte 0 0x40], id ≠ .ofByte 0 0x40 →
        commonPrefix (pingPrimitives.keyToNodeId [1]) id <
          commonPrefix (pingPrimitives.keyToNodeId [1]) (.ofByte 0 0x40) := by
      decide +kernel
    exact hall id (mem_of_mesh_member hid)

theorem trio_holder (since : List NodeOp) (asked : ℕ) :
    (trio since).dht asked (.ofByte 0 0x40) = .performed pingPrimitives (.ofByte 0 0x40) 100
      ([.table (.addNode 0 ⟨.ofByte 0 0, "192.0.2.1:1", 0⟩),
        .table (.addNode 0 ⟨.ofByte 0 0x80, "198.51.100.1:1", 0⟩)] ++ since) := by
  have hothers : [(⟨.ofByte 0 0, "192.0.2.1:1", 0⟩ : DhtNode),
      ⟨.ofByte 0 0x80, "198.51.100.1:1", 0⟩, ⟨.ofByte 0 0x40, "203.0.113.1:1", 0⟩].filter
        (fun n => n.id ≠ .ofByte 0 0x40) =
      [⟨.ofByte 0 0, "192.0.2.1:1", 0⟩, ⟨.ofByte 0 0x80, "198.51.100.1:1", 0⟩] := by
    decide
  rw [trio, mesh]
  dsimp only
  rw [hothers, if_pos rfl]
  rfl

end Overlay

end Tachyon
