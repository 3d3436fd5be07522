import Tachyon.Dht.BucketSteps
import Tachyon.Dht.FindClosest
import Tachyon.Dht.RecvLoop

/-!
# What datagrams change

Of the routing table a datagram changes no more than the order of the nodes of a bucket and
the time at which one was heard of; a value is stored only for an active node.
-/

namespace Tachyon

namespace RoutingTable

variable {t t' t'' : RoutingTable} {n : DhtNode} {i : ℕ} {b : KBucket}

/-- The identifier and the address of a node. -/
def contact (n : DhtNode) : NodeId × String := (n.id, n.addr)

/-- The tables have the same contacts in every bucket, and the same caches. -/
def SameContacts (t t' : RoutingTable) : Prop :=
  ∀ i, ((t'.nodesAt i).map contact).Perm ((t.nodesAt i).map contact) ∧
    (t'.bucket i).map KBucket.replacementCache = (t.bucket i).map KBucket.replacementCache

theorem SameContacts.refl (t : RoutingTable) : t.SameContacts t := fun _ => ⟨.refl _, rfl⟩

theorem SameContacts.trans (h : t.SameContacts t') (h' : t'.SameContacts t'') :
    t.SameContacts t'' := fun i => ⟨(h' i).1.trans (h i).1, (h' i).2.trans (h i).2⟩

/-- A change of one bucket that keeps its contacts and its cache. -/
theorem SameContacts.modifyBucket {f : KBucket → KBucket}
    (hnodes : ∀ b, ((f b).nodes.map contact).Perm (b.nodes.map contact))
    (hcache : ∀ b, (f b).replacementCache = b.replacementCache) :
    t.SameContacts (t.modifyBucket i f) := by
  intro j
  unfold nodesAt
  rw [bucket_modifyBucket]
  cases t.bucket j with
  | none => exact ⟨.refl _, rfl⟩
  | some b =>
    rw [Option.map_some, Option.elim_some, Option.elim_some, Option.map_some, Option.map_some]
    split
    · exact ⟨hnodes b, congrArg some (hcache b)⟩
    · exact ⟨.refl _, rfl⟩

theorem mem_allNodes_of_bucket (hb : t.bucket i = some b) (hn : n ∈ b.nodes) : n ∈ t.allNodes :=
  List.mem_flatMap.mpr ⟨b, List.mem_of_getElem? hb, hn⟩

theorem mem_allNodes_iff : n ∈ t.allNodes ↔ ∃ i, n ∈ t.nodesAt i := by
  constructor
  · rw [allNodes_eq]
    intro hn
    obtain ⟨i, -, hn⟩ := List.mem_flatMap.mp hn
    exact ⟨i, hn⟩
  · rintro ⟨i, hn⟩
    obtain ⟨b, hb, hn⟩ := mem_nodesAt_iff.mp hn
    exact mem_allNodes_of_bucket hb hn

/-- The same contacts bear the same identifiers. -/
theorem SameContacts.mem_ids_iff {id : NodeId} (h : t.SameContacts t') :
    (∃ n ∈ t'.allNodes, n.id = id) ↔ ∃ n ∈ t.allNodes, n.id = id := by
  have hids (t : RoutingTable) :
      (∃ n ∈ t.allNodes, n.id = id) ↔ ∃ i, ∃ c ∈ (t.nodesAt i).map contact, c.1 = id := by
    constructor
    · rintro ⟨n, hn, rfl⟩
      obtain ⟨i, hn⟩ := mem_allNodes_iff.mp hn
      exact ⟨i, contact n, List.mem_map_of_mem hn, rfl⟩
    · rintro ⟨i, c, hc, rfl⟩
      obtain ⟨n, hn, rfl⟩ := List.mem_map.mp hc
      exact ⟨n, mem_allNodes_iff.mpr ⟨i, hn⟩, rfl⟩
  rw [hids, hids]
  constructor
  · rintro ⟨i, c, hc, hid⟩
    exact ⟨i, c, (h i).1.mem_iff.mp hc, hid⟩
  · rintro ⟨i, c, hc, hid⟩
    exact ⟨i, c, (h i).1.mem_iff.mpr hc, hid⟩

theorem dedupById_sublist (seen : List NodeId) (l : List DhtNode) :
    (dedupById seen l).Sublist l := by
  induction l generalizing seen with
  | nil => exact List.Sublist.refl _
  | cons n l ih =>
    rw [dedupById]
    split
    · exact (ih seen).cons n
    · exact (ih (n.id :: seen)).cons_cons n

/-- `find_closest` finds active nodes. -/
theorem mem_allNodes_of_findClosest {target : NodeId} {count : ℕ}
    (hn : n ∈ t.findClosest target count) : n ∈ t.allNodes := by
  obtain ⟨lo, hi, found, hrun, -, -, -, hfound, -⟩ := t.visit_spec target count
  rw [findClosest, hrun] at hn
  have hdedup := (Selection.sortByKey_perm _).mem_iff.mp (List.mem_of_mem_take hn)
  have hmem := hfound.mem_iff.mp ((dedupById_sublist [] found).subset hdedup)
  obtain ⟨i, -, hn⟩ := List.mem_flatMap.mp hmem
  exact mem_allNodes_iff.mpr ⟨i, hn⟩

end RoutingTable

namespace KBucket

variable {b : KBucket} {now : SystemTime} {id : NodeId}

theorem contacts_refresh (now : SystemTime) (id : NodeId) (b : KBucket) :
    ((b.refresh now id).nodes.map RoutingTable.contact).Perm
      (b.nodes.map RoutingTable.contact) := by
  rcases refresh_spec now id b with ⟨-, heq⟩ | ⟨n, hfind, heq⟩
  · rw [heq]
  · rw [heq, List.map_append]
    exact List.perm_append_comm.trans ((find_perm hfind).map RoutingTable.contact).symm

theorem cache_refresh (now : SystemTime) (id : NodeId) (b : KBucket) :
    (b.refresh now id).replacementCache = b.replacementCache := by
  rcases refresh_spec now id b with ⟨-, heq⟩ | ⟨n, -, heq⟩ <;> rw [heq]

end KBucket

namespace KademliaDht

variable {d : KademliaDht} {now : SystemTime} {msg : KademliaMessage}

/-- A message is a refresh of its sender, if that is anything. -/
theorem handleMessage_sameContacts (now : SystemTime) (msg : KademliaMessage) (d : KademliaDht) :
    d.routingTable.SameContacts (d.handleMessage now msg).routingTable := by
  unfold handleMessage
  cases d.routingTable.bucketIndex msg.senderId with
  | none => exact .refl _
  | some i =>
    exact .modifyBucket (KBucket.contacts_refresh now msg.senderId)
      (KBucket.cache_refresh now msg.senderId)

theorem handleMessage_localStore (now : SystemTime) (msg : KademliaMessage) (d : KademliaDht) :
    (d.handleMessage now msg).localStore = d.localStore := by
  unfold handleMessage
  cases d.routingTable.bucketIndex msg.senderId <;> rfl

end KademliaDht

section Loop

variable {Call : Type} {p : Primitives} {sign : List UInt8 → DhtSignature} {s s' : Receiver Call}

/-- An event lets a value in only by a `Store` of an active node. -/
def StoresFor (p : Primitives) (s : Receiver Call) (e : LoopEvent Call) (key value : List UInt8) :
    Prop :=
  ∃ g requestId senderId signature, e = .datagram g ∧
    g.accepted p = some (requestId, .store senderId key value signature) ∧
    ∃ n ∈ s.dht.routingTable.allNodes, n.id = senderId

theorem processIncoming_spec (p : Primitives) (now : SystemTime) (msg : KademliaMessage)
    (d : KademliaDht) :
    d.routingTable.SameContacts (processIncoming p now msg d).1.routingTable ∧
      ((processIncoming p now msg d).1.localStore = d.localStore ∨
        ∃ senderId key value signature, msg = .store senderId key value signature ∧
          (∃ n ∈ d.routingTable.allNodes, n.id = senderId) ∧
          (processIncoming p now msg d).1.localStore =
            Function.update d.localStore key (some value)) := by
  have hsame := d.handleMessage_sameContacts now msg
  rcases processIncoming_cases p now msg d with heq |
    ⟨senderId, key, value, signature, rfl, ⟨n, hn, hid⟩, heq⟩
  · rw [heq]
    exact ⟨hsame, Or.inl (d.handleMessage_localStore now msg)⟩
  · rw [heq]
    refine ⟨hsame, Or.inr ⟨senderId, key, value, signature, rfl, ?_, ?_⟩⟩
    · exact hsame.mem_ids_iff.mp ⟨n, RoutingTable.mem_allNodes_of_findClosest hn, hid⟩
    · rw [KademliaDht.store, d.handleMessage_localStore]

/-- One event: the contacts and the caches stay, and a value changes only to that of a `Store`
of an active node. -/
theorem handle_spec (p : Primitives) (sign : List UInt8 → DhtSignature) (s : Receiver Call)
    (e : LoopEvent Call) :
    s.dht.routingTable.SameContacts (s.handle p sign e).dht.routingTable ∧
      ∀ key, (s.handle p sign e).dht.localStore key = s.dht.localStore key ∨
        ∃ value, StoresFor p s e key value ∧
          (s.handle p sign e).dht.localStore key = some value := by
  cases e with
  | register requestId call => exact ⟨.refl _, fun _ => Or.inl rfl⟩
  | unregister requestId => exact ⟨.refl _, fun _ => Or.inl rfl⟩
  | datagram g =>
    unfold Receiver.handle
    dsimp only
    rcases receive_cases p sign g s with ⟨-, heq⟩ | ⟨requestId, msg, haccepted,
      ⟨call, -, heq⟩ | ⟨-, -, heq⟩ | ⟨-, -, heq⟩⟩
    · rw [heq]
      exact ⟨.refl _, fun _ => Or.inl rfl⟩
    · rw [heq]
      exact ⟨.refl _, fun _ => Or.inl rfl⟩
    · rw [heq]
      exact ⟨.refl _, fun _ => Or.inl rfl⟩
    · rw [heq]
      dsimp only
      obtain ⟨hsame, hstore⟩ := processIncoming_spec p g.now msg s.dht
      refine ⟨hsame, fun key => ?_⟩
      rcases hstore with hstore | ⟨senderId, key', value, signature, rfl, hsender, hstore⟩
      · exact Or.inl (congrFun hstore key)
      · have hvalue := congrFun hstore key
        by_cases hkey : key = key'
        · subst hkey
          rw [Function.update_self] at hvalue
          exact Or.inr ⟨value, ⟨g, requestId, senderId, signature, rfl, haccepted, hsender⟩,
            hvalue⟩
        · rw [Function.update_of_ne hkey] at hvalue
          exact Or.inl hvalue

/-- Whatever datagrams arrive, the contacts of every bucket and the caches stay as they are; a
value that changes was stored for a node that is active, all along. -/
theorem inbound_keeps_contacts (p : Primitives) (sign : List UInt8 → DhtSignature)
    (s : Receiver Call) (events : List (LoopEvent Call)) :
    s.dht.routingTable.SameContacts (s.runLoop p sign events).dht.routingTable ∧
      ∀ key, (s.runLoop p sign events).dht.localStore key ≠ s.dht.localStore key →
        ∃ e ∈ events, ∃ value, StoresFor p s e key value ∧
          (s.runLoop p sign events).dht.localStore key = some value := by
  unfold Receiver.runLoop
  induction events generalizing s with
  | nil => exact ⟨.refl _, fun key hne => absurd rfl hne⟩
  | cons e events ih =>
    obtain ⟨hsame, hstep⟩ := handle_spec p sign s e
    obtain ⟨hrest, hstores⟩ := ih (s.handle p sign e)
    refine ⟨hsame.trans hrest, fun key hne => ?_⟩
    rw [List.foldl_cons] at hne ⊢
    by_cases hlast :
        (events.foldl (Receiver.handle p sign) (s.handle p sign e)).dht.localStore key =
          (s.handle p sign e).dht.localStore key
    · rw [hlast] at hne ⊢
      obtain ⟨value, hstores, hvalue⟩ := (hstep key).resolve_left hne
      exact ⟨e, List.mem_cons_self, value, hstores, hvalue⟩
    · obtain ⟨e', he', value, ⟨g, requestId, senderId, signature, rfl, haccepted, hsender⟩,
        hvalue⟩ := hstores key hlast
      exact ⟨.datagram g, List.mem_cons_of_mem e he', value, ⟨g, requestId, senderId, signature,
        rfl, haccepted, hsame.mem_ids_iff.mp hsender⟩, hvalue⟩

end Loop

end Tachyon
