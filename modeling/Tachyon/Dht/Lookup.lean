import Tachyon.Dht.Inbound
import Tachyon.Dht.UniqueNodes
import Mathlib.Data.Fintype.Card

/-!
# The iterative lookup

Rounds of queries to the closest nodes that are known, until every known node is queried or
a round brings no new one. A peer may answer anything or not at all; the responses of a
round are taken in the order of its queries, however they arrive.
-/

namespace Tachyon

open RoutingTable (distanceTo dedupById)

/-- A round: the nodes queried, and the nodes in their responses. A query that is not sent or
not answered brings no nodes. -/
abbrev Round := List (DhtNode × List DhtNode)

/-- The nodes queried in some rounds. -/
def queriedIn (rounds : List Round) : List DhtNode := rounds.flatten.map Prod.fst

/-- The nodes in the responses of some rounds. -/
def learnedIn (rounds : List Round) : List DhtNode := rounds.flatten.flatMap Prod.snd

/-- The state of `iterative_find_node`, with its rounds so far. `known_ids` is the set of the
identifiers of the known nodes. -/
structure Lookup where
  known : List DhtNode
  queriedIds : List NodeId
  rounds : List Round

/-- A node of a response joins the known ones, and is noted as new, if it is neither queried
nor known. -/
def learn (queriedIds : List NodeId) (known : List DhtNode × Bool) (node : DhtNode) :
    List DhtNode × Bool :=
  if node.id ∈ queriedIds ∨ node.id ∈ known.1.map DhtNode.id then known
  else (known.1 ++ [node], true)

/-- The loop of `iterative_find_node`; `respond` is what a query of a round brings. -/
def lookupLoop (target : NodeId) (respond : ℕ → DhtNode → List DhtNode) :
    ℕ → Lookup → Option Lookup
  | 0, _ => none
  | fuel + 1, l =>
    let known := Selection.sortByKey (distanceTo target) l.known
    let targets := (known.filter fun n => n.id ∉ l.queriedIds).take alpha
    if targets = [] then some { l with known := known }
    else
      let queriedIds := l.queriedIds ++ targets.map DhtNode.id
      let round := targets.map fun n => (n, respond l.rounds.length n)
      let merged := (round.flatMap Prod.snd).foldl (learn queriedIds) (known, false)
      let l' : Lookup := ⟨merged.1, queriedIds, l.rounds ++ [round]⟩
      if merged.2 then lookupLoop target respond fuel l' else some l'

namespace RoutingTable

/-- A whole lookup; no more rounds are possible than there are identifiers. -/
def lookup (target : NodeId) (respond : ℕ → DhtNode → List DhtNode) (t : RoutingTable) :
    Option Lookup :=
  let known := t.findClosest target kBucketSize
  if known = [] then some ⟨[], [], []⟩
  else lookupLoop target respond (2 ^ 160 + 1) ⟨known, [], []⟩

/-- `iterative_find_node`. -/
def iterativeFindNode (target : NodeId) (respond : ℕ → DhtNode → List DhtNode)
    (t : RoutingTable) : Option (List DhtNode) :=
  (t.lookup target respond).map fun l =>
    (Selection.sortByKey (distanceTo target) l.known).take kBucketSize

end RoutingTable

/-! ### Nodes without repetition -/

section Dedup

variable {seen seen' : List NodeId} {l l' : List DhtNode} {n : DhtNode} {id : NodeId}

theorem dedupById_congr (h : ∀ id, id ∈ seen ↔ id ∈ seen') :
    dedupById seen l = dedupById seen' l := by
  induction l generalizing seen seen' with
  | nil => rfl
  | cons n l ih =>
    rw [dedupById, dedupById, ih h]
    by_cases hn : n.id ∈ seen
    · rw [if_pos hn, if_pos ((h n.id).mp hn)]
    · rw [if_neg hn, if_neg (mt (h n.id).mpr hn), ih]
      intro id
      rw [List.mem_cons, List.mem_cons, h id]

theorem dedupById_append :
    dedupById seen (l ++ l') = dedupById seen l ++ dedupById (seen ++ l.map DhtNode.id) l' := by
  induction l generalizing seen with
  | nil => rw [List.map_nil, List.append_nil, List.nil_append, dedupById, List.nil_append]
  | cons n l ih =>
    rw [List.cons_append, dedupById, dedupById]
    by_cases hn : n.id ∈ seen
    · rw [if_pos hn, if_pos hn, ih]
      congr 1
      refine dedupById_congr fun id => ?_
      simp only [List.map_cons, List.mem_append, List.mem_cons]
      constructor
      · rintro (h | h)
        · exact Or.inl h
        · exact Or.inr (Or.inr h)
      · rintro (h | rfl | h)
        · exact Or.inl h
        · exact Or.inl hn
        · exact Or.inr h
    · rw [if_neg hn, if_neg hn, ih, List.cons_append]
      congr 2
      refine dedupById_congr fun id => ?_
      simp only [List.map_cons, List.mem_append, List.mem_cons]
      exact or_left_comm

theorem mem_ids_dedupById :
    id ∈ (dedupById seen l).map DhtNode.id ↔ id ∈ l.map DhtNode.id ∧ id ∉ seen := by
  induction l generalizing seen with
  | nil => simp [dedupById]
  | cons n l ih =>
    rw [dedupById]
    by_cases hn : n.id ∈ seen
    · rw [if_pos hn, ih, List.map_cons, List.mem_cons]
      constructor
      · exact fun h => ⟨Or.inr h.1, h.2⟩
      · rintro ⟨rfl | h, hnot⟩
        · exact absurd hn hnot
        · exact ⟨h, hnot⟩
    · rw [if_neg hn, List.map_cons, List.mem_cons, ih, List.map_cons, List.mem_cons,
        List.mem_cons, not_or]
      constructor
      · rintro (rfl | ⟨h, hne, hnot⟩)
        · exact ⟨Or.inl rfl, hn⟩
        · exact ⟨Or.inr h, hnot⟩
      · rintro ⟨h, hnot⟩
        by_cases hid : id = n.id
        · exact Or.inl hid
        · exact Or.inr ⟨h.resolve_left hid, hid, hnot⟩

theorem dedupById_eq_nil (h : ∀ n ∈ l, n.id ∈ seen) : dedupById seen l = [] := by
  rw [← List.map_eq_nil_iff (f := DhtNode.id), List.eq_nil_iff_forall_not_mem]
  intro id hid
  obtain ⟨hmem, hnot⟩ := mem_ids_dedupById.mp hid
  obtain ⟨n, hn, rfl⟩ := List.mem_map.mp hmem
  exact hnot (h n hn)

theorem nodup_dedupById : ((dedupById seen l).map DhtNode.id).Nodup := by
  induction l generalizing seen with
  | nil => exact List.nodup_nil
  | cons n l ih =>
    rw [dedupById]
    split
    · exact ih
    · rw [List.map_cons, List.nodup_cons, mem_ids_dedupById]
      exact ⟨fun h => h.2 List.mem_cons_self, ih⟩

/-- The responses of a round add their new nodes, once each. -/
theorem foldl_learn {queriedIds : List NodeId} {known : List DhtNode} (new : Bool)
    (l : List DhtNode) (hqueried : ∀ id ∈ queriedIds, id ∈ known.map DhtNode.id) :
    (l.foldl (learn queriedIds) (known, new)).1 =
        known ++ dedupById (known.map DhtNode.id) l ∧
      ((l.foldl (learn queriedIds) (known, new)).2 = false ↔
        new = false ∧ ∀ n ∈ l, n.id ∈ known.map DhtNode.id) := by
  induction l generalizing known new with
  | nil => simp [dedupById]
  | cons n l ih =>
    rw [List.foldl_cons, learn, dedupById]
    dsimp only
    by_cases hn : n.id ∈ known.map DhtNode.id
    · rw [if_pos (Or.inr hn), if_pos hn]
      obtain ⟨hknown, hnew⟩ := ih new hqueried
      rw [List.forall_mem_cons, and_iff_right hn]
      exact ⟨hknown, hnew⟩
    · have hnot : ¬(n.id ∈ queriedIds ∨ n.id ∈ known.map DhtNode.id) := by
        rintro (h | h)
        · exact hn (hqueried _ h)
        · exact hn h
      rw [if_neg hnot, if_neg hn]
      have hqueried' : ∀ id ∈ queriedIds, id ∈ (known ++ [n]).map DhtNode.id := by
        intro id hid
        rw [List.map_append]
        exact List.mem_append_left _ (hqueried id hid)
      obtain ⟨hknown, hnew⟩ := ih true hqueried'
      rw [hknown, List.append_assoc]
      refine ⟨?_, ?_⟩
      · congr 1
        rw [List.singleton_append]
        congr 1
        refine dedupById_congr fun id => ?_
        simp [or_comm]
      · rw [hnew]
        refine iff_of_false (fun h => absurd h.1.symm Bool.false_ne_true) fun h => ?_
        exact hn (h.2 n List.mem_cons_self)

end Dedup

/-! ### The rounds -/

section Rounds

variable {target : NodeId} {respond : ℕ → DhtNode → List DhtNode} {initial : List DhtNode}
  {l l' : Lookup}

/-- What holds before each round: the known nodes are those of the start and of the responses,
and the queried ones are among them. -/
structure LookupInvariant (initial : List DhtNode) (l : Lookup) : Prop where
  known : l.known.Perm (dedupById [] (initial ++ learnedIn l.rounds))
  queriedIds : l.queriedIds = (queriedIn l.rounds).map DhtNode.id
  queried : ∀ n ∈ queriedIn l.rounds, n ∈ l.known
  nodup : l.queriedIds.Nodup

/-- The last round brought no new node. -/
def LastRoundOld (initial : List DhtNode) (rounds : List Round) : Prop :=
  ∃ earlier last, rounds = earlier ++ [last] ∧
    ∀ n ∈ learnedIn [last], n.id ∈ (initial ++ learnedIn earlier).map DhtNode.id

/-- What holds at the end: every known node is queried, or the last round brought none; the
closest ones are queried in any case. -/
structure LookupEnd (target : NodeId) (initial : List DhtNode) (l : Lookup) : Prop
    extends LookupInvariant initial l where
  complete : (∀ n ∈ l.known, n ∈ queriedIn l.rounds) ∨ LastRoundOld initial l.rounds
  closest : ∀ n ∈ Selection.smallest (distanceTo target) alpha l.known, n ∈ queriedIn l.rounds

theorem LookupInvariant.mem_ids_iff (h : LookupInvariant initial l) {id : NodeId} :
    id ∈ l.known.map DhtNode.id ↔ id ∈ (initial ++ learnedIn l.rounds).map DhtNode.id := by
  rw [(h.known.map DhtNode.id).mem_iff, mem_ids_dedupById, and_iff_left List.not_mem_nil]

theorem LookupInvariant.nodup_known (h : LookupInvariant initial l) :
    (l.known.map DhtNode.id).Nodup :=
  (h.known.map DhtNode.id).nodup_iff.mpr nodup_dedupById

/-- A known node with the identifier of a queried one is that node. -/
theorem LookupInvariant.mem_queriedIn (h : LookupInvariant initial l) {n : DhtNode}
    (hn : n ∈ l.known) (hid : n.id ∈ l.queriedIds) : n ∈ queriedIn l.rounds := by
  rw [h.queriedIds] at hid
  obtain ⟨m, hm, hid⟩ := List.mem_map.mp hid
  have hsame := List.inj_on_of_nodup_map h.nodup_known (h.queried m hm) hn hid
  exact hsame ▸ hm

theorem queriedIn_append (rounds rounds' : List Round) :
    queriedIn (rounds ++ rounds') = queriedIn rounds ++ queriedIn rounds' := by
  rw [queriedIn, queriedIn, queriedIn, List.flatten_append, List.map_append]

theorem learnedIn_append (rounds rounds' : List Round) :
    learnedIn (rounds ++ rounds') = learnedIn rounds ++ learnedIn rounds' := by
  rw [learnedIn, learnedIn, learnedIn, List.flatten_append, List.flatMap_append]

/-- There are no more identifiers than numbers below `2 ^ 160`. -/
theorem length_le_of_nodup {ids : List NodeId} (h : ids.Nodup) : ids.length ≤ 2 ^ 160 := by
  have hvalues : (ids.map fun id => (⟨id.value, id.value_lt⟩ : Fin (2 ^ 160))).Nodup := by
    refine h.map fun a b hab => NodeId.value_injective ?_
    exact congrArg Fin.val hab
  have hle := hvalues.length_le_card
  rw [List.length_map, Fintype.card_fin] at hle
  exact hle

/-- One round keeps the invariant, and queries a node that was not queried. -/
theorem LookupInvariant.round (h : LookupInvariant initial l) (respond : DhtNode → List DhtNode)
    {known targets : List DhtNode} (hknown : known.Perm l.known)
    (htargets : targets.Sublist (known.filter fun n => n.id ∉ l.queriedIds))
    (hne : targets ≠ []) {merged : List DhtNode × Bool}
    (hmerged : merged = ((targets.map fun n => (n, respond n)).flatMap Prod.snd).foldl
      (learn (l.queriedIds ++ targets.map DhtNode.id)) (known, false)) :
    LookupInvariant initial ⟨merged.1, l.queriedIds ++ targets.map DhtNode.id,
        l.rounds ++ [targets.map fun n => (n, respond n)]⟩ ∧
      l.queriedIds.length < (l.queriedIds ++ targets.map DhtNode.id).length ∧
      (merged.2 = false → merged.1 = known ∧ LastRoundOld initial
        (l.rounds ++ [targets.map fun n => (n, respond n)])) := by
  have hids {id : NodeId} : id ∈ known.map DhtNode.id ↔
      id ∈ (initial ++ learnedIn l.rounds).map DhtNode.id :=
    (hknown.map DhtNode.id).mem_iff.trans h.mem_ids_iff
  have hsub : ∀ n ∈ targets, n ∈ known ∧ n.id ∉ l.queriedIds := by
    intro n hn
    obtain ⟨hmem, hnot⟩ := List.mem_filter.mp (htargets.subset hn)
    exact ⟨hmem, of_decide_eq_true hnot⟩
  have hqueried : ∀ id ∈ l.queriedIds ++ targets.map DhtNode.id, id ∈ known.map DhtNode.id := by
    intro id hid
    rcases List.mem_append.mp hid with hid | hid
    · rw [h.queriedIds] at hid
      obtain ⟨n, hn, rfl⟩ := List.mem_map.mp hid
      exact List.mem_map_of_mem (hknown.mem_iff.mpr (h.queried n hn))
    · obtain ⟨n, hn, rfl⟩ := List.mem_map.mp hid
      exact List.mem_map_of_mem (hsub n hn).1
  obtain ⟨hall, hold⟩ := foldl_learn false
    ((targets.map fun n => (n, respond n)).flatMap Prod.snd) hqueried
  rw [← hmerged] at hall hold
  have hlast : learnedIn [targets.map fun n => (n, respond n)] =
      (targets.map fun n => (n, respond n)).flatMap Prod.snd := by
    rw [learnedIn, List.flatten_cons, List.flatten_nil, List.append_nil]
  have hround : queriedIn [targets.map fun n => (n, respond n)] = targets := by
    rw [queriedIn, List.flatten_cons, List.flatten_nil, List.append_nil, List.map_map]
    exact List.map_id' targets
  refine ⟨⟨?_, ?_, ?_, ?_⟩, ?_, fun hfalse => ⟨?_, l.rounds, _, rfl, ?_⟩⟩
  · dsimp only
    rw [hall, learnedIn_append, hlast, ← List.append_assoc, dedupById_append, List.nil_append,
      dedupById_congr fun id => hids]
    exact (hknown.trans h.known).append_right _
  · dsimp only
    rw [queriedIn_append, hround, List.map_append, h.queriedIds]
  · intro n hn
    dsimp only at hn ⊢
    rw [queriedIn_append, hround] at hn
    rw [hall]
    refine List.mem_append_left _ ?_
    rcases List.mem_append.mp hn with hn | hn
    · exact hknown.mem_iff.mpr (h.queried n hn)
    · exact (hsub n hn).1
  · dsimp only
    rw [List.nodup_append]
    refine ⟨h.nodup, ?_, ?_⟩
    · have hnodup := (hknown.map DhtNode.id).nodup_iff.mpr h.nodup_known
      exact hnodup.sublist ((htargets.trans List.filter_sublist).map DhtNode.id)
    · rintro id hid _ hid' rfl
      obtain ⟨n, hn, rfl⟩ := List.mem_map.mp hid'
      exact (hsub n hn).2 hid
  · rw [List.length_append, List.length_map]
    have hpos := List.length_pos_of_ne_nil hne
    omega
  · rw [hall, dedupById_eq_nil (hold.mp hfalse).2, List.append_nil]
  · rw [hlast]
    exact fun n hn => hids.mp ((hold.mp hfalse).2 n hn)

/-- The closest nodes are queried, once those of them that were not are. -/
theorem LookupInvariant.closest (h' : LookupInvariant initial l')
    (hknown : l'.known = Selection.sortByKey (distanceTo target) l.known)
    (hqueried : l'.queriedIds = l.queriedIds ++
      (((Selection.sortByKey (distanceTo target) l.known).filter fun n =>
        n.id ∉ l.queriedIds).take alpha).map DhtNode.id) :
    ∀ n ∈ Selection.smallest (distanceTo target) alpha l'.known, n ∈ queriedIn l'.rounds := by
  intro n hn
  have hperm : (Selection.sortByKey (distanceTo target) l.known).Perm l.known :=
    Selection.sortByKey_perm _
  have hdistances := RoutingTable.nodup_distances target h'.nodup_known
  rw [Selection.smallest_perm hdistances (hknown ▸ hperm), Selection.smallest] at hn
  refine h'.mem_queriedIn (hknown ▸ List.mem_of_mem_take hn) ?_
  rw [hqueried, List.mem_append]
  by_cases hid : n.id ∈ l.queriedIds
  · exact Or.inl hid
  · -- the first nodes that are not queried are the first of those that are not
    refine Or.inr (List.mem_map_of_mem ?_)
    have hfirst := (List.take_prefix alpha
      (Selection.sortByKey (distanceTo target) l.known)).filter fun n => n.id ∉ l.queriedIds
    have hlength := (List.length_filter_le (fun n : DhtNode => n.id ∉ l.queriedIds) _).trans
      (List.length_take_le alpha (Selection.sortByKey (distanceTo target) l.known))
    have htake := List.prefix_take_iff.mpr ⟨hfirst, hlength⟩
    exact htake.subset (List.mem_filter.mpr ⟨hn, decide_eq_true hid⟩)

/-- The lookup ends, and at its end the invariant holds. -/
theorem LookupInvariant.loop (target : NodeId) (respond : ℕ → DhtNode → List DhtNode) {fuel : ℕ}
    (h : LookupInvariant initial l) (hfuel : 2 ^ 160 < l.queriedIds.length + fuel) :
    ∃ l', lookupLoop target respond fuel l = some l' ∧ LookupEnd target initial l' := by
  induction fuel generalizing l with
  | zero =>
    have hle := length_le_of_nodup h.nodup
    omega
  | succ fuel ih =>
    have hsorted : (Selection.sortByKey (distanceTo target) l.known).Perm l.known :=
      Selection.sortByKey_perm _
    rw [lookupLoop]
    dsimp only
    generalize htargets : ((Selection.sortByKey (distanceTo target) l.known).filter fun n =>
      n.id ∉ l.queriedIds).take alpha = targets
    by_cases hnone : targets = []
    · rw [if_pos hnone]
      have hend : LookupInvariant initial
          { l with known := Selection.sortByKey (distanceTo target) l.known } := by
        refine ⟨hsorted.trans h.known, h.queriedIds, fun n hn => ?_, h.nodup⟩
        exact hsorted.mem_iff.mpr (h.queried n hn)
      refine ⟨_, rfl, hend, Or.inl fun n hn => hend.mem_queriedIn hn ?_,
        hend.closest rfl ?_⟩
      · by_contra hnot
        rw [hnone, List.take_eq_nil_iff] at htargets
        have hempty := htargets.resolve_left (by decide)
        have hmem : n ∈ (Selection.sortByKey (distanceTo target) l.known).filter
            fun n => n.id ∉ l.queriedIds := List.mem_filter.mpr ⟨hn, decide_eq_true hnot⟩
        rw [hempty] at hmem
        cases hmem
      · rw [htargets, hnone, List.map_nil, List.append_nil]
    · rw [if_neg hnone]
      have hsub : targets.Sublist ((Selection.sortByKey (distanceTo target) l.known).filter
          fun n => n.id ∉ l.queriedIds) := htargets ▸ List.take_sublist _ _
      obtain ⟨hround, hlength, hold⟩ :=
        h.round (respond l.rounds.length) hsorted hsub hnone rfl
      split
      · exact ih hround (by
          dsimp only
          omega)
      · rename_i hnew
        obtain ⟨hknown, hlast⟩ := hold (Bool.not_eq_true _ ▸ hnew)
        refine ⟨_, rfl, hround, Or.inr hlast, hround.closest hknown ?_⟩
        dsimp only
        rw [htargets]

end Rounds

/-! ### The result -/

namespace RoutingTable

/-- What `find_closest` returns are nodes with distinct identifiers. -/
theorem nodup_findClosest (t : RoutingTable) (target : NodeId) (count : ℕ) :
    ((t.findClosest target count).map DhtNode.id).Nodup := by
  have hsorted : (Selection.sortByKey (distanceTo target)
      (dedupById [] (t.visit target count).2.2)).Perm _ := Selection.sortByKey_perm _
  have hnodup := (hsorted.map DhtNode.id).nodup_iff.mpr nodup_dedupById
  exact hnodup.sublist ((List.take_sublist _ _).map DhtNode.id)

/-- The lookup always ends; what it returns are the closest of the nodes it knows then. -/
theorem lookup_spec (t : RoutingTable) (target : NodeId)
    (respond : ℕ → DhtNode → List DhtNode) :
    ∃ l, t.lookup target respond = some l ∧
      LookupEnd target (t.findClosest target kBucketSize) l ∧
      t.iterativeFindNode target respond =
        some (Selection.smallest (distanceTo target) kBucketSize l.known) := by
  have hstart : ∃ l, t.lookup target respond = some l ∧
      LookupEnd target (t.findClosest target kBucketSize) l := by
    unfold lookup
    dsimp only
    by_cases hempty : t.findClosest target kBucketSize = []
    · rw [if_pos hempty, hempty]
      exact ⟨_, rfl, ⟨.refl _, rfl, fun n hn => hn, List.nodup_nil⟩, Or.inl fun n hn => hn,
        fun n hn => absurd hn List.not_mem_nil⟩
    · rw [if_neg hempty]
      refine LookupInvariant.loop target respond ⟨?_, rfl, fun n hn => ?_, List.nodup_nil⟩ ?_
      · dsimp only
        rw [learnedIn, List.flatten_nil, List.flatMap_nil, List.append_nil,
          dedupById_eq (t.nodup_findClosest target kBucketSize) fun _ _ => List.not_mem_nil]
      · cases hn
      · dsimp only
        omega
  obtain ⟨l, hl, hend⟩ := hstart
  refine ⟨l, hl, hend, ?_⟩
  rw [iterativeFindNode, hl]
  rfl

end RoutingTable

namespace KademliaDht

/-- A node after some operations on its table. -/
def after (localId : NodeId) (maxNodes : ℕ) (ops : List TableOp) : KademliaDht :=
  ops.foldl apply (new localId maxNodes)

theorem after_spec (localId : NodeId) (maxNodes : ℕ) (ops : List TableOp) :
    (after localId maxNodes ops).Sound ∧ (after localId maxNodes ops).localId = localId := by
  unfold after
  induction ops using List.reverseRecOn with
  | nil => exact ⟨sound_new localId maxNodes, rfl⟩
  | append_singleton ops op ih =>
    rw [List.foldl_append, List.foldl_cons, List.foldl_nil]
    refine ⟨ih.1.apply op, ?_⟩
    obtain ⟨t, heq⟩ := (ops.foldl apply (new localId maxNodes)).apply_eq op
    rw [heq]
    exact ih.2

/-- The table of a node does not hold the node itself. -/
theorem Sound.ne_localId {d : KademliaDht} (h : d.Sound) {n : DhtNode}
    (hn : n ∈ d.routingTable.allNodes) : n.id ≠ d.localId := by
  obtain ⟨i, hn⟩ := RoutingTable.mem_allNodes_iff.mp hn
  obtain ⟨b, hb, hn⟩ := RoutingTable.mem_nodesAt_iff.mp hn
  rw [← h.localId_eq]
  exact ((h.table i b hb).placed n (List.mem_append_left _ hn)).1

end KademliaDht

/-- Whatever the peers answer, the result is the closest of all nodes learned. The closest of
these are queried, and all of them unless the last round brought no new node; the node itself
is not asked or returned unless a peer names it. -/
theorem lookup_returns_closest (localId : NodeId) (maxNodes : ℕ) (ops : List TableOp)
    (target : NodeId) (respond : ℕ → DhtNode → List DhtNode) :
    ∃ l result,
      (KademliaDht.after localId maxNodes ops).routingTable.lookup target respond = some l ∧
      (KademliaDht.after localId maxNodes ops).routingTable.iterativeFindNode target respond =
        some result ∧
      result = Selection.smallest (distanceTo target) kBucketSize (dedupById []
        ((KademliaDht.after localId maxNodes ops).routingTable.findClosest target kBucketSize ++
          learnedIn l.rounds)) ∧
      (∀ n ∈ result.take alpha, n ∈ queriedIn l.rounds) ∧
      ((∀ n ∈ result, n ∈ queriedIn l.rounds) ∨ LastRoundOld
        ((KademliaDht.after localId maxNodes ops).routingTable.findClosest target kBucketSize)
          l.rounds) ∧
      ((∀ n ∈ learnedIn l.rounds, n.id ≠ localId) →
        ∀ n, n ∈ queriedIn l.rounds ∨ n ∈ result → n.id ≠ localId) := by
  obtain ⟨hsound, hlocal⟩ := KademliaDht.after_spec localId maxNodes ops
  generalize KademliaDht.after localId maxNodes ops = d at hsound hlocal ⊢
  subst hlocal
  obtain ⟨l, hl, hend, hresult⟩ := d.routingTable.lookup_spec target respond
  have hmem : ∀ n ∈ Selection.smallest (distanceTo target) kBucketSize l.known, n ∈ l.known :=
    fun n hn => (Selection.sortByKey_perm _).mem_iff.mp (List.mem_of_mem_take hn)
  refine ⟨l, _, hl, hresult, ?_, ?_, ?_, fun hlearned n hn => ?_⟩
  · exact Selection.smallest_perm (RoutingTable.nodup_distances target hend.nodup_known) hend.known
  · intro n hn
    refine hend.closest n ?_
    rw [Selection.smallest, List.take_take] at hn
    exact hn
  · exact hend.complete.imp_left fun hall n hn => hall n (hmem n hn)
  · have hknown : n ∈ l.known := hn.elim (hend.queried n) (hmem n)
    have hid := hend.mem_ids_iff.mp (List.mem_map_of_mem hknown)
    obtain ⟨m, hm, hid⟩ := List.mem_map.mp hid
    rw [← hid]
    rcases List.mem_append.mp hm with hm | hm
    · exact hsound.ne_localId (RoutingTable.mem_allNodes_of_findClosest hm)
    · exact hlearned m hm

/-- Of four silent peers one is not queried. A peer that names the node that asks makes it ask
itself. -/
theorem lookup_unqueried_and_local :
    (∃ localId maxNodes ops target respond l result,
      (KademliaDht.after localId maxNodes ops).routingTable.lookup target respond = some l ∧
      (KademliaDht.after localId maxNodes ops).routingTable.iterativeFindNode target respond =
        some result ∧
      ∃ n ∈ result, n ∉ queriedIn l.rounds) ∧
    ∃ localId maxNodes ops target respond l result,
      (KademliaDht.after localId maxNodes ops).routingTable.lookup target respond = some l ∧
      (KademliaDht.after localId maxNodes ops).routingTable.iterativeFindNode target respond =
        some result ∧
      ∃ n ∈ result, n ∈ queriedIn l.rounds ∧ n.id = localId := by
  constructor
  · have hrun : (((KademliaDht.after (.ofByte 0 0) 100 ((List.range 4).map fun k =>
        .addNode 0 (KademliaDht.crowdNode k))).routingTable.lookup (.ofByte 0 0x80)
          fun _ _ => []).any fun l =>
            (Selection.smallest (distanceTo (.ofByte 0 0x80)) kBucketSize l.known).any
              fun n => n ∉ queriedIn l.rounds) = true := by
      decide +kernel
    obtain ⟨l, hl, hany⟩ := (Option.any_eq_true _ _).mp hrun
    obtain ⟨n, hn, hnot⟩ := List.any_eq_true.mp hany
    refine ⟨_, _, _, _, _, l, _, hl, ?_, n, hn, of_decide_eq_true hnot⟩
    rw [RoutingTable.iterativeFindNode, hl]
    rfl
  · have hrun : (((KademliaDht.after (.ofByte 0 0) 100
        [.addNode 0 (KademliaDht.crowdNode 0)]).routingTable.lookup (.ofByte 0 0x80) fun _ _ =>
          [⟨.ofByte 0 0, "192.0.2.1:1", 0⟩]).any fun l =>
            (Selection.smallest (distanceTo (.ofByte 0 0x80)) kBucketSize l.known).any
              fun n => n ∈ queriedIn l.rounds ∧ n.id = .ofByte 0 0) = true := by
      decide +kernel
    obtain ⟨l, hl, hany⟩ := (Option.any_eq_true _ _).mp hrun
    obtain ⟨n, hn, hboth⟩ := List.any_eq_true.mp hany
    refine ⟨_, _, _, _, _, l, _, hl, ?_, n, hn, of_decide_eq_true hboth⟩
    rw [RoutingTable.iterativeFindNode, hl]
    rfl

end Tachyon
