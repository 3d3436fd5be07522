import Mathlib.Data.List.Sort

/-!
# The smallest elements of a list

Elements with distinct keys are ranked by the number of smaller keys: the first `count` in
the order of the keys are those of rank below `count`. From this follows when a part of a
list has the same first elements as the whole.
-/

namespace Selection

variable {α κ : Type} [LinearOrder κ] (key : α → κ)

/-- The elements in the order of their keys. -/
def sortByKey (l : List α) : List α := l.insertionSort fun a b => key a ≤ key b

/-- The first elements in the order of the keys. -/
def smallest (count : ℕ) (l : List α) : List α := (sortByKey key l).take count

/-- The number of elements with a smaller key. -/
def rank (l : List α) (a : α) : ℕ := l.countP fun b => key b < key a

variable {key} {l l' visited rest : List α} {a : α} {count : ℕ}

theorem sortByKey_perm (l : List α) : (sortByKey key l).Perm l := List.perm_insertionSort _ l

theorem length_smallest : (smallest key count l).length = min count l.length := by
  rw [smallest, List.length_take, (sortByKey_perm l).length_eq]

theorem rank_append : rank key (l ++ l') a = rank key l a + rank key l' a := List.countP_append

theorem rank_le_of_key_le {b : α} (h : key a ≤ key b) : rank key l a ≤ rank key l b :=
  List.countP_mono_left fun c _ hc => by
    simp only [decide_eq_true_eq] at hc ⊢
    exact hc.trans_le h

/-- No element has a smaller key than the first. -/
theorem le_of_head?_smallest (hfirst : (smallest key count l).head? = some a) {b : α}
    (hb : b ∈ l) : key a ≤ key b := by
  have htotal : Std.Total fun a b : α => key a ≤ key b := ⟨fun a b => le_total _ _⟩
  have htrans : IsTrans α fun a b => key a ≤ key b := ⟨fun a b c => le_trans⟩
  have hsorted := List.pairwise_insertionSort (fun a b : α => key a ≤ key b) l
  have hmem := (@sortByKey_perm α κ _ key l).mem_iff.mpr hb
  unfold smallest sortByKey at hfirst
  unfold sortByKey at hmem
  generalize l.insertionSort (fun a b => key a ≤ key b) = sorted at hfirst hsorted hmem
  cases sorted with
  | nil => cases hmem
  | cons c rest =>
    cases count with
    | zero => cases hfirst
    | succ count =>
      obtain rfl := Option.some.inj hfirst
      rcases List.mem_cons.mp hmem with rfl | hmem
      · exact le_refl _
      · exact (List.pairwise_cons.mp hsorted).1 b hmem

/-- Where there is an element and room for one, there is a first. -/
theorem exists_head?_smallest (hcount : 0 < count) (h : l ≠ []) :
    ∃ b, (smallest key count l).head? = some b := by
  refine Option.isSome_iff_exists.mp ?_
  rw [List.isSome_head?, Ne, ← List.length_eq_zero_iff, length_smallest]
  have hlength := List.length_pos_of_ne_nil h
  omega

/-- With distinct keys, the order is strict. -/
theorem sortByKey_strict (hkeys : (l.map key).Nodup) :
    (sortByKey key l).Pairwise fun a b => key a < key b := by
  have hle : (sortByKey key l).Pairwise fun a b => key a ≤ key b := by
    have htotal : Std.Total fun a b : α => key a ≤ key b := ⟨fun a b => le_total _ _⟩
    have htrans : IsTrans α fun a b => key a ≤ key b := ⟨fun a b c => le_trans⟩
    exact List.pairwise_insertionSort _ l
  have hne : (sortByKey key l).Pairwise fun a b => key a ≠ key b := by
    rw [← List.pairwise_map]
    exact ((sortByKey_perm l).map key).nodup_iff.mpr hkeys
  exact (hle.and hne).imp fun h => lt_of_le_of_ne h.1 h.2

theorem smallest_strict (hkeys : (l.map key).Nodup) :
    (smallest key count l).Pairwise fun a b => key a < key b :=
  (sortByKey_strict hkeys).sublist (List.take_sublist _ _)

/-- Lists in strict order with the same elements are the same. -/
theorem eq_of_mem_iff (h : l.Pairwise fun a b => key a < key b)
    (h' : l'.Pairwise fun a b => key a < key b) (hmem : ∀ a, a ∈ l ↔ a ∈ l') : l = l' := by
  have hnodup {l : List α} (h : l.Pairwise fun a b => key a < key b) : l.Nodup :=
    h.imp fun hlt heq => absurd (congrArg key heq) hlt.ne
  have hperm := (List.perm_ext_iff_of_nodup (hnodup h) (hnodup h')).mpr hmem
  exact hperm.eq_of_pairwise (fun _ _ _ _ hlt hgt => absurd hlt hgt.asymm) h h'

/-- In a strict order, the first elements are those of small rank. -/
theorem mem_take_iff (h : l.Pairwise fun a b => key a < key b) :
    a ∈ l.take count ↔ a ∈ l ∧ rank key l a < count := by
  induction l generalizing count with
  | nil => simp
  | cons x xs ih =>
    obtain ⟨hx, hxs⟩ := List.pairwise_cons.mp h
    cases count with
    | zero => simp
    | succ count =>
      rw [List.take_succ_cons, List.mem_cons, List.mem_cons, ih hxs, rank, rank, List.countP_cons]
      constructor
      · rintro (rfl | ⟨hmem, hrank⟩)
        · have hzero : xs.countP (fun b => decide (key b < key a)) = 0 := by
            rw [List.countP_eq_zero]
            intro b hb
            simpa using (hx b hb).le
          refine ⟨Or.inl rfl, ?_⟩
          simp [hzero]
        · refine ⟨Or.inr hmem, ?_⟩
          rw [if_pos (by simpa using hx a hmem)]
          omega
      · rintro ⟨rfl | hmem, hrank⟩
        · exact Or.inl rfl
        · rw [if_pos (by simpa using hx a hmem)] at hrank
          exact Or.inr ⟨hmem, by omega⟩

/-- The first elements are those of small rank. -/
theorem mem_smallest_iff (hkeys : (l.map key).Nodup) :
    a ∈ smallest key count l ↔ a ∈ l ∧ rank key l a < count := by
  rw [smallest, mem_take_iff (sortByKey_strict hkeys), (sortByKey_perm l).mem_iff, rank, rank,
    (sortByKey_perm l).countP_eq]

theorem smallest_perm (hkeys : (l.map key).Nodup) (hperm : l.Perm l') :
    smallest key count l = smallest key count l' := by
  have hkeys' := (hperm.map key).nodup_iff.mp hkeys
  refine eq_of_mem_iff (smallest_strict hkeys) (smallest_strict hkeys') fun a => ?_
  rw [mem_smallest_iff hkeys, mem_smallest_iff hkeys', hperm.mem_iff, rank, rank,
    hperm.countP_eq]

/-- In a strict order, the first answer is that of the element with the smallest key. -/
theorem findSome?_eq_some_iff {β : Type} {f : α → Option β} {b : β}
    (h : l.Pairwise fun a b => key a < key b) :
    l.findSome? f = some b ↔
      ∃ a ∈ l, f a = some b ∧ ∀ a' ∈ l, key a' < key a → f a' = none := by
  rw [List.findSome?_eq_some_iff]
  constructor
  · rintro ⟨before, a, after, rfl, ha, hbefore⟩
    refine ⟨a, List.mem_append_right _ List.mem_cons_self, ha, fun a' ha' hlt => ?_⟩
    obtain ⟨-, hafter, -⟩ := List.pairwise_append.mp h
    rcases List.mem_append.mp ha' with ha' | ha'
    · exact hbefore a' ha'
    · rcases List.mem_cons.mp ha' with rfl | ha'
      · exact absurd hlt (lt_irrefl _)
      · exact absurd hlt ((List.pairwise_cons.mp hafter).1 a' ha').asymm
  · rintro ⟨a, ha, hanswer, hcloser⟩
    obtain ⟨before, after, rfl⟩ := List.append_of_mem ha
    refine ⟨before, a, after, rfl, hanswer, fun a' ha' => ?_⟩
    obtain ⟨-, -, hlt⟩ := List.pairwise_append.mp h
    exact hcloser a' (List.mem_append_left _ ha') (hlt a' ha' a List.mem_cons_self)

/-- The first answer of the first elements; all smaller elements give none. -/
theorem findSome?_smallest {β : Type} {f : α → Option β} {b : β} (hkeys : (l.map key).Nodup) :
    (smallest key count l).findSome? f = some b ↔
      ∃ a ∈ smallest key count l, f a = some b ∧ ∀ a' ∈ l, key a' < key a → f a' = none := by
  rw [findSome?_eq_some_iff (smallest_strict hkeys)]
  refine exists_congr fun a => and_congr_right fun ha => and_congr_right fun _ =>
    forall_congr' fun a' => ?_
  have hrank := ((mem_smallest_iff hkeys).mp ha).2
  rw [mem_smallest_iff hkeys]
  constructor
  · intro h ha' hlt
    exact h ⟨ha', (rank_le_of_key_le hlt.le).trans_lt hrank⟩ hlt
  · exact fun h ha' => h ha'.1

/-- A part of a list has the same first elements as the whole exactly when it has at least
as many elements before each one that is left out. -/
theorem smallest_eq_iff (hkeys : (l.map key).Nodup) (hperm : l.Perm (visited ++ rest)) :
    smallest key count visited = smallest key count l ↔
      ∀ y ∈ rest, count ≤ rank key visited y := by
  have hkeys' := (hperm.map key).nodup_iff.mp hkeys
  rw [List.map_append] at hkeys'
  have hvisited := hkeys'.of_append_left
  have hrank (a : α) : rank key l a = rank key visited a + rank key rest a := by
    rw [rank, hperm.countP_eq]
    exact rank_append
  have hmem (a : α) : a ∈ l ↔ a ∈ visited ∨ a ∈ rest := by
    rw [hperm.mem_iff, List.mem_append]
  constructor
  · intro heq y hy
    have hnot : y ∉ smallest key count l := by
      rw [← heq, mem_smallest_iff hvisited]
      rintro ⟨hyv, -⟩
      exact List.disjoint_of_nodup_append hkeys' (List.mem_map_of_mem hyv)
        (List.mem_map_of_mem hy)
    rw [mem_smallest_iff hkeys, hmem, not_and, not_lt] at hnot
    have hcount := hnot (Or.inr hy)
    have hlength : (smallest key count visited).length = count := by
      rw [heq, length_smallest]
      exact min_eq_left (hcount.trans (List.countP_le_length ..))
    have hall : (smallest key count visited).countP (fun b => key b < key y) = count := by
      rw [List.countP_eq_length.mpr, hlength]
      intro b hb
      rw [heq, mem_smallest_iff hkeys] at hb
      rw [decide_eq_true_eq]
      by_contra hge
      exact absurd (hcount.trans (rank_le_of_key_le (not_lt.mp hge))) (not_le.mpr hb.2)
    rw [← hall]
    refine List.Subperm.countP_le _ ?_
    exact (List.take_sublist _ _).subperm.trans (sortByKey_perm visited).subperm
  · intro hrest
    refine eq_of_mem_iff (smallest_strict hvisited) (smallest_strict hkeys) fun a => ?_
    rw [mem_smallest_iff hvisited, mem_smallest_iff hkeys, hmem, hrank]
    constructor
    · rintro ⟨ha, hlt⟩
      have hzero : rank key rest a = 0 := by
        rw [rank, List.countP_eq_zero]
        intro y hy hya
        rw [decide_eq_true_eq] at hya
        exact absurd ((hrest y hy).trans (rank_le_of_key_le hya.le)) (not_le.mpr hlt)
      exact ⟨Or.inl ha, by omega⟩
    · rintro ⟨ha | ha, hlt⟩
      · exact ⟨ha, by omega⟩
      · have hle := hrest a ha
        omega

end Selection
