import Mathlib.Data.Nat.BitIndices

/-!
# Merging on a stack

A binary tree over a sequence of leaves, built as the leaves arrive. The stack holds the roots of
perfect trees, one for every bit of the number of leaves so far, and a new leaf is merged with them
as a carry runs through a binary counter.
-/

namespace MergeStack

variable {α : Type*}

/-- While the count is even, the new value is merged with the top of the stack and the count is
halved. Nothing where the stack runs out. -/
def carry (merge : α → α → α) (count : ℕ) (new : α) : List α → Option (List α)
  | [] => if count % 2 = 0 then none else some [new]
  | top :: rest =>
    if count % 2 = 0 then carry merge (count / 2) (merge top new) rest
    else some (new :: top :: rest)

/-- The leaves arrive one after another, the first of them after `count` others. -/
def pushAll (merge : α → α → α) : ℕ → List α → List α → Option (List α)
  | _, [], stack => some stack
  | count, leaf :: leaves, stack =>
    (carry merge (count + 1) leaf stack).bind (pushAll merge (count + 1) leaves)

/-- The root of a perfect tree over the leaves. -/
inductive Perfect (merge : α → α → α) : ℕ → List α → α → Prop
  | leaf (leaf : α) : Perfect merge 0 [leaf] leaf
  | node {height leaves more left right} (hleft : Perfect merge height leaves left)
      (hright : Perfect merge height more right) :
      Perfect merge (height + 1) (leaves ++ more) (merge left right)

/-- A stack of roots of perfect trees of these heights, the last of them on top. -/
inductive Peaks (merge : α → α → α) : List ℕ → List α → List α → Prop
  | nil : Peaks merge [] [] []
  | cons {heights leaves stack height more root} (hrest : Peaks merge heights leaves stack)
      (hroot : Perfect merge height more root) :
      Peaks merge (height :: heights) (leaves ++ more) (root :: stack)

variable {merge : α → α → α} {leaves more stack : List α} {root root' new : α}
  {count height k : ℕ}

theorem Perfect.length_eq (h : Perfect merge height leaves root) : leaves.length = 2 ^ height := by
  induction h with
  | leaf => rfl
  | node _ _ ihleft ihright =>
    rw [List.length_append, ihleft, ihright, pow_succ]
    omega

/-- The leaves determine the root. -/
theorem Perfect.unique (h : Perfect merge height leaves root)
    (h' : Perfect merge height leaves root') : root = root' := by
  induction h generalizing root' with
  | leaf leaf =>
    cases h'
    rfl
  | @node height leaves more left right hleft hright ihleft ihright =>
    generalize hall : leaves ++ more = all at h'
    cases h' with
    | @node _ leaves' more' left' right' hleft' hright' =>
      have hlength : leaves.length = leaves'.length := by
        rw [hleft.length_eq, hleft'.length_eq]
      obtain ⟨rfl, rfl⟩ := List.append_inj hall hlength
      rw [ihleft hleft', ihright hright']

/-- A tree over equal leaves and a tree in which the first leaf is another one, each under the root
of a tree of twice the size. -/
def grow (merge : α → α → α) (trees : α × α) : α × α :=
  (merge trees.1 trees.1, merge trees.2 trees.1)

theorem perfect_grow (leaf first : α) (height : ℕ) :
    Perfect merge height (List.replicate (2 ^ height) leaf)
        ((grow merge)^[height] (leaf, first)).1 ∧
      Perfect merge height (first :: List.replicate (2 ^ height - 1) leaf)
        ((grow merge)^[height] (leaf, first)).2 := by
  induction height with
  | zero => exact ⟨.leaf leaf, .leaf first⟩
  | succ height ih =>
    obtain ⟨hequal, hfirst⟩ := ih
    rw [Function.iterate_succ_apply']
    refine ⟨?_, ?_⟩
    · rw [pow_succ, mul_two, List.replicate_add]
      exact .node hequal hequal
    · have hpos : 0 < 2 ^ height := Nat.two_pow_pos height
      have hsize : 2 ^ (height + 1) - 1 = 2 ^ height - 1 + 2 ^ height := by omega
      rw [hsize, List.replicate_add, ← List.cons_append]
      exact .node hfirst hequal

theorem bitIndices_succ_of_odd (k : ℕ) :
    (2 * k + 1 + 1).bitIndices = (k + 1).bitIndices.map (· + 1) := by
  have hdouble : 2 * k + 1 + 1 = 2 * (k + 1) := by omega
  rw [hdouble, Nat.bitIndices_two_mul]

theorem map_succ_map_add (bits : List ℕ) (height : ℕ) :
    (bits.map (· + 1)).map (· + height) = bits.map (· + (height + 1)) := by
  rw [List.map_map]
  refine List.map_congr_left fun i _ => ?_
  simp only [Function.comp_apply]
  omega

theorem Peaks.eq_nil {heights : List ℕ} (h : Peaks merge heights leaves []) : leaves = [] := by
  cases h
  rfl

/-- After an even number of trees the new one stays as it is. -/
theorem Peaks.cons_even (hstack : Peaks merge ((2 * k).bitIndices.map (· + height)) leaves stack)
    (hnew : Perfect merge height more new) :
    Peaks merge ((2 * k + 1).bitIndices.map (· + height)) (leaves ++ more) (new :: stack) := by
  rw [Nat.bitIndices_two_mul_add_one, List.map_cons, Nat.zero_add, ← Nat.bitIndices_two_mul]
  exact .cons hstack hnew

/-- The carry stops before the stack runs out, and keeps one perfect tree for every bit of the
count. -/
theorem carry_peaks (hstack : Peaks merge (count.bitIndices.map (· + height)) leaves stack)
    (hnew : Perfect merge height more new) :
    ∃ stack', carry merge (count + 1) new stack = some stack' ∧
      Peaks merge ((count + 1).bitIndices.map (· + height)) (leaves ++ more) stack' := by
  have hodd : ∀ k, ¬(2 * k + 1) % 2 = 0 := by omega
  induction stack generalizing count height leaves more new with
  | nil =>
    obtain ⟨k, rfl | rfl⟩ : ∃ k, count = 2 * k ∨ count = 2 * k + 1 := ⟨count / 2, by omega⟩
    · exact ⟨[new], by rw [carry, if_neg (hodd k)], hstack.cons_even hnew⟩
    · rw [Nat.bitIndices_two_mul_add_one] at hstack
      cases hstack
  | cons top rest ih =>
    obtain ⟨k, rfl | rfl⟩ : ∃ k, count = 2 * k ∨ count = 2 * k + 1 := ⟨count / 2, by omega⟩
    · exact ⟨new :: top :: rest, by rw [carry, if_neg (hodd k)], hstack.cons_even hnew⟩
    · rw [Nat.bitIndices_two_mul_add_one, List.map_cons, map_succ_map_add, Nat.zero_add] at hstack
      cases hstack with
      | @cons _ leaves _ _ middle _ hrest htop =>
        obtain ⟨stack', hcarry, hpeaks⟩ := ih hrest (.node htop hnew)
        refine ⟨stack', ?_, ?_⟩
        · have hhalf : (2 * k + 1 + 1) / 2 = k + 1 := by omega
          rw [carry, if_pos (by omega), hhalf, hcarry]
        · rw [bitIndices_succ_of_odd, map_succ_map_add, List.append_assoc]
          exact hpeaks

/-- The stack never runs out, and after all leaves it holds one perfect tree for every bit of their
number. -/
theorem pushAll_peaks (hstack : Peaks merge count.bitIndices leaves stack) :
    ∃ stack', pushAll merge count more stack = some stack' ∧
      Peaks merge (count + more.length).bitIndices (leaves ++ more) stack' := by
  induction more generalizing count leaves stack with
  | nil =>
    rw [List.append_nil]
    exact ⟨stack, rfl, hstack⟩
  | cons leaf more ih =>
    have hzero : count.bitIndices.map (· + 0) = count.bitIndices := List.map_id _
    rw [← hzero] at hstack
    obtain ⟨stack₁, hcarry, hpeaks⟩ := carry_peaks hstack (.leaf leaf)
    have hzero' : (count + 1).bitIndices.map (· + 0) = (count + 1).bitIndices := List.map_id _
    rw [hzero'] at hpeaks
    obtain ⟨stack', hrest, hpeaks'⟩ := ih hpeaks
    refine ⟨stack', ?_, ?_⟩
    · rw [pushAll, hcarry, Option.bind_some, hrest]
    · rw [List.append_assoc, List.singleton_append] at hpeaks'
      rw [List.length_cons]
      have hcount : count + (more.length + 1) = count + 1 + more.length := by omega
      rw [hcount]
      exact hpeaks'

theorem pushAll_zero_peaks (leaves : List α) : ∃ stack,
    pushAll merge 0 leaves [] = some stack ∧
      Peaks merge leaves.length.bitIndices leaves stack := by
  obtain ⟨stack, hstack, hpeaks⟩ := @pushAll_peaks α merge [] leaves [] 0 .nil
  rw [Nat.zero_add, List.nil_append] at hpeaks
  exact ⟨stack, hstack, hpeaks⟩

/-- A power of two leaves one tree. -/
theorem pushAll_two_pow (h : Perfect merge k leaves root) :
    pushAll merge 0 leaves [] = some [root] := by
  obtain ⟨stack, hstack, hpeaks⟩ := @pushAll_zero_peaks α merge leaves
  rw [h.length_eq, Nat.bitIndices_two_pow] at hpeaks
  cases hpeaks with
  | cons hrest hroot =>
    cases hrest
    rw [hstack, h.unique hroot]

end MergeStack
