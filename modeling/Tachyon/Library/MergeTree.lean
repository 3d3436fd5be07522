import Mathlib.Order.Bounds.Basic
import Tachyon.Library.MergeStack

/-!
# The tree that a stack of perfect trees folds to

In a left-leaning tree the left subtree of a node has the largest power of two of leaves that
leaves some for the right one. Folding a stack of ever smaller perfect trees from its top gives this
tree over all their leaves.
-/

namespace MergeStack

variable {α : Type*}

/-- The largest power of two below the number of leaves. -/
def leftSize (n : ℕ) : ℕ := 2 ^ Nat.log2 (n - 1)

theorem leftSize_lt {n : ℕ} (hn : 2 ≤ n) : leftSize n < n := by
  have hle := Nat.log2_self_le (show n - 1 ≠ 0 by omega)
  unfold leftSize
  omega

theorem leftSize_pos (n : ℕ) : 0 < leftSize n := Nat.two_pow_pos _

/-- The left subtree is as large as it may be. -/
theorem leftSize_isGreatest {n : ℕ} (hn : 2 ≤ n) :
    IsGreatest {size | (∃ k, size = 2 ^ k) ∧ size < n} (leftSize n) := by
  refine ⟨⟨⟨_, rfl⟩, leftSize_lt hn⟩, ?_⟩
  rintro _ ⟨⟨k, rfl⟩, hlt⟩
  have hlog : k ≤ Nat.log2 (n - 1) := (Nat.le_log2 (by omega)).mpr (by omega)
  exact Nat.pow_le_pow_right (by decide) hlog

/-- A left subtree of the size of a perfect tree. -/
theorem leftSize_add {height m : ℕ} (hpos : 0 < m) (hle : m ≤ 2 ^ height) :
    leftSize (2 ^ height + m) = 2 ^ height := by
  have hsize := Nat.two_pow_pos height
  refine (leftSize_isGreatest (by omega)).unique ⟨⟨⟨height, rfl⟩, by omega⟩, ?_⟩
  rintro _ ⟨⟨k, rfl⟩, hlt⟩
  have hdouble : 2 ^ k < 2 ^ (height + 1) := by
    rw [pow_succ]
    omega
  have hk := (Nat.pow_lt_pow_iff_right (by decide)).mp hdouble
  exact Nat.pow_le_pow_right (by decide) (Nat.le_of_lt_succ hk)

/-- The root of the left-leaning tree. Nothing without leaves. -/
def treeRoot (merge : α → α → α) (leaves : List α) : Option α :=
  if _ : leaves.length < 2 then leaves.head?
  else do
    let left ← treeRoot merge (leaves.take (leftSize leaves.length))
    let right ← treeRoot merge (leaves.drop (leftSize leaves.length))
    some (merge left right)
termination_by leaves.length
decreasing_by
  · have hlt := leftSize_lt (show 2 ≤ leaves.length by omega)
    rw [List.length_take]
    omega
  · have hpos := leftSize_pos leaves.length
    rw [List.length_drop]
    omega

/-- The tree over two leaves or more, with a merge of its own on top. -/
def treeOutput (merge top : α → α → α) (leaves : List α) : Option α := do
  let left ← treeRoot merge (leaves.take (leftSize leaves.length))
  let right ← treeRoot merge (leaves.drop (leftSize leaves.length))
  some (top left right)

/-- The stack folded from its top, with the top of the stack and the one below it. -/
def foldDown (merge top : α → α → α) (right left : α) : List α → α
  | [] => top left right
  | next :: rest => foldDown merge top (merge left right) next rest

variable {merge top : α → α → α} {leaves more stack : List α} {root left right : α} {height : ℕ}

theorem treeRoot_singleton (leaf : α) : treeRoot merge [leaf] = some leaf := by
  rw [treeRoot]
  rfl

/-- The output of a tree whose two subtrees are known. -/
theorem treeOutput_append (hlength : leaves.length = 2 ^ height) (hpos : 0 < more.length)
    (hle : more.length ≤ 2 ^ height) (hleft : treeRoot merge leaves = some left)
    (hright : treeRoot merge more = some right) :
    treeOutput merge top (leaves ++ more) = some (top left right) := by
  have hsize : leftSize (leaves ++ more).length = leaves.length := by
    rw [List.length_append, hlength, leftSize_add hpos hle]
  unfold treeOutput
  rw [hsize, List.take_left, List.drop_left, hleft, hright]
  rfl

/-- Below the top a tree of two leaves or more is merged like any other. -/
theorem treeRoot_eq_treeOutput (h : 2 ≤ leaves.length) :
    treeRoot merge leaves = treeOutput merge merge leaves := by
  rw [treeRoot, dif_neg (by omega)]
  rfl

theorem treeRoot_append (hlength : leaves.length = 2 ^ height) (hpos : 0 < more.length)
    (hle : more.length ≤ 2 ^ height) (hleft : treeRoot merge leaves = some left)
    (hright : treeRoot merge more = some right) :
    treeRoot merge (leaves ++ more) = some (merge left right) := by
  have hsize := Nat.two_pow_pos height
  rw [treeRoot_eq_treeOutput (by rw [List.length_append]; omega)]
  exact treeOutput_append hlength hpos hle hleft hright

/-- A perfect tree is left-leaning. -/
theorem Perfect.treeRoot_eq (h : Perfect merge height leaves root) :
    treeRoot merge leaves = some root := by
  induction h with
  | leaf leaf => exact treeRoot_singleton leaf
  | @node height leaves more left right hleft hright ihleft ihright =>
    have hpos := Nat.two_pow_pos height
    have hmore := hright.length_eq
    exact treeRoot_append hleft.length_eq (by omega) (by omega) ihleft ihright

/-- A perfect tree of two leaves or more has perfect subtrees. -/
theorem Perfect.treeOutput_eq {height : ℕ} (hleft : Perfect merge height leaves left)
    (hright : Perfect merge height more right) :
    treeOutput merge top (leaves ++ more) = some (top left right) := by
  have hpos := Nat.two_pow_pos height
  have hmore := hright.length_eq
  exact treeOutput_append hleft.length_eq (by omega) (by omega) hleft.treeRoot_eq
    hright.treeRoot_eq

/-- Under a stack whose trees get smaller to the top lies a left-leaning tree. The leaves on the
right are fewer than those of the smallest tree, or as many. -/
theorem Peaks.treeOutput_eq {heights : List ℕ}
    (h : Peaks merge (height :: heights) leaves (left :: stack))
    (hheights : (height :: heights).Pairwise (· < ·)) (hpos : 0 < more.length)
    (hle : more.length ≤ 2 ^ height) (hright : treeRoot merge more = some right) :
    treeOutput merge top (leaves ++ more) = some (foldDown merge top right left stack) := by
  induction stack generalizing height heights leaves left more right with
  | nil =>
    cases h with
    | cons hrest hroot =>
      cases hrest
      exact treeOutput_append hroot.length_eq hpos hle hroot.treeRoot_eq hright
  | cons next rest ih =>
    cases h with
    | @cons _ leaves _ _ middle _ hrest hroot =>
      obtain ⟨hsmaller, hheights'⟩ := List.pairwise_cons.mp hheights
      cases hrest with
      | @cons heights leaves' _ height' middle' _ hrest' hroot' =>
        have hlt : height + 1 ≤ height' := hsmaller height' List.mem_cons_self
        have hpow := Nat.pow_le_pow_right (show 0 < 2 by decide) hlt
        rw [pow_succ] at hpow
        have hmiddle := hroot.length_eq
        have hmerged := treeRoot_append hmiddle hpos hle hroot.treeRoot_eq hright
        rw [List.append_assoc]
        refine ih (.cons hrest' hroot') hheights' ?_ ?_ hmerged
        · rw [List.length_append]
          omega
        · rw [List.length_append]
          omega

/-- A stack with two trees or more folds to the left-leaning tree. -/
theorem Peaks.foldDown_eq {heights : List ℕ}
    (h : Peaks merge heights leaves (right :: left :: stack))
    (hheights : heights.Pairwise (· < ·)) :
    treeOutput merge top leaves = some (foldDown merge top right left stack) := by
  cases h with
  | @cons heights leaves _ height more _ hrest hroot =>
    obtain ⟨hsmaller, hheights'⟩ := List.pairwise_cons.mp hheights
    cases hrest with
    | @cons heights leaves' _ height' more' _ hrest' hroot' =>
      have hlt := hsmaller height' List.mem_cons_self
      have hpow := Nat.pow_le_pow_right (show 0 < 2 by decide) (Nat.le_of_lt hlt)
      have hpos := Nat.two_pow_pos height
      have hmore := hroot.length_eq
      exact Peaks.treeOutput_eq (.cons hrest' hroot') hheights' (by omega) (by omega)
        hroot.treeRoot_eq

/-- One tree on the stack has a power of two of leaves. -/
theorem Peaks.length_single {heights : List ℕ} (h : Peaks merge heights leaves [root]) :
    ∃ k, leaves.length = 2 ^ k := by
  cases h with
  | @cons _ _ _ height _ _ hrest hroot =>
    cases hrest
    exact ⟨height, hroot.length_eq⟩

end MergeStack
