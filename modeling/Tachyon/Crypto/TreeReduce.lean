import Tachyon.Crypto.GpuDigests
import Tachyon.Library.MergeTree

/-!
# The tree reduction against the tree

The stack of subtrees folds to the tree of BLAKE3 wherever it holds two of them or more. A power of
two of chunks leaves one subtree, merged like an inner node, and its chaining value is compressed
once more instead of being merged as the root.
-/

namespace Tachyon.Gpu

open MergeStack

/-- The root output of the BLAKE3 tree over two chunks or more. -/
def blake3Tree (blake3 : Blake3) (chunkCvs : List ChainingValue) : Option ChainingValue :=
  treeOutput blake3.mergeSubtreesNonRoot blake3.mergeSubtreesRoot chunkCvs

section

variable {blake3 : Blake3} {chunkCvs more rest : List ChainingValue}
  {left right : ChainingValue} {k n : ℕ}

theorem mergeDown_eq : mergeDown blake3 right left rest =
    foldDown blake3.mergeSubtreesNonRoot blake3.mergeSubtreesRoot right left rest := by
  induction rest generalizing left right with
  | nil => rfl
  | cons next rest ih => exact ih

/-- Unless the chunks are a power of two, the reduction is that of the tree. -/
theorem blake3TreeReduce_eq_blake3Tree (hne : chunkCvs ≠ []) (hpow : ∀ k, chunkCvs.length ≠ 2 ^ k) :
    blake3TreeReduce blake3 chunkCvs = blake3Tree blake3 chunkCvs := by
  obtain ⟨stack, hstack, hpeaks⟩ := @pushAll_zero_peaks _ blake3.mergeSubtreesNonRoot chunkCvs
  unfold blake3TreeReduce
  rw [hstack]
  cases stack with
  | nil => exact absurd hpeaks.eq_nil hne
  | cons right rest =>
    cases rest with
    | nil =>
      obtain ⟨k, hk⟩ := hpeaks.length_single
      exact absurd hk (hpow k)
    | cons left rest =>
      have hheights : chunkCvs.length.bitIndices.Pairwise (· < ·) :=
        Nat.bitIndices_sorted.pairwise
      rw [blake3Tree, hpeaks.foldDown_eq hheights]
      exact congrArg some mergeDown_eq

/-- With a power of two of chunks, the tree merges the two halves as the root. -/
theorem blake3Tree_two_pow (hleft : Perfect blake3.mergeSubtreesNonRoot k chunkCvs left)
    (hright : Perfect blake3.mergeSubtreesNonRoot k more right) :
    blake3Tree blake3 (chunkCvs ++ more) = some (blake3.mergeSubtreesRoot left right) :=
  hleft.treeOutput_eq hright

/-- For a power of two of chunks the reduction is that of the tree exactly where the extra
compression of the inner node comes to the same as merging it as the root. -/
theorem blake3TreeReduce_two_pow_iff
    (hleft : Perfect blake3.mergeSubtreesNonRoot k chunkCvs left)
    (hright : Perfect blake3.mergeSubtreesNonRoot k more right) :
    blake3TreeReduce blake3 (chunkCvs ++ more) = blake3Tree blake3 (chunkCvs ++ more) ↔
      parentCv (flagParent ||| flagRoot) (blake3.mergeSubtreesNonRoot left right) noWords =
        blake3.mergeSubtreesRoot left right := by
  rw [blake3TreeReduce_two_pow (.node hleft hright), blake3Tree_two_pow hleft hright,
    Option.some.injEq]
  rfl

end

/-! ### Equal chunks -/

/-- Whether over equal subtrees of the next heights the extra compression differs from the root. -/
def rootsDiffer : ℕ → ChainingValue → Bool
  | 0, _ => true
  | n + 1, equal =>
    withParent (flagParent ||| flagRoot) equal equal fun root =>
    withParent flagParent equal equal fun parent =>
    withParent (flagParent ||| flagRoot) parent noWords fun digest =>
    decide (digest ≠ root) && rootsDiffer n parent

theorem rootsDiffer_spec {n k : ℕ} {equal first : ChainingValue} (h : rootsDiffer n equal = true)
    (hk : k < n) {cv : ChainingValue}
    (hcv : ((grow (parentCv flagParent))^[k] (equal, first)).1 = cv) :
    parentCv (flagParent ||| flagRoot) (parentCv flagParent cv cv) noWords ≠
      parentCv (flagParent ||| flagRoot) cv cv := by
  induction n generalizing k equal first with
  | zero => omega
  | succ n ih =>
    rw [rootsDiffer, withParent_eq, withParent_eq, withParent_eq, Bool.and_eq_true] at h
    obtain ⟨hdiffer, hrest⟩ := h
    cases k with
    | zero =>
      obtain rfl : equal = cv := hcv
      exact of_decide_eq_true hdiffer
    | succ k =>
      rw [Function.iterate_succ_apply] at hcv
      exact ih hrest (by omega) hcv

/-- As many heights as a slice can have chunks. -/
theorem rootsDiffer_noWords : rootsDiffer 57 noWords = true := by
  decide +kernel

section

variable {blake3 : Blake3}

/-- Equal chunks, a power of two of them, get the digest of another tree. -/
theorem blake3TreeReduce_equal_ne (hdoc : blake3.Documented) {k : ℕ} (hk : k < 57) :
    blake3TreeReduce blake3 (List.replicate (2 ^ (k + 1)) noWords) ≠
      blake3Tree blake3 (List.replicate (2 ^ (k + 1)) noWords) := by
  obtain ⟨hequal, -⟩ := @perfect_grow _ blake3.mergeSubtreesNonRoot noWords noWords k
  have hdouble : List.replicate (2 ^ (k + 1)) noWords =
      List.replicate (2 ^ k) noWords ++ List.replicate (2 ^ k) noWords := by
    rw [pow_succ, mul_two, List.replicate_add]
  rw [hdouble, ne_eq, blake3TreeReduce_two_pow_iff hequal hequal, hdoc.nonRoot, hdoc.root]
  exact rootsDiffer_spec rootsDiffer_noWords hk rfl

/-- All lists of a length are reduced as the tree says unless the length is a power of two. A slice
has less than `2 ^ 63` bytes. -/
theorem blake3TreeReduce_iff (hdoc : blake3.Documented) (n : ℕ) (hn : 2 ≤ n)
    (hslice : n * 32 < 2 ^ 63) :
    (∀ chunkCvs : List ChainingValue, chunkCvs.length = n →
        blake3TreeReduce blake3 chunkCvs = blake3Tree blake3 chunkCvs) ↔
      ∀ k, n ≠ 2 ^ k := by
  constructor
  · rintro hall k rfl
    cases k with
    | zero => omega
    | succ k =>
      have hbits : 2 ^ (k + 6) < 2 ^ 63 := by
        have hshift : 2 ^ (k + 6) = 2 ^ (k + 1) * 32 := pow_add 2 (k + 1) 5
        omega
      have hk := (Nat.pow_lt_pow_iff_right (by decide)).mp hbits
      exact blake3TreeReduce_equal_ne hdoc (by omega) (hall _ List.length_replicate)
  · intro hpow chunkCvs hlength
    refine blake3TreeReduce_eq_blake3Tree ?_ ?_
    · rintro rfl
      rw [List.length_nil] at hlength
      omega
    · rw [hlength]
      exact hpow

end

theorem quietHashes_documented : quietHashes.Documented := ⟨rfl, rfl⟩

theorem blake3TreeReduce_iff_three :
    (∀ chunkCvs : List ChainingValue, chunkCvs.length = 3 →
        blake3TreeReduce quietHashes chunkCvs = blake3Tree quietHashes chunkCvs) ↔
      ∀ k, 3 ≠ 2 ^ k :=
  blake3TreeReduce_iff quietHashes_documented 3 (by decide) (by decide)

/-- Two chunks whose chaining values are zero are reduced to something else than their root. -/
theorem two_chunks_disagree : ∃ chunkCvs : List ChainingValue, chunkCvs = [noWords, noWords] ∧
    ∀ blake3 : Blake3, blake3.Documented →
      blake3TreeReduce blake3 chunkCvs ≠ blake3Tree blake3 chunkCvs := by
  refine ⟨[noWords, noWords], rfl, ?_⟩
  intro blake3 hdoc
  exact blake3TreeReduce_equal_ne hdoc (show 0 < 57 by decide)

end Tachyon.Gpu
