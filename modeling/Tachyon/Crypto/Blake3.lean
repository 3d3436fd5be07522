import Tachyon.Core.Types
import Tachyon.Library.MergeStack

/-!
# Reducing the chunks of a file

What the host computes of a hash: the compression function and the tree over the chaining values of
the chunks. The merges inside the tree are those of the `blake3` crate.
-/

namespace Tachyon.Gpu

open MergeStack

/-- `[u32; 8]`; as bytes, the words are little-endian. -/
abbrev ChainingValue := Vector UInt32 8

/-- `[u32; 16]`: a message block, or the state of the compression. -/
abbrev Words := Vector UInt32 16

/-- `FLAG_CHUNK_START` -/
def flagChunkStart : UInt32 := 1

/-- `FLAG_CHUNK_END` -/
def flagChunkEnd : UInt32 := 2

/-- `FLAG_PARENT` -/
def flagParent : UInt32 := 4

/-- `FLAG_ROOT` -/
def flagRoot : UInt32 := 8

/-- `IV` -/
def iv : ChainingValue :=
  #v[0x6A09E667, 0xBB67AE85, 0x3C6EF372, 0xA54FF53A, 0x510E527F, 0x9B05688C, 0x1F83D9AB, 0x5BE0CD19]

/-- `MSG_PERMUTATION` -/
def msgPermutation : Vector (Fin 16) 16 :=
  #v[2, 6, 3, 10, 7, 0, 4, 13, 1, 11, 12, 5, 9, 14, 15, 8]

/-- `u32::rotate_right`, by 1 to 31 bits. -/
def rotateRight (word count : UInt32) : UInt32 := word >>> count ||| word <<< (32 - count)

/-- `g`, over the function that rotates; the shader has the same one. -/
def g (rotr : UInt32 → UInt32 → UInt32) (state : Words) (a b c d : Fin 16) (mx my : UInt32) :
    Words :=
  let state := state.set a (state[a] + state[b] + mx)
  let state := state.set d (rotr (state[d] ^^^ state[a]) 16)
  let state := state.set c (state[c] + state[d])
  let state := state.set b (rotr (state[b] ^^^ state[c]) 12)
  let state := state.set a (state[a] + state[b] + my)
  let state := state.set d (rotr (state[d] ^^^ state[a]) 8)
  let state := state.set c (state[c] + state[d])
  state.set b (rotr (state[b] ^^^ state[c]) 7)

/-- The columns and the diagonals of one round. -/
def mixRound (rotr : UInt32 → UInt32 → UInt32) (state m : Words) : Words :=
  let state := g rotr state 0 4 8 12 m[0] m[1]
  let state := g rotr state 1 5 9 13 m[2] m[3]
  let state := g rotr state 2 6 10 14 m[4] m[5]
  let state := g rotr state 3 7 11 15 m[6] m[7]
  let state := g rotr state 0 5 10 15 m[8] m[9]
  let state := g rotr state 1 6 11 12 m[10] m[11]
  let state := g rotr state 2 7 8 13 m[12] m[13]
  g rotr state 3 4 9 14 m[14] m[15]

/-- The rounds; after each the message words are permuted. -/
def mixRounds (rotr : UInt32 → UInt32 → UInt32) : ℕ → Words → Words → Words
  | 0, state, _ => state
  | n + 1, state, m => mixRounds rotr n (mixRound rotr state m) (msgPermutation.map m.get)

/-- The state before the rounds. -/
def initialState (chaining : ChainingValue) (counterLow counterHigh blockLen flags : UInt32) :
    Words :=
  #v[chaining[0], chaining[1], chaining[2], chaining[3],
    chaining[4], chaining[5], chaining[6], chaining[7], iv[0], iv[1], iv[2], iv[3],
    counterLow, counterHigh, blockLen, flags]

/-- The two halves of the state. -/
def xorHalves (state : Words) : ChainingValue :=
  Vector.ofFn fun i => state[i.val] ^^^ state[i.val + 8]

/-- `blake3_compress` -/
def blake3Compress (chaining : ChainingValue) (blockWords : Words) (counter : UInt64)
    (blockLen flags : UInt32) : ChainingValue :=
  let state :=
    initialState chaining counter.toUInt32 (counter >>> 32).toUInt32 blockLen flags
  xorHalves (mixRounds rotateRight 7 state blockWords)

/-- What the host calls of the `blake3` crate. -/
structure Blake3 where
  /-- `blake3::hash(data).to_hex()` -/
  hash : Bytes → String
  /-- `merge_subtrees_non_root` -/
  mergeSubtreesNonRoot : ChainingValue → ChainingValue → ChainingValue
  /-- `merge_subtrees_root` -/
  mergeSubtreesRoot : ChainingValue → ChainingValue → ChainingValue

/-- The parent of two subtrees, by the definition of BLAKE3. -/
def parentCv (flags : UInt32) (left right : ChainingValue) : ChainingValue :=
  blake3Compress iv (left ++ right) 0 64 flags

/-- The merges are those of BLAKE3. -/
structure Blake3.Documented (blake3 : Blake3) : Prop where
  nonRoot : blake3.mergeSubtreesNonRoot = parentCv flagParent
  root : blake3.mergeSubtreesRoot = parentCv (flagParent ||| flagRoot)

/-- The second loop of `blake3_tree_reduce`, with the top of the stack and the one below it. -/
def mergeDown (blake3 : Blake3) (right left : ChainingValue) :
    List ChainingValue → ChainingValue
  | [] => blake3.mergeSubtreesRoot left right
  | next :: rest => mergeDown blake3 (blake3.mergeSubtreesNonRoot left right) next rest

/-- The second half of `root_block`. -/
def noWords : ChainingValue := Vector.replicate 8 0

/-- `blake3_tree_reduce`; nothing where it panics. A power of two of chunks ends with one chaining
value, which is compressed once more. -/
def blake3TreeReduce (blake3 : Blake3) (chunkCvs : List ChainingValue) : Option ChainingValue :=
  match pushAll blake3.mergeSubtreesNonRoot 0 chunkCvs [] with
  | none | some [] => none
  | some [single] =>
    some (blake3Compress iv (single ++ noWords) 0 64 (flagParent ||| flagRoot))
  | some (right :: left :: rest) => some (mergeDown blake3 right left rest)

section

variable {blake3 : Blake3} {chunkCvs : List ChainingValue} {k : ℕ} {root : ChainingValue}

/-- It panics only without chunks. -/
theorem blake3TreeReduce_isSome (hne : chunkCvs ≠ []) :
    ∃ root, blake3TreeReduce blake3 chunkCvs = some root := by
  obtain ⟨stack, hstack, hpeaks⟩ := @pushAll_zero_peaks _ blake3.mergeSubtreesNonRoot chunkCvs
  unfold blake3TreeReduce
  rw [hstack]
  cases stack with
  | nil => exact absurd hpeaks.eq_nil hne
  | cons right rest =>
    cases rest with
    | nil => exact ⟨_, rfl⟩
    | cons => exact ⟨_, rfl⟩

theorem blake3TreeReduce_two_pow (h : Perfect blake3.mergeSubtreesNonRoot k chunkCvs root) :
    blake3TreeReduce blake3 chunkCvs = some
      (blake3Compress iv (root ++ noWords) 0 64 (flagParent ||| flagRoot)) := by
  unfold blake3TreeReduce
  rw [pushAll_two_pow h]

end

end Tachyon.Gpu
