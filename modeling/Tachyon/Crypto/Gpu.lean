import Tachyon.Core.Error
import Tachyon.Crypto.Blake3

/-!
# The GPU verifier

`GpuVerifier::compute_blake3` lays the data out in an input buffer, has the shader write a chaining
value for every chunk into an output buffer, copies this to a staging buffer, reads that back and
reduces it. The three buffers stay for the next call.
-/

namespace Tachyon.Gpu

/-- A device that executes the shader, with what the shader leaves open: the function `rotr32`,
which it calls and does not declare, the word that a load outside of an array returns, and the
order in which the invocations run. -/
structure Device where
  rotr32 : UInt32 → UInt32 → UInt32
  stray : List UInt32 → UInt32 → UInt32
  order : ℕ → List ℕ
  order_perm : ∀ n, (order n).Perm (List.range n)

/-- `GPU_MIN_SIZE` -/
def gpuMinSize : ℕ := 64 * 1024 * 1024

/-- `CHUNK_SIZE` -/
def chunkSize : ℕ := 1024

/-- `BLOCK_SIZE` -/
def blockSize : ℕ := 64

/-! ### `BLAKE3_SHADER` -/

section Shader

variable (device : Device) (inputData : List UInt32)

/-- `input_data[i]` -/
def load (i : UInt32) : UInt32 := inputData[i.toNat]?.getD (device.stray inputData i)

/-- `wg_msg`, then `m`: the words of a block, and zeros from `total_words` on. -/
def loadBlock (totalWords blockStartWord : UInt32) : Words :=
  Vector.ofFn fun j : Fin 16 =>
    let i := blockStartWord + UInt32.ofNat j
    if i < totalWords then load device inputData i else 0

/-- One round of the loop over the blocks of a chunk. -/
def compressBlock (totalWords chunkIdx chunkDataLen numBlocks blockInChunk : UInt32)
    (cv : ChainingValue) : ChainingValue :=
  let globalBlockIdx := chunkIdx * 16 + blockInChunk
  let m := loadBlock device inputData totalWords (globalBlockIdx * 16)
  let start := if blockInChunk = 0 then flagChunkStart else 0
  let flags := if blockInChunk = numBlocks - 1 then start ||| flagChunkEnd else start
  let blockLen := if blockInChunk = numBlocks - 1 then chunkDataLen - blockInChunk * 64 else 64
  let state := initialState cv (blockInChunk * 64) 0 blockLen flags
  xorHalves (mixRounds device.rotr32 7 state m)

/-- The loop over the blocks of a chunk. -/
def chunkCv (totalWords dataLen chunkIdx : UInt32) : ChainingValue :=
  let chunkStartByte := chunkIdx * 1024
  let chunkEndByte := min (chunkStartByte + 1024) dataLen
  let chunkDataLen := chunkEndByte - chunkStartByte
  let numBlocks := (chunkDataLen + 63) / 64
  (List.range numBlocks.toNat).foldl (fun cv block =>
    compressBlock device inputData totalWords chunkIdx chunkDataLen numBlocks
      (UInt32.ofNat block) cv) iv

/-- The loop that writes to `output_hash`. -/
def storeCv (outputHash : List UInt32) (outOffset : UInt32) (cv : ChainingValue) : List UInt32 :=
  (List.finRange 8).foldl
    (fun out (i : Fin 8) => out.set (outOffset + UInt32.ofNat i).toNat cv[i]) outputHash

/-- `main`, for one invocation. The total of words is read from the front of the input. -/
def shaderMain (chunkIdx : UInt32) (outputHash : List UInt32) : List UInt32 :=
  let totalWords := load device inputData 0
  let dataLen := load device inputData totalWords
  let totalChunks := load device inputData (totalWords + 2)
  if chunkIdx ≥ totalChunks then outputHash
  else storeCv outputHash (chunkIdx * 8) (chunkCv device inputData totalWords dataLen chunkIdx)

/-- `dispatch_workgroups` -/
def dispatch (workgroups : UInt32) (outputHash : List UInt32) : List UInt32 :=
  (device.order workgroups.toNat).foldl
    (fun out chunkIdx => shaderMain device inputData (UInt32.ofNat chunkIdx) out) outputHash

end Shader

/-! ### `GpuVerifier::compute_blake3` -/

/-- `u32::from_le_bytes` -/
def fromLeBytes (a b c d : UInt8) : UInt32 :=
  UInt32.ofNat (a.toNat + 2 ^ 8 * b.toNat + 2 ^ 16 * c.toNat + 2 ^ 24 * d.toNat)

/-- The bytes as words; their number is a multiple of four. -/
def leWords : Bytes → List UInt32
  | a :: b :: c :: d :: rest => fromLeBytes a b c d :: leWords rest
  | _ => []

/-- `num_chunks` -/
def numChunks (len : ℕ) : ℕ := (max len 1 + chunkSize - 1) / chunkSize

/-- `gpu_input`: the padded data and four words of metadata. -/
def gpuInput (data : Bytes) : List UInt32 :=
  let paddedSize := (data.length + blockSize - 1) / blockSize * blockSize
  let inputWords := leWords (data ++ List.replicate (paddedSize - data.length) 0)
  inputWords ++ [UInt32.ofNat data.length, UInt32.ofNat inputWords.length, 0,
    UInt32.ofNat (numChunks data.length)]

/-- `GpuVerifier`, with the words in its buffers. -/
structure GpuVerifier where
  cachedInputBuffer : Option (List UInt32)
  cachedOutputBuffer : Option (List UInt32)
  cachedStagingBuffer : Option (List UInt32)
  cachedBufferCapacity : ℕ

/-- `GpuVerifier::new` -/
def GpuVerifier.new : GpuVerifier := ⟨none, none, none, 0⟩

/-- `write_buffer` and `copy_buffer_to_buffer`, to the front of a buffer. -/
def writeBuffer (buffer words : List UInt32) : List UInt32 := words ++ buffer.drop words.length

/-- The input buffer after the write, and its capacity in bytes. -/
def GpuVerifier.inputBuffer (v : GpuVerifier) (words : List UInt32) : List UInt32 × ℕ :=
  match v.cachedInputBuffer with
  | some buffer =>
    if v.cachedBufferCapacity ≥ words.length * 4 then
      (writeBuffer buffer words, v.cachedBufferCapacity)
    else (words, words.length * 4)
  | none => (words, words.length * 4)

/-- The cached output or staging buffer, or a new one where it is too small. A new buffer holds
zeros. -/
def obtainBuffer (cached : Option (List UInt32)) (size : ℕ) : List UInt32 :=
  match cached with
  | some buffer => if buffer.length * 4 ≥ size * 4 then buffer else List.replicate size 0
  | none => List.replicate size 0

/-- How `map_async` ends. -/
inductive Mapped
  | ok
  | failed (e : String)
  | closed

/-- `chunk_cvs` -/
def chunkCvs (outputWords : List UInt32) (numChunks : ℕ) : List ChainingValue :=
  (List.range numChunks).map fun chunk =>
    Vector.ofFn fun i => outputWords[chunk * 8 + i.val]?.getD 0

/-- The bytes of a word, `u32::to_le_bytes`. -/
def toLeBytes (word : UInt32) : List UInt8 :=
  [UInt8.ofNat word.toNat, UInt8.ofNat (word.toNat / 2 ^ 8), UInt8.ofNat (word.toNat / 2 ^ 16),
    UInt8.ofNat (word.toNat / 2 ^ 24)]

/-- A byte as `{byte:02x}`. -/
def hexByte (byte : UInt8) : List Char :=
  [Nat.digitChar (byte.toNat / 16), Nat.digitChar (byte.toNat % 16)]

/-- `u32_to_hex` -/
def u32ToHex (words : ChainingValue) : String :=
  String.ofList (words.toList.flatMap fun word => (toLeBytes word).flatMap hexByte)

/-- What `compute_blake3` does with the words that it reads back; nothing where it panics. -/
def readBack (blake3 : Blake3) (data : Bytes) (outputWords : List UInt32) :
    Option (DownloadResult String) :=
  let numChunks := numChunks data.length
  let expected := numChunks * 8
  let actual := outputWords.length
  if actual < expected then
    some (.error (.other s!"GPU 输出长度不足: 预期 {expected} 个 u32, 实际 {actual}"))
  else if numChunks = 1 then some (.ok (blake3.hash data))
  else
    (blake3TreeReduce blake3 (chunkCvs outputWords numChunks)).map fun root => .ok (u32ToHex root)

/-- `GpuVerifier::compute_blake3`: the result, nothing where it panics, and the verifier after
it. -/
def GpuVerifier.computeBlake3 (device : Device) (blake3 : Blake3) (mapped : Mapped) (data : Bytes)
    (v : GpuVerifier) : Option (DownloadResult String) × GpuVerifier :=
  if data.length < gpuMinSize then (some (.ok (blake3.hash data)), v)
  else
    let numChunks := numChunks data.length
    let outputSize := numChunks * 8
    let (inputBuffer, capacity) := v.inputBuffer (gpuInput data)
    let outputBuffer := dispatch device inputBuffer (UInt32.ofNat numChunks)
      (obtainBuffer v.cachedOutputBuffer outputSize)
    let stagingBuffer := writeBuffer (obtainBuffer v.cachedStagingBuffer outputSize)
      (outputBuffer.take outputSize)
    let result := match mapped with
      | .closed =>
        some (.error (.other "GPU buffer 映射通道关闭: receiving on a closed channel"))
      | .failed e => some (.error (.other s!"GPU buffer 映射失败: {e}"))
      | .ok => readBack blake3 data stagingBuffer
    (result, ⟨some inputBuffer, some outputBuffer, some stagingBuffer, capacity⟩)

/-- A call of `compute_blake3`. -/
structure HashCall where
  data : Bytes
  mapped : Mapped

/-- A verifier after some calls. -/
def GpuVerifier.after (device : Device) (blake3 : Blake3) (calls : List HashCall) : GpuVerifier :=
  calls.foldl (fun v call => (v.computeBlake3 device blake3 call.mapped call.data).2) .new

/-- What `compute_blake3` returns for the data is its BLAKE3 hash. -/
def Agrees (device : Device) (blake3 : Blake3) (earlier : List HashCall) (data : Bytes) : Prop :=
  ∀ mapped hash,
    ((GpuVerifier.after device blake3 earlier).computeBlake3 device blake3 mapped data).1 =
      some (.ok hash) → hash = blake3.hash data

end Tachyon.Gpu
