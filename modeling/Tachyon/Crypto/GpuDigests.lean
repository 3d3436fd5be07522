import Tachyon.Crypto.Execution
import Tachyon.Crypto.Gpu

/-!
# Digests of the GPU verifier

The shader takes the first word of the data for the number of words and finds the number of chunks
in the data too. Where it finds none, no chunk is hashed, and the digest is that of the words that
earlier calls left in the output buffer.
-/

namespace Tachyon.Gpu

open MergeStack

/-! ### Hexadecimal digests -/

theorem hexByte_injective : Function.Injective hexByte := by
  intro a b h
  have hdigits : ∀ i j : Fin 16, Nat.digitChar i = Nat.digitChar j → i = j := by decide
  have ha := a.toNat_lt
  have hb := b.toNat_lt
  obtain ⟨hhigh, hrest⟩ := List.cons.inj h
  obtain ⟨hlow, -⟩ := List.cons.inj hrest
  have hdiv := hdigits ⟨a.toNat / 16, by omega⟩ ⟨b.toNat / 16, by omega⟩ hhigh
  have hmod := hdigits ⟨a.toNat % 16, by omega⟩ ⟨b.toNat % 16, by omega⟩ hlow
  rw [Fin.mk.injEq] at hdiv hmod
  exact UInt8.toNat_inj.mp (by omega)

theorem toLeBytes_injective : Function.Injective toLeBytes := by
  intro a b h
  have ha := a.toNat_lt
  have hb := b.toNat_lt
  simp only [toLeBytes, List.cons.injEq, ← UInt8.toNat_inj, UInt8.toNat_ofNat', and_true] at h
  exact UInt32.toNat_inj.mp (by omega)

/-- Pieces of one length can be told apart in their concatenation. -/
theorem flatMap_inj {α β : Type} {f : α → List β} {size : ℕ} {xs ys : List α}
    (hinj : Function.Injective f) (hsize : ∀ a, (f a).length = size)
    (hlength : xs.length = ys.length) (h : xs.flatMap f = ys.flatMap f) : xs = ys := by
  induction xs generalizing ys with
  | nil => exact (List.length_eq_zero_iff.mp hlength.symm).symm
  | cons x xs ih =>
    cases ys with
    | nil => cases hlength
    | cons y ys =>
      rw [List.flatMap_cons, List.flatMap_cons] at h
      obtain ⟨hhead, hrest⟩ := List.append_inj h (by rw [hsize, hsize])
      rw [hinj hhead, ih (Nat.succ.inj hlength) hrest]

theorem u32ToHex_injective : Function.Injective u32ToHex := by
  intro a b h
  have htwo : ∀ byte, (hexByte byte).length = 2 := fun _ => rfl
  have height : ∀ word, ((toLeBytes word).flatMap hexByte).length = 8 := fun _ => rfl
  have hword : Function.Injective fun word => (toLeBytes word).flatMap hexByte :=
    fun _ _ hsame => toLeBytes_injective (flatMap_inj hexByte_injective htwo rfl hsame)
  have hlength : a.toList.length = b.toList.length := by
    rw [Vector.length_toList, Vector.length_toList]
  exact Vector.toList_inj.mp (flatMap_inj hword height hlength (String.ofList_injective h))

/-! ### What the shader reads -/

/-- The front of a file: the words 1, 0, 0 and a small number. -/
def header (chunks : UInt8) : Bytes := [1, 0, 0, 0, 0, 0, 0, 0, 0, 0, 0, 0, chunks, 0, 0, 0]

section

variable {device : Device} {blake3 : Blake3} {data : Bytes} {chunks : UInt8} {v : GpuVerifier}
  {words out first rest : List UInt32} {cv : ChainingValue}

theorem gpuInput_header (h : header chunks <+: data) :
    ∃ rest, gpuInput data = 1 :: 0 :: 0 :: UInt32.ofNat chunks.toNat :: rest := by
  obtain ⟨rest, rfl⟩ := h
  have hword : fromLeBytes chunks 0 0 0 = UInt32.ofNat chunks.toNat := by
    simp [fromLeBytes]
  have hwords : ∀ padding, leWords (header chunks ++ rest ++ padding) =
      1 :: 0 :: 0 :: UInt32.ofNat chunks.toNat :: leWords (rest ++ padding) := by
    intro padding
    rw [← hword]
    rfl
  simp only [gpuInput, hwords, List.cons_append]
  exact ⟨_, rfl⟩

theorem inputBuffer_front : ∃ rest, (v.inputBuffer words).1 = words ++ rest := by
  unfold GpuVerifier.inputBuffer
  cases v.cachedInputBuffer with
  | none => exact ⟨[], (List.append_nil _).symm⟩
  | some buffer =>
    by_cases hcapacity : v.cachedBufferCapacity ≥ words.length * 4
    · exact ⟨buffer.drop words.length, by simp only [hcapacity, if_true, writeBuffer]⟩
    · exact ⟨[], by simp only [hcapacity, if_false, List.append_nil]⟩

theorem storeCv_length {outOffset : UInt32} : (storeCv out outOffset cv).length = out.length := by
  have hfold : ∀ (is : List (Fin 8)) (out : List UInt32),
      (is.foldl (fun out (i : Fin 8) => out.set (outOffset + UInt32.ofNat i).toNat cv[i])
        out).length = out.length := by
    intro is
    induction is with
    | nil => exact fun _ => rfl
    | cons i is ih =>
      intro out
      rw [List.foldl_cons, ih, List.length_set]
  exact hfold _ _

theorem shaderMain_length {chunkIdx : UInt32} :
    (shaderMain device words chunkIdx out).length = out.length := by
  unfold shaderMain
  by_cases hreturn : chunkIdx ≥ load device words (load device words 0 + 2)
  · simp only [hreturn, if_true]
  · simp only [hreturn, if_false, storeCv_length]

theorem dispatch_length {workgroups : UInt32} :
    (dispatch device words workgroups out).length = out.length := by
  unfold dispatch
  induction device.order workgroups.toNat generalizing out with
  | nil => rfl
  | cons i is ih => rw [List.foldl_cons, ih, shaderMain_length]

/-- The shader takes the front of the data for what the host wrote behind it. -/
theorem shaderMain_header {count chunkIdx : UInt32}
    (hwords : words = 1 :: 0 :: 0 :: count :: rest) :
    shaderMain device words chunkIdx out =
      if chunkIdx ≥ count then out
      else storeCv out (chunkIdx * 8) (chunkCv device words 1 0 chunkIdx) := by
  have htotal : load device words 0 = 1 := by
    rw [hwords]
    rfl
  have hlen : load device words 1 = 0 := by
    rw [hwords]
    rfl
  have hcount : load device words (1 + 2) = count := by
    rw [hwords]
    rfl
  simp only [shaderMain, htotal, hlen, hcount]

/-- Without chunks the output stays what it was. -/
theorem dispatch_quiet {workgroups : UInt32} (hwords : words = 1 :: 0 :: 0 :: 0 :: rest) :
    dispatch device words workgroups out = out := by
  have hreturn : ∀ chunkIdx out, shaderMain device words chunkIdx out = out := by
    intro chunkIdx out
    rw [shaderMain_header hwords, if_pos (UInt32.zero_le)]
  unfold dispatch
  induction device.order workgroups.toNat with
  | nil => rfl
  | cons i is ih => rw [List.foldl_cons, hreturn, ih]

theorem storeCv_front (hfirst : first.length = 8) :
    storeCv (first ++ rest) 0 cv = cv.toList ++ rest := by
  obtain ⟨a₀, a₁, a₂, a₃, a₄, a₅, a₆, a₇, rfl⟩ : ∃ a₀ a₁ a₂ a₃ a₄ a₅ a₆ a₇,
      first = [a₀, a₁, a₂, a₃, a₄, a₅, a₆, a₇] := by
    match first, hfirst with
    | [a₀, a₁, a₂, a₃, a₄, a₅, a₆, a₇], _ => exact ⟨a₀, a₁, a₂, a₃, a₄, a₅, a₆, a₇, rfl⟩
  have hcv : cv.toList = [cv[0], cv[1], cv[2], cv[3], cv[4], cv[5], cv[6], cv[7]] := by
    refine List.ext_getElem (by simp) fun i hi hi' => ?_
    rw [Vector.length_toList] at hi
    interval_cases i <;> simp
  rw [hcv]
  rfl

/-- One chunk of no bytes: the first invocation writes the initial chaining value, the others
return. -/
theorem shaderMain_loud {i : ℕ} (hwords : words = 1 :: 0 :: 0 :: 1 :: rest) (hi : i < 2 ^ 32)
    {others : List UInt32} (hfirst : first.length = 8) :
    shaderMain device words (UInt32.ofNat i) (first ++ others) =
      if i = 0 then iv.toList ++ others else first ++ others := by
  have hcv : chunkCv device words 1 0 0 = iv := rfl
  rw [shaderMain_header hwords]
  by_cases hzero : i = 0
  · subst hzero
    rw [if_neg (by decide), if_pos rfl]
    exact (congrArg _ hcv).trans (storeCv_front hfirst)
  · have hone : (1 : UInt32).toNat = 1 := rfl
    have hge : UInt32.ofNat i ≥ 1 := by
      rw [ge_iff_le, UInt32.le_iff_toNat_le, UInt32.toNat_ofNat']
      omega
    rw [if_pos hge, if_neg hzero]

/-- Whatever the order, the first chaining value becomes the initial one. -/
theorem dispatch_loud {workgroups : UInt32} (hwords : words = 1 :: 0 :: 0 :: 1 :: rest)
    (hpos : 0 < workgroups.toNat) {others : List UInt32} (hfirst : first.length = 8) :
    dispatch device words workgroups (first ++ others) = iv.toList ++ others := by
  have hstays : ∀ is : List ℕ, (∀ i ∈ is, i < 2 ^ 32) →
      is.foldl (fun out i => shaderMain device words (UInt32.ofNat i) out) (iv.toList ++ others) =
        iv.toList ++ others := by
    intro is his
    induction is with
    | nil => rfl
    | cons i is ih =>
      have hrest : ∀ j ∈ is, j < 2 ^ 32 := fun j hj => his j (List.mem_cons_of_mem _ hj)
      rw [List.foldl_cons, shaderMain_loud hwords (his i List.mem_cons_self) Vector.length_toList,
        ite_self, ih hrest]
  have hreach : ∀ is : List ℕ, (∀ i ∈ is, i < 2 ^ 32) → 0 ∈ is →
      is.foldl (fun out i => shaderMain device words (UInt32.ofNat i) out) (first ++ others) =
        iv.toList ++ others := by
    intro is his hmem
    induction is with
    | nil => cases hmem
    | cons i is ih =>
      have hrest : ∀ j ∈ is, j < 2 ^ 32 := fun j hj => his j (List.mem_cons_of_mem _ hj)
      rw [List.foldl_cons, shaderMain_loud hwords (his i List.mem_cons_self) hfirst]
      by_cases hzero : i = 0
      · rw [if_pos hzero, hstays is hrest]
      · rw [if_neg hzero]
        exact ih hrest ((List.mem_cons.mp hmem).resolve_left fun heq => hzero heq.symm)
  have horder : ∀ i, i ∈ device.order workgroups.toNat ↔ i < workgroups.toNat := fun i =>
    (device.order_perm workgroups.toNat).mem_iff.trans List.mem_range
  exact hreach _ (fun i hi => ((horder i).mp hi).trans workgroups.toNat_lt)
    ((horder 0).mpr hpos)

/-! ### What a call returns -/

/-- The output buffer after a call. -/
def GpuVerifier.outputAfter (device : Device) (data : Bytes) (v : GpuVerifier) : List UInt32 :=
  dispatch device (v.inputBuffer (gpuInput data)).1 (UInt32.ofNat (numChunks data.length))
    (obtainBuffer v.cachedOutputBuffer (numChunks data.length * 8))

theorem obtainBuffer_length {cached : Option (List UInt32)} {size : ℕ} :
    size ≤ (obtainBuffer cached size).length := by
  cases cached with
  | none => exact List.length_replicate.ge
  | some buffer =>
    unfold obtainBuffer
    by_cases hlarge : buffer.length * 4 ≥ size * 4
    · simp only [hlarge, if_true]
      omega
    · simp only [hlarge, if_false, List.length_replicate, le_refl]

theorem chunkCvs_writeBuffer {staging : List UInt32} {n : ℕ} (hlength : n * 8 ≤ out.length) :
    chunkCvs (writeBuffer staging (out.take (n * 8))) n = chunkCvs out n := by
  refine List.map_congr_left fun chunk hchunk => ?_
  have hlt : chunk < n := List.mem_range.mp hchunk
  congr 1
  funext i
  have hi := i.isLt
  have htake : (out.take (n * 8)).length = n * 8 := List.length_take_of_le hlength
  rw [writeBuffer, List.getElem?_append_left (by omega), List.getElem?_take_of_lt (by omega)]

theorem computeBlake3_output {mapped : Mapped} (hdata : gpuMinSize ≤ data.length) :
    (v.computeBlake3 device blake3 mapped data).2.cachedOutputBuffer =
      some (v.outputAfter device data) := by
  have hlarge : ¬data.length < gpuMinSize := by omega
  simp only [GpuVerifier.computeBlake3, hlarge, if_false, GpuVerifier.outputAfter]

/-- The digest is that of the chaining values in the output buffer. -/
theorem computeBlake3_ok (hdata : gpuMinSize ≤ data.length) : ∃ root,
    blake3TreeReduce blake3 (chunkCvs (v.outputAfter device data) (numChunks data.length)) =
        some root ∧
      (v.computeBlake3 device blake3 .ok data).1 = some (.ok (u32ToHex root)) := by
  have hlarge : ¬data.length < gpuMinSize := by omega
  have hchunks : 1 < numChunks data.length := by
    unfold gpuMinSize at hdata
    unfold numChunks chunkSize
    omega
  have hout : numChunks data.length * 8 ≤ (v.outputAfter device data).length := by
    rw [GpuVerifier.outputAfter, dispatch_length]
    exact obtainBuffer_length
  have hne : chunkCvs (v.outputAfter device data) (numChunks data.length) ≠ [] := by
    rw [← List.length_pos_iff, chunkCvs, List.length_map, List.length_range]
    omega
  obtain ⟨root, hroot⟩ := blake3TreeReduce_isSome hne
  refine ⟨root, hroot, ?_⟩
  have hlength : ∀ staging, ¬(writeBuffer staging
      ((v.outputAfter device data).take (numChunks data.length * 8))).length <
        numChunks data.length * 8 := by
    intro staging
    rw [writeBuffer, List.length_append, List.length_take_of_le hout]
    omega
  have hone : numChunks data.length ≠ 1 := by omega
  unfold GpuVerifier.outputAfter at hlength hroot hout
  simp only [GpuVerifier.computeBlake3, hlarge, if_false, readBack, hlength, hone,
    chunkCvs_writeBuffer hout, hroot, Option.map_some]

end

section

variable {device : Device} {blake3 : Blake3} {v : GpuVerifier} {data : Bytes}

/-- Quiet data leaves the output buffer as it is. -/
theorem outputAfter_quiet (h : header 0 <+: data) :
    v.outputAfter device data = obtainBuffer v.cachedOutputBuffer (numChunks data.length * 8) := by
  obtain ⟨rest, hinput⟩ := gpuInput_header h
  obtain ⟨stale, hbuffer⟩ := @inputBuffer_front v (gpuInput data)
  rw [hinput] at hbuffer
  unfold GpuVerifier.outputAfter
  rw [hinput, dispatch_quiet hbuffer]

/-- No verifier hashes all files of a length right, whatever it has hashed before: of two files that
begin with the same sixteen bytes and have different hashes, one gets a wrong digest. -/
theorem gpu_disagrees {n : ℕ} (hn : gpuMinSize ≤ n) (earlier : List HashCall)
    (htells : ∃ a b : Bytes, a.length = n ∧ b.length = n ∧ header 0 <+: a ∧ header 0 <+: b ∧
      blake3.hash a ≠ blake3.hash b) :
    ¬∀ data : Bytes, data.length = n → Agrees device blake3 earlier data := by
  intro hagrees
  obtain ⟨a, b, ha, hb, hquieta, hquietb, hne⟩ := htells
  obtain ⟨roota, hroota, hokA⟩ := @computeBlake3_ok device blake3 a
    (.after device blake3 earlier) (by omega)
  obtain ⟨rootb, hrootb, hokB⟩ := @computeBlake3_ok device blake3 b
    (.after device blake3 earlier) (by omega)
  rw [outputAfter_quiet hquieta, ha] at hroota
  rw [outputAfter_quiet hquietb, hb, hroota] at hrootb
  obtain rfl := Option.some.inj hrootb
  have hhashA := hagrees a ha .ok _ hokA
  have hhashB := hagrees b hb .ok _ hokB
  exact hne (hhashA.symm.trans hhashB)

end

/-! ### Two files and two histories -/

/-- A device that rotates to the right. -/
def plainDevice : Device where
  rotr32 := rotateRight
  stray := fun _ _ => 0
  order := List.range
  order_perm := fun _ => List.Perm.refl _

/-- A file of the smallest size, all zeros but for its first and its last byte. -/
def quietFile (last : UInt8) : Bytes := header 0 ++ List.replicate (gpuMinSize - 17) 0 ++ [last]

/-- Another one, whose header announces a chunk. -/
def loudFile : Bytes := header 1 ++ List.replicate (gpuMinSize - 16) 0

/-- The hashes of `quietFile 0` and `quietFile 1`. -/
def quietHashes : Blake3 where
  hash := fun data =>
    if data.getLast? = some 0 then
      "b2be34b3fac39a5a3a79e87dcdedfae1a8afa03888aaa1ef439018fc7c125141"
    else "1abde1895208eba8f26be82b1021a60effc40bdea86b5eb6633fc046b4ceed87"
  mergeSubtreesNonRoot := parentCv flagParent
  mergeSubtreesRoot := parentCv (flagParent ||| flagRoot)

theorem quietFile_length (last : UInt8) : (quietFile last).length = gpuMinSize := by
  have hheader : (header 0).length = 16 := rfl
  have hmin : 17 ≤ gpuMinSize := by decide
  rw [quietFile, List.length_append, List.length_append, List.length_replicate, hheader,
    List.length_singleton]
  omega

theorem loudFile_length : loudFile.length = gpuMinSize := by
  have hheader : (header 1).length = 16 := rfl
  have hmin : 16 ≤ gpuMinSize := by decide
  rw [loudFile, List.length_append, List.length_replicate, hheader]
  omega

theorem header_prefix_quietFile (last : UInt8) : header 0 <+: quietFile last := by
  rw [quietFile, List.append_assoc]
  exact List.prefix_append _ _

theorem gpu_disagrees_quietFile :
    ¬∀ data : Bytes, data.length = gpuMinSize → Agrees plainDevice quietHashes [] data := by
  have hzero : quietHashes.hash (quietFile 0) =
      "b2be34b3fac39a5a3a79e87dcdedfae1a8afa03888aaa1ef439018fc7c125141" := by
    simp only [quietHashes, quietFile, List.getLast?_concat, if_true]
  have hone : quietHashes.hash (quietFile 1) =
      "1abde1895208eba8f26be82b1021a60effc40bdea86b5eb6633fc046b4ceed87" := by
    have hne : (some 1 : Option UInt8) ≠ some 0 := by decide
    simp only [quietHashes, quietFile, List.getLast?_concat, hne, if_false]
  refine gpu_disagrees le_rfl [] ⟨quietFile 0, quietFile 1, quietFile_length 0,
    quietFile_length 1, header_prefix_quietFile 0, header_prefix_quietFile 1, ?_⟩
  rw [hzero, hone]
  decide

section

variable {device : Device} {blake3 : Blake3}

theorem chunkCvs_zeros {size n : ℕ} :
    chunkCvs (List.replicate size 0) n = List.replicate n noWords := by
  have hzero : ∀ i : ℕ, (List.replicate size (0 : UInt32))[i]?.getD 0 = 0 := by
    intro i
    rw [List.getElem?_replicate]
    by_cases hi : i < size
    · rw [if_pos hi]
      rfl
    · rw [if_neg hi]
      rfl
  have hchunk : ∀ chunk, (Vector.ofFn fun i : Fin 8 =>
      (List.replicate size (0 : UInt32))[chunk * 8 + i.val]?.getD 0) = noWords := by
    intro chunk
    simp only [hzero]
    rfl
  unfold chunkCvs
  simp only [hchunk, List.map_const', List.length_range]

theorem chunkCvs_cons {cv : ChainingValue} {words : List UInt32} {n : ℕ} :
    chunkCvs (cv.toList ++ words) (n + 1) = cv :: chunkCvs words n := by
  have hlength : cv.toList.length = 8 := Vector.length_toList
  unfold chunkCvs
  rw [List.range_succ_eq_map, List.map_cons, List.map_map]
  congr 1
  · refine Vector.ext fun i hi => ?_
    rw [Vector.getElem_ofFn, List.getElem?_append_left (by omega), Nat.zero_mul, Nat.zero_add,
      List.getElem?_eq_getElem (by omega), Option.getD_some, Vector.getElem_toList]
  · refine List.map_congr_left fun chunk _ => ?_
    simp only [Function.comp_apply]
    congr 1
    funext i
    have hindex : (chunk + 1) * 8 + i.val - cv.toList.length = chunk * 8 + i.val := by omega
    rw [List.getElem?_append_right (by omega), hindex]

/-- A first chaining value other than the rest changes the digest of 65536 chunks. -/
theorem roots_ne :
    parentCv (flagParent ||| flagRoot) ((grow (parentCv flagParent))^[16] (noWords, iv)).1
        noWords ≠
      parentCv (flagParent ||| flagRoot) ((grow (parentCv flagParent))^[16] (noWords, iv)).2
        noWords := by
  have hrun : withTrees flagParent 16 noWords iv (fun equal first =>
      withParent (flagParent ||| flagRoot) equal noWords fun a =>
      withParent (flagParent ||| flagRoot) first noWords fun b => decide (a ≠ b)) = true := by
    decide +kernel
  rw [withTrees_eq, withParent_eq, withParent_eq] at hrun
  exact of_decide_eq_true hrun

theorem header_prefix_loudFile : header 1 <+: loudFile := List.prefix_append _ _

/-- After the loud file one chaining value is the initial one and the others are zeros. -/
theorem outputAfter_loudFile : GpuVerifier.outputAfter device loudFile .new =
    iv.toList ++ List.replicate (65535 * 8) 0 := by
  obtain ⟨rest, hinput⟩ := gpuInput_header header_prefix_loudFile
  obtain ⟨stale, hbuffer⟩ := @inputBuffer_front .new (gpuInput loudFile)
  rw [hinput] at hbuffer
  have hchunks : numChunks loudFile.length = 65535 + 1 := by
    rw [loudFile_length]
    rfl
  have hzeros : obtainBuffer GpuVerifier.new.cachedOutputBuffer ((65535 + 1) * 8) =
      List.replicate 8 0 ++ List.replicate (65535 * 8) 0 := by
    rw [← List.replicate_add]
    rfl
  unfold GpuVerifier.outputAfter
  rw [hinput, hchunks, hzeros]
  exact dispatch_loud hbuffer (by decide) List.length_replicate

/-- The digest of the quiet file after some calls. -/
theorem computeBlake3_quietFile {v : GpuVerifier} (hdoc : blake3.Documented)
    {root : ChainingValue} {cvs : List ChainingValue}
    (hcvs : chunkCvs (obtainBuffer v.cachedOutputBuffer ((65535 + 1) * 8)) (65535 + 1) = cvs)
    (hroot : Perfect (parentCv flagParent) 16 cvs root) :
    (v.computeBlake3 device blake3 .ok (quietFile 0)).1 =
      some (.ok (u32ToHex (parentCv (flagParent ||| flagRoot) root noWords))) := by
  have hchunks : numChunks (quietFile 0).length = 65535 + 1 := by
    rw [quietFile_length]
    rfl
  obtain ⟨digest, hdigest, hresult⟩ := @computeBlake3_ok device blake3 (quietFile 0) v
    (quietFile_length 0).ge
  rw [outputAfter_quiet (header_prefix_quietFile 0), hchunks, hcvs,
    blake3TreeReduce_two_pow (hdoc.nonRoot ▸ hroot)] at hdigest
  rw [hresult, ← Option.some.inj hdigest]
  rfl

/-- A verifier gives a file one digest when it is new and another one after a file that announces a
chunk. Whatever the hash of the file is, one of the two is wrong. -/
theorem digest_depends_on_history :
    ∃ (earlier : List HashCall) (data : Bytes), data.length = gpuMinSize ∧
      ∀ (device : Device) (blake3 : Blake3), blake3.Documented →
        ¬(Agrees device blake3 [] data ∧ Agrees device blake3 earlier data) := by
  refine ⟨[⟨loudFile, .ok⟩], quietFile 0, quietFile_length 0, ?_⟩
  intro device blake3 hdoc hboth
  obtain ⟨hnew, hold⟩ := hboth
  obtain ⟨hequal, hfirst⟩ := @perfect_grow _ (parentCv flagParent) noWords iv 16
  have hzeros : chunkCvs (obtainBuffer GpuVerifier.new.cachedOutputBuffer ((65535 + 1) * 8))
      (65535 + 1) = List.replicate (2 ^ 16) noWords := chunkCvs_zeros
  have hstale : chunkCvs (obtainBuffer
      (GpuVerifier.after device blake3 [⟨loudFile, .ok⟩]).cachedOutputBuffer ((65535 + 1) * 8))
      (65535 + 1) = iv :: List.replicate (2 ^ 16 - 1) noWords := by
    have hcached : (GpuVerifier.after device blake3 [⟨loudFile, .ok⟩]).cachedOutputBuffer =
        some (iv.toList ++ List.replicate (65535 * 8) 0) := by
      rw [← @outputAfter_loudFile device, GpuVerifier.after, List.foldl_cons, List.foldl_nil]
      exact computeBlake3_output loudFile_length.ge
    have hlength : (iv.toList ++ List.replicate (65535 * 8) 0).length = (65535 + 1) * 8 := by
      rw [List.length_append, List.length_replicate, Vector.length_toList]
    rw [hcached]
    simp only [obtainBuffer, hlength, ge_iff_le, le_refl, if_true, chunkCvs_cons, chunkCvs_zeros]
    rfl
  have hdigest := hnew .ok _ (computeBlake3_quietFile hdoc hzeros hequal)
  have hdigest' := hold .ok _ (computeBlake3_quietFile hdoc hstale hfirst)
  exact roots_ne (u32ToHex_injective (hdigest.trans hdigest'.symm))

end

end Tachyon.Gpu
