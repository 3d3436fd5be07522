import Mathlib.Tactic.IntervalCases
import Tachyon.Core.Machine
import Tachyon.Dht.Buckets

/-!
# Identifiers for the refresh of a bucket

A bucket is refreshed by a lookup of a random identifier of its range. The identifier is
made from a distance: zero bits, a set bit, and random bits behind it. Every bucket of the
table gets an identifier of its own range, and each of its range can come up.
-/

namespace Tachyon

/-- The state of `SplitMix64`. -/
structure SplitMix64 where
  state : UInt64

/-- `next_u64`, and the state after it. -/
def SplitMix64.nextU64 (rng : SplitMix64) : UInt64 × SplitMix64 :=
  let state := rng.state + 0x9E3779B97F4A7C15
  let z := (state ^^^ (state >>> 30)) * 0xBF58476D1CE4E5B9
  let z := (z ^^^ (z >>> 27)) * 0x94D049BB133111EB
  (z ^^^ (z >>> 31), ⟨state⟩)

/-- The bytes that `next_u8` gives one after the other. -/
def SplitMix64.bytes (rng : SplitMix64) : ℕ → UInt8
  | 0 => rng.nextU64.1.toUInt8
  | k + 1 => rng.nextU64.2.bytes k

/-- `<<` on `u8`, with no result where the amount overflows. -/
def checkedShl8 (a : UInt8) (amount : ℕ) : Option UInt8 :=
  if amount < 8 then some (a <<< .ofNat amount) else none

/-- A change of the byte at an index, with no result outside the array. -/
def modifyByte (bytes : List UInt8) (i : ℕ) (f : UInt8 → UInt8) : Option (List UInt8) :=
  if i < bytes.length then some (bytes.modify i f) else none

/-- The loop that fills bytes with the random ones from the `k`-th on. -/
def fillBytes (rng : ℕ → UInt8) : List ℕ → ℕ → List UInt8 → Option (List UInt8)
  | [], _, distance => some distance
  | i :: rest, k, distance => do
    fillBytes rng rest (k + 1) (← modifyByte distance i fun _ => rng k)

/-- The distance `generate_random_id_in_bucket_range` makes, from the bytes of the generator;
no result where an index or the amount of a shift overflows. -/
def randomDistance (rng : ℕ → UInt8) (bucketIndex : ℕ) : Option (List UInt8) := do
  let targetLz ← checkedSub 159 bucketIndex
  let byteIdx := targetLz / 8
  let bitIdx := targetLz % 8
  let bit ← checkedShl8 1 (← checkedSub 7 bitIdx)
  let distance ← modifyByte (List.replicate 20 0) byteIdx (· ||| bit)
  let distance ← fillBytes rng (List.range' (byteIdx + 1) (19 - byteIdx)) 0 distance
  if bitIdx < 7 then do
    let mask := (← checkedShl8 1 (7 - bitIdx)) - 1
    modifyByte distance byteIdx (· ||| (rng (19 - byteIdx) &&& mask))
  else some distance

/-- `generate_random_id_in_bucket_range`, from the bytes of the generator. -/
def generateRandomIdInBucketRange (rng : ℕ → UInt8) (localId : NodeId) (bucketIndex : ℕ) :
    Option NodeId := do
  let distance ← randomDistance rng bucketIndex
  if h : distance.length = 20 then some (xorDistance localId ⟨distance, h⟩) else none

/-- The byte of the first set bit: random bits behind it. -/
def leadingByte (bitIdx : ℕ) (random : UInt8) : UInt8 :=
  (1 <<< UInt8.ofNat (7 - bitIdx)) ||| (random &&& ((1 <<< UInt8.ofNat (7 - bitIdx)) - 1))

/-- The distance: whole bytes of zeros, the byte of the first set bit, random bytes. -/
def distanceBytes (rng : ℕ → UInt8) (byteIdx bitIdx : ℕ) : List UInt8 :=
  List.replicate byteIdx 0 ++ leadingByte bitIdx (rng (19 - byteIdx)) ::
    (List.range (19 - byteIdx)).map rng

theorem modifyByte_append (front back : List UInt8) (b : UInt8) (f : UInt8 → UInt8) :
    modifyByte (front ++ b :: back) front.length f = some (front ++ f b :: back) := by
  have hmodify : (front ++ b :: back).modify front.length f = front ++ f b :: back := by
    induction front with
    | nil => rfl
    | cons a front ih =>
      rw [List.cons_append, List.length_cons, List.modify_succ_cons, ih]
      rfl
  unfold modifyByte
  rw [if_pos (by simp), hmodify]

/-- The loop replaces what is behind the front. -/
theorem fillBytes_eq (rng : ℕ → UInt8) (front back : List UInt8) (k : ℕ) :
    fillBytes rng (List.range' front.length back.length) k (front ++ back) =
      some (front ++ (List.range' k back.length).map rng) := by
  induction back generalizing front k with
  | nil => rfl
  | cons b back ih =>
    have ih := ih (front ++ [rng k]) (k + 1)
    rw [List.length_append, List.length_singleton, List.append_assoc, List.singleton_append] at ih
    rw [List.length_cons, List.range'_succ, fillBytes, modifyByte_append, Option.bind_eq_bind,
      Option.bind_some, ih, List.range'_succ, List.map_cons, List.append_assoc,
      List.singleton_append]

theorem checkedShl8_of_lt {amount : ℕ} (h : amount < 8) :
    checkedShl8 1 amount = some (1 <<< UInt8.ofNat amount) :=
  if_pos h

/-- Behind the lowest bit of a byte there is nothing to randomize. -/
theorem leadingByte_seven (random : UInt8) : leadingByte 7 random = 1 <<< UInt8.ofNat (7 - 7) := by
  have hmask : (1 <<< UInt8.ofNat (7 - 7) : UInt8) - 1 = 0 := by decide
  rw [leadingByte, hmask, UInt8.and_zero, UInt8.or_zero]

/-- The distance is made without an overflow of an index or of the amount of a shift. -/
theorem randomDistance_eq (rng : ℕ → UInt8) {b : ℕ} (hb : b < 160) :
    randomDistance rng b = some (distanceBytes rng ((159 - b) / 8) ((159 - b) % 8)) := by
  have hlz : checkedSub 159 b = some (159 - b) := checkedSub_eq_some.mpr ⟨by omega, rfl⟩
  have hbyte : (159 - b) / 8 < 20 := by omega
  have hbit : (159 - b) % 8 < 8 := Nat.mod_lt _ (by decide)
  unfold randomDistance
  rw [hlz, Option.bind_eq_bind, Option.bind_some]
  dsimp only
  generalize (159 - b) / 8 = byteIdx at hbyte ⊢
  generalize (159 - b) % 8 = bitIdx at hbit ⊢
  have hsub : checkedSub 7 bitIdx = some (7 - bitIdx) := checkedSub_eq_some.mpr ⟨by omega, rfl⟩
  have hzeros : List.replicate 20 (0 : UInt8) =
      List.replicate byteIdx 0 ++ 0 :: List.replicate (19 - byteIdx) 0 := by
    rw [← List.replicate_succ, List.replicate_append_replicate]
    congr 1
    omega
  have hset (back : List UInt8) (c : UInt8) (f : UInt8 → UInt8) :
      modifyByte (List.replicate byteIdx 0 ++ c :: back) byteIdx f =
        some (List.replicate byteIdx 0 ++ f c :: back) := by
    have hset := modifyByte_append (List.replicate byteIdx 0) back c f
    rwa [List.length_replicate] at hset
  have hfill (c : UInt8) :
      fillBytes rng (List.range' (byteIdx + 1) (19 - byteIdx)) 0
          (List.replicate byteIdx 0 ++ c :: List.replicate (19 - byteIdx) 0) =
        some (List.replicate byteIdx 0 ++ c :: (List.range (19 - byteIdx)).map rng) := by
    have hfill := fillBytes_eq rng (List.replicate byteIdx 0 ++ [c])
      (List.replicate (19 - byteIdx) 0) 0
    rwa [List.length_append, List.length_replicate, List.length_singleton, List.length_replicate,
      List.append_assoc, List.append_assoc, List.singleton_append, List.singleton_append,
      ← List.range_eq_range'] at hfill
  have hshift : 7 - bitIdx < 8 := by omega
  simp only [hsub, Option.bind_eq_bind, Option.bind_some, checkedShl8_of_lt hshift, hzeros, hset,
    hfill, UInt8.zero_or]
  by_cases hlow : bitIdx < 7
  · rw [if_pos hlow]
    rfl
  · obtain rfl : bitIdx = 7 := by omega
    rw [if_neg hlow, distanceBytes, leadingByte_seven]

/-! ### The byte of the first set bit -/

section

variable {bitIdx : ℕ} (hbit : bitIdx < 8) (random : UInt8)

include hbit

theorem toNat_shiftLeft_one :
    (1 <<< UInt8.ofNat (7 - bitIdx) : UInt8).toNat = 2 ^ (7 - bitIdx) := by
  interval_cases bitIdx
  all_goals rfl

/-- The byte is its leading bit and the low bits of the random one. -/
theorem toNat_leadingByte :
    (leadingByte bitIdx random).toNat =
      2 ^ (7 - bitIdx) + random.toNat % 2 ^ (7 - bitIdx) := by
  have hone := toNat_shiftLeft_one hbit
  have hpos := Nat.two_pow_pos (7 - bitIdx)
  have hmask : ((1 <<< UInt8.ofNat (7 - bitIdx) : UInt8) - 1).toNat = 2 ^ (7 - bitIdx) - 1 := by
    rw [UInt8.toNat_sub_of_le _ _ (UInt8.le_iff_toNat_le.mpr (by rw [hone]; exact hpos)), hone]
    rfl
  have hor := Nat.two_pow_add_eq_or_of_lt (Nat.mod_lt random.toNat hpos) 1
  rw [Nat.mul_one] at hor
  rw [leadingByte, UInt8.toNat_or, UInt8.toNat_and, hone, hmask, Nat.and_two_pow_sub_one_eq_mod,
    hor]

theorem leadingByte_ne_zero : leadingByte bitIdx random ≠ 0 := by
  intro hzero
  have hvalue := toNat_leadingByte hbit random
  have hpos := Nat.two_pow_pos (7 - bitIdx)
  rw [hzero, UInt8.toNat_zero] at hvalue
  omega

theorem byteLeadingZeros_leadingByte :
    BigEndian.byteLeadingZeros (leadingByte bitIdx random) = bitIdx := by
  have hlt := Nat.mod_lt random.toNat (Nat.two_pow_pos (7 - bitIdx))
  have hlog : (leadingByte bitIdx random).toNat.log2 = 7 - bitIdx := by
    rw [toNat_leadingByte hbit, Nat.log2_eq_iff (by omega), pow_succ]
    omega
  rw [BigEndian.byteLeadingZeros, if_neg (leadingByte_ne_zero hbit random), hlog]
  omega

end

/-- Every byte is the leading bit and its own low bits. -/
theorem leadingByte_self {x : UInt8} (hx : x ≠ 0) :
    leadingByte (BigEndian.byteLeadingZeros x) x = x := by
  have hne : x.toNat ≠ 0 := fun h => hx (UInt8.toNat_inj.mp h)
  have hlog : x.toNat.log2 < 8 := (Nat.log2_lt hne).mpr x.toNat_lt
  have hlz : 7 - BigEndian.byteLeadingZeros x = x.toNat.log2 := by
    rw [BigEndian.byteLeadingZeros, if_neg hx]
    omega
  have hbit : BigEndian.byteLeadingZeros x < 8 := by
    rw [BigEndian.byteLeadingZeros, if_neg hx]
    omega
  have hlow := Nat.log2_self_le hne
  have hhigh : x.toNat < 2 ^ (x.toNat.log2 + 1) := Nat.lt_log2_self
  rw [pow_succ] at hhigh
  refine UInt8.toNat_inj.mp ?_
  rw [toNat_leadingByte hbit, hlz, Nat.mod_eq_sub_mod hlow, Nat.mod_eq_of_lt (by omega)]
  omega

theorem length_distanceBytes (rng : ℕ → UInt8) {byteIdx bitIdx : ℕ} (h : byteIdx < 20) :
    (distanceBytes rng byteIdx bitIdx).length = 20 := by
  unfold distanceBytes
  simp only [List.length_append, List.length_replicate, List.length_cons, List.length_map,
    List.length_range]
  omega

/-- The number of zeros at the front is the one asked for. -/
theorem leadingZeros_distanceBytes (rng : ℕ → UInt8) {n : ℕ} :
    BigEndian.leadingZeros (distanceBytes rng (n / 8) (n % 8)) = n := by
  have hbit : n % 8 < 8 := Nat.mod_lt _ (by decide)
  unfold distanceBytes
  rw [BigEndian.leadingZeros_replicate_append (leadingByte_ne_zero hbit _),
    byteLeadingZeros_leadingByte hbit]
  omega

/-- The random bytes that make a given distance. -/
def bytesOf (x : UInt8) (rest : List UInt8) (k : ℕ) : UInt8 := (rest ++ [x]).getD k 0

theorem distanceBytes_bytesOf {x : UInt8} (hx : x ≠ 0) {rest : List UInt8} {byteIdx : ℕ}
    (h : byteIdx + 1 + rest.length = 20) :
    distanceBytes (bytesOf x rest) byteIdx (BigEndian.byteLeadingZeros x) =
      List.replicate byteIdx 0 ++ x :: rest := by
  obtain hlength : 19 - byteIdx = rest.length := by omega
  have hlast : bytesOf x rest rest.length = x := by
    simp [bytesOf]
  have hrest : (List.range rest.length).map (bytesOf x rest) = rest := by
    refine List.ext_getElem (by simp) fun i hi hi' => ?_
    rw [List.getElem_map, List.getElem_range, bytesOf, List.getD_eq_getElem?_getD,
      List.getElem?_append_left hi', List.getElem?_eq_getElem hi', Option.getD_some]
  rw [distanceBytes, hlength, hlast, hrest, leadingByte_self hx]

/-- A distance from an identifier leads to one that is as far. -/
theorem xorDistance_xorDistance (a d : NodeId) : xorDistance a (xorDistance a d) = d := by
  refine NodeId.value_injective ?_
  rw [value_xorDistance, value_xorDistance, ← Nat.xor_assoc, Nat.xor_self, Nat.zero_xor]

section

variable {b : ℕ} (hb : b < numBuckets)

include hb

theorem generateRandomId_eq (rng : ℕ → UInt8) (localId : NodeId) :
    ∃ d : NodeId, d.bytes = distanceBytes rng ((159 - b) / 8) ((159 - b) % 8) ∧
      generateRandomIdInBucketRange rng localId b = some (xorDistance localId d) := by
  have hb : b < 160 := hb
  have hlength : (distanceBytes rng ((159 - b) / 8) ((159 - b) % 8)).length = 20 :=
    length_distanceBytes rng (by omega)
  refine ⟨⟨_, hlength⟩, rfl, ?_⟩
  rw [generateRandomIdInBucketRange, randomDistance_eq rng hb, Option.bind_eq_bind,
    Option.bind_some, dif_pos hlength]

/-- Whatever bytes the generator gives, the identifier lands in the bucket. -/
theorem exists_generateRandomId (t : RoutingTable) (rng : ℕ → UInt8) :
    ∃ id, generateRandomIdInBucketRange rng t.localId b = some id ∧ t.bucketIndex id = some b := by
  have hlt : b < 160 := hb
  obtain ⟨d, hd, hgenerate⟩ := generateRandomId_eq hb rng t.localId
  have hzeros : leadingZeros (xorDistance t.localId (xorDistance t.localId d)) = 159 - b := by
    rw [xorDistance_xorDistance, leadingZeros, hd, leadingZeros_distanceBytes]
  refine ⟨_, hgenerate, ?_⟩
  unfold RoutingTable.bucketIndex
  dsimp only
  rw [hzeros, if_neg (by omega)]
  exact congrArg some (by omega)

/-- The distance of an identifier of the bucket, as the bytes of the generator. -/
theorem exists_rng {t : RoutingTable} {id : NodeId} (hid : t.bucketIndex id = some b) :
    ∃ rng, generateRandomIdInBucketRange rng t.localId b = some id := by
  have hlt : b < 160 := hb
  obtain ⟨hne, hlog⟩ := RoutingTable.bucketIndex_eq_some.mp hid
  have hsum := leadingZeros_of_ne (Ne.symm hne)
  have hzeros : BigEndian.leadingZeros (xorDistance t.localId id).bytes = 159 - b := by
    unfold leadingZeros at hsum
    omega
  have hlength := (xorDistance t.localId id).length_eq
  have hsome : BigEndian.leadingZeros (xorDistance t.localId id).bytes <
      8 * (xorDistance t.localId id).bytes.length := by omega
  obtain ⟨x, rest, hx, hbytes, hlow⟩ := BigEndian.exists_eq_replicate_append hsome
  rw [hzeros] at hbytes hlow
  have hcount : (159 - b) / 8 + 1 + rest.length = 20 := by
    rw [hbytes, List.length_append, List.length_replicate, List.length_cons] at hlength
    omega
  obtain ⟨d, hd, hgenerate⟩ := generateRandomId_eq hb (bytesOf x rest) t.localId
  rw [← hlow, distanceBytes_bytesOf hx hcount, ← hbytes] at hd
  refine ⟨_, hgenerate.trans ?_⟩
  rw [NodeId.eq_of_bytes hd, xorDistance_xorDistance]

/-- Every bucket of the table gets an identifier of its range, from whatever bytes the generator
gives, and every identifier of its range comes of some bytes. -/
theorem generateRandomId_bucket (t : RoutingTable) :
    (∀ rng, ∃ id, generateRandomIdInBucketRange rng t.localId b = some id ∧
      t.bucketIndex id = some b) ∧
    ∀ id, t.bucketIndex id = some b →
      ∃ rng, generateRandomIdInBucketRange rng t.localId b = some id :=
  ⟨exists_generateRandomId hb t, fun _ hid => exists_rng hb hid⟩

end

/-- The first and the last bucket of a new table. -/
theorem generateRandomId_bucket_ends :
    (∃ id, generateRandomIdInBucketRange (SplitMix64.bytes ⟨0⟩) (.ofByte 3 7) 0 = some id ∧
      (RoutingTable.new (.ofByte 3 7)).bucketIndex id = some 0) ∧
    ∃ id, generateRandomIdInBucketRange (SplitMix64.bytes ⟨0⟩) (.ofByte 3 7) 159 = some id ∧
      (RoutingTable.new (.ofByte 3 7)).bucketIndex id = some 159 :=
  ⟨(generateRandomId_bucket (by decide) (RoutingTable.new (.ofByte 3 7))).1 _,
    (generateRandomId_bucket (by decide) (RoutingTable.new (.ofByte 3 7))).1 _⟩

/-- A refresh never looks up the node itself, whatever the clock seeds the generator with. -/
theorem generateRandomId_ne_self (t : RoutingTable) (seed : UInt64) {b : ℕ} (hb : b < numBuckets) :
    ∃ id, generateRandomIdInBucketRange (SplitMix64.bytes ⟨seed⟩) t.localId b = some id ∧
      id ≠ t.localId := by
  obtain ⟨id, hid, hbucket⟩ := exists_generateRandomId hb t (SplitMix64.bytes ⟨seed⟩)
  exact ⟨id, hid, (RoutingTable.bucketIndex_eq_some.mp hbucket).1⟩

end Tachyon
