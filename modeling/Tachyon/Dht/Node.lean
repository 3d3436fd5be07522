import Tachyon.Library.BigEndian
import Mathlib.Order.Lattice

/-!
# Nodes of the hash table

Identifiers of 160 bits, their distances, and the nodes that bear them. A time is the
nanosecond count of the system clock, which may be set back.
-/

namespace Tachyon

/-- `K_BUCKET_SIZE`. -/
def kBucketSize : ℕ := 20

/-- The parallelism of a lookup, `ALPHA`. -/
def alpha : ℕ := 3

/-- `NUM_BUCKETS`. -/
def numBuckets : ℕ := 160

/-- `NodeId`, its bytes. -/
structure NodeId where
  bytes : List UInt8
  length_eq : bytes.length = 20
  deriving DecidableEq

namespace NodeId

/-- The identifier with one byte set. -/
def ofByte (position : ℕ) (byte : UInt8) : NodeId :=
  ⟨(List.replicate 20 0).set position byte, by rw [List.length_set, List.length_replicate]⟩

theorem eq_of_bytes {a b : NodeId} (h : a.bytes = b.bytes) : a = b := by
  cases a
  cases b
  simpa using h

/-- The number of an identifier. -/
def value (id : NodeId) : ℕ := BigEndian.value id.bytes

theorem value_lt (id : NodeId) : id.value < 2 ^ 160 := by
  have hlt := BigEndian.value_lt id.bytes
  rw [id.length_eq] at hlt
  exact hlt

theorem value_injective : Function.Injective value := by
  rintro ⟨as, ha⟩ ⟨bs, hb⟩ h
  obtain rfl := BigEndian.value_injective (ha.trans hb.symm) h
  rfl

/-- The order of the arrays. -/
instance : LE NodeId where
  le a b := BigEndian.le a.bytes b.bytes = true

instance : DecidableLE NodeId := fun a b =>
  inferInstanceAs (Decidable (BigEndian.le a.bytes b.bytes = true))

theorem le_iff {a b : NodeId} : a ≤ b ↔ a.value ≤ b.value :=
  BigEndian.le_iff (a.length_eq.trans b.length_eq.symm)

instance : LinearOrder NodeId where
  le_refl a := le_iff.mpr (le_refl _)
  le_trans a b c hab hbc := le_iff.mpr ((le_iff.mp hab).trans (le_iff.mp hbc))
  le_antisymm _ _ hab hba := value_injective (le_antisymm (le_iff.mp hab) (le_iff.mp hba))
  le_total a b := (le_total a.value b.value).imp le_iff.mpr le_iff.mpr
  toDecidableLE := inferInstance
  toDecidableEq := inferInstance

theorem lt_iff {a b : NodeId} : a < b ↔ a.value < b.value := by
  rw [← not_le, ← not_le, le_iff]

end NodeId

/-- `xor_distance`. -/
def xorDistance (a b : NodeId) : NodeId where
  bytes := List.zipWith (· ^^^ ·) a.bytes b.bytes
  length_eq := by rw [List.length_zipWith, a.length_eq, b.length_eq, Nat.min_self]

/-- `leading_zeros`. -/
def leadingZeros (distance : NodeId) : ℕ := BigEndian.leadingZeros distance.bytes

theorem value_xorDistance (a b : NodeId) : (xorDistance a b).value = a.value ^^^ b.value :=
  BigEndian.value_xor (a.length_eq.trans b.length_eq.symm)

theorem value_xorDistance_eq_zero {a b : NodeId} : (xorDistance a b).value = 0 ↔ a = b := by
  rw [value_xorDistance, Nat.xor_eq_zero_iff, NodeId.value_injective.eq_iff]

/-- Nodes at one distance from a target are the same. -/
theorem xorDistance_left_inj {a b target : NodeId} :
    xorDistance a target = xorDistance b target ↔ a = b := by
  constructor
  · intro h
    have hvalue := congrArg NodeId.value h
    rw [value_xorDistance, value_xorDistance] at hvalue
    exact NodeId.value_injective (Nat.xor_left_inj.mp hvalue)
  · exact fun h => h ▸ rfl

theorem leadingZeros_of_ne {a b : NodeId} (h : a ≠ b) :
    leadingZeros (xorDistance a b) + (a.value ^^^ b.value).log2 + 1 = 160 := by
  have hne := mt value_xorDistance_eq_zero.mp h
  have hsum := BigEndian.leadingZeros_add_log2 hne
  rw [(xorDistance a b).length_eq] at hsum
  rw [← value_xorDistance]
  exact hsum

theorem leadingZeros_self (a : NodeId) : leadingZeros (xorDistance a a) = 160 := by
  have hzero := BigEndian.leadingZeros_of_value_eq_zero
    (value_xorDistance_eq_zero.mpr (rfl : a = a))
  rw [(xorDistance a a).length_eq] at hzero
  exact hzero

/-- The time of the system clock in nanoseconds. -/
abbrev SystemTime := ℤ

/-- `DhtNode`. -/
structure DhtNode where
  id : NodeId
  addr : String
  lastSeen : SystemTime
  deriving DecidableEq

/-- `is_stale`, more than 15 minutes since the last contact; a contact in the future is none. -/
def DhtNode.isStale (now : SystemTime) (n : DhtNode) : Bool := 900 * 10 ^ 9 < now - n.lastSeen

/-- `touch`. -/
def DhtNode.touch (now : SystemTime) (n : DhtNode) : DhtNode := { n with lastSeen := now }

@[simp] theorem DhtNode.touch_id (now : SystemTime) (n : DhtNode) : (n.touch now).id = n.id := rfl

@[simp] theorem DhtNode.touch_addr (now : SystemTime) (n : DhtNode) :
    (n.touch now).addr = n.addr := rfl

end Tachyon
