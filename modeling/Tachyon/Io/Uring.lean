import Tachyon.Library.EventRuns
import Mathlib.Logic.Function.Basic
import Mathlib.Data.Nat.Notation
import Mathlib.Algebra.GroupWithZero.Nat

/-!
# The fixed buffers of io_uring

A bitmap of 64 bits holds the buffers in use, and those that do not exist. The allocator takes
the number of trailing zeros for a free buffer, which is the lowest one in use: no operation ever
gets a registered buffer.
-/

namespace Tachyon

/-- The buffers of `IoUringConfig`. -/
structure IoUringConfig where
  bufferSize : ℕ
  bufferCount : ℕ

/-- `IoUringConfig::default`. -/
def IoUringConfig.default : IoUringConfig := ⟨64 * 1024, 16⟩

/-- `validate_fixed_buffer_config`. -/
def IoUringConfig.valid (config : IoUringConfig) : Bool :=
  config.bufferSize ≠ 0 && config.bufferCount ≠ 0 && config.bufferSize ≤ 2 ^ 32 - 1

/-- An operation on its way through the allocator. -/
inductive UringOp
  | idle
  /-- It has read the bitmap and found an index to try. -/
  | allocating (current : BitVec 64)
  | holding (idx : ℕ)
  deriving DecidableEq

/-- `IoUringHandle`, with the operations that use it. -/
structure IoUringHandle where
  buffers : ℕ
  bufferBitmap : BitVec 64
  ops : ℕ → UringOp

/-- What happens to the bitmap and the buffers. -/
inductive UringEvent
  /-- `alloc_buffer_index` reads the bitmap. -/
  | load (i : ℕ)
  /-- Its `compare_exchange_weak`, which may fail for no reason. -/
  | exchange (i : ℕ) (spurious : Bool)
  /-- `submit_write` takes its buffer from the list. -/
  | index (i : ℕ)
  /-- `free_buffer_index`. -/
  | free (i : ℕ)

open EventRuns

namespace IoUringHandle

/-- The buffers and the bitmap that `init` sets up. -/
def init (config : IoUringConfig) : Option IoUringHandle :=
  if config.valid then
    some
      { buffers := config.bufferCount
        bufferBitmap :=
          if 64 ≤ config.bufferCount then 0 else BitVec.allOnes 64 <<< config.bufferCount
        ops := fun _ => .idle }
  else none

/-- A read of the bitmap in the loop of `alloc_buffer_index`: it returns, or goes on to exchange. -/
def tryIndex (i : ℕ) (current : BitVec 64) (s : IoUringHandle) :
    IoUringHandle × Option (Option ℕ) :=
  if 64 ≤ current.ctz.toNat then ({ s with ops := Function.update s.ops i .idle }, some none)
  else ({ s with ops := Function.update s.ops i (.allocating current) }, none)

/-- A step, with what `alloc_buffer_index` returns in it if it does. -/
def transition (s : IoUringHandle) : UringEvent → Option (IoUringHandle × Option (Option ℕ))
  | .load i =>
    match s.ops i with
    | .idle => some (s.tryIndex i s.bufferBitmap)
    | _ => none
  | .exchange i spurious =>
    match s.ops i with
    | .allocating current =>
      if s.bufferBitmap = current ∧ spurious = false then
        some ({ s with
          bufferBitmap := current ||| 1#64 <<< current.ctz.toNat
          ops := Function.update s.ops i (.holding current.ctz.toNat) },
          some (some current.ctz.toNat))
      else some (s.tryIndex i s.bufferBitmap)
    | _ => none
  | .index i =>
    match s.ops i with
    | .holding _ => some (s, none)
    | _ => none
  | .free i =>
    match s.ops i with
    | .holding idx =>
      some ({ s with
        bufferBitmap := if 64 ≤ idx then s.bufferBitmap else s.bufferBitmap &&& ~~~(1#64 <<< idx)
        ops := Function.update s.ops i .idle }, none)
    | _ => none

/-- The handle after an event. -/
def step (s : IoUringHandle) (e : UringEvent) : Option IoUringHandle :=
  (s.transition e).map Prod.fst

/-- What `alloc_buffer_index` returns in a step, if it does. -/
def returned (s : IoUringHandle) (e : UringEvent) : Option (Option ℕ) :=
  (s.transition e).bind Prod.snd

/-- The operation holds a buffer. -/
def Holds (s : IoUringHandle) (i idx : ℕ) : Prop := s.ops i = .holding idx

/-- What the allocator promises of a step. An index that is returned is that of a registered buffer
which nobody holds, and none is returned only while all of them are held; a buffer that is taken
from the list is there and belongs to one operation. -/
def Correct (s : IoUringHandle) (e : UringEvent) : Prop :=
  (∀ idx, s.returned e = some (some idx) → idx < s.buffers ∧ ∀ j, ¬s.Holds j idx) ∧
  (s.returned e = some none → ∀ idx < s.buffers, ∃ j, s.Holds j idx) ∧
  ∀ i idx, e = .index i → s.Holds i idx → idx < s.buffers ∧ ∀ j, s.Holds j idx → j = i

/-- The event does not let `alloc_buffer_index` return: the bitmap it reads has a bit set, and its
exchange fails. -/
def Unfinished (s : IoUringHandle) : UringEvent → Prop
  | .load _ => s.bufferBitmap ≠ 0
  | .exchange i spurious =>
    s.bufferBitmap ≠ 0 ∧ (spurious = true ∨ s.ops i ≠ .allocating s.bufferBitmap)
  | _ => True

/-- The bits of the registered buffers are clear, and nobody has one of them. -/
structure Unused (s : IoUringHandle) : Prop where
  registered : 0 < s.buffers
  bitmap : ∀ b < s.buffers, s.bufferBitmap.getLsbD b = false
  allocating : ∀ i current, s.ops i = .allocating current →
    current.ctz.toNat < 64 ∧ ∀ b < s.buffers, current.getLsbD b = false
  holding : ∀ i idx, s.Holds i idx → s.buffers ≤ idx

section Steps

variable {s s' : IoUringHandle} {e : UringEvent} {i : ℕ} {current : BitVec 64}

/-- The lowest bit that is set. -/
theorem getLsbD_ctz (h : current.ctz.toNat < 64) : current.getLsbD current.ctz.toNat = true := by
  apply BitVec.getLsbD_true_ctz_of_ne_zero
  rintro rfl
  have hzero : (0#64).ctz.toNat = 64 := by decide +kernel
  omega

/-- Of a bitmap without registered buffers, the trailing zeros are at least as many. -/
theorem le_ctz (hlow : ∀ b < s.buffers, current.getLsbD b = false) (h : current.ctz.toNat < 64) :
    s.buffers ≤ current.ctz.toNat := by
  by_contra hlt
  have hset := getLsbD_ctz h
  simp [hlow _ (Nat.not_le.mp hlt)] at hset

/-- The buffers below the mask are registered, the others look used. -/
theorem init_unused {config : IoUringConfig} (h : init config = some s) : s.Unused := by
  simp only [init, Option.ite_none_right_eq_some] at h
  obtain ⟨hvalid, h⟩ := h
  obtain rfl := Option.some.inj h
  simp only [IoUringConfig.valid, Bool.and_eq_true, decide_eq_true_eq] at hvalid
  refine ⟨by simp; omega, fun b hb => ?_, by simp, by simp [Holds]⟩
  dsimp only at hb ⊢
  split
  · simp
  · simp [hb]

/-- An operation goes on, with a bitmap that leaves the registered buffers clear. -/
theorem Unused.update (h : s.Unused) {bitmap : BitVec 64} {op : UringOp}
    (hbitmap : ∀ b < s.buffers, bitmap.getLsbD b = false)
    (hallocating : ∀ current, op = .allocating current →
      current.ctz.toNat < 64 ∧ ∀ b < s.buffers, current.getLsbD b = false)
    (hholding : ∀ idx, op = .holding idx → s.buffers ≤ idx) :
    Unused { s with bufferBitmap := bitmap, ops := Function.update s.ops i op } where
  registered := h.registered
  bitmap := hbitmap
  allocating j current hj := by
    by_cases hji : j = i
    · exact hallocating current (by simpa [hji] using hj)
    · exact h.allocating j current (by simpa [hji] using hj)
  holding j idx hj := by
    by_cases hji : j = i
    · exact hholding idx (by simpa [Holds, hji] using hj)
    · exact h.holding j idx (by simpa [Holds, hji] using hj)

theorem Unused.tryIndex (h : s.Unused) (i : ℕ) : (s.tryIndex i s.bufferBitmap).1.Unused := by
  unfold IoUringHandle.tryIndex
  split
  case isTrue hnone => exact h.update h.bitmap (by simp) (by simp)
  case isFalse hsome =>
    refine h.update h.bitmap (fun current hcurrent => ?_) (by simp)
    obtain rfl := UringOp.allocating.inj hcurrent
    exact ⟨by omega, h.bitmap⟩

/-- What happens in a step, and what is returned in it. -/
theorem transition_cases {r : IoUringHandle × Option (Option ℕ)} (h : s.transition e = some r) :
    (∃ i, (e = .load i ∨ ∃ spurious, e = .exchange i spurious ∧
      (spurious = true ∨ s.ops i ≠ .allocating s.bufferBitmap)) ∧
      r = s.tryIndex i s.bufferBitmap) ∨
    (∃ i current, e = .exchange i false ∧ s.ops i = .allocating current ∧
      s.bufferBitmap = current ∧
      r = ({ s with
        bufferBitmap := current ||| 1#64 <<< current.ctz.toNat
        ops := Function.update s.ops i (.holding current.ctz.toNat) },
        some (some current.ctz.toNat))) ∨
    (∃ i idx, s.Holds i idx ∧ (e = .index i ∧ r = (s, none) ∨ e = .free i ∧ r = ({ s with
      bufferBitmap := if 64 ≤ idx then s.bufferBitmap else s.bufferBitmap &&& ~~~(1#64 <<< idx)
      ops := Function.update s.ops i .idle }, none))) := by
  cases e with
  | load i =>
    simp only [transition] at h
    split at h
    · exact .inl ⟨i, .inl rfl, (Option.some.inj h).symm⟩
    · cases h
  | exchange i spurious =>
    simp only [transition] at h
    split at h
    case h_1 current hop =>
      split at h
      case isTrue hdone =>
        obtain ⟨hcurrent, rfl⟩ := hdone
        exact .inr (.inl ⟨i, current, rfl, hop, hcurrent, (Option.some.inj h).symm⟩)
      case isFalse hfailed =>
        refine .inl ⟨i, .inr ⟨spurious, rfl, ?_⟩, (Option.some.inj h).symm⟩
        cases spurious with
        | true => exact .inl rfl
        | false => exact .inr (by simpa [hop, eq_comm] using hfailed)
    · cases h
  | index i =>
    simp only [transition] at h
    split at h
    case h_1 idx hop => exact .inr (.inr ⟨i, idx, hop, .inl ⟨rfl, (Option.some.inj h).symm⟩⟩)
    · cases h
  | free i =>
    simp only [transition] at h
    split at h
    case h_1 idx hop => exact .inr (.inr ⟨i, idx, hop, .inr ⟨rfl, (Option.some.inj h).symm⟩⟩)
    · cases h

/-- An attempt returns that no buffer is free where no bit is set, and nothing elsewhere. -/
theorem tryIndex_snd : (s.tryIndex i current).2 = if current = 0#64 then some none else none := by
  unfold IoUringHandle.tryIndex
  by_cases hzero : current = 0#64
  · have hctz : (0#64).ctz.toNat = 64 := by decide +kernel
    simp [hzero, hctz]
  · have hctz : current.ctz.toNat < 64 := BitVec.ctz_lt_iff_ne_zero.mpr hzero
    rw [if_neg (Nat.not_le.mpr hctz), if_neg hzero]

/-- The allocator returns in exactly the other events. -/
theorem unfinished_iff (hstep : s.step e = some s') : s.Unfinished e ↔ s.returned e = none := by
  obtain ⟨r, hr, rfl⟩ := Option.map_eq_some_iff.mp hstep
  have hreturned : s.returned e = r.2 := by simp [returned, hr]
  rw [hreturned]
  obtain ⟨i, hattempt, rfl⟩ | ⟨i, current, rfl, hop, hcurrent, rfl⟩ |
    ⟨i, idx, -, ⟨rfl, rfl⟩ | ⟨rfl, rfl⟩⟩ := transition_cases hr
  · rw [tryIndex_snd]
    obtain rfl | ⟨spurious, rfl, hfailed⟩ := hattempt
    · simp [Unfinished]
    · simp [Unfinished, hfailed]
  · simp [Unfinished, hop, hcurrent]
  · simp [Unfinished]
  · simp [Unfinished]

/-- Every step leaves the registered buffers unused. -/
theorem Unused.step (h : s.Unused) (hstep : s.step e = some s') : s'.Unused := by
  obtain ⟨r, hr, rfl⟩ := Option.map_eq_some_iff.mp hstep
  obtain ⟨i, -, rfl⟩ | ⟨i, current, -, hop, -, rfl⟩ | ⟨i, idx, -, ⟨-, rfl⟩ | ⟨-, rfl⟩⟩ :=
    transition_cases hr
  · exact h.tryIndex i
  · obtain ⟨hctz, hlow⟩ := h.allocating i current hop
    have hle := le_ctz hlow hctz
    refine h.update (fun b hb => ?_) (by simp) (fun idx hidx => ?_)
    · simp [hlow b hb]
      omega
    · obtain rfl := UringOp.holding.inj hidx
      exact hle
  · exact h
  · refine h.update (fun b hb => ?_) (by simp) (by simp)
    split <;> simp [h.bitmap b hb]

/-- Whatever the allocator returns is wrong. -/
theorem Unused.returned_eq_none (h : s.Unused) (hcorrect : s.Correct e)
    (hstep : s.step e = some s') : s.returned e = none := by
  obtain ⟨r, hr, rfl⟩ := Option.map_eq_some_iff.mp hstep
  obtain ⟨hindex, hnone, -⟩ := hcorrect
  have hreturned : s.returned e = r.2 := by simp [returned, hr]
  rw [hreturned] at hindex hnone ⊢
  obtain ⟨i, -, rfl⟩ | ⟨i, current, -, hop, -, rfl⟩ | ⟨i, idx, -, ⟨-, rfl⟩ | ⟨-, rfl⟩⟩ :=
    transition_cases hr
  · rw [tryIndex_snd] at hnone ⊢
    split
    case isTrue hzero =>
      -- Nobody has the first buffer.
      obtain ⟨j, hj⟩ := hnone (by simp [hzero]) 0 h.registered
      have hle := h.holding j 0 hj
      have hpos := h.registered
      omega
    · rfl
  · obtain ⟨hctz, hlow⟩ := h.allocating i current hop
    have hle := le_ctz hlow hctz
    have hlt := (hindex current.ctz.toNat rfl).1
    omega
  · rfl
  · rfl

/-- No operation has a buffer. -/
def NothingHeld (s : IoUringHandle) : Prop := ∀ i idx, ¬s.Holds i idx

/-- Where nothing is returned nothing is held, and then there is nothing to be wrong. -/
theorem NothingHeld.correct (h : s.NothingHeld) (hnone : s.returned e = none)
    (hstep : s.step e = some s') : s.Correct e ∧ s'.NothingHeld := by
  refine ⟨⟨by simp [hnone], by simp [hnone], fun i idx _ hi => (h i idx hi).elim⟩, ?_⟩
  obtain ⟨r, hr, rfl⟩ := Option.map_eq_some_iff.mp hstep
  have hreturned : s.returned e = r.2 := by simp [returned, hr]
  rw [hreturned] at hnone
  obtain ⟨i, -, rfl⟩ | ⟨i, current, -, hop, -, rfl⟩ | ⟨i, idx, hi, -⟩ := transition_cases hr
  · intro j idx hj
    unfold IoUringHandle.tryIndex at hj
    by_cases hji : j = i
    · split at hj <;> simp [Holds, hji] at hj
    · refine h j idx ?_
      split at hj <;> simpa [Holds, hji] using hj
  · simp at hnone
  · exact (h i idx hi).elim

end Steps

/-- A run is as promised if and only if the allocator never returns in it. -/
theorem correct_iff_unfinished {config : IoUringConfig} {s : IoUringHandle}
    (hinit : init config = some s) (events : List UringEvent) :
    EachStep step Correct s events ↔ EachStep step Unfinished s events := by
  constructor
  · intro hcorrect
    exact hcorrect.imp (fun s e s' h hc hstep => ⟨(unfinished_iff hstep).mpr
      (h.returned_eq_none hc hstep), h.step hstep⟩) (init_unused hinit)
  · intro hunfinished
    have hheld : s.NothingHeld := by
      simp only [init, Option.ite_none_right_eq_some] at hinit
      obtain rfl := Option.some.inj hinit.2
      simp [NothingHeld, Holds]
    exact hunfinished.imp
      (fun s e s' h hc hstep => h.correct ((unfinished_iff hstep).mp hc) hstep) hheld

/-- The promise is kept for no number of buffers: only a run in which the allocator never returns
is as promised, and a first operation that is left to finish is not. -/
theorem alloc_never_correct (config : IoUringConfig) (s : IoUringHandle)
    (hinit : init config = some s) :
    ¬(∀ events, EachStep step Correct s events) ∧
      ∀ events, EachStep step Correct s events ↔ EachStep step Unfinished s events := by
  have hiff := correct_iff_unfinished hinit
  refine ⟨fun hcorrect => ?_, hiff⟩
  have hrun := (hiff [.load 0, .exchange 0 false]).mp (hcorrect _)
  have hidle : s.ops 0 = .idle := by
    simp only [init, Option.ite_none_right_eq_some] at hinit
    obtain rfl := Option.some.inj hinit.2
    rfl
  have hload : s.step (.load 0) = some (s.tryIndex 0 s.bufferBitmap).1 := by
    simp [step, transition, hidle]
  obtain ⟨hset, hrun⟩ := hrun _ hload
  have hctz : s.bufferBitmap.ctz.toNat < 64 := BitVec.ctz_lt_iff_ne_zero.mpr hset
  have htry : s.tryIndex 0 s.bufferBitmap =
      ({ s with ops := Function.update s.ops 0 (.allocating s.bufferBitmap) }, none) :=
    if_neg (Nat.not_le.mpr hctz)
  rw [htry] at hrun
  have hexchange : step { s with ops := Function.update s.ops 0 (.allocating s.bufferBitmap) }
      (.exchange 0 false) = some
        ⟨s.buffers, s.bufferBitmap ||| 1#64 <<< s.bufferBitmap.ctz.toNat, Function.update
          (Function.update s.ops 0 (.allocating s.bufferBitmap)) 0
          (.holding s.bufferBitmap.ctz.toNat)⟩ := by
    simp [step, transition]
  obtain ⟨⟨-, hfailed⟩, -⟩ := hrun _ hexchange
  simp at hfailed

/-- The default configuration. -/
theorem alloc_never_correct_default :
    ¬(∀ events, EachStep step Correct
        ⟨16, 0xFFFFFFFFFFFF0000#64, fun _ => .idle⟩ events) ∧
      ∀ events, EachStep step Correct ⟨16, 0xFFFFFFFFFFFF0000#64, fun _ => .idle⟩ events ↔
        EachStep step Unfinished ⟨16, 0xFFFFFFFFFFFF0000#64, fun _ => .idle⟩ events :=
  alloc_never_correct .default _ (by simp [init, IoUringConfig.valid, IoUringConfig.default])

/-- Of the sixteen buffers of the default configuration, the first operation gets number 16. -/
theorem first_alloc_out_of_range : ∃ s s₁ : IoUringHandle, init .default = some s ∧
    run step s [.load 0] = some s₁ ∧ s₁.returned (.exchange 0 false) = some (some 16) ∧
    s₁.buffers = 16 ∧ ¬EachStep step Correct s [.load 0, .exchange 0 false] := by
  have hctz : (0xFFFFFFFFFFFF0000#64).ctz.toNat = 16 := by decide +kernel
  refine ⟨⟨16, 0xFFFFFFFFFFFF0000#64, fun _ => .idle⟩, ⟨16, 0xFFFFFFFFFFFF0000#64,
    Function.update (fun _ => .idle) 0 (.allocating 0xFFFFFFFFFFFF0000#64)⟩, ?_, ?_, ?_, rfl, ?_⟩
  · simp [init, IoUringConfig.valid, IoUringConfig.default]
  · simp [run, step, transition, tryIndex, hctz]
  · simp [returned, transition, hctz]
  · intro hcorrect
    obtain ⟨-, hcorrect⟩ := hcorrect _ (by simp [step, transition, tryIndex, hctz]; rfl)
    obtain ⟨⟨hindex, -⟩, -⟩ := hcorrect _ (by simp [step, transition, hctz]; rfl)
    have hlt := (hindex 16 (by simp [returned, transition, hctz])).1
    exact absurd hlt (by decide)

end IoUringHandle

end Tachyon
