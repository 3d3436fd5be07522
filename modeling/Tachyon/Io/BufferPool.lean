import Tachyon.Core.Types
import Tachyon.Library.EventRuns
import Tachyon.Library.SharedSemaphores

/-!
# The buffer pool

`alloc` takes a permit, counts the buffer and takes one from the queue; `release` counts it off,
puts it back and returns the permit. Other calls come in between. Where a buffer waits to be used
again is a queue of its own, which `prewarm` fills.
-/

namespace Tachyon

open EventRuns

/-- `ArrayQueue` -/
structure ArrayQueue (α : Type) where
  capacity : ℕ
  items : List α
  fits : items.length ≤ capacity

namespace ArrayQueue

variable {α : Type}

def new (capacity : ℕ) : ArrayQueue α := ⟨capacity, [], Nat.zero_le _⟩

def isFull (q : ArrayQueue α) : Bool := q.items.length = q.capacity

/-- `push`; a full queue takes nothing. -/
def push (q : ArrayQueue α) (x : α) : ArrayQueue α :=
  if h : q.items.length < q.capacity then
    ⟨q.capacity, q.items ++ [x], by rw [List.length_append]; exact h⟩
  else q

/-- `pop`, where it takes something. -/
def rest (q : ArrayQueue α) : ArrayQueue α :=
  ⟨q.capacity, q.items.tail, by rw [List.length_tail]; exact (Nat.sub_le _ _).trans q.fits⟩

@[simp] theorem push_capacity (q : ArrayQueue α) (x : α) : (q.push x).capacity = q.capacity := by
  unfold push
  split <;> rfl

theorem mem_push {q : ArrayQueue α} {x y : α} (h : y ∈ (q.push x).items) : y ∈ q.items ∨ y = x := by
  unfold push at h
  split at h
  · exact (List.mem_append.mp h).imp_right List.mem_singleton.mp
  · exact Or.inl h

end ArrayQueue

/-- How far a call has come: an `alloc`, then its buffer and the `release` of it, or a `prewarm`. -/
inductive BufferPhase
  | started
  | waits
  /-- The permit has come while the call waited for it. -/
  | granted
  /-- The call has the permit and has forgotten it. -/
  | acquired
  | counted
  /-- `alloc` has returned the buffer, here with what was written to it since. -/
  | out (buffer : Bytes)
  /-- `release` has counted the buffer off. -/
  | uncounted (buffer : Bytes)
  /-- `release` has put the buffer back. -/
  | pushed
  | warming
  /-- `prewarm` has read how many buffers are out. -/
  | loaded (outstanding : UInt64)
  | filling (left : ℕ)
  /-- `prewarm` has seen that the queue is not full. -/
  | notFull (left : ℕ)
  | ended

namespace BufferPhase

def holds : BufferPhase → Bool
  | granted | acquired | counted | out _ | uncounted _ | pushed => true
  | _ => false

def waitsFor : BufferPhase → Option Unit
  | waits => some ()
  | _ => none

def grant : BufferPhase → BufferPhase
  | waits => granted
  | phase => phase

/-- The buffer is part of `outstanding`. -/
def isCounted : BufferPhase → Bool
  | counted | out _ => true
  | _ => false

/-- The call has a permit and its buffer is not counted. -/
def isUncounted (phase : BufferPhase) : Bool := phase.holds && !phase.isCounted

def isOut : BufferPhase → Bool
  | out _ => true
  | _ => false

/-- The call is an `alloc` or a `release` between two of its steps. -/
def isBetween : BufferPhase → Bool
  | granted | acquired | counted | uncounted _ | pushed => true
  | _ => false

end BufferPhase

/-- What the calls do with the semaphore. -/
def bufferUse : SemaphoreUse Unit BufferPhase where
  holds phase _ := phase.holds
  waits phase := phase.waitsFor
  grant phase := phase.grant
  waits_grant phase _ _ := by cases phase <;> rfl
  holds_grant phase _ h := by
    cases phase with
    | waits => exact ⟨rfl, fun _ => rfl⟩
    | _ => cases h

/-- `BufferPool`, with all calls on it and its clones. -/
structure BufferPool where
  capacity : UInt64
  system : SemaphoreSystem Unit BufferPhase
  outstanding : UInt64
  pool : ArrayQueue Bytes
  /-- The buffers as `alloc` has returned them. -/
  returned : List Bytes

inductive BufferEvent
  | alloc
  | prewarm
  /-- The next step of a call. -/
  | step (i : ℕ)
  /-- The future of an `alloc` is dropped where it can wait. -/
  | cancel (i : ℕ)
  /-- The buffer is written to. -/
  | write (i : ℕ) (data : Bytes)
  /-- The buffer is released, or its guard is dropped. -/
  | release (i : ℕ)

namespace BufferPool

def new (capacity : UInt64) : BufferPool where
  capacity := capacity
  system := ⟨fun _ => .new capacity.toNat, []⟩
  outstanding := 0
  pool := .new (max capacity.toNat 1)
  returned := []

/-- `with_prefill` -/
def withPrefill (capacity : UInt64) : BufferPool :=
  { new capacity with
    pool := (List.range capacity.toNat).foldl (fun pool _ => pool.push [])
      (.new (max capacity.toNat 1)) }

/-- The call goes on without the semaphore. -/
def advance (i : ℕ) (phase : BufferPhase) (s : BufferPool) : BufferPool :=
  { s with system := s.system.become i phase }

/-- The call comes to its end and returns its permit. -/
def giveBack (i : ℕ) (s : BufferPool) : BufferPool :=
  { s with system := s.system.release bufferUse () i .ended }

/-- The next step of a call. -/
def callStep (i : ℕ) (s : BufferPool) : BufferPhase → Option BufferPool
  | .started => some { s with system := s.system.request () i .acquired .waits }
  | .granted => some (s.advance i .acquired)
  | .acquired => some { s.advance i .counted with outstanding := s.outstanding + 1 }
  | .counted =>
    let buffer := s.pool.items.head?.getD []
    some { s.advance i (.out buffer) with
      pool := s.pool.rest
      returned := s.returned ++ [buffer] }
  | .uncounted _ => some { s.advance i .pushed with pool := s.pool.push [] }
  | .pushed => some (s.giveBack i)
  | .warming => some (s.advance i (.loaded s.outstanding))
  | .loaded outstanding =>
    let toFill := s.capacity.toNat - outstanding.toNat - s.pool.items.length
    some (s.advance i (.filling toFill))
  | .filling 0 => some (s.advance i .ended)
  | .filling (left + 1) =>
    if s.pool.isFull then some (s.advance i .ended) else some (s.advance i (.notFull left))
  | .notFull left => some { s.advance i (.filling left) with pool := s.pool.push [] }
  | .waits | .out _ | .ended => none

/-- The pool after an event. -/
def step (s : BufferPool) : BufferEvent → Option BufferPool
  | .alloc => some { s with system := s.system.spawn .started }
  | .prewarm => some { s with system := s.system.spawn .warming }
  | .step i => s.system.tasks[i]?.bind (s.callStep i)
  | .cancel i => s.system.tasks[i]?.bind fun
    | .started => some (s.advance i .ended)
    | .waits => some { s with system := s.system.withdraw () i .ended }
    | .granted => some (s.giveBack i)
    | _ => none
  | .write i data => s.system.tasks[i]?.bind fun
    | .out _ => some (s.advance i (.out data))
    | _ => none
  | .release i => s.system.tasks[i]?.bind fun
    | .out buffer =>
      some { s.advance i (.uncounted buffer) with outstanding := s.outstanding - 1 }
    | _ => none

/-- `available` -/
def available (s : BufferPool) : ℕ := (s.system.semaphores ()).available

/-- The buffers that are out. -/
def out (s : BufferPool) : ℕ := s.system.tasks.countP BufferPhase.isOut

/-- No `alloc` or `release` is between its steps. -/
def Quiet (s : BufferPool) : Prop := ∀ phase ∈ s.system.tasks, phase.isBetween = false

/-- What the pool promises. -/
structure Accounted (capacity : UInt64) (s : BufferPool) : Prop where
  bounded : s.available + s.outstanding.toNat ≤ capacity.toNat
  exact : s.Quiet → s.available + s.outstanding.toNat = capacity.toNat ∧
    s.outstanding.toNat = s.out
  out : s.out ≤ capacity.toNat
  pool : s.pool.items.length ≤ max capacity.toNat 1
  empty : ∀ buffer ∈ s.returned, buffer = []

/-! ### Every step -/

/-- Permits and buffers are conserved, and the buffers in the queue are empty. -/
structure Sound (capacity : UInt64) (s : BufferPool) : Prop where
  conserves : s.system.Conserves bufferUse fun _ => capacity.toNat
  outstanding : s.outstanding.toNat = s.system.tasks.countP BufferPhase.isCounted
  room : s.pool.capacity = max capacity.toNat 1
  clean : ∀ buffer ∈ s.pool.items, buffer = []
  returned : ∀ buffer ∈ s.returned, buffer = []

variable {capacity : UInt64} {s s' : BufferPool} {e : BufferEvent} {i : ℕ}
  {phase phase' : BufferPhase}

@[simp] theorem grant_isCounted (phase : BufferPhase) :
    phase.grant.isCounted = phase.isCounted := by
  cases phase <;> rfl

/-- Permits are available, of counted buffers, or of calls whose buffers are not counted. -/
theorem Sound.available_add (hs : s.Sound capacity) :
    s.available + s.outstanding.toNat + s.system.tasks.countP BufferPhase.isUncounted =
      capacity.toNat := by
  have hpermits : s.available + s.system.holders bufferUse () = capacity.toNat :=
    hs.conserves.permits ()
  have hholders : s.system.holders bufferUse () = s.system.tasks.countP BufferPhase.isCounted +
      s.system.tasks.countP BufferPhase.isUncounted := by
    refine SemaphoreSystem.countP_add fun phase _ => ?_
    change (if phase.holds = true then 1 else 0) = _
    cases phase <;> rfl
  rw [hs.outstanding]
  omega

/-- What holds in every sound state. -/
theorem Sound.accounted (hs : s.Sound capacity) : s.Accounted capacity := by
  have hpermits := hs.available_add
  constructor
  · omega
  · intro hquiet
    have hnone : s.system.tasks.countP BufferPhase.isUncounted = 0 :=
      List.countP_eq_zero.mpr fun phase hphase => by
        have hbetween := hquiet phase hphase
        cases phase <;>
          first | exact Bool.false_ne_true | exact fun _ => Bool.false_ne_true hbetween.symm
    have hsame : s.system.tasks.countP BufferPhase.isCounted = s.out :=
      List.countP_congr fun phase hphase => by
        have hbetween := hquiet phase hphase
        cases phase <;> first | exact Iff.rfl | exact absurd hbetween.symm Bool.false_ne_true
    exact ⟨by omega, hs.outstanding.trans hsame⟩
  · have hout : s.out ≤ s.system.tasks.countP BufferPhase.isCounted :=
      List.countP_mono_left fun phase _ hout => by
        cases phase <;> first | rfl | exact absurd hout Bool.false_ne_true
    have hcounted := hs.outstanding
    omega
  · exact hs.room ▸ s.pool.fits
  · exact hs.returned

/-- The semaphore changes, and as many buffers are counted. -/
theorem Sound.onSystem (hs : s.Sound capacity) {system : SemaphoreSystem Unit BufferPhase}
    (hconserves : system.Conserves bufferUse fun _ => capacity.toNat)
    (hcount : system.tasks.countP BufferPhase.isCounted =
      s.system.tasks.countP BufferPhase.isCounted) :
    Sound capacity { s with system := system } :=
  ⟨hconserves, hs.outstanding.trans hcount.symm, hs.room, hs.clean, hs.returned⟩

/-- A call goes on without the semaphore; what it adds to the count of buffers is counted. -/
theorem Sound.advance (hs : s.Sound capacity) (ht : s.system.tasks[i]? = some phase)
    (phase' : BufferPhase) (outstanding : UInt64) (pool : ArrayQueue Bytes) (returned : List Bytes)
    (hholds : phase'.holds = phase.holds) (hwaits : phase'.waitsFor = phase.waitsFor)
    (houtstanding : outstanding.toNat + (if phase.isCounted then 1 else 0) =
      s.outstanding.toNat + if phase'.isCounted then 1 else 0)
    (hroom : pool.capacity = s.pool.capacity) (hclean : ∀ buffer ∈ pool.items, buffer = [])
    (hreturned : ∀ buffer ∈ returned, buffer = []) :
    Sound capacity { s.advance i phase' with
      outstanding := outstanding
      pool := pool
      returned := returned } := by
  refine ⟨hs.conserves.become ht (fun _ => hholds) hwaits, ?_, hroom.trans hs.room, hclean,
    hreturned⟩
  have hset := @SemaphoreSystem.countP_set_add BufferPhase _ i phase phase'
    BufferPhase.isCounted ht
  have hbefore := hs.outstanding
  change outstanding.toNat = (s.system.tasks.set i phase').countP BufferPhase.isCounted
  omega

/-- A call goes on and changes nothing else. -/
theorem Sound.go (hs : s.Sound capacity) (ht : s.system.tasks[i]? = some phase)
    (hholds : phase'.holds = phase.holds) (hwaits : phase'.waitsFor = phase.waitsFor)
    (hcounted : phase'.isCounted = phase.isCounted) : (s.advance i phase').Sound capacity :=
  hs.advance ht phase' _ _ _ hholds hwaits (by rw [hcounted]) rfl hs.clean hs.returned

/-- A call comes to its end and returns its permit. -/
theorem Sound.giveBack (hs : s.Sound capacity) (ht : s.system.tasks[i]? = some phase)
    (hholds : phase.holds = true) (hwaits : phase.waitsFor = none)
    (hcounted : phase.isCounted = false) : (s.giveBack i).Sound capacity := by
  have hgains : SemaphoreSystem.Gains bufferUse () .ended phase := ⟨rfl, fun _ => hholds⟩
  exact hs.onSystem (hs.conserves.release ht hwaits hgains rfl)
    (SemaphoreSystem.countP_release ht hcounted.symm grant_isCounted)

/-- A call that puts an empty buffer into the queue. -/
theorem Sound.push (hs : s.Sound capacity) (ht : s.system.tasks[i]? = some phase)
    (hholds : phase'.holds = phase.holds) (hwaits : phase'.waitsFor = phase.waitsFor)
    (hcounted : phase'.isCounted = phase.isCounted) :
    Sound capacity { s.advance i phase' with pool := s.pool.push [] } := by
  refine hs.advance ht phase' s.outstanding (s.pool.push []) s.returned hholds hwaits
    (by rw [hcounted]) (ArrayQueue.push_capacity _ _) (fun buffer hbuffer => ?_) hs.returned
  exact (ArrayQueue.mem_push hbuffer).elim (hs.clean buffer) id

/-- Another buffer can be counted where a call has a permit for it. -/
theorem Sound.toNat_add_one (hs : s.Sound capacity) (ht : s.system.tasks[i]? = some phase)
    (huncounted : phase.isUncounted = true) :
    (s.outstanding + 1).toNat = s.outstanding.toNat + 1 := by
  have hpermits := hs.available_add
  have hpos : 0 < s.system.tasks.countP BufferPhase.isUncounted :=
    List.countP_pos_iff.mpr ⟨phase, List.mem_of_getElem? ht, huncounted⟩
  have hbound := capacity.toNat_lt
  rw [UInt64.toNat_add, UInt64.toNat_one, Nat.mod_eq_of_lt (by omega)]

/-- A buffer that is out is counted. -/
theorem Sound.toNat_sub_one (hs : s.Sound capacity) (ht : s.system.tasks[i]? = some phase)
    (hcounted : phase.isCounted = true) :
    (s.outstanding - 1).toNat + 1 = s.outstanding.toNat := by
  have hpos : 0 < s.system.tasks.countP BufferPhase.isCounted :=
    List.countP_pos_iff.mpr ⟨phase, List.mem_of_getElem? ht, hcounted⟩
  have houtstanding := hs.outstanding
  have hle : (1 : UInt64) ≤ s.outstanding := by
    rw [UInt64.le_iff_toNat_le, UInt64.toNat_one]
    omega
  rw [UInt64.toNat_sub_of_le _ _ hle, UInt64.toNat_one]
  omega

/-- The next step of a call. -/
theorem Sound.callStep (hs : s.Sound capacity) (ht : s.system.tasks[i]? = some phase)
    (h : s.callStep i phase = some s') : s'.Sound capacity := by
  cases phase with
  | waits | out _ | ended => cases h
  | started =>
    cases h
    exact hs.onSystem (hs.conserves.request ht rfl ⟨rfl, fun _ => rfl⟩ rfl (fun _ => rfl) rfl)
      (SemaphoreSystem.countP_request ht rfl rfl)
  | granted =>
    cases h
    exact hs.go ht rfl rfl rfl
  | acquired =>
    cases h
    exact hs.advance ht .counted (s.outstanding + 1) s.pool s.returned rfl rfl
      (hs.toNat_add_one ht rfl) rfl hs.clean hs.returned
  | counted =>
    cases h
    refine hs.advance ht (.out _) s.outstanding s.pool.rest (s.returned ++ [_]) rfl rfl rfl rfl
      (fun buffer hbuffer => ?_) fun buffer hbuffer => ?_
    · exact hs.clean buffer (List.mem_of_mem_tail hbuffer)
    · rcases List.mem_append.mp hbuffer with hbuffer | hbuffer
      · exact hs.returned buffer hbuffer
      · rw [List.mem_singleton.mp hbuffer]
        cases hitems : s.pool.items with
        | nil => rfl
        | cons first rest => exact hs.clean first (hitems ▸ List.mem_cons_self)
  | uncounted buffer =>
    cases h
    exact hs.push ht rfl rfl rfl
  | pushed =>
    cases h
    exact hs.giveBack ht rfl rfl rfl
  | warming =>
    cases h
    exact hs.go ht rfl rfl rfl
  | loaded outstanding =>
    cases h
    exact hs.go ht rfl rfl rfl
  | filling left =>
    cases left with
    | zero =>
      cases h
      exact hs.go ht rfl rfl rfl
    | succ left =>
      by_cases hfull : s.pool.isFull = true
      · rw [BufferPool.callStep, if_pos hfull] at h
        cases h
        exact hs.go ht rfl rfl rfl
      · rw [BufferPool.callStep, if_neg hfull] at h
        cases h
        exact hs.go ht rfl rfl rfl
  | notFull left =>
    cases h
    exact hs.push ht rfl rfl rfl

/-- A new call. -/
theorem Sound.spawn (hs : s.Sound capacity) (hholds : phase.holds = false)
    (hwaits : phase.waitsFor = none) :
    Sound capacity { s with system := s.system.spawn phase } := by
  refine hs.onSystem (hs.conserves.spawn (fun _ => hholds) hwaits) ?_
  have hnot : phase.isCounted = false := by
    cases phase <;> first | rfl | exact absurd hholds (Bool.false_ne_true ·.symm)
  rw [SemaphoreSystem.spawn, List.countP_append, List.countP_singleton, hnot]
  rfl

/-- Every event keeps the pool sound. -/
theorem Sound.step (hs : s.Sound capacity) (h : s.step e = some s') : s'.Sound capacity := by
  cases e with
  | alloc =>
    cases h
    exact hs.spawn rfl rfl
  | prewarm =>
    cases h
    exact hs.spawn rfl rfl
  | step i =>
    obtain ⟨phase, ht, h⟩ := Option.bind_eq_some_iff.mp h
    exact hs.callStep ht h
  | cancel i =>
    obtain ⟨phase, ht, h⟩ := Option.bind_eq_some_iff.mp h
    cases phase with
    | started =>
      cases h
      exact hs.go ht rfl rfl rfl
    | waits =>
      cases h
      exact hs.onSystem (hs.conserves.withdraw ht rfl (fun _ => rfl) rfl)
        (SemaphoreSystem.countP_set_of_eq _ ht rfl)
    | granted =>
      cases h
      exact hs.giveBack ht rfl rfl rfl
    | _ => cases h
  | write i data =>
    obtain ⟨phase, ht, h⟩ := Option.bind_eq_some_iff.mp h
    cases phase with
    | out buffer =>
      cases h
      exact hs.go ht rfl rfl rfl
    | _ => cases h
  | release i =>
    obtain ⟨phase, ht, h⟩ := Option.bind_eq_some_iff.mp h
    cases phase with
    | out buffer =>
      cases h
      exact hs.advance ht (.uncounted buffer) (s.outstanding - 1) s.pool s.returned rfl rfl
        (hs.toNat_sub_one ht rfl) rfl hs.clean hs.returned
    | _ => cases h

/-! ### Every run -/

theorem sound_new (capacity : UInt64) : (new capacity).Sound capacity where
  conserves := SemaphoreSystem.new_conserves _ _
  outstanding := rfl
  room := rfl
  clean _ hbuffer := absurd hbuffer List.not_mem_nil
  returned _ hbuffer := absurd hbuffer List.not_mem_nil

/-- The queue that `with_prefill` fills has the same room and only empty buffers. -/
theorem sound_withPrefill (capacity : UInt64) : (withPrefill capacity).Sound capacity := by
  have hfill : ∀ (l : List ℕ) (pool : ArrayQueue Bytes), (∀ buffer ∈ pool.items, buffer = []) →
      (l.foldl (fun pool _ => pool.push []) pool).capacity = pool.capacity ∧
      ∀ buffer ∈ (l.foldl (fun pool _ => pool.push []) pool).items, buffer = [] := by
    intro l
    induction l with
    | nil => exact fun pool hclean => ⟨rfl, hclean⟩
    | cons _ l ih =>
      intro pool hclean
      obtain ⟨hcapacity, hall⟩ := ih (pool.push []) fun buffer hbuffer =>
        (ArrayQueue.mem_push hbuffer).elim (hclean buffer) id
      exact ⟨hcapacity.trans (ArrayQueue.push_capacity _ _), hall⟩
  obtain ⟨hcapacity, hclean⟩ := hfill (List.range capacity.toNat) (.new (max capacity.toNat 1))
    fun _ hbuffer => absurd hbuffer List.not_mem_nil
  exact ⟨SemaphoreSystem.new_conserves _ _, rfl, hcapacity, hclean,
    fun _ hbuffer => absurd hbuffer List.not_mem_nil⟩

/-- Whatever the calls do, permits and buffers add up, and every buffer comes out empty. -/
theorem buffers_accounted (capacity : UInt64) (events : List BufferEvent) :
    EachState step (Accounted capacity) (new capacity) events ∧
      EachState step (Accounted capacity) (withPrefill capacity) events := by
  have hall : ∀ s : BufferPool, s.Sound capacity →
      EachState step (Accounted capacity) s events := by
    intro s hs
    have hsteps : EachStep step (fun _ _ => True) s events := .of_forall fun _ _ => trivial
    have hsound := hsteps.eachState (fun _ _ _ hs _ h => hs.step h) hs
    exact hsound.imp fun _ hs => hs.accounted
  exact ⟨hall _ (sound_new capacity), hall _ (sound_withPrefill capacity)⟩

end BufferPool

end Tachyon
