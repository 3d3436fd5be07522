import Tachyon.Engine.WriteContract
import Tachyon.Io.Uring
import Tachyon.Library.ByteFile

/-!
# Reads and writes through io_uring

An initialised `IoUringStorage` under any number of calls at once. Each runs on a thread of its
own, takes the lock of the ring and then a fixed buffer; what the allocator gives it is never
one of the registered buffers.
-/

namespace Tachyon

open EventRuns ByteFile

/-- A call of `AsyncStorage` that goes through the ring. -/
inductive UringRequest where
  | write (offset : ℕ) (data : List UInt8)
  | read (offset len : ℕ)
  | sync
  deriving DecidableEq

/-- What a call returns. -/
inductive UringAnswer where
  | wrote (n : ℕ)
  | read (data : List UInt8)
  | synced
  deriving DecidableEq

/-- Where a call is. -/
inductive UringCall where
  | idle
  /-- On its thread, before the lock. -/
  | waiting (op : UringRequest)
  /-- In `alloc_buffer_index`. -/
  | allocating (op : UringRequest)
  /-- With an index, before it takes the buffer. -/
  | holding (op : UringRequest) (idx : ℕ)
  /-- In `submit_and_wait`. -/
  | submitted (op : UringRequest) (idx : ℕ)
  | syncing
  | returned (result : DownloadResult UringAnswer)
  deriving DecidableEq

/-- A call that has returned, and whether the lock was poisoned before. -/
structure UringReturn where
  op : UringRequest
  poisoned : Bool
  result : DownloadResult UringAnswer
  deriving DecidableEq

/-- `IoUringStorage` after `init`, with its calls, how often the kernel was given a buffer, and
what was returned, latest first. -/
structure UringStorage where
  config : IoUringConfig
  handle : IoUringHandle
  holder : Option ℕ
  poisoned : Bool
  calls : ℕ → UringCall
  file : List UInt8
  submissions : ℕ
  log : List UringReturn

/-- What happens to the storage. -/
inductive UringStorageEvent where
  | call (i : ℕ) (op : UringRequest)
  | lock (i : ℕ)
  /-- The allocator reads the bitmap. -/
  | load (i : ℕ)
  | exchange (i : ℕ) (spurious : Bool)
  /-- The buffer is taken from the list; `message` is what tokio says of a task that panics. -/
  | index (i : ℕ) (message : String)
  /-- The completion of a read or write: an error, or how many bytes. -/
  | complete (i : ℕ) (result : Except String ℕ)
  | synced (i : ℕ) (result : Except String Unit)
  /-- `submit_allocate`, past the ring. -/
  | allocate (size : ℕ) (done : Bool)

/-- The error of `lock` on a poisoned mutex. -/
def poisonError : DownloadError := .io .other "poisoned lock: another task failed inside"

/-- The error where `alloc_buffer_index` finds no buffer. -/
def exhaustedError : UringRequest → DownloadError
  | .read _ _ => .io .other "io_uring fixed buffer 已耗尽,并发读取操作过多"
  | _ => .io .other "io_uring fixed buffer 已耗尽,并发写入操作过多"

namespace UringStorage

/-- A storage that `init` has set up. -/
def new (config : IoUringConfig) (handle : IoUringHandle) (file : List UInt8) : UringStorage :=
  ⟨config, handle, none, false, fun _ => .idle, file, 0, []⟩

/-- A call goes on. -/
def goes (s : UringStorage) (i : ℕ) (call : UringCall) : UringStorage :=
  { s with calls := Function.update s.calls i call }

/-- A call returns. -/
def returns (s : UringStorage) (i : ℕ) (op : UringRequest) (result : DownloadResult UringAnswer) :
    UringStorage :=
  { s with
    calls := Function.update s.calls i (.returned result)
    log := ⟨op, s.poisoned, result⟩ :: s.log }

/-- The lock is let go. -/
def unlocks (s : UringStorage) : UringStorage := { s with holder := none }

/-- A call begins: a write that is too long is refused. -/
def begins (s : UringStorage) (i : ℕ) : UringRequest → UringStorage
  | .write offset data =>
    match validateFixedBufferWriteLen data.length s.config.bufferSize with
    | .error e => s.returns i (.write offset data) (.error e)
    | .ok () => s.goes i (.waiting (.write offset data))
  | op => s.goes i (.waiting op)

/-- What the allocator's step does to the call. -/
def allocates (s : UringStorage) (i : ℕ) (op : UringRequest) :
    IoUringHandle × Option (Option ℕ) → UringStorage
  | (handle, none) => { s with handle := handle }
  | (handle, some none) =>
    ({ s with handle := handle }.returns i op (.error (exhaustedError op))).unlocks
  | (handle, some (some idx)) => { s with handle := handle }.goes i (.holding op idx)

/-- What the kernel makes of a read or write with a fixed buffer: the file, and the answer. -/
def transfers (s : UringStorage) : UringRequest → ℕ → List UInt8 × UringAnswer
  | .write offset data, n => (pwrite s.file offset (data.take n), .wrote n)
  | .read offset len, n =>
    (s.file, .read (((s.file.drop offset).take (min len s.config.bufferSize)).take n))
  | .sync, _ => (s.file, .synced)

/-- One event. -/
def step (s : UringStorage) : UringStorageEvent → Option UringStorage
  | .call i op =>
    match s.calls i with
    | .idle | .returned _ => some (s.begins i op)
    | _ => none
  | .lock i =>
    match s.calls i, s.holder with
    | .waiting op, none =>
      if s.poisoned then some (s.returns i op (.error poisonError))
      else
        match op with
        | .sync => some ({ s with holder := some i }.goes i .syncing)
        | op => some ({ s with holder := some i }.goes i (.allocating op))
    | _, _ => none
  | .load i =>
    match s.calls i with
    | .allocating op => (s.handle.transition (.load i)).map (s.allocates i op)
    | _ => none
  | .exchange i spurious =>
    match s.calls i with
    | .allocating op => (s.handle.transition (.exchange i spurious)).map (s.allocates i op)
    | _ => none
  | .index i message =>
    match s.calls i with
    | .holding op idx =>
      if idx < s.handle.buffers then
        some ({ s with submissions := s.submissions + 1 }.goes i (.submitted op idx))
      else
        -- the guard of the lock is dropped by the panic, the index is not freed
        some { (s.returns i op (.error (.io .other message))).unlocks with poisoned := true }
    | _ => none
  | .complete i result =>
    match s.calls i with
    | .submitted op _ =>
      (s.handle.step (.free i)).map fun handle =>
        match result with
        | .error e => ({ s with handle := handle }.returns i op (.error (.io .other e))).unlocks
        | .ok n =>
          let (file, answer) := s.transfers op n
          ({ s with handle := handle, file := file }.returns i op (.ok answer)).unlocks
    | _ => none
  | .synced i result =>
    match s.calls i with
    | .syncing =>
      match result with
      | .error e => some (s.returns i .sync (.error (.io .other e))).unlocks
      | .ok () => some (s.returns i .sync (.ok .synced)).unlocks
    | _ => none
  | .allocate size done => some (if done then { s with file := reserve s.file size } else s)

/-- A write that is refused for its length, before the ring. -/
def Refused (config : IoUringConfig) : UringRequest → Prop
  | .write _ data => validateFixedBufferWriteLen data.length config.bufferSize ≠ .ok ()
  | _ => False

/-- What the storage has done since it held `file`: the kernel got no buffer, only syncs
succeeded, and the file has grown by zeros at most. With fewer than 64 buffers the first read or
write that got to the ring has poisoned the lock. -/
structure Sound (file : List UInt8) (s : UringStorage) : Prop where
  unsubmitted : s.submissions = 0
  results : ∀ r ∈ s.log, ∀ answer, r.result = .ok answer → answer = .synced ∧ r.poisoned = false
  lost : s.config.bufferCount < 64 → ∀ r ∈ s.log, r.op ≠ .sync →
    Refused s.config r.op ∨ s.poisoned = true
  file : ∃ n, s.file = file ++ List.replicate n 0

/-- The call has the lock. -/
def inLock : UringCall → Bool
  | .allocating _ | .holding _ _ | .submitted _ _ | .syncing => true
  | _ => false

/-- What every reachable state keeps. -/
structure Inv (file : List UInt8) (s : UringStorage) : Prop extends Sound file s where
  unused : s.handle.Unused
  buffers : s.handle.buffers = s.config.bufferCount
  marked : s.config.bufferCount < 64 →
    s.handle.bufferBitmap.getLsbD s.config.bufferCount = true
  lock : ∀ i, inLock (s.calls i) = true → s.holder = some i ∧ s.poisoned = false
  allocating : ∀ i, s.calls i ≠ .allocating .sync
  holding : ∀ i op idx, s.calls i = .holding op idx → op ≠ .sync ∧ s.handle.Holds i idx
  submitted : ∀ i op idx, s.calls i ≠ .submitted op idx

section

variable {file : List UInt8} {s s' : UringStorage} {i : ℕ} {op : UringRequest}
  {call : UringCall} {result : DownloadResult UringAnswer}

/-! ### One call moves -/

/-- One call moves, the others keep what they have. -/
theorem Inv.move (h : s.Inv file) (hsound : s'.Sound file) (hconfig : s'.config = s.config)
    (hcalls : s'.calls = Function.update s.calls i call) (hunused : s'.handle.Unused)
    (hbuffers : s'.handle.buffers = s.handle.buffers)
    (hmarked : s.handle.bufferBitmap.getLsbD s.config.bufferCount = true →
      s'.handle.bufferBitmap.getLsbD s.config.bufferCount = true)
    (hops : ∀ j ≠ i, s'.handle.ops j = s.handle.ops j)
    (hlock : ∀ j ≠ i, inLock (s.calls j) = true → s'.holder = some j ∧ s'.poisoned = false)
    (hown : inLock call = true → s'.holder = some i ∧ s'.poisoned = false)
    (hallocating : call ≠ .allocating .sync)
    (hholding : ∀ op idx, call = .holding op idx → op ≠ .sync ∧ s'.handle.Holds i idx)
    (hsubmitted : ∀ op idx, call ≠ .submitted op idx) : s'.Inv file where
  toSound := hsound
  unused := hunused
  buffers := by rw [hbuffers, hconfig, h.buffers]
  marked hfew := by
    rw [hconfig] at hfew ⊢
    exact hmarked (h.marked hfew)
  lock j hj := by
    rw [hcalls] at hj
    by_cases hji : j = i
    · subst hji
      rw [Function.update_self] at hj
      exact hown hj
    · rw [Function.update_of_ne hji] at hj
      exact hlock j hji hj
  allocating j hj := by
    rw [hcalls] at hj
    by_cases hji : j = i
    · subst hji
      rw [Function.update_self] at hj
      exact hallocating hj
    · rw [Function.update_of_ne hji] at hj
      exact h.allocating j hj
  holding j op idx hj := by
    rw [hcalls] at hj
    by_cases hji : j = i
    · subst hji
      rw [Function.update_self] at hj
      exact hholding op idx hj
    · rw [Function.update_of_ne hji] at hj
      obtain ⟨hop, hholds⟩ := h.holding j op idx hj
      exact ⟨hop, (hops j hji).trans hholds⟩
  submitted j op idx hj := by
    rw [hcalls] at hj
    by_cases hji : j = i
    · subst hji
      rw [Function.update_self] at hj
      exact hsubmitted op idx hj
    · rw [Function.update_of_ne hji] at hj
      exact h.submitted j op idx hj

/-- A call that returns is put into the log. -/
theorem Sound.logged (h : s.Sound file) {r : UringReturn} (hlog : s'.log = r :: s.log)
    (hsubmissions : s'.submissions = s.submissions) (hconfig : s'.config = s.config)
    (hfile : s'.file = s.file) (hpoisoned : s.poisoned = true → s'.poisoned = true)
    (hresult : ∀ answer, r.result = .ok answer → answer = .synced ∧ r.poisoned = false)
    (hlost : s.config.bufferCount < 64 → r.op ≠ .sync →
      Refused s.config r.op ∨ s'.poisoned = true) : s'.Sound file where
  unsubmitted := by rw [hsubmissions, h.unsubmitted]
  results x hx := by
    rw [hlog] at hx
    rcases List.mem_cons.mp hx with rfl | hold
    · exact hresult
    · exact h.results x hold
  lost hfew x hx hop := by
    rw [hconfig] at hfew ⊢
    rw [hlog] at hx
    rcases List.mem_cons.mp hx with rfl | hold
    · exact hlost hfew hop
    · exact (h.lost hfew x hold hop).imp_right hpoisoned
  file := by
    rw [hfile]
    exact h.file

/-- A call goes on without the lock, or returns without it. -/
theorem Inv.goes (h : s.Inv file) (hcall : inLock call = false) : (s.goes i call).Inv file := by
  refine h.move ⟨h.unsubmitted, h.results, h.lost, h.file⟩ rfl rfl h.unused rfl id
    (fun _ _ => rfl) (fun j _ hj => h.lock j hj) (fun hown => ?_) ?_ ?_ ?_
  · rw [hcall] at hown
    cases hown
  · rintro rfl
    cases hcall
  · rintro op idx rfl
    cases hcall
  · rintro op idx rfl
    cases hcall

theorem Inv.returns (h : s.Inv file)
    (hresult : ∀ answer, result = .ok answer → answer = .synced ∧ s.poisoned = false)
    (hlost : s.config.bufferCount < 64 → op ≠ .sync →
      Refused s.config op ∨ s.poisoned = true) : (s.returns i op result).Inv file := by
  refine h.move (h.toSound.logged rfl rfl rfl rfl id hresult hlost) rfl rfl h.unused rfl id
    (fun _ _ => rfl) (fun j _ hj => h.lock j hj) ?_ UringCall.noConfusion ?_ ?_
  · exact fun hown => Bool.noConfusion hown
  · exact fun _ _ => UringCall.noConfusion
  · exact fun _ _ => UringCall.noConfusion

/-- The call with the lock gives it back when it returns. -/
theorem Inv.leaves (h : s.Inv file) (hlocked : inLock (s.calls i) = true)
    {handle : IoUringHandle} (hunused : handle.Unused)
    (hbuffers : handle.buffers = s.handle.buffers)
    (hmarked : s.handle.bufferBitmap.getLsbD s.config.bufferCount = true →
      handle.bufferBitmap.getLsbD s.config.bufferCount = true)
    (hops : ∀ j ≠ i, handle.ops j = s.handle.ops j) {poisoned : Bool}
    (hresult : ∀ answer, result = .ok answer → answer = .synced)
    (hlost : s.config.bufferCount < 64 → op ≠ .sync → poisoned = true) :
    Inv file { (({ s with handle := handle } : UringStorage).returns i op result).unlocks with
      poisoned := poisoned } := by
  obtain ⟨hholder, hclean⟩ := h.lock i hlocked
  refine h.move (h.toSound.logged rfl rfl rfl rfl ?_ ?_ fun hfew hop => .inr (hlost hfew hop)) rfl
    rfl hunused hbuffers hmarked hops (fun j hj hin => ?_) ?_ UringCall.noConfusion ?_ ?_
  · intro hp
    rw [hclean] at hp
    cases hp
  · exact fun answer hanswer => ⟨hresult answer hanswer, hclean⟩
  · have hsame := (h.lock j hin).1
    rw [hholder] at hsame
    exact absurd (Option.some.inj hsame).symm hj
  · exact fun hown => Bool.noConfusion hown
  · exact fun _ _ => UringCall.noConfusion
  · exact fun _ _ => UringCall.noConfusion

/-! ### Each event -/

theorem Inv.locked (h : s.Inv file) (hfree : s.holder = none) (hclean : s.poisoned = false)
    (hcall : call = .syncing ∨ ∃ op, op ≠ .sync ∧ call = .allocating op) :
    (({ s with holder := some i } : UringStorage).goes i call).Inv file := by
  refine h.move ⟨h.unsubmitted, h.results, h.lost, h.file⟩ rfl rfl h.unused rfl id
    (fun _ _ => rfl) (fun j _ hin => ?_) (fun _ => ⟨rfl, hclean⟩) ?_ ?_ ?_
  · have hnone := (h.lock j hin).1
    rw [hfree] at hnone
    cases hnone
  · rintro rfl
    rcases hcall with hc | ⟨op, hop, hc⟩
    · cases hc
    · exact hop (UringCall.allocating.inj hc).symm
  · rintro op idx rfl
    rcases hcall with hc | ⟨_, -, hc⟩ <;> cases hc
  · rintro op idx rfl
    rcases hcall with hc | ⟨_, -, hc⟩ <;> cases hc

theorem Inv.lockStep (h : s.Inv file) (hs : s.step (.lock i) = some s') : s'.Inv file := by
  simp only [step] at hs
  split at hs
  · rename_i op hcall hfree
    by_cases hpoisoned : s.poisoned = true
    · rw [if_pos hpoisoned] at hs
      obtain rfl := Option.some.inj hs
      exact h.returns (fun _ hanswer => by cases hanswer) fun _ _ => .inr hpoisoned
    · rw [if_neg hpoisoned] at hs
      have hclean := eq_false_of_ne_true hpoisoned
      cases op with
      | sync =>
        obtain rfl := Option.some.inj hs
        exact h.locked hfree hclean (.inl rfl)
      | write offset data =>
        obtain rfl := Option.some.inj hs
        exact h.locked hfree hclean (.inr ⟨_, fun hsync => (by cases hsync), rfl⟩)
      | read offset len =>
        obtain rfl := Option.some.inj hs
        exact h.locked hfree hclean (.inr ⟨_, fun hsync => (by cases hsync), rfl⟩)
  · cases hs

/-- With fewer than 64 buffers the bitmap is never empty: the allocator always finds an index,
and it is one of no buffer. -/
theorem Inv.allocates (h : s.Inv file) (hcall : s.calls i = .allocating op) {e : UringEvent}
    (he : e = .load i ∨ ∃ spurious, e = .exchange i spurious)
    {r : IoUringHandle × Option (Option ℕ)} (hr : s.handle.transition e = some r) :
    (s.allocates i op r).Inv file := by
  have hlocked : inLock (s.calls i) = true := by rw [hcall]; rfl
  obtain ⟨hholder, hclean⟩ := h.lock i hlocked
  have hop : op ≠ .sync := fun hsync => h.allocating i (hsync ▸ hcall)
  have hunused : r.1.Unused := h.unused.step (e := e) (by simp [IoUringHandle.step, hr])
  obtain ⟨k, hk, rfl⟩ | ⟨k, current, rfl, hallocating, hcurrent, rfl⟩ |
    ⟨k, idx, -, ⟨rfl, -⟩ | ⟨rfl, -⟩⟩ := IoUringHandle.transition_cases hr
  · have hki : k = i := by
      rcases he with rfl | ⟨spurious, rfl⟩
      · rcases hk with hk | ⟨_, hk, -⟩
        · exact (UringEvent.load.inj hk).symm
        · cases hk
      · rcases hk with hk | ⟨_, hk, -⟩
        · cases hk
        · exact (UringEvent.exchange.inj hk).1.symm
    subst hki
    unfold IoUringHandle.tryIndex at hunused ⊢
    split
    · rename_i hempty
      rw [if_pos hempty] at hunused
      have hmany : s.config.bufferCount < 64 → False := by
        intro hfew
        have hmark := h.marked hfew
        have hzero : s.handle.bufferBitmap = 0#64 := by
          by_contra hne
          have hlt : s.handle.bufferBitmap.ctz.toNat < 64 := BitVec.ctz_lt_iff_ne_zero.mpr hne
          omega
        rw [hzero] at hmark
        simp at hmark
      let handle : IoUringHandle := { s.handle with ops := Function.update s.handle.ops k .idle }
      let done := ({ s with handle := handle } : UringStorage).returns k op
        (.error (exhaustedError op))
      have hleaves : Inv file { done.unlocks with poisoned := false } :=
        h.leaves hlocked hunused rfl id (fun j hj => Function.update_of_ne hj _ _)
          (fun _ hanswer => by cases hanswer) fun hfew _ => (hmany hfew).elim
      rw [← hclean] at hleaves
      exact hleaves
    · rename_i hsome
      rw [if_neg hsome] at hunused
      have hsame : Function.update s.calls k (.allocating op) = s.calls := by
        rw [← hcall, Function.update_eq_self]
      refine h.move
        ⟨h.unsubmitted, h.results, h.lost, h.file⟩ rfl hsame.symm hunused rfl id
        (fun j hj => Function.update_of_ne hj _ _) (fun j _ hin => h.lock j hin)
        (fun _ => ⟨hholder, hclean⟩) (fun hsync => hop (UringCall.allocating.inj hsync))
        (fun _ _ hc => by cases hc) fun _ _ hc => by cases hc
  · obtain rfl : k = i := by
      rcases he with he | ⟨spurious, he⟩
      · cases he
      · exact (UringEvent.exchange.inj he).1
    refine h.move ⟨h.unsubmitted, h.results, h.lost, h.file⟩ rfl rfl hunused rfl (fun hmark => ?_)
      (fun j hj => Function.update_of_ne hj _ _) (fun j _ hin => h.lock j hin)
      (fun _ => ⟨hholder, hclean⟩) (fun hc => by cases hc) (fun op' idx hc => ?_)
      fun _ _ hc => by cases hc
    · rw [hcurrent] at hmark
      have hbit : (current ||| 1#64 <<< current.ctz.toNat).getLsbD s.config.bufferCount = true := by
        rw [BitVec.getLsbD_or, hmark, Bool.true_or]
      exact hbit
    · obtain ⟨rfl, rfl⟩ := UringCall.holding.inj hc
      exact ⟨hop, Function.update_self ..⟩
  · rcases he with he | ⟨_, he⟩ <;> cases he
  · rcases he with he | ⟨_, he⟩ <;> cases he

/-- The index is that of no buffer: the call panics with the lock. -/
theorem Inv.indexStep (h : s.Inv file) {message : String}
    (hs : s.step (.index i message) = some s') : s'.Inv file := by
  simp only [step] at hs
  split at hs
  · rename_i op idx hcall
    obtain ⟨hop, hholds⟩ := h.holding i op idx hcall
    have hlocked : inLock (s.calls i) = true := by
      rw [hcall]
      rfl
    rw [if_neg (Nat.not_lt.mpr (h.unused.holding i idx hholds))] at hs
    obtain rfl := Option.some.inj hs
    exact h.leaves hlocked h.unused rfl id (fun _ _ => rfl) (fun _ hanswer => by cases hanswer)
      fun _ _ => rfl
  · cases hs

theorem Inv.syncStep (h : s.Inv file) {result : Except String Unit}
    (hs : s.step (.synced i result) = some s') : s'.Inv file := by
  simp only [step] at hs
  split at hs
  · rename_i hcall
    have hlocked : inLock (s.calls i) = true := by
      rw [hcall]
      rfl
    have hleaves (result : DownloadResult UringAnswer)
        (hresult : ∀ answer, result = .ok answer → answer = .synced) :
        (s.returns i .sync result).unlocks.Inv file :=
      h.leaves hlocked h.unused rfl id (fun _ _ => rfl) hresult fun _ hne => absurd rfl hne
    cases result with
    | error e =>
      obtain rfl := Option.some.inj hs
      exact hleaves _ fun _ hanswer => by cases hanswer
    | ok _ =>
      obtain rfl := Option.some.inj hs
      exact hleaves _ fun _ hanswer => (Except.ok.inj hanswer).symm
  · cases hs

theorem Inv.callStep (h : s.Inv file) (hs : s.step (.call i op) = some s') : s'.Inv file := by
  have hbegins : (s.begins i op).Inv file := by
    cases op with
    | write offset data =>
      simp only [begins]
      cases hvalid : validateFixedBufferWriteLen data.length s.config.bufferSize with
      | error e =>
        refine h.returns (fun _ hanswer => by cases hanswer) fun _ _ => .inl ?_
        rw [Refused, hvalid]
        exact fun hok => by cases hok
      | ok _ => exact h.goes rfl
    | read offset len => exact h.goes rfl
    | sync => exact h.goes rfl
  simp only [step] at hs
  split at hs
  · exact Option.some.inj hs ▸ hbegins
  · exact Option.some.inj hs ▸ hbegins
  · cases hs

theorem Inv.step {e : UringStorageEvent} (h : s.Inv file) (hs : s.step e = some s') :
    s'.Inv file := by
  cases e with
  | call i op => exact h.callStep hs
  | lock i => exact h.lockStep hs
  | load i =>
    simp only [UringStorage.step] at hs
    split at hs
    · rename_i op hcall
      obtain ⟨r, hr, rfl⟩ := Option.map_eq_some_iff.mp hs
      exact h.allocates hcall (.inl rfl) hr
    · cases hs
  | exchange i spurious =>
    simp only [UringStorage.step] at hs
    split at hs
    · rename_i op hcall
      obtain ⟨r, hr, rfl⟩ := Option.map_eq_some_iff.mp hs
      exact h.allocates hcall (.inr ⟨spurious, rfl⟩) hr
    · cases hs
  | index i message => exact h.indexStep hs
  | complete i result =>
    simp only [UringStorage.step] at hs
    split at hs
    · rename_i op idx hcall
      exact absurd hcall (h.submitted i op idx)
    · cases hs
  | synced i result => exact h.syncStep hs
  | allocate size done =>
    obtain rfl := Option.some.inj hs
    cases done with
    | false => exact h
    | true =>
      obtain ⟨n, hn⟩ := h.file
      have hfile : ∃ m, reserve s.file size = file ++ List.replicate m 0 := by
        refine ⟨n + (size - s.file.length), ?_⟩
        rw [reserve, hn, List.append_assoc, List.replicate_append_replicate]
      exact {
        h with
        file := hfile }

/-- `init` marks the index after the last buffer as used. -/
theorem init_marked {config : IoUringConfig} {handle : IoUringHandle}
    (hinit : IoUringHandle.init config = some handle) : handle.buffers = config.bufferCount ∧
      (config.bufferCount < 64 → handle.bufferBitmap.getLsbD config.bufferCount = true) := by
  simp only [IoUringHandle.init, Option.ite_none_right_eq_some] at hinit
  obtain rfl := Option.some.inj hinit.2
  refine ⟨rfl, fun hfew => ?_⟩
  dsimp only
  rw [if_neg (by omega)]
  simp [hfew]

/-- Whatever calls run at once on an initialised io_uring storage, of whatever configuration: no
read or write ever gives the kernel a buffer or succeeds, and the file keeps its bytes and grows
by zeros at most. With fewer than 64 buffers the first read or write that gets to the ring
poisons its lock, and no sync succeeds from then on. -/
theorem uring_never_transfers {config : IoUringConfig} {handle : IoUringHandle}
    (hinit : IoUringHandle.init config = some handle) (file : List UInt8)
    (events : List UringStorageEvent) :
    EachState UringStorage.step (Sound file) (new config handle file) events := by
  have hinv : (new config handle file).Inv file := {
    unsubmitted := rfl
    results := fun _ hr => absurd hr List.not_mem_nil
    lost := fun _ _ hr => absurd hr List.not_mem_nil
    file := ⟨0, (List.append_nil file).symm⟩
    unused := IoUringHandle.init_unused hinit
    buffers := (init_marked hinit).1
    marked := (init_marked hinit).2
    lock := fun _ hlock => Bool.noConfusion hlock
    allocating := fun _ hcall => UringCall.noConfusion hcall
    holding := fun _ _ _ hcall => UringCall.noConfusion hcall
    submitted := fun _ _ _ hcall => UringCall.noConfusion hcall }
  have hstep (s : UringStorage) (e : UringStorageEvent) (s' : UringStorage) (h : s.Inv file)
      (_ : True) (hs : s.step e = some s') : s'.Inv file := h.step hs
  have hall : EachState UringStorage.step (Inv file) (new config handle file) events :=
    EachStep.eachState hstep hinv (.of_forall fun _ _ => trivial)
  exact hall.imp fun _ h => h.toSound

/-- A write to the default storage panics, and a sync afterwards fails. -/
theorem uring_never_transfers_default :
    ∃ handle, IoUringHandle.init .default = some handle ∧
      EachState UringStorage.step (Sound [7]) (new .default handle [7])
        [.call 0 (.write 0 [1, 2]), .lock 0, .load 0, .exchange 0 false, .index 0 "panicked",
          .call 1 .sync, .lock 1] := by
  have hsome : (IoUringHandle.init .default).isSome = true := rfl
  obtain ⟨handle, hinit⟩ := Option.isSome_iff_exists.mp hsome
  exact ⟨handle, hinit, uring_never_transfers hinit [7] _⟩

end

end UringStorage

end Tachyon
