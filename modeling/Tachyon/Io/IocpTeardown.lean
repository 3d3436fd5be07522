import Tachyon.Io.Iocp

/-!
# Dropping a completion port

`drop` runs when nobody else holds the storage, so no call takes another step; the kernel and
the poller go on. Buffers and OVERLAPPED of pending writes are freed with the registry, unless
the drain has run out of time: then a clone of the registry is forgotten and they stay.
-/

namespace Tachyon

open EventRuns

/-- Where `drop` is, by what it does next. -/
inductive DropPhase where
  /-- The storage is in use. -/
  | inUse
  /-- `cancel_pending_operations`. -/
  | cancelling
  /-- `drain_pending_completions`. -/
  | draining
  /-- The shutdown flag is set. -/
  | stopping
  /-- The port is closed. -/
  | closing
  /-- The poller is joined. -/
  | joining
  /-- The fields are dropped. -/
  | dropping
  | freed
  deriving DecidableEq

/-- A storage that is dropped at some time. -/
structure Teardown where
  storage : IoCpStorage
  phase : DropPhase
  /-- A clone of the registry was forgotten. -/
  leaked : Bool

/-- The steps of `drop`, among those of calls, kernel and poller. -/
inductive TeardownEvent where
  | io (e : IoCpEvent)
  /-- The first `pending_count`. -/
  | count
  /-- `CancelIoEx` on the file; it only asks the kernel to complete the writes soon. -/
  | cancel
  /-- A look of the drain loop; `expired` says whether its deadline has passed. -/
  | drain (expired : Bool)
  | shutdown
  | closePort
  | join
  | free

/-- A step of the kernel or the poller. -/
def IoCpEvent.ofSystem : IoCpEvent → Bool
  | .complete _ | .dequeue _ | .route | .send | .release => true
  | _ => false

namespace Teardown

/-- A storage in use. -/
def new : Teardown := ⟨.init, .inUse, false⟩

/-- Whether a step of calls, kernel or poller can come now: calls only before `drop`, entries
only from an open port, and nothing from the poller once it is joined. -/
def permits : DropPhase → IoCpEvent → Bool
  | .inUse, _ => true
  | .cancelling, e | .draining, e | .stopping, e | .closing, e => e.ofSystem
  | .joining, .dequeue _ => false
  | .joining, e => e.ofSystem
  | .dropping, .complete _ | .freed, .complete _ => true
  | .dropping, _ | .freed, _ => false

/-- `pending_count`. -/
def pendingCount (s : IoCpStorage) : ℕ := (s.boxes.filter fun key => (s.registry key).isSome).length

/-- `drop`, one step at a time. -/
def step (t : Teardown) : TeardownEvent → Option Teardown
  | .io e =>
    if permits t.phase e then (t.storage.step e).map fun s => { t with storage := s } else none
  | .count =>
    match t.phase with
    | .inUse =>
      some { t with phase := if pendingCount t.storage > 0 then .cancelling else .stopping }
    | _ => none
  | .cancel =>
    match t.phase with
    | .cancelling => some { t with phase := .draining }
    | _ => none
  | .drain expired =>
    match t.phase with
    | .draining =>
      if pendingCount t.storage = 0 then some { t with phase := .stopping }
      else if expired then some { t with phase := .stopping, leaked := true }
      else some t
    | _ => none
  | .shutdown =>
    match t.phase with
    | .stopping => some { t with phase := .closing }
    | _ => none
  | .closePort =>
    match t.phase with
    | .closing => some { t with phase := .joining }
    | _ => none
  | .join =>
    match t.phase, t.storage.poller, t.storage.entries with
    | .joining, .idle, [] => some { t with phase := .dropping }
    | _, _, _ => none
  | .free =>
    match t.phase with
    | .dropping => some { t with phase := .freed }
    | _ => none

/-- `drop` has done with the pending writes. -/
def Drained (t : Teardown) : Prop :=
  t.phase = .stopping ∨ t.phase = .closing ∨ t.phase = .joining ∨ t.phase = .dropping ∨
    t.phase = .freed

/-- The memory of an OVERLAPPED, and of the buffer registered with it, is freed: it was in the
pool, or in a registry that was not forgotten. -/
def Freed (t : Teardown) (key : ℕ) : Prop :=
  t.phase = .freed ∧ (key ∈ t.storage.overlappedPool ∨
    t.leaked = false ∧ (t.storage.registry key).isSome = true)

/-- The kernel and the poller have nothing that is freed, and where nothing was forgotten no
write is on its way once `drop` has done with them. -/
structure Sound (t : Teardown) : Prop where
  kernel : ∀ key i, t.storage.kernel key = some i → ¬t.Freed key
  poller : t.phase = .freed → t.storage.poller = .idle ∧ t.storage.entries = []
  quiet : t.Drained → t.leaked = false → (∀ key, t.storage.kernel key = none) ∧
    t.storage.port = [] ∧ t.storage.entries = []

/-- What every reachable state keeps. -/
structure Inv (t : Teardown) : Prop where
  agrees : ∃ stage, t.storage.Agrees stage
  drained : t.Drained → t.leaked = false → ∀ key, t.storage.registry key = none
  joined : t.phase = .dropping ∨ t.phase = .freed →
    t.storage.poller = .idle ∧ t.storage.entries = []

section

variable {t t' : Teardown} {s s' : IoCpStorage} {e : IoCpEvent} {stage : ℕ → IoCpStorage.Stage}

/-- The count is zero exactly when nothing is registered. -/
theorem pendingCount_eq_zero (h : s.Agrees stage) :
    pendingCount s = 0 ↔ ∀ key, s.registry key = none := by
  unfold pendingCount
  rw [List.length_eq_zero_iff, List.filter_eq_nil_iff]
  constructor
  · intro hnone key
    cases hregistry : s.registry key with
    | none => rfl
    | some i =>
      have hbox : key ∈ s.boxes := by
        by_contra hbox
        have hfresh := h.addresses.boxes key hbox
        have hstage := (h.addresses.registry key i).mp hregistry
        simp [hfresh] at hstage
      have hregistered := hnone key hbox
      simp [hregistry] at hregistered
  · intro hnone key _
    simp [hnone key]

/-- Kernel and poller register nothing. -/
theorem registry_of_system (he : e.ofSystem = true) (hstep : s.step e = some s')
    (hnone : ∀ key, s.registry key = none) : ∀ key, s'.registry key = none := by
  cases e with
  | complete entry =>
    simp only [IoCpStorage.step, Option.map_eq_some_iff] at hstep
    obtain ⟨i, -, rfl⟩ := hstep
    exact hnone
  | dequeue count =>
    simp only [IoCpStorage.step] at hstep
    split at hstep
    · obtain rfl := Option.some.inj hstep
      exact hnone
    · cases hstep
  | route =>
    simp only [IoCpStorage.step] at hstep
    split at hstep
    · rw [hnone] at hstep
      obtain rfl := Option.some.inj hstep
      exact hnone
    · cases hstep
  | send =>
    simp only [IoCpStorage.step] at hstep
    split at hstep
    · obtain rfl := Option.some.inj hstep
      exact hnone
    · cases hstep
  | release =>
    simp only [IoCpStorage.step] at hstep
    split at hstep
    · obtain rfl := Option.some.inj hstep
      exact hnone
    · cases hstep
  | _ => cases he

/-- Where nothing is registered, no write is on its way. -/
theorem quiet_of_registry (h : s.Agrees stage) (hnone : ∀ key, s.registry key = none) :
    (∀ key, s.kernel key = none) ∧ s.port = [] ∧ s.entries = [] := by
  have hposted : s.entries ++ s.port = [] := by
    rw [List.eq_nil_iff_forall_not_mem]
    intro entry hentry
    obtain ⟨i, hi⟩ := h.addresses.posted entry hentry
    have hregistry := (h.addresses.registry _ i).mpr (.inr (.inr ⟨_, hi⟩))
    rw [hnone] at hregistry
    cases hregistry
  obtain ⟨hentries, hport⟩ := List.append_eq_nil_iff.mp hposted
  refine ⟨fun key => ?_, hport, hentries⟩
  rw [Option.eq_none_iff_forall_not_mem]
  intro i hkernel
  have hwritten := h.addresses.kernel key i hkernel
  have hregistry := (h.addresses.registry key i).mpr (.inr (.inl hwritten))
  rw [hnone] at hregistry
  cases hregistry

theorem Inv.sound (h : t.Inv) : t.Sound := by
  obtain ⟨stage, hagrees⟩ := h.agrees
  refine ⟨fun key i hkernel hfreed => ?_, fun hphase => h.joined (.inr hphase),
    fun hdrained hleaked => quiet_of_registry hagrees (h.drained hdrained hleaked)⟩
  obtain ⟨hphase, hpool | ⟨hleaked, hregistry⟩⟩ := hfreed
  · rw [hagrees.routed.pool key hpool] at hkernel
    cases hkernel
  · have hdrained : t.Drained := .inr (.inr (.inr (.inr hphase)))
    rw [h.drained hdrained hleaked key] at hregistry
    cases hregistry

theorem inv_new : new.Inv where
  agrees := ⟨_, IoCpStorage.init_agrees⟩
  drained h := by simp [Drained, new] at h
  joined h := by simp [new] at h

theorem ofSystem_of_drained (hdrained : t.Drained) (h : permits t.phase e = true) :
    e.ofSystem = true := by
  rcases hdrained with hphase | hphase | hphase | hphase | hphase <;> rw [hphase] at h <;>
    cases e <;> first | rfl | cases h

/-- A completion is all that comes when the poller has been joined. -/
theorem complete_of_joined (hjoined : t.phase = .dropping ∨ t.phase = .freed)
    (h : permits t.phase e = true) : ∃ entry, e = .complete entry := by
  rcases hjoined with hphase | hphase <;> rw [hphase] at h <;> cases e <;>
    first | exact ⟨_, rfl⟩ | cases h

theorem Inv.io (h : t.Inv) (hstep : t.step (.io e) = some t') : t'.Inv := by
  simp only [step] at hstep
  split at hstep
  case isFalse => cases hstep
  case isTrue hpermits =>
  obtain ⟨s, hs, rfl⟩ := Option.map_eq_some_iff.mp hstep
  obtain ⟨stage, hagrees⟩ := h.agrees
  refine ⟨hagrees.step hs, fun hdrained hleaked => ?_, fun hjoined => ?_⟩
  · exact registry_of_system (ofSystem_of_drained hdrained hpermits) hs (h.drained hdrained hleaked)
  · obtain ⟨entry, rfl⟩ := complete_of_joined hjoined hpermits
    simp only [IoCpStorage.step, Option.map_eq_some_iff] at hs
    obtain ⟨i, -, rfl⟩ := hs
    exact h.joined hjoined

theorem Inv.step {e : TeardownEvent} (h : t.Inv) (hstep : t.step e = some t') : t'.Inv := by
  obtain ⟨stage, hagrees⟩ := h.agrees
  cases e with
  | io e => exact h.io hstep
  | count =>
    simp only [Teardown.step] at hstep
    split at hstep
    · obtain rfl := Option.some.inj hstep
      refine ⟨⟨stage, hagrees⟩, fun hdrained _ => ?_, fun hjoined => ?_⟩
      · refine (pendingCount_eq_zero hagrees).mp ?_
        by_contra hpending
        simp [Drained, Nat.pos_of_ne_zero hpending] at hdrained
      · dsimp only at hjoined
        split at hjoined <;> simp at hjoined
    · cases hstep
  | cancel =>
    simp only [Teardown.step] at hstep
    split at hstep
    · obtain rfl := Option.some.inj hstep
      exact ⟨⟨stage, hagrees⟩, fun hdrained => by simp [Drained] at hdrained,
        fun hjoined => by simp at hjoined⟩
    · cases hstep
  | drain expired =>
    simp only [Teardown.step] at hstep
    split at hstep
    case h_2 => cases hstep
    case h_1 hphase =>
    split at hstep
    case isTrue hzero =>
      obtain rfl := Option.some.inj hstep
      exact ⟨⟨stage, hagrees⟩, fun _ _ => (pendingCount_eq_zero hagrees).mp hzero,
        fun hjoined => by simp at hjoined⟩
    case isFalse =>
      split at hstep
      · obtain rfl := Option.some.inj hstep
        exact ⟨⟨stage, hagrees⟩, fun _ hleaked => Bool.noConfusion hleaked,
          fun hjoined => by simp at hjoined⟩
      · obtain rfl := Option.some.inj hstep
        exact h
  | shutdown =>
    simp only [Teardown.step] at hstep
    split at hstep
    case h_2 => cases hstep
    case h_1 hphase =>
    obtain rfl := Option.some.inj hstep
    exact ⟨⟨stage, hagrees⟩, fun _ => h.drained (.inl hphase), fun hjoined => by simp at hjoined⟩
  | closePort =>
    simp only [Teardown.step] at hstep
    split at hstep
    case h_2 => cases hstep
    case h_1 hphase =>
    obtain rfl := Option.some.inj hstep
    exact ⟨⟨stage, hagrees⟩, fun _ => h.drained (.inr (.inl hphase)),
      fun hjoined => by simp at hjoined⟩
  | join =>
    simp only [Teardown.step] at hstep
    split at hstep
    case h_2 => cases hstep
    case h_1 hphase hpoller hentries =>
    obtain rfl := Option.some.inj hstep
    exact ⟨⟨stage, hagrees⟩, fun _ => h.drained (.inr (.inr (.inl hphase))),
      fun _ => ⟨hpoller, hentries⟩⟩
  | free =>
    simp only [Teardown.step] at hstep
    split at hstep
    case h_2 => cases hstep
    case h_1 hphase =>
    obtain rfl := Option.some.inj hstep
    exact ⟨⟨stage, hagrees⟩, fun _ => h.drained (.inr (.inr (.inr (.inl hphase)))),
      fun _ => h.joined (.inl hphase)⟩

end

end Teardown

end Tachyon
