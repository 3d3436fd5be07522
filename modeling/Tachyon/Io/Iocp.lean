import Tachyon.Library.EventRuns
import Mathlib.Logic.Function.Basic
import Mathlib.Data.List.Nodup
import Mathlib.Data.Int.Notation

/-!
# Writes through a completion port

A write is known to the kernel, to the registry and to the guard that cancels it by the address of
its OVERLAPPED. The poller returns the OVERLAPPED to a pool as soon as it has sent the result, and
the next write takes it from there, while the future of the first may not have been polled yet.
-/

namespace Tachyon

/-- What the system says of a write: the bytes it took, the status of its completion, or the error
of its submission. -/
inductive WriteReport where
  | written (bytes : ℕ)
  | ntStatus (status : ℤ)
  | win32 (code : ℕ)
  deriving DecidableEq, Repr

/-- What `WriteFile` returns. -/
inductive Submission where
  | done (bytes : ℕ)
  | pending
  | failed (code : ℕ)

/-- `OVERLAPPED_ENTRY`. -/
structure OverlappedEntry where
  lpOverlapped : ℕ
  bytes : ℕ
  status : ℤ

/-- The result `complete_pending_write` makes of an entry. -/
def OverlappedEntry.result (entry : OverlappedEntry) : WriteReport :=
  if entry.status = 0 then .written entry.bytes else .ntStatus entry.status

/-- How far a call of `write_at` has come. -/
inductive WriteCall where
  | idle
  | acquired (key : ℕ)
  | registered (key : ℕ)
  /-- `WriteFile` was done at once, or failed. -/
  | submitted (key : ℕ) (report : WriteReport)
  /-- At `rx.await`, with the guard armed. -/
  | awaiting (key : ℕ)
  | returned (report : WriteReport)
  | dropped
  deriving DecidableEq

/-- Where the poller is in `complete_pending_write`. -/
inductive Poller where
  | idle
  /-- It has taken the write out of the registry. -/
  | removed (key i : ℕ) (report : WriteReport)
  /-- It has sent the result. -/
  | sent (key : ℕ)

/-- `IoCpStorage`, with the kernel, the port, the poller and the calls. An OVERLAPPED is its
address; calls are numbers. -/
structure IoCpStorage where
  overlappedPool : List ℕ
  /-- The call whose sender is registered for an address. -/
  registry : ℕ → Option ℕ
  /-- The addresses of all OVERLAPPED there are; none is freed. -/
  boxes : List ℕ
  /-- The call whose write the kernel has at an address. -/
  kernel : ℕ → Option ℕ
  /-- The completions the poller has not dequeued yet, oldest first. -/
  port : List OverlappedEntry
  /-- Those it has dequeued. -/
  entries : List OverlappedEntry
  poller : Poller
  calls : ℕ → WriteCall
  /-- The oneshot channel of a call. -/
  completion : ℕ → Option WriteReport
  /-- What the system said of the write of a call. The code does not read it. -/
  reported : ℕ → Option WriteReport

/-- The steps of calls, kernel and poller. -/
inductive IoCpEvent where
  /-- `overlapped_pool.acquire`; a new OVERLAPPED gets the address `fresh`. -/
  | acquire (i fresh : ℕ)
  /-- The insertion into the registry. -/
  | register (i : ℕ)
  | writeFile (i : ℕ) (submission : Submission)
  /-- The write is taken out of the registry again, and the call returns. -/
  | finish (i : ℕ)
  /-- The kernel has done with a pending write. -/
  | complete (entry : OverlappedEntry)
  /-- `GetQueuedCompletionStatusEx`. -/
  | dequeue (count : ℕ)
  /-- The removal from the registry in `complete_pending_write`. -/
  | route
  /-- `completion.send(result)`. -/
  | send
  /-- `overlapped_pool.release(overlapped)`. -/
  | release
  /-- The future is polled and its result is there. -/
  | poll (i : ℕ)
  /-- The future is dropped. -/
  | drop (i : ℕ)

namespace IoCpStorage

/-- A storage that is ready. -/
def init : IoCpStorage where
  overlappedPool := []
  registry := fun _ => none
  boxes := []
  kernel := fun _ => none
  port := []
  entries := []
  poller := .idle
  calls := fun _ => .idle
  completion := fun _ => none
  reported := fun _ => none

/-- A call goes on. -/
def setCall (s : IoCpStorage) (i : ℕ) (call : WriteCall) : IoCpStorage :=
  { s with calls := Function.update s.calls i call }

/-- A call goes on, with what the system said of its write. -/
def report (s : IoCpStorage) (i : ℕ) (r : WriteReport) : IoCpStorage :=
  { s with reported := Function.update s.reported i (some r) }

/-- `write_at`, the poller and the kernel, one step at a time. -/
def step (s : IoCpStorage) : IoCpEvent → Option IoCpStorage
  | .acquire i fresh =>
    match s.calls i with
    | .idle =>
      match s.overlappedPool with
      | key :: pool => some ({ s with overlappedPool := pool }.setCall i (.acquired key))
      | [] =>
        if fresh ∈ s.boxes then none
        else some ({ s with boxes := fresh :: s.boxes }.setCall i (.acquired fresh))
    | _ => none
  | .register i =>
    match s.calls i with
    | .acquired key =>
      some ({ s with registry := Function.update s.registry key (some i) }.setCall i
        (.registered key))
    | _ => none
  | .writeFile i submission =>
    match s.calls i with
    | .registered key =>
      match submission with
      | .done bytes =>
        some ((s.report i (.written bytes)).setCall i (.submitted key (.written bytes)))
      | .failed code =>
        some ((s.report i (.win32 code)).setCall i (.submitted key (.win32 code)))
      | .pending =>
        some ({ s with kernel := Function.update s.kernel key (some i) }.setCall i (.awaiting key))
    | _ => none
  | .finish i =>
    match s.calls i with
    | .submitted key r =>
      match s.registry key with
      | some _ =>
        some ({ s with
          registry := Function.update s.registry key none
          overlappedPool := s.overlappedPool ++ [key] }.setCall i (.returned r))
      | none => some (s.setCall i (.returned r))
    | _ => none
  | .complete entry =>
    (s.kernel entry.lpOverlapped).map fun i =>
      { s with
        kernel := Function.update s.kernel entry.lpOverlapped none
        port := s.port ++ [entry] }.report i entry.result
  | .dequeue count =>
    match s.poller, s.entries with
    | .idle, [] =>
      some { s with entries := s.port.take (min count 16), port := s.port.drop (min count 16) }
    | _, _ => none
  | .route =>
    match s.poller, s.entries with
    | .idle, entry :: entries =>
      match s.registry entry.lpOverlapped with
      | none => some { s with entries := entries }
      | some i =>
        some { s with
          entries := entries
          registry := Function.update s.registry entry.lpOverlapped none
          poller := .removed entry.lpOverlapped i entry.result }
    | _, _ => none
  | .send =>
    match s.poller with
    | .removed key i r =>
      some { s with
        completion := Function.update s.completion i (some r)
        poller := .sent key }
    | _ => none
  | .release =>
    match s.poller with
    | .sent key => some { s with overlappedPool := s.overlappedPool ++ [key], poller := .idle }
    | _ => none
  | .poll i =>
    match s.calls i, s.completion i with
    | .awaiting _, some r => some (s.setCall i (.returned r))
    | _, _ => none
  | .drop i =>
    match s.calls i with
    | .idle | .awaiting _ => some (s.setCall i .dropped)
    | _ => none

/-- The write whose cancellation the guard of a call requests when the call is dropped: the one
that is registered for its address. -/
def cancelRequest (s : IoCpStorage) (i : ℕ) : Option ℕ :=
  match s.calls i with
  | .awaiting key => s.registry key
  | _ => none

/-- Every call that returned has the result of its own write, and the kernel has no write at an
address that is in the pool. -/
structure Routed (s : IoCpStorage) : Prop where
  own : ∀ i r, s.calls i = .returned r → s.reported i = some r
  pool : ∀ key ∈ s.overlappedPool, s.kernel key = none

/-- A future that is dropped requests the cancellation of its own write only. -/
def Isolated (s : IoCpStorage) (e : IoCpEvent) : Prop :=
  ∀ i j, e = .drop i → s.cancelRequest i = some j → j = i

/-- No future is dropped whose result has been sent and whose OVERLAPPED is in the registry
again. -/
def Timely (s : IoCpStorage) (e : IoCpEvent) : Prop :=
  ∀ i key, e = .drop i → s.calls i = .awaiting key →
    s.completion i = none ∨ s.registry key = none

/-! ### The life of an OVERLAPPED -/

/-- Who has an OVERLAPPED. -/
inductive Stage where
  | fresh
  | pooled
  | acquired (i : ℕ)
  | registered (i : ℕ)
  | inKernel (i : ℕ)
  | posted (i : ℕ) (r : WriteReport)
  | removed (i : ℕ) (r : WriteReport)
  | sent

/-- The write of a call is with the kernel or on its way back. -/
def Stage.Underway (stage : Stage) (i : ℕ) : Prop :=
  stage = .inKernel i ∨ ∃ r, stage = .posted i r ∨ stage = .removed i r

/-- Pool, registry, kernel, port and poller have the OVERLAPPED that are theirs. -/
structure Addresses (s : IoCpStorage) (stage : ℕ → Stage) : Prop where
  boxes : ∀ k, k ∉ s.boxes → stage k = .fresh
  pool : ∀ k ∈ s.overlappedPool, stage k = .pooled
  pool_nodup : s.overlappedPool.Nodup
  registry : ∀ k i, s.registry k = some i ↔
    stage k = .registered i ∨ stage k = .inKernel i ∨ ∃ r, stage k = .posted i r
  kernel : ∀ k i, s.kernel k = some i → stage k = .inKernel i
  posted : ∀ entry ∈ s.entries ++ s.port, ∃ i, stage entry.lpOverlapped = .posted i entry.result
  posted_nodup : ((s.entries ++ s.port).map OverlappedEntry.lpOverlapped).Nodup
  removed : ∀ k i r, s.poller = .removed k i r → stage k = .removed i r
  sent : ∀ k, s.poller = .sent k → stage k = .sent

/-- Every call has the OVERLAPPED that is its own, and what is on its way to it is the report on its
write. -/
structure Calls (s : IoCpStorage) (stage : ℕ → Stage) : Prop where
  acquired : ∀ i k, s.calls i = .acquired k → stage k = .acquired i
  registered : ∀ k i, stage k = .registered i ↔
    s.calls i = .registered k ∨ ∃ r, s.calls i = .submitted k r
  underway : ∀ k i, (stage k).Underway i →
    (s.calls i = .awaiting k ∨ s.calls i = .dropped) ∧ s.completion i = none
  awaiting : ∀ i k, s.calls i = .awaiting k → s.completion i = none → (stage k).Underway i
  unique : ∀ k k' i, (stage k).Underway i → (stage k').Underway i → k = k'
  waiting : ∀ i, s.completion i = none ∨
    (∃ k, s.calls i = .awaiting k) ∨ s.calls i = .dropped ∨ ∃ r, s.calls i = .returned r
  submitted : ∀ i k r, s.calls i = .submitted k r → s.reported i = some r
  reported : ∀ k i r, stage k = .posted i r ∨ stage k = .removed i r → s.reported i = some r
  completion : ∀ i r, s.completion i = some r → s.reported i = some r
  returned : ∀ i r, s.calls i = .returned r → s.reported i = some r

/-- The storage is as the lives of its OVERLAPPED say. -/
structure Agrees (s : IoCpStorage) (stage : ℕ → Stage) : Prop where
  addresses : s.Addresses stage
  calls : s.Calls stage

section Steps

variable {s s' : IoCpStorage} {stage : ℕ → Stage} {e : IoCpEvent} {i key : ℕ} {r : WriteReport}

theorem Agrees.acquire {fresh : ℕ} (h : s.Agrees stage)
    (hstep : s.step (.acquire i fresh) = some s') : ∃ stage', s'.Agrees stage' := by
  simp only [step] at hstep
  split at hstep
  case h_2 => cases hstep
  case h_1 hidle =>
  split at hstep
  case h_1 key pool hpool =>
    obtain rfl := Option.some.inj hstep
    have hkey := h.addresses.pool key (by simp [hpool])
    have hnodup := h.addresses.pool_nodup
    rw [hpool] at hnodup
    refine ⟨Function.update stage key (.acquired i), ?_, ?_⟩
    · have haddresses := h.addresses
      dsimp only [setCall]
      constructor <;> grind [cases Addresses, Function.update_apply]
    · have hcalls := h.calls
      dsimp only [setCall]
      constructor <;> grind [cases Calls, Function.update_apply, Stage.Underway]
  case h_2 hpool =>
    split at hstep
    case isTrue => cases hstep
    case isFalse hfresh =>
    obtain rfl := Option.some.inj hstep
    have hkey := h.addresses.boxes fresh hfresh
    refine ⟨Function.update stage fresh (.acquired i), ?_, ?_⟩
    · have haddresses := h.addresses
      dsimp only [setCall]
      constructor <;> grind [cases Addresses, Function.update_apply]
    · have hcalls := h.calls
      dsimp only [setCall]
      constructor <;> grind [cases Calls, Function.update_apply, Stage.Underway]

theorem Agrees.register (h : s.Agrees stage) (hstep : s.step (.register i) = some s') :
    ∃ stage', s'.Agrees stage' := by
  simp only [step] at hstep
  split at hstep
  case h_2 => cases hstep
  case h_1 key hcall =>
  obtain rfl := Option.some.inj hstep
  have hkey := h.calls.acquired i key hcall
  refine ⟨Function.update stage key (.registered i), ?_, ?_⟩
  · have haddresses := h.addresses
    dsimp only [setCall]
    constructor <;> grind [cases Addresses, Function.update_apply]
  · have hcalls := h.calls
    dsimp only [setCall]
    constructor <;> grind [cases Calls, Function.update_apply, Stage.Underway]

theorem Agrees.writeFile {submission : Submission} (h : s.Agrees stage)
    (hstep : s.step (.writeFile i submission) = some s') : ∃ stage', s'.Agrees stage' := by
  simp only [step] at hstep
  split at hstep
  case h_2 => cases hstep
  case h_1 key hcall =>
  have hkey := (h.calls.registered key i).mpr (.inl hcall)
  cases submission with
  | done bytes =>
    obtain rfl := Option.some.inj hstep
    refine ⟨stage, { h.addresses with }, ?_⟩
    have hcalls := h.calls
    dsimp only [setCall, report]
    constructor <;> grind [cases Calls, Function.update_apply, Stage.Underway]
  | failed code =>
    obtain rfl := Option.some.inj hstep
    refine ⟨stage, { h.addresses with }, ?_⟩
    have hcalls := h.calls
    dsimp only [setCall, report]
    constructor <;> grind [cases Calls, Function.update_apply, Stage.Underway]
  | pending =>
    obtain rfl := Option.some.inj hstep
    refine ⟨Function.update stage key (.inKernel i), ?_, ?_⟩
    · have haddresses := h.addresses
      dsimp only [setCall]
      constructor <;> grind [cases Addresses, Function.update_apply]
    · have hcalls := h.calls
      dsimp only [setCall]
      constructor <;> grind [cases Calls, Function.update_apply, Stage.Underway]

theorem Agrees.finish (h : s.Agrees stage) (hstep : s.step (.finish i) = some s') :
    ∃ stage', s'.Agrees stage' := by
  simp only [step] at hstep
  split at hstep
  case h_2 => cases hstep
  case h_1 key r hcall =>
  have hkey := (h.calls.registered key i).mpr (.inr ⟨r, hcall⟩)
  have hregistry := (h.addresses.registry key i).mpr (.inl hkey)
  rw [hregistry] at hstep
  obtain rfl := Option.some.inj hstep
  have hnotMem : key ∉ s.overlappedPool := fun hmem => by
    have hpooled := h.addresses.pool key hmem
    rw [hkey] at hpooled
    cases hpooled
  refine ⟨Function.update stage key .pooled, ?_, ?_⟩
  · have haddresses := h.addresses
    dsimp only [setCall]
    constructor <;> grind [cases Addresses, Function.update_apply]
  · have hcalls := h.calls
    dsimp only [setCall]
    constructor <;> grind [cases Calls, Function.update_apply, Stage.Underway]

theorem Agrees.complete {entry : OverlappedEntry} (h : s.Agrees stage)
    (hstep : s.step (.complete entry) = some s') : ∃ stage', s'.Agrees stage' := by
  simp only [step, Option.map_eq_some_iff] at hstep
  obtain ⟨i, hkernel, rfl⟩ := hstep
  have hkey := h.addresses.kernel _ i hkernel
  have hposted : ∀ p ∈ s.entries ++ (s.port ++ [entry]), ∃ j,
      Function.update stage entry.lpOverlapped (.posted i entry.result) p.lpOverlapped =
        .posted j p.result := by
    intro p hp
    rw [← List.append_assoc, List.mem_append, List.mem_singleton] at hp
    rcases hp with hp | rfl
    · obtain ⟨j, hj⟩ := h.addresses.posted p hp
      exact ⟨j, by grind [Function.update_apply]⟩
    · exact ⟨i, Function.update_self ..⟩
  refine ⟨Function.update stage entry.lpOverlapped (.posted i entry.result), ?_, ?_⟩
  · have haddresses := h.addresses
    dsimp only [report]
    constructor <;> grind [cases Addresses, Function.update_apply]
  · have hcalls := h.calls
    dsimp only [report]
    constructor <;> grind [cases Calls, Function.update_apply, Stage.Underway]

theorem Agrees.dequeue {count : ℕ} (h : s.Agrees stage)
    (hstep : s.step (.dequeue count) = some s') : ∃ stage', s'.Agrees stage' := by
  simp only [step] at hstep
  split at hstep
  case h_2 => cases hstep
  case h_1 hidle hentries =>
  obtain rfl := Option.some.inj hstep
  have hsplit : s.port.take (min count 16) ++ s.port.drop (min count 16) = s.entries ++ s.port := by
    rw [List.take_append_drop, hentries, List.nil_append]
  refine ⟨stage, { h.addresses with posted := ?_, posted_nodup := ?_ }, { h.calls with }⟩
  · dsimp only
    rw [hsplit]
    exact h.addresses.posted
  · dsimp only
    rw [hsplit]
    exact h.addresses.posted_nodup

theorem Agrees.route (h : s.Agrees stage) (hstep : s.step .route = some s') :
    ∃ stage', s'.Agrees stage' := by
  simp only [step] at hstep
  split at hstep
  case h_2 => cases hstep
  case h_1 entry entries hidle hentries =>
  obtain ⟨i, hkey⟩ := h.addresses.posted entry (by simp [hentries])
  have hregistry := (h.addresses.registry _ i).mpr (.inr (.inr ⟨_, hkey⟩))
  rw [hregistry] at hstep
  obtain rfl := Option.some.inj hstep
  have hnodup := h.addresses.posted_nodup
  rw [hentries] at hnodup
  refine ⟨Function.update stage entry.lpOverlapped (.removed i entry.result), ?_, ?_⟩
  · have haddresses := h.addresses
    constructor <;> grind [cases Addresses, Function.update_apply]
  · have hcalls := h.calls
    constructor <;> grind [cases Calls, Function.update_apply, Stage.Underway]

theorem Agrees.send (h : s.Agrees stage) (hstep : s.step .send = some s') :
    ∃ stage', s'.Agrees stage' := by
  simp only [step] at hstep
  split at hstep
  case h_2 => cases hstep
  case h_1 key i r hremoved =>
  obtain rfl := Option.some.inj hstep
  have hkey := h.addresses.removed key i r hremoved
  refine ⟨Function.update stage key .sent, ?_, ?_⟩
  · have haddresses := h.addresses
    constructor <;> grind [cases Addresses, Function.update_apply]
  · have hcalls := h.calls
    constructor <;> grind [cases Calls, Function.update_apply, Stage.Underway]

theorem Agrees.release (h : s.Agrees stage) (hstep : s.step .release = some s') :
    ∃ stage', s'.Agrees stage' := by
  simp only [step] at hstep
  split at hstep
  case h_2 => cases hstep
  case h_1 key hsent =>
  obtain rfl := Option.some.inj hstep
  have hkey := h.addresses.sent key hsent
  have hnotMem : key ∉ s.overlappedPool := fun hmem => by
    have hpooled := h.addresses.pool key hmem
    rw [hkey] at hpooled
    cases hpooled
  refine ⟨Function.update stage key .pooled, ?_, ?_⟩
  · have haddresses := h.addresses
    constructor <;> grind [cases Addresses, Function.update_apply]
  · have hcalls := h.calls
    constructor <;> grind [cases Calls, Function.update_apply, Stage.Underway]

theorem Agrees.poll (h : s.Agrees stage) (hstep : s.step (.poll i) = some s') :
    ∃ stage', s'.Agrees stage' := by
  simp only [step] at hstep
  split at hstep
  case h_2 => cases hstep
  case h_1 key r hcall hcompletion =>
  obtain rfl := Option.some.inj hstep
  refine ⟨stage, { h.addresses with }, ?_⟩
  have hcalls := h.calls
  dsimp only [setCall]
  constructor <;> grind [cases Calls, Function.update_apply, Stage.Underway]

theorem Agrees.drop (h : s.Agrees stage) (hstep : s.step (.drop i) = some s') :
    ∃ stage', s'.Agrees stage' := by
  simp only [step] at hstep
  split at hstep
  case h_1 hcall =>
    obtain rfl := Option.some.inj hstep
    refine ⟨stage, { h.addresses with }, ?_⟩
    have hcalls := h.calls
    dsimp only [setCall]
    constructor <;> grind [cases Calls, Function.update_apply, Stage.Underway]
  case h_2 key hcall =>
    obtain rfl := Option.some.inj hstep
    refine ⟨stage, { h.addresses with }, ?_⟩
    have hcalls := h.calls
    dsimp only [setCall]
    constructor <;> grind [cases Calls, Function.update_apply, Stage.Underway]
  case h_3 => cases hstep

/-- Whatever happens next, the OVERLAPPED lead lives that fit. -/
theorem Agrees.step (h : s.Agrees stage) (hstep : s.step e = some s') :
    ∃ stage', s'.Agrees stage' := by
  cases e with
  | acquire i fresh => exact h.acquire hstep
  | register i => exact h.register hstep
  | writeFile i submission => exact h.writeFile hstep
  | finish i => exact h.finish hstep
  | complete entry => exact h.complete hstep
  | dequeue count => exact h.dequeue hstep
  | route => exact h.route hstep
  | send => exact h.send hstep
  | release => exact h.release hstep
  | poll i => exact h.poll hstep
  | drop i => exact h.drop hstep

theorem Agrees.routed (h : s.Agrees stage) : s.Routed where
  own := h.calls.returned
  pool key hkey := by
    have hpooled := h.addresses.pool key hkey
    cases hkernel : s.kernel key with
    | none => rfl
    | some i =>
      have hin := h.addresses.kernel key i hkernel
      rw [hpooled] at hin
      cases hin

/-- Once the result of a call has been sent, its address belongs to another call or to none;
before that, it is the call's own. -/
theorem Agrees.isolated_iff (h : s.Agrees stage) : s.Isolated e ↔ s.Timely e := by
  have howner : ∀ i j key, s.calls i = .awaiting key → s.registry key = some j →
      (s.completion i = none ↔ j = i) := by
    intro i j key hcall hregistry
    have hstage := (h.addresses.registry key j).mp hregistry
    constructor
    · intro hnone
      obtain hi | ⟨r, hi | hi⟩ := h.calls.awaiting i key hcall hnone <;>
        simp_all
    · rintro rfl
      obtain hj | hj := hstage
      · have hbefore := (h.calls.registered key j).mp hj
        simp [hcall] at hbefore
      · exact (h.calls.underway key j (hj.imp_right fun ⟨r, hr⟩ => ⟨r, .inl hr⟩)).2
  constructor
  · intro hisolated i key he hcall
    cases hregistry : s.registry key with
    | none => exact .inr rfl
    | some j =>
      have hj := hisolated i j he (by simp [cancelRequest, hcall, hregistry])
      exact .inl ((howner i j key hcall hregistry).mpr hj)
  · intro htimely i j he hrequest
    unfold cancelRequest at hrequest
    split at hrequest
    case h_1 key hcall =>
      have hnone := (htimely i key he hcall).resolve_right (by simp [hrequest])
      exact (howner i j key hcall hrequest).mp hnone
    case h_2 => cases hrequest

end Steps

theorem init_agrees : init.Agrees fun _ => .fresh := by
  refine ⟨?_, ?_⟩
  · constructor <;> simp [init]
  · constructor <;> simp [init, Stage.Underway]

open EventRuns

/-- Completions reach their own calls and the pool never has what the kernel uses, in every run;
and the drops of a run cancel no other write if and only if none of them comes after the result
was sent and the OVERLAPPED was taken again. -/
theorem writes_routed_and_isolated (events : List IoCpEvent) :
    EachState step Routed init events ∧
      (EachStep step Isolated init events ↔ EachStep step Timely init events) := by
  have hinit : ∃ stage, init.Agrees stage := ⟨_, init_agrees⟩
  have hkeep : ∀ (s : IoCpStorage) e s', (∃ stage, s.Agrees stage) → s.step e = some s' →
      ∃ stage, s'.Agrees stage := by
    rintro s e s' ⟨stage, h⟩ hstep
    exact h.step hstep
  refine ⟨?_, ?_, ?_⟩
  · have hstates := (EachStep.of_forall fun s e => trivial : EachStep step (fun _ _ => True) init
      events).eachState (fun s e s' h _ hstep => hkeep s e s' h hstep) hinit
    exact hstates.imp fun s ⟨_, h⟩ => h.routed
  · intro hisolated
    exact hisolated.imp (fun s e s' h hc hstep =>
      ⟨h.elim fun _ h => h.isolated_iff.mp hc, hkeep s e s' h hstep⟩) hinit
  · intro htimely
    exact htimely.imp (fun s e s' h hc hstep =>
      ⟨h.elim fun _ h => h.isolated_iff.mpr hc, hkeep s e s' h hstep⟩) hinit

/-- A write is done and its OVERLAPPED taken by the next before its future is polled again. -/
def reuse : List IoCpEvent :=
  [.acquire 0 4096, .register 0, .writeFile 0 .pending, .complete ⟨4096, 512, 0⟩, .dequeue 1,
    .route, .send, .release, .acquire 1 8192, .register 1, .writeFile 1 .pending]

/-- The future of the first write is dropped then, and asks for the second to be cancelled. -/
theorem drop_cancels_another : ∃ s, run step init reuse = some s ∧
    s.completion 0 = some (.written 512) ∧ s.cancelRequest 0 = some 1 ∧
    ¬EachStep step Isolated init (reuse ++ [.drop 0]) := by
  have hrun : (run step init reuse).any (fun s => s.completion 0 = some (.written 512) &&
      s.cancelRequest 0 = some 1 && (s.step (.drop 0)).isSome) = true := by
    decide +kernel
  obtain ⟨s, hs, hstate⟩ := (Option.any_eq_true _ _).mp hrun
  simp only [Bool.and_eq_true, decide_eq_true_eq] at hstate
  obtain ⟨⟨hcompletion, hrequest⟩, hdrop⟩ := hstate
  refine ⟨s, hs, hcompletion, hrequest, fun hisolated => ?_⟩
  obtain ⟨s', hs'⟩ := Option.isSome_iff_exists.mp hdrop
  have hlast := (hisolated.append hs).2 s' hs'
  exact absurd (hlast.1 0 1 rfl hrequest) (by decide)

end IoCpStorage

end Tachyon
