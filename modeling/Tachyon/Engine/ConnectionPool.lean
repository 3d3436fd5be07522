import Tachyon.Library.SharedSemaphores
import Tachyon.Library.EventRuns

/-!
# The connection pool

An acquire takes a permit of the pool, looks up the semaphore of its host and takes a permit of
that. Cleaning up removes semaphores that look idle, also one that an acquire has looked up and
not asked yet: from then on the host has two.
-/

namespace Tachyon

/-- The semaphore of the pool, and those of hosts in the order of their creation. -/
inductive PoolSemaphore
  | pool
  | host (n : ℕ)
  deriving DecidableEq

/-- How far an acquire has come, and then the drop of its permit. -/
inductive AcquirePhase
  | started
  | waitsGlobal
  | hasGlobal
  | lookedUp (n : ℕ)
  | waitsHost (n : ℕ)
  | hasHost (n : ℕ)
  /-- The connection is counted; the acquire may still clean up. -/
  | counted (n : ℕ)
  /-- `acquire` has returned the `ConnectionPermit`. -/
  | live (n : ℕ)
  /-- The drop has counted the connection off. -/
  | uncounted (n : ℕ)
  /-- The drop has returned the permit of the pool. -/
  | returnedGlobal (n : ℕ)
  /-- The acquire was cancelled and has the permit of the pool to return. -/
  | cancelled
  | ended
  deriving DecidableEq

namespace AcquirePhase

/-- The semaphore of the host that the acquire works with. -/
def hostSemaphore : AcquirePhase → Option ℕ
  | lookedUp n | waitsHost n | hasHost n | counted n | live n | uncounted n
  | returnedGlobal n => some n
  | started | waitsGlobal | hasGlobal | cancelled | ended => none

def holdsGlobal : AcquirePhase → Bool
  | hasGlobal | lookedUp _ | waitsHost _ | hasHost _ | counted _ | live _ | uncounted _
  | cancelled => true
  | started | waitsGlobal | returnedGlobal _ | ended => false

def holdsHost (n : ℕ) : AcquirePhase → Bool
  | hasHost m | counted m | live m | uncounted m | returnedGlobal m => m = n
  | started | waitsGlobal | hasGlobal | lookedUp _ | waitsHost _ | cancelled | ended => false

def waitsFor : AcquirePhase → Option PoolSemaphore
  | waitsGlobal => some .pool
  | waitsHost n => some (.host n)
  | _ => none

/-- The acquire has been given the permit it waits for. -/
def grant : AcquirePhase → AcquirePhase
  | waitsGlobal => hasGlobal
  | waitsHost n => hasHost n
  | phase => phase

def isLive : AcquirePhase → Bool
  | live _ => true
  | _ => false

/-- The connection is part of `active_count`. -/
def isCounted : AcquirePhase → Bool
  | counted _ | live _ => true
  | _ => false

/-- The permit is being dropped and the host's is not returned yet. -/
def isDropping : AcquirePhase → Bool
  | uncounted _ | returnedGlobal _ => true
  | _ => false

/-- The acquire is past the permit of its host and has not returned. -/
def isReturning : AcquirePhase → Bool
  | hasHost _ | counted _ => true
  | _ => false

end AcquirePhase

/-- An acquire and then its permit. -/
structure Acquire where
  host : String
  phase : AcquirePhase

/-- What the acquires do with the semaphores. -/
def acquireUse : SemaphoreUse PoolSemaphore Acquire where
  holds a
    | .pool => a.phase.holdsGlobal
    | .host n => a.phase.holdsHost n
  waits a := a.phase.waitsFor
  grant a := { a with phase := a.phase.grant }
  waits_grant := by
    rintro ⟨host, phase⟩ id h
    cases phase <;> rfl
  holds_grant := by
    rintro ⟨host, phase⟩ id h
    cases phase with
    | waitsGlobal =>
      cases h
      refine ⟨rfl, fun id' => ?_⟩
      cases id' <;> simp [AcquirePhase.grant, AcquirePhase.holdsGlobal, AcquirePhase.holdsHost]
    | waitsHost n =>
      cases h
      refine ⟨rfl, fun id' => ?_⟩
      cases id' <;>
        simp [AcquirePhase.grant, AcquirePhase.holdsGlobal, AcquirePhase.holdsHost, eq_comm]
    | _ => cases h

/-- `ConnectionPool`, with all semaphores that it has created and all acquires. -/
structure ConnectionPool where
  maxPerHost : ℕ
  maxGlobal : ℕ
  system : SemaphoreSystem PoolSemaphore Acquire
  activeCount : ℕ
  hostSemaphores : String → Option ℕ
  created : ℕ

/-- What happens to the pool. Above a threshold an acquire cleans up before it returns; as
`cleanup_idle_hosts` is open to every caller, each entry it visits is an event of its own. -/
inductive PoolEvent
  | start (host : String)
  | acquireGlobal (i : ℕ)
  | lookup (i : ℕ)
  | acquireHost (i : ℕ)
  | count (i : ℕ)
  | finish (i : ℕ)
  /-- The future is dropped where it can wait; it may have been given the permit already. -/
  | cancel (i : ℕ)
  | drop (i : ℕ)
  | returnGlobal (i : ℕ)
  | returnHost (i : ℕ)
  | visit (host : String)

namespace ConnectionPool

/-- The permits of each semaphore. -/
def capacity (maxPerHost maxGlobal : ℕ) : PoolSemaphore → ℕ
  | .pool => maxGlobal
  | .host _ => maxPerHost

/-- `new`. -/
def new (maxPerHost maxGlobal : ℕ) : ConnectionPool where
  maxPerHost := maxPerHost
  maxGlobal := maxGlobal
  system := ⟨fun id => .new (capacity maxPerHost maxGlobal id), []⟩
  activeCount := 0
  hostSemaphores _ := none
  created := 0

def onSystem (f : SemaphoreSystem PoolSemaphore Acquire → SemaphoreSystem PoolSemaphore Acquire)
    (s : ConnectionPool) : ConnectionPool :=
  { s with system := f s.system }

/-- `host_semaphore`. -/
def hostSemaphore (host : String) (s : ConnectionPool) : ℕ × ConnectionPool :=
  match s.hostSemaphores host with
  | some n => (n, s)
  | none => (s.created, { s with
      hostSemaphores := Function.update s.hostSemaphores host (some s.created)
      created := s.created + 1 })

/-- `cleanup_idle_hosts` at the entry of a host. -/
def visit (host : String) (s : ConnectionPool) : ConnectionPool :=
  match s.hostSemaphores host with
  | some n =>
    if (s.system.semaphores (.host n)).available < s.maxPerHost then s
    else { s with hostSemaphores := Function.update s.hostSemaphores host none }
  | none => s

/-- `active_connections`. -/
def activeConnections (s : ConnectionPool) : ℕ := s.activeCount

/-- `host_active_connections`. -/
def hostActiveConnections (host : String) (s : ConnectionPool) : ℕ :=
  match s.hostSemaphores host with
  | some n => s.maxPerHost - (s.system.semaphores (.host n)).available
  | none => 0

/-- The acquire goes on without the semaphores. -/
def advance (i : ℕ) (a : Acquire) (phase : AcquirePhase) (s : ConnectionPool) : ConnectionPool :=
  s.onSystem (.become i { a with phase := phase })

/-- A step of an acquire or of the drop of its permit. -/
def acquireStep (i : ℕ) (a : Acquire) (s : ConnectionPool) : PoolEvent → Option ConnectionPool
  | .acquireGlobal _ =>
    match a.phase with
    | .started => some (s.onSystem (.request .pool i { a with phase := .hasGlobal }
        { a with phase := .waitsGlobal }))
    | _ => none
  | .lookup _ =>
    match a.phase with
    | .hasGlobal =>
      let (n, s') := s.hostSemaphore a.host
      some (s'.advance i a (.lookedUp n))
    | _ => none
  | .acquireHost _ =>
    match a.phase with
    | .lookedUp n => some (s.onSystem (.request (.host n) i { a with phase := .hasHost n }
        { a with phase := .waitsHost n }))
    | _ => none
  | .count _ =>
    match a.phase with
    | .hasHost n => some { s.advance i a (.counted n) with activeCount := s.activeCount + 1 }
    | _ => none
  | .finish _ =>
    match a.phase with
    | .counted n => some (s.advance i a (.live n))
    | _ => none
  | .cancel _ =>
    match a.phase with
    | .started => some (s.advance i a .ended)
    | .waitsGlobal => some (s.onSystem (.withdraw .pool i { a with phase := .ended }))
    | .hasGlobal => some (s.onSystem (.release acquireUse .pool i { a with phase := .ended }))
    | .waitsHost n => some (s.onSystem (.withdraw (.host n) i { a with phase := .cancelled }))
    | .hasHost n =>
      some (s.onSystem (.release acquireUse (.host n) i { a with phase := .cancelled }))
    | _ => none
  | .drop _ =>
    match a.phase with
    | .live n => some { s.advance i a (.uncounted n) with activeCount := s.activeCount - 1 }
    | _ => none
  | .returnGlobal _ =>
    match a.phase with
    | .uncounted n =>
      some (s.onSystem (.release acquireUse .pool i { a with phase := .returnedGlobal n }))
    | .cancelled => some (s.onSystem (.release acquireUse .pool i { a with phase := .ended }))
    | _ => none
  | .returnHost _ =>
    match a.phase with
    | .returnedGlobal n =>
      some (s.onSystem (.release acquireUse (.host n) i { a with phase := .ended }))
    | _ => none
  | .start _ | .visit _ => none

/-- The pool after an event. -/
def step (s : ConnectionPool) (e : PoolEvent) : Option ConnectionPool :=
  match e with
  | .start host => some (s.onSystem (.spawn ⟨host, .started⟩))
  | .visit host => some (s.visit host)
  | .acquireGlobal i | .lookup i | .acquireHost i | .count i | .finish i | .cancel i | .drop i
  | .returnGlobal i | .returnHost i => s.system.tasks[i]?.bind fun a => s.acquireStep i a e

/-! ### What the pool promises -/

/-- The live permits of a host. -/
def live (host : String) (s : ConnectionPool) : ℕ :=
  s.system.tasks.countP fun a => a.host = host && a.phase.isLive

/-- All live permits. -/
def liveTotal (s : ConnectionPool) : ℕ := s.system.tasks.countP fun a => a.phase.isLive

/-- The permits of a host whose drop has begun and has not returned the host's permit. -/
def dropping (host : String) (s : ConnectionPool) : ℕ :=
  s.system.tasks.countP fun a => a.host = host && a.phase.isDropping

/-- No acquire is between the permit of its host and its return. -/
def Quiet (s : ConnectionPool) : Prop := ∀ a ∈ s.system.tasks, a.phase.isReturning = false

/-- The limits hold, and the counters are right whenever no acquire is about to return. -/
structure WithinBounds (s : ConnectionPool) : Prop where
  perHost : ∀ host, s.live host ≤ s.maxPerHost
  total : s.liveTotal ≤ s.maxGlobal
  active : s.Quiet → s.activeConnections = s.liveTotal
  hostActive : s.Quiet → ∀ host, s.hostActiveConnections host = s.live host + s.dropping host

/-- Cleaning up does not remove a semaphore that an acquire has looked up and not asked yet. -/
def KeepsLookedUp (s : ConnectionPool) : PoolEvent → Prop
  | .visit host => 0 < s.maxPerHost → ∀ n ∈ s.hostSemaphores host,
      s.maxPerHost ≤ (s.system.semaphores (.host n)).available →
      ∀ a ∈ s.system.tasks, a.phase ≠ .lookedUp n
  | _ => True

instance KeepsLookedUp.decidable (s : ConnectionPool) :
    (e : PoolEvent) → Decidable (s.KeepsLookedUp e)
  | .visit host => inferInstanceAs (Decidable (0 < s.maxPerHost → ∀ n ∈ s.hostSemaphores host,
      s.maxPerHost ≤ (s.system.semaphores (.host n)).available →
      ∀ a ∈ s.system.tasks, a.phase ≠ .lookedUp n))
  | .start _ | .acquireGlobal _ | .lookup _ | .acquireHost _ | .count _ | .finish _ | .cancel _
  | .drop _ | .returnGlobal _ | .returnHost _ => inferInstanceAs (Decidable True)

/-! ### Every step -/

/-- Permits and counted connections are conserved, and each semaphore was created for one host. -/
structure Sound (s : ConnectionPool) : Prop where
  conserves : s.system.Conserves acquireUse (capacity s.maxPerHost s.maxGlobal)
  counted : s.activeCount = s.system.tasks.countP fun a => a.phase.isCounted
  created : ∀ a ∈ s.system.tasks, ∀ n, a.phase.hostSemaphore = some n → n < s.created
  entry : ∀ host n, s.hostSemaphores host = some n → n < s.created
  distinct : ∀ host host' n, s.hostSemaphores host = some n → s.hostSemaphores host' = some n →
    host = host'

/-- Every acquire works with the semaphore that its host has in the map. -/
def Attached (s : ConnectionPool) : Prop :=
  ∀ a ∈ s.system.tasks, ∀ n, a.phase.hostSemaphore = some n → s.hostSemaphores a.host = some n

/-- A step that leaves the map alone: no acquire works with another semaphore than before. -/
structure LeavesMap (s s' : ConnectionPool) : Prop where
  maxPerHost : s'.maxPerHost = s.maxPerHost
  maxGlobal : s'.maxGlobal = s.maxGlobal
  hostSemaphores : s'.hostSemaphores = s.hostSemaphores
  created : s'.created = s.created
  traced : ∀ a' ∈ s'.system.tasks, a'.phase.hostSemaphore = none ∨
    ∃ a ∈ s.system.tasks, a'.host = a.host ∧ a'.phase.hostSemaphore = a.phase.hostSemaphore

section Steps

variable {s s' : ConnectionPool} {i : ℕ} {a : Acquire} {phase : AcquirePhase} {e : PoolEvent}

theorem LeavesMap.attached (h : s.LeavesMap s') (hs : s.Attached) : s'.Attached := by
  intro a' ha' n hn
  rcases h.traced a' ha' with hnone | ⟨a, ha, hhost, hsem⟩
  · rw [hnone] at hn
    cases hn
  · rw [h.hostSemaphores, hhost]
    exact hs a ha n (hsem ▸ hn)

theorem LeavesMap.sound (h : s.LeavesMap s') (hs : s.Sound)
    (hconserves : s'.system.Conserves acquireUse (capacity s.maxPerHost s.maxGlobal))
    (hcounted : s'.activeCount = s'.system.tasks.countP fun a => a.phase.isCounted) : s'.Sound := by
  refine ⟨?_, hcounted, fun a' ha' n hn => ?_, ?_, ?_⟩
  · rw [h.maxPerHost, h.maxGlobal]
    exact hconserves
  · rcases h.traced a' ha' with hnone | ⟨a, ha, -, hsem⟩
    · rw [hnone] at hn
      cases hn
    · rw [h.created]
      exact hs.created a ha n (hsem ▸ hn)
  · rw [h.hostSemaphores, h.created]
    exact hs.entry
  · rw [h.hostSemaphores]
    exact hs.distinct

@[simp] theorem grant_hostSemaphore (phase : AcquirePhase) :
    phase.grant.hostSemaphore = phase.hostSemaphore := by
  cases phase <;> rfl

@[simp] theorem grant_isCounted (phase : AcquirePhase) :
    phase.grant.isCounted = phase.isCounted := by
  cases phase <;> rfl

/-- The phase works with the semaphore of the acquire, or with none. -/
def Keeps (phase : AcquirePhase) (a : Acquire) : Prop :=
  phase.hostSemaphore = none ∨ phase.hostSemaphore = a.phase.hostSemaphore

theorem Keeps.traced (h : Keeps phase a) (ha : s.system.tasks[i]? = some a) :
    phase.hostSemaphore = none ∨
      ∃ b ∈ s.system.tasks, a.host = b.host ∧ phase.hostSemaphore = b.phase.hostSemaphore :=
  h.imp_right fun hsame => ⟨a, List.mem_of_getElem? ha, rfl, hsame⟩

theorem traced_self (s : ConnectionPool) : ∀ a ∈ s.system.tasks, a.phase.hostSemaphore = none ∨
    ∃ b ∈ s.system.tasks, a.host = b.host ∧ a.phase.hostSemaphore = b.phase.hostSemaphore :=
  fun a ha => Or.inr ⟨a, ha, rfl, rfl⟩

/-- The acquire asks a semaphore for a permit. -/
theorem request_spec (hs : s.Sound) (ha : s.system.tasks[i]? = some a) {id : PoolSemaphore}
    {granted queued : AcquirePhase}
    (hgains : SemaphoreSystem.Gains acquireUse id a { a with phase := granted })
    (hwaits : a.phase.waitsFor = none) (hgranted : granted.waitsFor = none)
    (hholds : ∀ id', acquireUse.holds { a with phase := queued } id' = acquireUse.holds a id')
    (hqueued : queued.waitsFor = some id) (hkeeps : Keeps granted a) (hkeeps' : Keeps queued a)
    (hcounted : granted.isCounted = a.phase.isCounted)
    (hcounted' : queued.isCounted = a.phase.isCounted) :
    s.LeavesMap
      (s.onSystem (.request id i { a with phase := granted } { a with phase := queued })) ∧
    (s.onSystem
      (.request id i { a with phase := granted } { a with phase := queued })).Sound := by
  have hleaves : s.LeavesMap (s.onSystem
      (.request id i { a with phase := granted } { a with phase := queued })) :=
    ⟨rfl, rfl, rfl, rfl, SemaphoreSystem.forall_request (traced_self s) (hkeeps.traced ha)
      (hkeeps'.traced ha)⟩
  refine ⟨hleaves, hleaves.sound hs
    (hs.conserves.request ha hwaits hgains hgranted hholds hqueued) ?_⟩
  exact hs.counted.trans (SemaphoreSystem.countP_request ha hcounted hcounted').symm

/-- The acquire leaves the queue of a semaphore. -/
theorem withdraw_spec (hs : s.Sound) (ha : s.system.tasks[i]? = some a) {id : PoolSemaphore}
    (hwaits : a.phase.waitsFor = some id)
    (hholds : ∀ id', acquireUse.holds { a with phase := phase } id' = acquireUse.holds a id')
    (hgone : phase.waitsFor = none) (hkeeps : Keeps phase a)
    (hcounted : phase.isCounted = a.phase.isCounted) :
    s.LeavesMap (s.onSystem (.withdraw id i { a with phase := phase })) ∧
    (s.onSystem (.withdraw id i { a with phase := phase })).Sound := by
  have hleaves : s.LeavesMap (s.onSystem (.withdraw id i { a with phase := phase })) :=
    ⟨rfl, rfl, rfl, rfl, SemaphoreSystem.forall_withdraw (traced_self s) (hkeeps.traced ha)⟩
  refine ⟨hleaves, hleaves.sound hs (hs.conserves.withdraw ha hwaits hholds hgone) ?_⟩
  exact hs.counted.trans (SemaphoreSystem.countP_set_of_eq _ ha hcounted).symm

/-- The acquire returns a permit. -/
theorem release_spec (hs : s.Sound) (ha : s.system.tasks[i]? = some a) {id : PoolSemaphore}
    (hwaits : a.phase.waitsFor = none)
    (hgains : SemaphoreSystem.Gains acquireUse id { a with phase := phase } a)
    (hgone : phase.waitsFor = none) (hkeeps : Keeps phase a)
    (hcounted : phase.isCounted = a.phase.isCounted) :
    s.LeavesMap (s.onSystem (.release acquireUse id i { a with phase := phase })) ∧
    (s.onSystem (.release acquireUse id i { a with phase := phase })).Sound := by
  have hleaves : s.LeavesMap (s.onSystem (.release acquireUse id i { a with phase := phase })) :=
    ⟨rfl, rfl, rfl, rfl, SemaphoreSystem.forall_release (traced_self s) (hkeeps.traced ha)
      fun b hb => by simpa [acquireUse] using hb⟩
  refine ⟨hleaves, hleaves.sound hs (hs.conserves.release ha hwaits hgains hgone) ?_⟩
  exact hs.counted.trans (SemaphoreSystem.countP_release ha hcounted
    fun b => grant_isCounted b.phase).symm

/-- The acquire goes on; what it adds to the count of connections is counted. -/
theorem advance_spec (hs : s.Sound) (ha : s.system.tasks[i]? = some a) {activeCount : ℕ}
    (hholds : ∀ id', acquireUse.holds { a with phase := phase } id' = acquireUse.holds a id')
    (hwaits : phase.waitsFor = a.phase.waitsFor) (hkeeps : Keeps phase a)
    (hcounted : activeCount + (if a.phase.isCounted then 1 else 0) =
      s.activeCount + if phase.isCounted then 1 else 0) :
    s.LeavesMap { s.advance i a phase with activeCount := activeCount } ∧
    Sound { s.advance i a phase with activeCount := activeCount } := by
  have hleaves : s.LeavesMap { s.advance i a phase with activeCount := activeCount } :=
    ⟨rfl, rfl, rfl, rfl, SemaphoreSystem.forall_become (traced_self s) (hkeeps.traced ha)⟩
  refine ⟨hleaves, hleaves.sound hs (hs.conserves.become ha hholds hwaits) ?_⟩
  have hset := @SemaphoreSystem.countP_set_add Acquire _ i a { a with phase := phase }
    (fun a => a.phase.isCounted) ha
  have hbefore := hs.counted
  change activeCount = (s.system.tasks.set i { a with phase := phase }).countP _
  dsimp only at hset
  omega

/-- A phase with the permit of the pool besides those of another. -/
theorem gains_pool {host : String} {from' to' : AcquirePhase} (hlacks : from'.holdsGlobal = false)
    (hholds : to'.holdsGlobal = true) (hhost : ∀ n, to'.holdsHost n = from'.holdsHost n) :
    SemaphoreSystem.Gains acquireUse .pool ⟨host, from'⟩ ⟨host, to'⟩ := by
  refine ⟨hlacks, fun id => ?_⟩
  cases id with
  | pool => simp [acquireUse, hholds]
  | host n => simp [acquireUse, hhost n]

/-- A phase with the permit of a host besides those of another. -/
theorem gains_host {host : String} {from' to' : AcquirePhase} {n : ℕ}
    (hlacks : from'.holdsHost n = false) (hglobal : to'.holdsGlobal = from'.holdsGlobal)
    (hhost : ∀ m, to'.holdsHost m = (from'.holdsHost m || decide (m = n))) :
    SemaphoreSystem.Gains acquireUse (.host n) ⟨host, from'⟩ ⟨host, to'⟩ := by
  refine ⟨hlacks, fun id => ?_⟩
  cases id with
  | pool => simp [acquireUse, hglobal]
  | host m => simp [acquireUse, hhost m]

theorem holds_congr {host : String} {from' to' : AcquirePhase}
    (hglobal : to'.holdsGlobal = from'.holdsGlobal)
    (hhost : ∀ n, to'.holdsHost n = from'.holdsHost n) (id : PoolSemaphore) :
    acquireUse.holds ⟨host, to'⟩ id = acquireUse.holds ⟨host, from'⟩ id := by
  cases id with
  | pool => exact hglobal
  | host n => exact hhost n

theorem start_spec (hs : s.Sound) (host : String) :
    s.LeavesMap (s.onSystem (.spawn ⟨host, .started⟩)) ∧
      (s.onSystem (.spawn ⟨host, .started⟩)).Sound := by
  have hleaves : s.LeavesMap (s.onSystem (.spawn ⟨host, .started⟩)) := by
    refine ⟨rfl, rfl, rfl, rfl, fun a ha => ?_⟩
    rcases List.mem_append.mp ha with hmem | hnew
    · exact traced_self s a hmem
    · obtain rfl := List.mem_singleton.mp hnew
      exact Or.inl rfl
  refine ⟨hleaves, hleaves.sound hs (hs.conserves.spawn (fun id => by cases id <;> rfl) rfl) ?_⟩
  simpa [onSystem, SemaphoreSystem.spawn, AcquirePhase.isCounted] using hs.counted

/-- What an acquire does apart from its lookup leaves the map alone. -/
theorem acquireStep_spec (hs : s.Sound) (ha : s.system.tasks[i]? = some a)
    (hlookup : ∀ j, e ≠ .lookup j) (hstep : s.acquireStep i a e = some s') :
    s.LeavesMap s' ∧ s'.Sound := by
  obtain ⟨host, phase⟩ := a
  cases e with
  | start host | visit host => cases hstep
  | lookup j => exact absurd rfl (hlookup j)
  | acquireGlobal j =>
    cases phase with
    | started =>
      obtain rfl := Option.some.inj hstep
      exact request_spec hs ha (gains_pool rfl rfl fun _ => rfl) rfl rfl
        (holds_congr rfl fun _ => rfl) rfl (Or.inl rfl) (Or.inl rfl) rfl rfl
    | _ => cases hstep
  | acquireHost j =>
    cases phase with
    | lookedUp n =>
      obtain rfl := Option.some.inj hstep
      exact request_spec hs ha (gains_host rfl rfl fun m => by
          simp [AcquirePhase.holdsHost, eq_comm]) rfl rfl
        (holds_congr rfl fun _ => rfl) rfl (Or.inr rfl) (Or.inr rfl) rfl rfl
    | _ => cases hstep
  | count j =>
    cases phase with
    | hasHost n =>
      obtain rfl := Option.some.inj hstep
      exact advance_spec hs ha (holds_congr rfl fun _ => rfl) rfl (Or.inr rfl) rfl
    | _ => cases hstep
  | finish j =>
    cases phase with
    | counted n =>
      obtain rfl := Option.some.inj hstep
      exact advance_spec hs ha (holds_congr rfl fun _ => rfl) rfl (Or.inr rfl) rfl
    | _ => cases hstep
  | cancel j =>
    cases phase with
    | started =>
      obtain rfl := Option.some.inj hstep
      exact advance_spec hs ha (holds_congr rfl fun _ => rfl) rfl (Or.inl rfl) rfl
    | waitsGlobal =>
      obtain rfl := Option.some.inj hstep
      exact withdraw_spec hs ha rfl (holds_congr rfl fun _ => rfl) rfl (Or.inl rfl) rfl
    | hasGlobal =>
      obtain rfl := Option.some.inj hstep
      exact release_spec hs ha rfl (gains_pool rfl rfl fun _ => rfl) rfl (Or.inl rfl) rfl
    | waitsHost n =>
      obtain rfl := Option.some.inj hstep
      exact withdraw_spec hs ha rfl (holds_congr rfl fun _ => rfl) rfl (Or.inl rfl) rfl
    | hasHost n =>
      obtain rfl := Option.some.inj hstep
      exact release_spec hs ha rfl (gains_host rfl rfl fun m => by
        simp [AcquirePhase.holdsHost, eq_comm]) rfl (Or.inl rfl) rfl
    | _ => cases hstep
  | drop j =>
    cases phase with
    | live n =>
      obtain rfl := Option.some.inj hstep
      have hcounted : 0 < s.activeCount := by
        rw [hs.counted]
        exact List.countP_pos_iff.mpr ⟨_, List.mem_of_getElem? ha, rfl⟩
      refine advance_spec hs ha (holds_congr rfl fun _ => rfl) rfl (Or.inr rfl) ?_
      simp only [AcquirePhase.isCounted, if_true, Bool.false_eq_true, if_false]
      omega
    | _ => cases hstep
  | returnGlobal j =>
    cases phase with
    | uncounted n =>
      obtain rfl := Option.some.inj hstep
      exact release_spec hs ha rfl (gains_pool rfl rfl fun _ => rfl) rfl (Or.inr rfl) rfl
    | cancelled =>
      obtain rfl := Option.some.inj hstep
      exact release_spec hs ha rfl (gains_pool rfl rfl fun _ => rfl) rfl (Or.inl rfl) rfl
    | _ => cases hstep
  | returnHost j =>
    cases phase with
    | returnedGlobal n =>
      obtain rfl := Option.some.inj hstep
      exact release_spec hs ha rfl (gains_host rfl rfl fun m => by
        simp [AcquirePhase.holdsHost, eq_comm]) rfl (Or.inl rfl) rfl
    | _ => cases hstep

/-- A lookup of a semaphore that the map has. -/
theorem lookup_spec (hs : s.Sound) (ha : s.system.tasks[i]? = some a) {n : ℕ}
    (hphase : a.phase = .hasGlobal) (hentry : s.hostSemaphores a.host = some n) :
    (s.advance i a (.lookedUp n)).Sound ∧
      (s.Attached → (s.advance i a (.lookedUp n)).Attached) := by
  obtain ⟨host, phase⟩ := a
  obtain rfl : phase = .hasGlobal := hphase
  refine ⟨⟨?_, ?_, ?_, hs.entry, hs.distinct⟩, fun hattached => ?_⟩
  · exact hs.conserves.become ha (holds_congr rfl fun _ => rfl) rfl
  · have hset := @SemaphoreSystem.countP_set_of_eq Acquire _ i _ ⟨host, .lookedUp n⟩
      (fun a => a.phase.isCounted) ha rfl
    exact hs.counted.trans hset.symm
  · refine SemaphoreSystem.forall_become hs.created fun m hm => ?_
    obtain rfl := Option.some.inj hm
    exact hs.entry host _ hentry
  · refine SemaphoreSystem.forall_become hattached fun m hm => ?_
    obtain rfl := Option.some.inj hm
    exact hentry

/-- A new semaphore for a host that has none in the map. -/
theorem create_spec (hs : s.Sound) {host : String} (hnone : s.hostSemaphores host = none) :
    (s.hostSemaphore host).2.Sound ∧ (s.Attached → (s.hostSemaphore host).2.Attached) := by
  unfold hostSemaphore
  rw [hnone]
  have hfresh (host' : String) (n : ℕ) (h : Function.update s.hostSemaphores host
      (some s.created) host' = some n) : (host' = host ∧ n = s.created) ∨
        (host' ≠ host ∧ s.hostSemaphores host' = some n) := by
    by_cases hhost : host' = host
    · subst hhost
      rw [Function.update_self] at h
      exact Or.inl ⟨rfl, (Option.some.inj h).symm⟩
    · rw [Function.update_of_ne hhost] at h
      exact Or.inr ⟨hhost, h⟩
  refine ⟨⟨hs.conserves, hs.counted, fun a ha n hn => ?_, fun host' n h => ?_,
    fun host' host'' n h h' => ?_⟩, fun hattached a ha n hn => ?_⟩
  · exact Nat.lt_succ_of_lt (hs.created a ha n hn)
  · rcases hfresh host' n h with ⟨-, rfl⟩ | ⟨-, h⟩
    · exact Nat.lt_succ_self _
    · exact Nat.lt_succ_of_lt (hs.entry host' n h)
  · rcases hfresh host' n h with ⟨hhost, hn⟩ | ⟨-, hold⟩ <;>
      rcases hfresh host'' n h' with ⟨hhost', hn'⟩ | ⟨-, hold'⟩
    · exact hhost.trans hhost'.symm
    · exact absurd (hs.entry host'' n hold') (by omega)
    · exact absurd (hs.entry host' n hold) (by omega)
    · exact hs.distinct host' host'' n hold hold'
  · have hentry := hattached a ha n hn
    have hhost : a.host ≠ host := fun heq => by
      rw [heq, hnone] at hentry
      cases hentry
    change Function.update s.hostSemaphores host (some s.created) a.host = some n
    rw [Function.update_of_ne hhost]
    exact hentry

/-- What an acquire with a semaphore does: it has looked it up, waits for it or has its permit. -/
theorem hostSemaphore_cases {n : ℕ} (h : phase.hostSemaphore = some n) :
    phase = .lookedUp n ∨ phase.waitsFor = some (.host n) ∨ phase.holdsHost n = true := by
  cases phase with
  | lookedUp m =>
    obtain rfl := Option.some.inj h
    exact Or.inl rfl
  | waitsHost m =>
    obtain rfl := Option.some.inj h
    exact Or.inr (Or.inl rfl)
  | hasHost m | counted m | live m | uncounted m | returnedGlobal m =>
    obtain rfl := Option.some.inj h
    simp [AcquirePhase.holdsHost]
  | _ => cases h

/-- An acquire that holds the permit of a host, among its holders. -/
theorem holders_pos {n : ℕ} (ha : a ∈ s.system.tasks) (h : a.phase.holdsHost n = true) :
    0 < s.system.holders acquireUse (.host n) := List.countP_pos_iff.mpr ⟨a, ha, h⟩

/-- A visit of an entry keeps the acquires attached that have not just looked it up. -/
theorem visit_spec (hs : s.Sound) (host : String) :
    (s.visit host).Sound ∧ (s.visit host).maxPerHost = s.maxPerHost ∧
      (s.visit host).maxGlobal = s.maxGlobal ∧
      (0 < s.maxPerHost → s.KeepsLookedUp (.visit host) → s.Attached →
        (s.visit host).Attached) := by
  unfold visit
  split
  · rename_i n hentry
    split
    · exact ⟨hs, rfl, rfl, fun _ _ h => h⟩
    · rename_i hidle
      have hremoved (host' : String) (m : ℕ)
          (h : Function.update s.hostSemaphores host none host' = some m) :
          s.hostSemaphores host' = some m := by
        by_cases hhost : host' = host
        · subst hhost
          rw [Function.update_self] at h
          cases h
        · rwa [Function.update_of_ne hhost] at h
      refine ⟨⟨hs.conserves, hs.counted, hs.created, fun host' m h => hs.entry host' m
        (hremoved host' m h), fun host' host'' m h h' => hs.distinct host' host'' m
        (hremoved host' m h) (hremoved host'' m h')⟩, rfl, rfl, fun hpos hkeeps hattached => ?_⟩
      intro a ha m hm
      have hmap := hattached a ha m hm
      have hhost : a.host ≠ host := by
        intro heq
        obtain rfl : n = m := Option.some.inj (hentry.symm.trans (heq ▸ hmap))
        have hpermits : (s.system.semaphores (.host n)).available +
            s.system.holders acquireUse (.host n) = s.maxPerHost := hs.conserves.permits (.host n)
        rcases hostSemaphore_cases hm with hlooked | hwaits | hholds
        · exact hkeeps hpos n hentry (Nat.not_lt.mp hidle) a ha hlooked
        · -- a queue means that no permit is available
          obtain ⟨j, hj⟩ := List.mem_iff_getElem?.mp ha
          have hqueue := (hs.conserves.queued (.host n) j).mpr ⟨a, hj, hwaits⟩
          have hnone := (s.system.semaphores (.host n)).exhausted (List.ne_nil_of_mem hqueue)
          omega
        · have hheld : 0 < s.system.holders acquireUse (.host n) := holders_pos ha hholds
          omega
      change Function.update s.hostSemaphores host none a.host = some m
      rw [Function.update_of_ne hhost]
      exact hmap
  · exact ⟨hs, rfl, rfl, fun _ _ h => h⟩

/-- A step keeps the pool sound, and the acquires attached if it keeps what was looked up. -/
theorem step_spec (hs : s.Sound) (hstep : s.step e = some s') :
    s'.Sound ∧ s'.maxPerHost = s.maxPerHost ∧ s'.maxGlobal = s.maxGlobal ∧
      (0 < s.maxPerHost → s.KeepsLookedUp e → s.Attached → s'.Attached) := by
  have hleaves (h : s.LeavesMap s' ∧ s'.Sound) : s'.Sound ∧ s'.maxPerHost = s.maxPerHost ∧
      s'.maxGlobal = s.maxGlobal ∧
      (0 < s.maxPerHost → s.KeepsLookedUp e → s.Attached → s'.Attached) :=
    ⟨h.2, h.1.maxPerHost, h.1.maxGlobal, fun _ _ => h.1.attached⟩
  cases e with
  | start host =>
    obtain rfl := Option.some.inj hstep
    exact hleaves (start_spec hs host)
  | visit host =>
    obtain rfl := Option.some.inj hstep
    exact visit_spec hs host
  | lookup i =>
    obtain ⟨a, ha, hstep⟩ := Option.bind_eq_some_iff.mp hstep
    unfold acquireStep at hstep
    dsimp only at hstep
    split at hstep
    · rename_i hphase
      obtain rfl := Option.some.inj hstep
      cases hentry : s.hostSemaphores a.host with
      | some n =>
        obtain ⟨hsound, hattached⟩ := lookup_spec hs ha hphase hentry
        have hsame : s.hostSemaphore a.host = (n, s) := by rw [hostSemaphore, hentry]
        rw [hsame]
        exact ⟨hsound, rfl, rfl, fun _ _ => hattached⟩
      | none =>
        obtain ⟨hsound, hattached⟩ := create_spec hs hentry
        have hnew : (s.hostSemaphore a.host).2.hostSemaphores a.host =
            some (s.hostSemaphore a.host).1 := by
          simp [hostSemaphore, hentry]
        have hsystem : (s.hostSemaphore a.host).2.system = s.system := by
          simp [hostSemaphore, hentry]
        obtain ⟨hsound', hattached'⟩ :=
          lookup_spec hsound (hsystem ▸ ha) hphase hnew
        refine ⟨hsound', ?_, ?_, fun _ _ h => hattached' (hattached h)⟩ <;>
          simp [advance, onSystem, hostSemaphore, hentry]
    · cases hstep
  | acquireGlobal i | acquireHost i | count i | finish i | cancel i | drop i | returnGlobal i
  | returnHost i =>
    obtain ⟨a, ha, hstep⟩ := Option.bind_eq_some_iff.mp hstep
    exact hleaves (acquireStep_spec hs ha (by simp) hstep)

end Steps

/-! ### The limits -/

section Limits

variable {s : ConnectionPool}

theorem isLive_holdsGlobal {phase : AcquirePhase} (h : phase.isLive = true) :
    phase.holdsGlobal = true := by
  cases phase <;> first | rfl | cases h

/-- A phase with the permit of its host is about to return, live or being dropped. -/
theorem holdsHost_cases {phase : AcquirePhase} {n : ℕ} (h : phase.hostSemaphore = some n)
    (hquiet : phase.isReturning = false) :
    (if phase.holdsHost n then 1 else 0) =
      (if phase.isLive then 1 else 0) + if phase.isDropping then 1 else 0 := by
  cases phase <;> simp_all [AcquirePhase.hostSemaphore, AcquirePhase.holdsHost,
    AcquirePhase.isLive, AcquirePhase.isDropping, AcquirePhase.isReturning]

theorem hostSemaphore_of_holdsHost {phase : AcquirePhase} {n : ℕ} (h : phase.holdsHost n = true) :
    phase.hostSemaphore = some n := by
  cases phase with
  | hasHost m | counted m | live m | uncounted m | returnedGlobal m =>
    obtain rfl : m = n := of_decide_eq_true h
    rfl
  | _ => cases h

/-- A live permit and one that is being dropped hold the permit of their host. -/
theorem holdsHost_of_permit {phase : AcquirePhase}
    (h : phase.isLive = true ∨ phase.isDropping = true) :
    ∃ n, phase.hostSemaphore = some n ∧ phase.holdsHost n = true := by
  cases phase with
  | live n | uncounted n | returnedGlobal n => exact ⟨n, rfl, decide_eq_true rfl⟩
  | _ => simp [AcquirePhase.isLive, AcquirePhase.isDropping] at h

theorem Sound.total_le (hs : s.Sound) : s.liveTotal ≤ s.maxGlobal := by
  have hle : s.liveTotal ≤ s.system.holders acquireUse .pool :=
    List.countP_mono_left fun a _ ha => isLive_holdsGlobal ha
  exact Nat.le_trans hle (hs.conserves.holders_le .pool)

theorem Sound.active_eq (hs : s.Sound) (hquiet : s.Quiet) :
    s.activeConnections = s.liveTotal := by
  refine hs.counted.trans (List.countP_congr fun a ha => ?_)
  have hphase := hquiet a ha
  revert hphase
  cases a.phase <;> simp [AcquirePhase.isCounted, AcquirePhase.isLive, AcquirePhase.isReturning]

/-- A host of whose permits none is held has none live or being dropped. -/
theorem counts_eq_zero {host : String}
    (h : ∀ a ∈ s.system.tasks, a.host = host → ∀ n, a.phase.hostSemaphore = some n →
      a.phase.holdsHost n = false) : s.live host = 0 ∧ s.dropping host = 0 := by
  have hnone (a : Acquire) (ha : a ∈ s.system.tasks) (hhost : a.host = host) :
      ¬(a.phase.isLive = true ∨ a.phase.isDropping = true) := by
    intro hpermit
    obtain ⟨n, hsem, hholds⟩ := holdsHost_of_permit hpermit
    rw [h a ha hhost n hsem] at hholds
    cases hholds
  constructor
  · refine List.countP_eq_zero.mpr fun a ha hlive => ?_
    simp only [Bool.and_eq_true, decide_eq_true_eq] at hlive
    exact hnone a ha hlive.1 (Or.inl hlive.2)
  · refine List.countP_eq_zero.mpr fun a ha hdropping => ?_
    simp only [Bool.and_eq_true, decide_eq_true_eq] at hdropping
    exact hnone a ha hdropping.1 (Or.inr hdropping.2)

/-- The semaphore that the map has for a host counts its permits. -/
theorem Attached.holders_eq (hs : s.Sound) (hattached : s.Attached) {host : String} {n : ℕ}
    (hentry : s.hostSemaphores host = some n) :
    s.live host ≤ s.system.holders acquireUse (.host n) ∧
      (s.Quiet → s.system.holders acquireUse (.host n) = s.live host + s.dropping host) := by
  have hown (a : Acquire) (ha : a ∈ s.system.tasks) (m : ℕ) (hm : a.phase.hostSemaphore = some m) :
      m = n ↔ a.host = host := by
    have hmap := hattached a ha m hm
    constructor
    · rintro rfl
      exact hs.distinct _ _ _ hmap hentry
    · intro hhost
      rw [hhost, hentry] at hmap
      exact (Option.some.inj hmap).symm
  constructor
  · refine List.countP_mono_left fun a ha hlive => ?_
    simp only [Bool.and_eq_true, decide_eq_true_eq] at hlive
    obtain ⟨m, hm, hholds⟩ := holdsHost_of_permit (Or.inl hlive.2)
    rw [(hown a ha m hm).mpr hlive.1] at hholds
    exact hholds
  · intro hquiet
    refine SemaphoreSystem.countP_add fun a ha => ?_
    change (if a.phase.holdsHost n then 1 else 0) = _
    by_cases hhost : a.host = host
    · simp only [hhost, decide_true, Bool.true_and]
      cases hm : a.phase.hostSemaphore with
      | some m =>
        obtain rfl := (hown a ha m hm).mpr hhost
        exact holdsHost_cases hm (hquiet a ha)
      | none =>
        have hnone : ¬(a.phase.isLive = true ∨ a.phase.isDropping = true) := fun hpermit => by
          obtain ⟨m, hsem, -⟩ := holdsHost_of_permit hpermit
          rw [hm] at hsem
          cases hsem
        have hholds : a.phase.holdsHost n ≠ true := fun hholds => by
          rw [hostSemaphore_of_holdsHost hholds] at hm
          cases hm
        rw [not_or] at hnone
        simp [hholds, hnone.1, hnone.2]
    · have hholds : a.phase.holdsHost n ≠ true := fun hholds =>
        hhost ((hown a ha n (hostSemaphore_of_holdsHost hholds)).mp rfl)
      simp [hholds, hhost]

/-- With the acquires attached, the limits and the counters are right. -/
theorem WithinBounds.of_attached (hs : s.Sound) (hattached : 0 < s.maxPerHost → s.Attached) :
    s.WithinBounds := by
  have hhost (host : String) : s.live host ≤ s.maxPerHost ∧
      (s.Quiet → s.hostActiveConnections host = s.live host + s.dropping host) := by
    by_cases hpos : 0 < s.maxPerHost
    · cases hentry : s.hostSemaphores host with
      | some n =>
        obtain ⟨hle, heq⟩ := (hattached hpos).holders_eq hs hentry
        have hpermits : (s.system.semaphores (.host n)).available +
            s.system.holders acquireUse (.host n) = s.maxPerHost := hs.conserves.permits (.host n)
        refine ⟨by omega, fun hquiet => ?_⟩
        rw [hostActiveConnections, hentry, ← heq hquiet]
        dsimp only
        omega
      | none =>
        have hzero := @counts_eq_zero s host fun a ha hhost n hsem => by
          have hmap := hattached hpos a ha n hsem
          rw [hhost, hentry] at hmap
          cases hmap
        simp [hostActiveConnections, hentry, hzero.1, hzero.2]
    · have hzero := @counts_eq_zero s host fun a ha hhost n hsem => by
        have hle : s.system.holders acquireUse (.host n) ≤ s.maxPerHost :=
          hs.conserves.holders_le (.host n)
        by_contra hholds
        have hheld : 0 < s.system.holders acquireUse (.host n) :=
          holders_pos ha (by simpa using hholds)
        omega
      refine ⟨by omega, fun _ => ?_⟩
      rw [hzero.1, hzero.2, hostActiveConnections]
      split <;> omega
  exact ⟨fun host => (hhost host).1, hs.total_le, hs.active_eq, fun hquiet host =>
    (hhost host).2 hquiet⟩

theorem new_sound (maxPerHost maxGlobal : ℕ) : (new maxPerHost maxGlobal).Sound :=
  ⟨SemaphoreSystem.new_conserves _ _, rfl, fun _ h => absurd h List.not_mem_nil,
    (fun _ _ h => nomatch h), fun _ _ _ h => nomatch h⟩

end Limits

end ConnectionPool

/-- In a run in which cleaning up removes no semaphore that an acquire has looked up and not asked
yet, the limits of the pool hold in every state and its counters are right. -/
theorem pool_within_bounds (maxPerHost maxGlobal : ℕ) (events : List PoolEvent)
    (hkeeps : EventRuns.EachStep ConnectionPool.step ConnectionPool.KeepsLookedUp
      (.new maxPerHost maxGlobal) events) :
    EventRuns.EachState ConnectionPool.step ConnectionPool.WithinBounds
      (.new maxPerHost maxGlobal) events := by
  have hstates : EventRuns.EachState ConnectionPool.step
      (fun s => s.Sound ∧ (0 < s.maxPerHost → s.Attached)) (.new maxPerHost maxGlobal) events := by
    refine hkeeps.eachState (fun s e s' hs hkeeps hstep => ?_)
      ⟨ConnectionPool.new_sound maxPerHost maxGlobal, fun _ _ h => absurd h List.not_mem_nil⟩
    obtain ⟨hsound, hperHost, -, hattached⟩ := ConnectionPool.step_spec hs.1 hstep
    refine ⟨hsound, fun hpos => ?_⟩
    rw [hperHost] at hpos
    exact hattached hpos hkeeps (hs.2 hpos)
  exact hstates.imp fun s hs => .of_attached hs.1 hs.2

/-- A host is cleaned up after its connection, and another acquire makes a new semaphore. -/
theorem pool_within_bounds_twice : EventRuns.EachState ConnectionPool.step
    ConnectionPool.WithinBounds (.new 1 2) [.start "h", .acquireGlobal 0, .lookup 0,
      .acquireHost 0, .count 0, .finish 0, .visit "h", .drop 0, .returnGlobal 0, .returnHost 0,
      .visit "h", .start "h", .acquireGlobal 1, .lookup 1, .acquireHost 1, .count 1, .finish 1] :=
  pool_within_bounds 1 2 _ (by decide +kernel)

/-- Cleaning up and two acquires of a host with one connection: both get it. -/
theorem two_semaphores : ∃ maxPerHost maxGlobal events,
    ¬EventRuns.EachState ConnectionPool.step ConnectionPool.WithinBounds
      (.new maxPerHost maxGlobal) events := by
  let events : List PoolEvent := [.start "h", .acquireGlobal 0, .lookup 0, .visit "h", .start "h",
    .acquireGlobal 1, .lookup 1, .acquireHost 0, .count 0, .finish 0, .acquireHost 1, .count 1,
    .finish 1]
  refine ⟨1, 2, events, fun hstates => ?_⟩
  have hrun : (EventRuns.run ConnectionPool.step (.new 1 2) events).any fun s =>
      s.maxPerHost < s.live "h" := by
    decide +kernel
  obtain ⟨s, hs, hlive⟩ := (Option.any_eq_true _ _).mp hrun
  exact absurd ((hstates.last hs).perHost "h") (Nat.not_le.mpr (of_decide_eq_true hlive))

end Tachyon
