import Tachyon.Engine.ConnectionPool

/-!
# Blocking across hosts

An acquire takes the permit of the pool before it waits for its host. What waits for a slow host
therefore counts against the limit of the pool, and can keep every other host waiting.
-/

namespace Tachyon

namespace ConnectionPool

/-- The steps of one acquire. -/
def ownSteps (host : String) (i : ℕ) : List PoolEvent :=
  [.start host, .acquireGlobal i, .lookup i, .acquireHost i, .count i, .finish i]

/-- A new acquire of the host gets its permit by its own steps. -/
def CompletesAlone (host : String) (s : ConnectionPool) : Prop :=
  ∃ s', EventRuns.run step s (ownSteps host s.system.tasks.length) = some s' ∧
    ∃ n, s'.system.tasks[s.system.tasks.length]? = some ⟨host, .live n⟩

/-- The acquires that hold a permit of the pool and are not live: they look up their host, wait for
it, or are about to return, or they are being cancelled or dropped. -/
def unfinished (s : ConnectionPool) : ℕ :=
  s.system.tasks.countP fun a => a.phase.holdsGlobal && !a.phase.isLive

/-- A permit of the pool is held neither by a live permit nor by an unfinished acquire, and a permit
of the host's semaphore is not held. -/
def HasPermits (host : String) (s : ConnectionPool) : Prop :=
  s.liveTotal + s.unfinished < s.maxGlobal ∧
    ∀ n ∈ s.hostSemaphores host, s.system.holders acquireUse (.host n) < s.maxPerHost

section

variable {s : ConnectionPool} {host : String} {i : ℕ} {a : Acquire} {e : PoolEvent}
  {es : List PoolEvent}

theorem liveTotal_add_unfinished (s : ConnectionPool) :
    s.liveTotal + s.unfinished = s.system.holders acquireUse .pool := by
  refine (SemaphoreSystem.countP_add fun a _ => ?_).symm
  change (if a.phase.holdsGlobal then 1 else 0) = _
  cases a.phase <;> rfl

/-- A semaphore that no acquire has seen yet has all its permits. -/
theorem holders_created (hs : s.Sound) :
    s.system.holders acquireUse (.host s.created) = 0 := by
  refine List.countP_eq_zero.mpr fun a ha hholds => ?_
  have hlt := hs.created a ha _ (hostSemaphore_of_holdsHost hholds)
  omega

/-- The semaphore that an acquire of the host looks up. -/
def semaphoreOf (host : String) (s : ConnectionPool) : ℕ := (s.hostSemaphores host).getD s.created

theorem hostSemaphore_fst (host : String) (s : ConnectionPool) :
    (s.hostSemaphore host).1 = s.semaphoreOf host := by
  unfold hostSemaphore semaphoreOf
  split <;> simp_all

theorem available_pos_iff (hs : s.Sound) (hpos : 0 < s.maxPerHost) :
    0 < (s.system.semaphores (.host (s.semaphoreOf host))).available ↔
      ∀ n ∈ s.hostSemaphores host, s.system.holders acquireUse (.host n) < s.maxPerHost := by
  unfold semaphoreOf
  cases hentry : s.hostSemaphores host with
  | some n =>
    have hpermits : (s.system.semaphores (.host n)).available +
        s.system.holders acquireUse (.host n) = s.maxPerHost := hs.conserves.permits (.host n)
    simp only [Option.getD_some, Option.mem_def, Option.some.injEq, forall_eq']
    omega
  | none =>
    have hpermits : (s.system.semaphores (.host s.created)).available +
        s.system.holders acquireUse (.host s.created) = s.maxPerHost :=
      hs.conserves.permits (.host s.created)
    have hfresh := holders_created hs
    simp only [Option.getD_none, Option.mem_def, reduceCtorEq, false_implies, implies_true,
      iff_true]
    omega

theorem step_of_task (ha : s.system.tasks[i]? = some a)
    (he : s.step e = s.system.tasks[i]?.bind fun a => s.acquireStep i a e) :
    s.step e = s.acquireStep i a e := by
  rw [he, ha]
  rfl

/-- The pool after an acquire has started and asked for the permit of the pool. -/
def askedPool (host : String) (s : ConnectionPool) : ConnectionPool :=
  (s.onSystem (.spawn ⟨host, .started⟩)).onSystem
    (.request .pool s.system.tasks.length ⟨host, .hasGlobal⟩ ⟨host, .waitsGlobal⟩)

/-- The pool after the acquire has looked up its host too. -/
def askedMap (host : String) (s : ConnectionPool) : ConnectionPool :=
  ((s.askedPool host).hostSemaphore host).2.advance s.system.tasks.length ⟨host, .hasGlobal⟩
    (.lookedUp (s.semaphoreOf host))

/-- The pool after the acquire has asked for the permit of its host too. -/
def askedHost (host : String) (s : ConnectionPool) : ConnectionPool :=
  (s.askedMap host).onSystem (.request (.host (s.semaphoreOf host)) s.system.tasks.length
    ⟨host, .hasHost (s.semaphoreOf host)⟩ ⟨host, .waitsHost (s.semaphoreOf host)⟩)

theorem spawn_task (t : Acquire) :
    (s.onSystem (.spawn t)).system.tasks[s.system.tasks.length]? = some t := by
  simp [onSystem, SemaphoreSystem.spawn]

theorem askedPool_task (host : String) (s : ConnectionPool) :
    (s.askedPool host).system.tasks[s.system.tasks.length]? = some
      (if (s.system.semaphores .pool).available = 0 then ⟨host, .waitsGlobal⟩
        else ⟨host, .hasGlobal⟩) :=
  SemaphoreSystem.request_tasks (spawn_task _)

theorem hostSemaphore_system (host : String) (s : ConnectionPool) :
    (s.hostSemaphore host).2.system = s.system := by
  unfold hostSemaphore
  split <;> rfl

theorem askedMap_task (host : String) (s : ConnectionPool) :
    (s.askedMap host).system.tasks[s.system.tasks.length]? =
      some ⟨host, .lookedUp (s.semaphoreOf host)⟩ := by
  have hlength : s.system.tasks.length < (s.askedPool host).system.tasks.length :=
    (List.getElem?_eq_some_iff.mp (askedPool_task host s)).1
  simp [askedMap, advance, onSystem, SemaphoreSystem.become, hostSemaphore_system, hlength]

theorem askedMap_available (host : String) (s : ConnectionPool) (n : ℕ) :
    ((s.askedMap host).system.semaphores (.host n)).available =
      (s.system.semaphores (.host n)).available := by
  simp only [askedMap, advance, onSystem, SemaphoreSystem.become, hostSemaphore_system, askedPool]
  rw [SemaphoreSystem.request_semaphores_of_ne (by simp)]
  rfl

theorem askedHost_task (host : String) (s : ConnectionPool) :
    (s.askedHost host).system.tasks[s.system.tasks.length]? = some
      (if (s.system.semaphores (.host (s.semaphoreOf host))).available = 0 then
        ⟨host, .waitsHost (s.semaphoreOf host)⟩ else ⟨host, .hasHost (s.semaphoreOf host)⟩) := by
  rw [← askedMap_available]
  exact SemaphoreSystem.request_tasks (askedMap_task host s)

/-- Without a permit of the pool, the acquire gets no further than its first request. -/
theorem run_ownSteps_of_pool (hnone : (s.system.semaphores .pool).available = 0) :
    EventRuns.run step s (ownSteps host s.system.tasks.length) = none := by
  have htask := askedPool_task host s
  rw [if_pos hnone] at htask
  have hask : (s.onSystem (.spawn ⟨host, .started⟩)).step (.acquireGlobal s.system.tasks.length) =
      some (s.askedPool host) := step_of_task (spawn_task _) rfl
  have hlookup : (s.askedPool host).step (.lookup s.system.tasks.length) = none :=
    step_of_task htask rfl
  simp only [ownSteps, EventRuns.run, show s.step (.start host) =
    some (s.onSystem (.spawn ⟨host, .started⟩)) from rfl, Option.bind_some, hask, hlookup,
    Option.bind_none]

/-- With a permit of the pool, it comes to the request of its host's permit. -/
theorem run_ownSteps (hsome : (s.system.semaphores .pool).available ≠ 0) :
    EventRuns.run step s (ownSteps host s.system.tasks.length) =
      EventRuns.run step (s.askedHost host)
        [.count s.system.tasks.length, .finish s.system.tasks.length] := by
  have htask := askedPool_task host s
  rw [if_neg hsome] at htask
  have hask : (s.onSystem (.spawn ⟨host, .started⟩)).step (.acquireGlobal s.system.tasks.length) =
      some (s.askedPool host) := step_of_task (spawn_task _) rfl
  have hsame : ((s.askedPool host).hostSemaphore host).1 = s.semaphoreOf host :=
    hostSemaphore_fst host _
  have hlookup : (s.askedPool host).step (.lookup s.system.tasks.length) =
      some (s.askedMap host) := by
    rw [step_of_task htask rfl, askedMap, ← hsame]
    rfl
  have hrequest : (s.askedMap host).step (.acquireHost s.system.tasks.length) =
      some (s.askedHost host) := step_of_task (askedMap_task host s) rfl
  simp only [ownSteps, EventRuns.run, show s.step (.start host) =
    some (s.onSystem (.spawn ⟨host, .started⟩)) from rfl, Option.bind_some, hask, hlookup,
    hrequest]

/-- With the permit of its host the acquire returns. -/
theorem run_return {n : ℕ} (ha : s.system.tasks[i]? = some ⟨host, .hasHost n⟩) :
    ∃ s', EventRuns.run step s [.count i, .finish i] = some s' ∧
      s'.system.tasks[i]? = some ⟨host, .live n⟩ := by
  have hi : i < s.system.tasks.length := (List.getElem?_eq_some_iff.mp ha).1
  let counted : ConnectionPool := { s.advance i ⟨host, .hasHost n⟩ (.counted n) with
    activeCount := s.activeCount + 1 }
  have hcount : s.step (.count i) = some counted := step_of_task ha rfl
  have htask : counted.system.tasks[i]? = some ⟨host, .counted n⟩ := by
    simp [counted, advance, onSystem, SemaphoreSystem.become, hi]
  have hfinish : counted.step (.finish i) =
      some (counted.advance i ⟨host, .counted n⟩ (.live n)) := step_of_task htask rfl
  refine ⟨_, EventRuns.run_cons.mpr ⟨_, hcount, EventRuns.run_cons.mpr ⟨_, hfinish, rfl⟩⟩, ?_⟩
  simp [counted, advance, onSystem, SemaphoreSystem.become, hi]

/-- An acquire completes by its own steps exactly where permits are left for it. -/
theorem completesAlone_iff (hs : s.Sound) (hpos : 0 < s.maxPerHost) :
    s.CompletesAlone host ↔ s.HasPermits host := by
  have hpermits : (s.system.semaphores .pool).available + s.system.holders acquireUse .pool =
      s.maxGlobal := hs.conserves.permits .pool
  have hsum := liveTotal_add_unfinished s
  unfold CompletesAlone HasPermits
  rw [← available_pos_iff hs hpos]
  by_cases hpool : (s.system.semaphores .pool).available = 0
  · rw [run_ownSteps_of_pool hpool]
    simp only [reduceCtorEq, false_and, exists_false, false_iff, not_and]
    omega
  · rw [run_ownSteps hpool]
    have htask := askedHost_task host s
    by_cases hhost : (s.system.semaphores (.host (s.semaphoreOf host))).available = 0
    · rw [if_pos hhost] at htask
      have hcount : (s.askedHost host).step (.count s.system.tasks.length) = none :=
        step_of_task htask rfl
      simp [EventRuns.run, hcount, hhost]
    · rw [if_neg hhost] at htask
      obtain ⟨s', hrun, hlive⟩ := run_return htask
      simp only [hrun, Option.some.injEq, exists_eq_left']
      refine iff_of_true ⟨_, hlive⟩ ⟨by omega, by omega⟩

end

/-- An acquire completes by its own steps as long as the limits leave room for its permit. -/
def Unblocked (s : ConnectionPool) : Prop :=
  ∀ host, s.liveTotal < s.maxGlobal → s.live host < s.maxPerHost → s.CompletesAlone host

end ConnectionPool

/-- In every state of a run, where the live permits leave room for one of a host, an acquire of the
host completes by its own steps if and only if the unfinished acquires leave room too. -/
theorem acquire_unblocked_iff (maxPerHost maxGlobal : ℕ) (events : List PoolEvent) :
    EventRuns.EachState ConnectionPool.step (fun s => ∀ host, s.liveTotal < s.maxGlobal →
      s.live host < s.maxPerHost → (s.CompletesAlone host ↔ s.HasPermits host))
      (.new maxPerHost maxGlobal) events := by
  have hsteps : EventRuns.EachStep ConnectionPool.step (fun _ _ => True)
      (.new maxPerHost maxGlobal) events := .of_forall fun _ _ => trivial
  have hstates : EventRuns.EachState ConnectionPool.step ConnectionPool.Sound
      (.new maxPerHost maxGlobal) events :=
    hsteps.eachState (fun s e s' hs _ hstep => (ConnectionPool.step_spec hs hstep).1)
      (ConnectionPool.new_sound maxPerHost maxGlobal)
  exact hstates.imp fun s hs host _ hhost =>
    ConnectionPool.completesAlone_iff hs (Nat.lt_of_le_of_lt (Nat.zero_le _) hhost)

/-- Two permits for the pool and one for each host: while one acquire waits for a busy host, an idle
host is blocked. -/
theorem idle_host_blocked : ∃ maxPerHost maxGlobal events,
    ¬EventRuns.EachState ConnectionPool.step ConnectionPool.Unblocked
      (.new maxPerHost maxGlobal) events := by
  let events : List PoolEvent := [.start "busy", .acquireGlobal 0, .lookup 0, .acquireHost 0,
    .count 0, .finish 0, .start "busy", .acquireGlobal 1, .lookup 1, .acquireHost 1]
  refine ⟨1, 2, events, fun hstates => ?_⟩
  have hrun : (EventRuns.run ConnectionPool.step (.new 1 2) events).any fun s =>
      s.liveTotal < s.maxGlobal ∧ s.live "idle" < s.maxPerHost ∧
        (EventRuns.run ConnectionPool.step s
          (ConnectionPool.ownSteps "idle" s.system.tasks.length)).isNone := by
    decide +kernel
  obtain ⟨s, hs, hblocked⟩ := (Option.any_eq_true _ _).mp hrun
  obtain ⟨htotal, hhost, hnone⟩ := of_decide_eq_true hblocked
  obtain ⟨s', hrun', -⟩ := hstates.last hs "idle" htotal hhost
  rw [hrun'] at hnone
  cases hnone

end Tachyon
