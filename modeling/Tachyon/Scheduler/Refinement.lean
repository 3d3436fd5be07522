import Tachyon.Scheduler.LiveEntries
import Mathlib.Algebra.GroupWithZero.Nat
import Mathlib.Data.List.Nodup

/-!
# The scheduler against a plain map

`Registry` is the specification: the live tasks and nothing else. Removals and updates of
the scheduler leave outdated entries in the queue, and only their versions keep them from
being returned. The versions of a queue differ until the counter has gone round once.
-/

namespace Tachyon

open MaxHeap

/-- A call of a `Scheduler` method; tasks are pushed as `ScheduledTask::new` builds
them. -/
inductive SchedulerOp (Id F : Type) where
  | push (taskId : Id) (priority : Priority) (fileSize : ℕ) (progress : Option F)
  | pop
  | remove (taskId : Id)
  | cancel (taskId : Id)
  | updatePriority (taskId : Id) (newPriority : Priority)
  | updateProgress (taskId : Id) (newProgress : Option F)
  | len
  | isEmpty
  | contains (taskId : Id)
  | get (taskId : Id)

/-- What a call returns. -/
inductive SchedulerOut (Id F : Type) where
  | unit
  | task (found : Option (ScheduledTask Id F))
  | bool (b : Bool)
  | nat (n : ℕ)

/-- A task without its version, which is private to the scheduler. -/
def ScheduledTask.plain {Id F : Type} (task : ScheduledTask Id F) : ScheduledTask Id F :=
  { task with version := 0 }

variable {Id F : Type} [LinearOrder Id] [LinearOrder F] [Zero F]

section

variable (heap : TaskHeap Id F)

/-- One call, with what a caller sees of its result. -/
def Scheduler.step (s : Scheduler Id F) : SchedulerOp Id F → SchedulerOut Id F × Scheduler Id F
  | .push taskId priority fileSize progress =>
    (.unit, s.push heap (.new taskId priority fileSize progress))
  | .pop => ((s.pop heap).map (fun r => .task (r.map .plain)) id)
  | .remove taskId => ((s.remove taskId).map (fun r => .task (r.map .plain)) id)
  | .cancel taskId => ((s.cancel taskId).map .bool id)
  | .updatePriority taskId newPriority =>
    ((s.updatePriority heap taskId newPriority).map (fun r => .task (r.map .plain)) id)
  | .updateProgress taskId newProgress =>
    ((s.updateProgress heap taskId newProgress).map (fun r => .task (r.map .plain)) id)
  | .len => (.nat s.len, s)
  | .isEmpty => (.bool s.isEmpty, s)
  | .contains taskId => (.bool (s.contains taskId), s)
  | .get taskId => (.task ((s.get taskId).map .plain), s)

/-- A sequence of calls. -/
def Scheduler.run (s : Scheduler Id F) :
    List (SchedulerOp Id F) → List (SchedulerOut Id F) × Scheduler Id F
  | [] => ([], s)
  | op :: ops =>
    let (out, s) := s.step heap op
    let (outs, s) := run s ops
    (out :: outs, s)

/-- The version numbers a call hands out. -/
def Scheduler.versionsOf (s : Scheduler Id F) : SchedulerOp Id F → ℕ
  | .push .. => 1
  | .updatePriority taskId _ | .updateProgress taskId _ => if taskId ∈ s.index then 1 else 0
  | _ => 0

/-- The version numbers a sequence of calls hands out. -/
def Scheduler.versionsTaken (s : Scheduler Id F) : List (SchedulerOp Id F) → ℕ
  | [] => 0
  | op :: ops => s.versionsOf op + versionsTaken (s.step heap op).2 ops

end

/-! ### The specification -/

/-- The latest task of each live id. -/
abbrev Registry (Id F : Type) := Finmap fun _ : Id => ScheduledTask Id F

/-- The entry of a live id as `change` makes it. -/
def Registry.update (m : Registry Id F) (taskId : Id)
    (change : ScheduledTask Id F → ScheduledTask Id F) : Registry Id F :=
  match m.lookup taskId with
  | none => m
  | some t => m.insert taskId (change t)

/-- What a call may return and leave behind on a plain map. -/
inductive SpecStep : Registry Id F → SchedulerOp Id F → SchedulerOut Id F → Registry Id F → Prop
  | push (m : Registry Id F) (taskId : Id) (priority : Priority) (fileSize : ℕ)
      (progress : Option F) :
      SpecStep m (.push taskId priority fileSize progress) .unit
        (m.insert taskId (.new taskId priority fileSize progress))
  | popNone : SpecStep ∅ .pop (.task none) ∅
  | popSome (m : Registry Id F) (t : ScheduledTask Id F) (live : m.lookup t.taskId = some t)
      (maximal : ∀ id u, m.lookup id = some u → u.Le t) :
      SpecStep m .pop (.task (some t)) (m.erase t.taskId)
  | remove (m : Registry Id F) (taskId : Id) :
      SpecStep m (.remove taskId) (.task (m.lookup taskId)) (m.erase taskId)
  | cancel (m : Registry Id F) (taskId : Id) :
      SpecStep m (.cancel taskId) (.bool (taskId ∈ m)) (m.erase taskId)
  | updatePriority (m : Registry Id F) (taskId : Id) (newPriority : Priority) :
      SpecStep m (.updatePriority taskId newPriority) (.task (m.lookup taskId))
        (m.update taskId fun t => { t with priority := newPriority })
  | updateProgress (m : Registry Id F) (taskId : Id) (newProgress : Option F) :
      SpecStep m (.updateProgress taskId newProgress) (.task (m.lookup taskId))
        (m.update taskId fun t => { t with progress := newProgress })
  | len (m : Registry Id F) : SpecStep m .len (.nat m.keys.card) m
  | isEmpty (m : Registry Id F) : SpecStep m .isEmpty (.bool (m = ∅)) m
  | contains (m : Registry Id F) (taskId : Id) :
      SpecStep m (.contains taskId) (.bool (taskId ∈ m)) m
  | get (m : Registry Id F) (taskId : Id) :
      SpecStep m (.get taskId) (.task (m.lookup taskId)) m

/-- A sequence of calls on a plain map. -/
inductive SpecRun : Registry Id F → List (SchedulerOp Id F) → List (SchedulerOut Id F) →
    Registry Id F → Prop
  | nil (m : Registry Id F) : SpecRun m [] [] m
  | cons {m m' m'' : Registry Id F} {op : SchedulerOp Id F} {ops : List (SchedulerOp Id F)}
      {out : SchedulerOut Id F} {outs : List (SchedulerOut Id F)}
      (first : SpecStep m op out m') (rest : SpecRun m' ops outs m'') :
      SpecRun m (op :: ops) (out :: outs) m''

/-! ### What the versions of a queue say -/

/-- The scheduler after `n` version numbers. -/
structure Scheduler.Counted (s : Scheduler Id F) (n : ℕ) : Prop where
  counter : s.nextVersion = UInt64.ofNat (n + 1)
  used : ∀ t ∈ s.queue, ∃ k < n, t.version = UInt64.ofNat (k + 1)
  distinct : (s.queue.map ScheduledTask.version).Nodup
  queued : ∀ id t, s.index.lookup id = some t → t ∈ s.queue ∧ t.taskId = id

/-- The map is what the index holds. -/
def Scheduler.Represents (s : Scheduler Id F) (m : Registry Id F) : Prop :=
  ∀ id, m.lookup id = (s.index.lookup id).map ScheduledTask.plain

variable {heap : TaskHeap Id F} {s : Scheduler Id F} {m m' : Registry Id F} {n : ℕ}
  {t u : ScheduledTask Id F} {id : Id} {rest : List (ScheduledTask Id F)}

omit [LinearOrder Id] [LinearOrder F] [Zero F] in
@[simp] theorem ScheduledTask.plain_taskId : t.plain.taskId = t.taskId := rfl

@[simp] theorem ScheduledTask.plain_le_plain : t.plain.Le u.plain ↔ t.Le u := by
  rw [ScheduledTask.le_iff, ScheduledTask.le_iff]
  rfl

/-- The counter comes back to a version only after `2 ^ 64` of them. -/
theorem version_ne {k n : ℕ} (hk : k < n) (hn : n < 2 ^ 64) :
    UInt64.ofNat (k + 1) ≠ UInt64.ofNat (n + 1) := by
  intro heq
  have hmod : (k + 1) % 2 ^ 64 = (n + 1) % 2 ^ 64 := by
    rw [← UInt64.toNat_ofNat', ← UInt64.toNat_ofNat', heq]
  omega

section

omit [LinearOrder F] [Zero F]

theorem Scheduler.counted_new : (Scheduler.new : Scheduler Id F).Counted 0 where
  counter := rfl
  used := by simp [Scheduler.new]
  distinct := List.nodup_nil
  queued := by simp [Scheduler.new]

theorem Scheduler.Counted.erase (h : s.Counted n) (taskId : Id) :
    Scheduler.Counted { s with index := s.index.erase taskId } n where
  counter := h.counter
  used := h.used
  distinct := h.distinct
  queued := Queued.erase h.queued taskId

/-- An entry of the queue under the version of a live task is that task. -/
theorem Scheduler.Counted.live_eq (h : s.Counted n) (ht : t ∈ s.queue)
    (hlive : s.index.lookup id = some u) (hversion : u.version = t.version) : u = t :=
  List.inj_on_of_nodup_map h.distinct (h.queued id u hlive).1 ht hversion

theorem Scheduler.Represents.mem_iff (h : s.Represents m) : id ∈ m ↔ id ∈ s.index := by
  rw [← Finmap.lookup_isSome, ← Finmap.lookup_isSome, h id, Option.isSome_map]

theorem Scheduler.Represents.keys_eq (h : s.Represents m) : m.keys = s.index.keys := by
  ext id
  rw [Finmap.mem_keys, Finmap.mem_keys, h.mem_iff]

theorem Scheduler.Represents.insert (h : s.Represents m) {task : ScheduledTask Id F}
    {queue : List (ScheduledTask Id F)} {nextVersion : UInt64} (htask : task.plain = t) :
    Scheduler.Represents ⟨queue, s.index.insert id task, nextVersion⟩ (m.insert id t) := by
  intro id'
  by_cases hid : id' = id
  · rw [hid, Finmap.lookup_insert, Finmap.lookup_insert, Option.map_some, htask]
  · rw [Finmap.lookup_insert_of_ne _ hid, Finmap.lookup_insert_of_ne _ hid, h id']

theorem Scheduler.Represents.erase_lookup (h : s.Represents m) (id' : Id) :
    (m.erase id).lookup id' = ((s.index.erase id).lookup id').map ScheduledTask.plain := by
  by_cases hid : id' = id
  · rw [hid, Finmap.lookup_erase, Finmap.lookup_erase, Option.map_none]
  · rw [Finmap.lookup_erase_ne hid, Finmap.lookup_erase_ne hid, h id']

end

/-- Queueing a task under the next version keeps the versions of the queue apart. -/
theorem Scheduler.Counted.enqueue (h : s.Counted n) (hn : n < 2 ^ 64)
    (hversion : t.version = s.nextVersion) :
    Scheduler.Counted ⟨heap.push s.queue t, s.index.insert t.taskId t, s.nextVersion + 1⟩
      (n + 1) where
  counter := by rw [h.counter, UInt64.ofNat_add (n + 1)]; rfl
  used := by
    intro u hu
    rcases Heap.mem_push.mp hu with rfl | hu
    · exact ⟨n, by omega, hversion.trans h.counter⟩
    · obtain ⟨k, hk, hu⟩ := h.used u hu
      exact ⟨k, by omega, hu⟩
  distinct := by
    rw [((heap.push_perm s.queue t).map ScheduledTask.version).nodup_iff, List.map_cons,
      List.nodup_cons]
    refine ⟨fun hmem => ?_, h.distinct⟩
    obtain ⟨u, hu, heq⟩ := List.mem_map.mp hmem
    obtain ⟨k, hk, hu⟩ := h.used u hu
    apply version_ne hk hn
    rw [← hu, heq, hversion, h.counter]
  queued := Queued.enqueue h.queued _

/-! ### The scheduler refines the map -/

/-- `pop` takes out a greatest live task, and finds none only where none is live. -/
theorem Scheduler.popLoop_spec (heap : TaskHeap Id F) (fuel : ℕ) (h : s.Counted n)
    (hfuel : s.queue.length ≤ fuel) :
    (s.popLoop heap fuel).2.Counted n ∧
      ((s.index = ∅ ∧ (s.popLoop heap fuel).1 = none ∧ (s.popLoop heap fuel).2.index = ∅) ∨
        ∃ t, s.index.lookup t.taskId = some t ∧
          (∀ id u, s.index.lookup id = some u → u.Le t) ∧
          (s.popLoop heap fuel).1 = some t ∧
          (s.popLoop heap fuel).2.index = s.index.erase t.taskId) := by
  obtain ⟨hqueued, hnext, hsub, hcases⟩ := popLoop_live heap h.queued hfuel
  refine ⟨⟨hnext ▸ h.counter, fun u hu => h.used u (hsub.subset hu), ?_, hqueued⟩, ?_⟩
  · obtain ⟨kept, hperm, hkept⟩ := hsub
    rw [← (hperm.map ScheduledTask.version).nodup_iff]
    exact h.distinct.sublist (hkept.map ScheduledTask.version)
  · rcases hcases with ⟨hbare, hnone, hindex⟩ | ⟨t, ⟨ht, hholds⟩, hmax, hsome, hdrops⟩
    · have hempty : s.index = ∅ := Finmap.ext_lookup fun id => by rw [hbare, Finmap.lookup_empty]
      exact Or.inl ⟨hempty, hnone, hindex.trans hempty⟩
    · -- the live entry is the task itself, since no other has its version
      obtain ⟨indexed, hlookup, hversion⟩ := Option.map_eq_some_iff.mp hholds
      obtain rfl := h.live_eq ht hlookup hversion
      refine Or.inr ⟨indexed, hlookup, fun id u hu => hmax u (Queued.live h.queued hu), hsome,
        Finmap.ext_lookup fun id => ?_⟩
      rw [hdrops.index, s.lookup_erase]

/-- An update queues the changed task under the next version. -/
theorem Scheduler.update_eq (change : ScheduledTask Id F → ScheduledTask Id F)
    (hlive : s.index.lookup id = some t) (hid : (change t).taskId = id) :
    s.update heap id change = (some t,
      let task := { change t with version := s.nextVersion }
      ⟨heap.push s.queue task, s.index.insert task.taskId task, s.nextVersion + 1⟩) := by
  have hinsert : ∀ task, (s.index.erase id).insert id task = s.index.insert id task := by
    intro task
    refine Finmap.ext_lookup fun id' => ?_
    by_cases hne : id' = id
    · rw [hne, Finmap.lookup_insert, Finmap.lookup_insert]
    · rw [Finmap.lookup_insert_of_ne _ hne, Finmap.lookup_insert_of_ne _ hne,
        Finmap.lookup_erase_ne hne]
  simp only [Scheduler.update, hlive, hinsert, hid]

/-- The changed entry of the map is the task the update queues. -/
theorem Scheduler.update_refines (heap : TaskHeap Id F)
    (change : ScheduledTask Id F → ScheduledTask Id F) (hc : s.Counted n) (hr : s.Represents m)
    (hn : n + (if id ∈ s.index then 1 else 0) ≤ 2 ^ 64)
    (hid : ∀ t, (change t).taskId = t.taskId)
    (hplain : ∀ t version, ({ change t with version := version }).plain = change t.plain) :
    (s.update heap id change).1.map .plain = m.lookup id ∧
      (s.update heap id change).2.Represents (m.update id change) ∧
      (s.update heap id change).2.Counted (n + if id ∈ s.index then 1 else 0) := by
  cases hlookup : s.index.lookup id with
  | none =>
    have hnone : m.lookup id = none := by rw [hr id, hlookup, Option.map_none]
    rw [if_neg (Finmap.lookup_eq_none.mp hlookup)]
    simp only [Scheduler.update, hlookup, Registry.update, hnone, Option.map_none]
    exact ⟨trivial, hr, hc⟩
  | some t =>
    have hsome : m.lookup id = some t.plain := by rw [hr id, hlookup, Option.map_some]
    have hmem : id ∈ s.index := Finmap.mem_iff.mpr ⟨t, hlookup⟩
    have hidt : (change t).taskId = id := (hid t).trans (hc.queued id t hlookup).2
    rw [if_pos hmem] at hn ⊢
    rw [Scheduler.update_eq change hlookup hidt]
    refine ⟨hsome.symm, ?_, hc.enqueue (by omega) rfl⟩
    simp only [Registry.update, hsome, hidt]
    exact hr.insert (hidt ▸ hplain t s.nextVersion)

theorem Scheduler.pop_refines (hc : s.Counted n) (hr : s.Represents m) :
    ∃ m', SpecStep m .pop (.task ((s.pop heap).1.map .plain)) m' ∧
      (s.pop heap).2.Represents m' ∧ (s.pop heap).2.Counted n := by
  obtain ⟨hcounted, ⟨hempty, hnone, hafter⟩ | ⟨t, hlive, hmax, hsome, hafter⟩⟩ :=
    Scheduler.popLoop_spec heap s.queue.length hc le_rfl
  · have hm : m = ∅ := Finmap.ext_lookup fun id => by
      rw [hr id, hempty, Finmap.lookup_empty, Option.map_none]
    refine ⟨∅, ?_, fun id => ?_, hcounted⟩
    · rw [Scheduler.pop, hnone, hm]
      exact .popNone
    · rw [Scheduler.pop, hafter, Finmap.lookup_empty, Option.map_none]
  · refine ⟨m.erase t.taskId, ?_, fun id => ?_, hcounted⟩
    · rw [Scheduler.pop, hsome]
      refine .popSome m t.plain (by rw [t.plain_taskId, hr, hlive, Option.map_some]) ?_
      intro id u hu
      rw [hr id, Option.map_eq_some_iff] at hu
      obtain ⟨v, hv, rfl⟩ := hu
      exact ScheduledTask.plain_le_plain.mpr (hmax id v hv)
    · rw [Scheduler.pop, hafter]
      exact hr.erase_lookup id

/-- One call does what the map allows, while version numbers last. -/
theorem Scheduler.step_refines (heap : TaskHeap Id F) (hc : s.Counted n) (hr : s.Represents m)
    (op : SchedulerOp Id F) (hn : n + s.versionsOf op ≤ 2 ^ 64) :
    ∃ m', SpecStep m op (s.step heap op).1 m' ∧ (s.step heap op).2.Represents m' ∧
      (s.step heap op).2.Counted (n + s.versionsOf op) := by
  cases op with
  | push taskId priority fileSize progress =>
    have hn : n < 2 ^ 64 := by simpa only [Scheduler.versionsOf, Nat.add_one_le_iff] using hn
    refine ⟨_, .push m taskId priority fileSize progress, ?_, hc.enqueue hn rfl⟩
    exact hr.insert rfl
  | pop => exact Scheduler.pop_refines hc hr
  | remove taskId =>
    refine ⟨m.erase taskId, ?_, hr.erase_lookup, hc.erase taskId⟩
    have hspec := SpecStep.remove m taskId
    rw [hr taskId] at hspec
    exact hspec
  | cancel taskId =>
    refine ⟨m.erase taskId, ?_, hr.erase_lookup, hc.erase taskId⟩
    have hsome : (s.index.lookup taskId).isSome = decide (taskId ∈ m) := by
      rw [Bool.eq_iff_iff, decide_eq_true_iff, hr.mem_iff, Finmap.lookup_isSome]
    have hspec := SpecStep.cancel m taskId
    rw [← hsome] at hspec
    exact hspec
  | updatePriority taskId newPriority =>
    obtain ⟨hout, hrep, hcounted⟩ := Scheduler.update_refines heap
      (fun task => { task with priority := newPriority }) hc hr hn (fun _ => rfl) fun _ _ => rfl
    refine ⟨_, ?_, hrep, hcounted⟩
    have hspec := SpecStep.updatePriority m taskId newPriority
    rw [← hout] at hspec
    exact hspec
  | updateProgress taskId newProgress =>
    obtain ⟨hout, hrep, hcounted⟩ := Scheduler.update_refines heap
      (fun task => { task with progress := newProgress }) hc hr hn (fun _ => rfl) fun _ _ => rfl
    refine ⟨_, ?_, hrep, hcounted⟩
    have hspec := SpecStep.updateProgress m taskId newProgress
    rw [← hout] at hspec
    exact hspec
  | len =>
    refine ⟨m, ?_, hr, hc⟩
    have hspec := SpecStep.len m
    rw [hr.keys_eq] at hspec
    exact hspec
  | isEmpty =>
    refine ⟨m, ?_, hr, hc⟩
    have hempty : s.isEmpty = decide (m = ∅) := by
      rw [Scheduler.isEmpty, ← hr.keys_eq, decide_eq_decide, Finset.card_eq_zero]
      refine ⟨fun h => Finmap.ext_lookup fun id => ?_, fun h => h ▸ rfl⟩
      rw [Finmap.lookup_empty, Finmap.lookup_eq_none, ← Finmap.mem_keys, h]
      exact Finset.notMem_empty id
    have hspec := SpecStep.isEmpty m
    rw [← hempty] at hspec
    exact hspec
  | contains taskId =>
    refine ⟨m, ?_, hr, hc⟩
    have hspec := SpecStep.contains m taskId
    simp only [hr.mem_iff] at hspec
    exact hspec
  | get taskId =>
    refine ⟨m, ?_, hr, hc⟩
    have hspec := SpecStep.get m taskId
    rw [hr taskId] at hspec
    exact hspec

theorem Scheduler.run_refines (heap : TaskHeap Id F) (ops : List (SchedulerOp Id F))
    (hc : s.Counted n) (hr : s.Represents m) (hn : n + s.versionsTaken heap ops ≤ 2 ^ 64) :
    ∃ m', SpecRun m ops (s.run heap ops).1 m' ∧ (s.run heap ops).2.Represents m' := by
  induction ops generalizing s m n with
  | nil => exact ⟨m, .nil m, hr⟩
  | cons op ops ih =>
    rw [Scheduler.versionsTaken] at hn
    obtain ⟨m₁, hfirst, hr₁, hc₁⟩ := Scheduler.step_refines heap hc hr op (by omega)
    obtain ⟨m', hrest, hr'⟩ := ih hc₁ hr₁ (by omega)
    exact ⟨m', .cons hfirst hrest, hr'⟩

/-- Ties of the task ordering are broken by the id, so a plain map leaves no choice. -/
theorem SpecStep.deterministic {op : SchedulerOp Id F} {out out' : SchedulerOut Id F}
    {m'' : Registry Id F} (h : SpecStep m op out m') (h' : SpecStep m op out' m'') :
    out = out' ∧ m' = m'' := by
  cases h with
  | popNone =>
    cases h' with
    | popNone => exact ⟨rfl, rfl⟩
    | popSome _ t live _ => cases live
  | popSome _ t live maximal =>
    cases h' with
    | popNone => cases live
    | popSome _ u live' maximal' =>
      have hid := ScheduledTask.taskId_eq (maximal' _ t live) (maximal _ u live')
      rw [hid] at live
      obtain rfl := Option.some.inj (live.symm.trans live')
      exact ⟨rfl, rfl⟩
  | _ => cases h'; exact ⟨rfl, rfl⟩

theorem SpecRun.deterministic {ops : List (SchedulerOp Id F)}
    {outs outs' : List (SchedulerOut Id F)} {m'' : Registry Id F} (h : SpecRun m ops outs m')
    (h' : SpecRun m ops outs' m'') : outs = outs' ∧ m' = m'' := by
  induction h generalizing outs' m'' with
  | nil m =>
    cases h'
    exact ⟨rfl, rfl⟩
  | cons first rest ih =>
    cases h' with
    | cons first' rest' =>
      obtain ⟨rfl, rfl⟩ := first.deterministic first'
      obtain ⟨rfl, rfl⟩ := ih rest'
      exact ⟨rfl, rfl⟩

/-- Calls that hand out at most `2 ^ 64` version numbers return what a plain map of the
latest tasks returns, and nothing else is possible on the map. -/
theorem scheduler_refines_map (heap : TaskHeap Id F) (ops : List (SchedulerOp Id F))
    (hversions : (Scheduler.new : Scheduler Id F).versionsTaken heap ops ≤ 2 ^ 64) :
    ∃ m, SpecRun ∅ ops ((Scheduler.new : Scheduler Id F).run heap ops).1 m ∧
      ((Scheduler.new : Scheduler Id F).run heap ops).2.Represents m ∧
      ∀ outs m', SpecRun ∅ ops outs m' →
        outs = ((Scheduler.new : Scheduler Id F).run heap ops).1 ∧ m' = m := by
  have hnew : (Scheduler.new : Scheduler Id F).Represents ∅ := fun _ => rfl
  obtain ⟨m, hrun, hr⟩ := Scheduler.run_refines heap ops Scheduler.counted_new hnew (by omega)
  exact ⟨m, hrun, hr, fun outs m' h' => h'.deterministic hrun⟩

/-! ### Once round the counter -/

/-- The heap for tasks that keeps them unordered. -/
def taskHeap : TaskHeap ℕ ℕ :=
  unordered ScheduledTask.Le ScheduledTask.le_total fun _ _ _ => ScheduledTask.le_trans

/-- A task that is queued, updated and popped. -/
def updatedAndPopped : List (SchedulerOp ℕ ℕ) :=
  [.push 0 .queue 5 (some 0), .updatePriority 0 .userInitiated, .pop]

theorem scheduler_refines_map_update :
    Scheduler.new.versionsTaken taskHeap updatedAndPopped ≤ 2 ^ 64 ∧
      ∃ m, SpecRun ∅ updatedAndPopped (Scheduler.new.run taskHeap updatedAndPopped).1 m ∧
        (Scheduler.new.run taskHeap updatedAndPopped).2.Represents m ∧
        ∀ outs m', SpecRun ∅ updatedAndPopped outs m' →
          outs = (Scheduler.new.run taskHeap updatedAndPopped).1 ∧ m' = m :=
  ⟨by decide, scheduler_refines_map taskHeap updatedAndPopped (by decide)⟩

/-- Other tasks, each queued and popped at once. -/
def idleRounds (k : ℕ) : List (SchedulerOp ℕ ℕ) :=
  (List.replicate k [.push 1 .userInitiated 1 none, .pop]).flatten

/-- A task is removed, and queued once more after `k` rounds. -/
def removedAndRequeued (k : ℕ) : List (SchedulerOp ℕ ℕ) :=
  [.push 0 .prefetch 5 none, .remove 0] ++ idleRounds k ++ [.push 0 .prefetch 10 none, .pop]

/-- The entry that the removal leaves in the queue. -/
def outdatedTask : ScheduledTask ℕ ℕ := { ScheduledTask.new 0 .prefetch 5 none with version := 1 }

theorem Scheduler.run_append (s : Scheduler Id F) (ops ops' : List (SchedulerOp Id F)) :
    s.run heap (ops ++ ops') = ((s.run heap ops).1 ++ ((s.run heap ops).2.run heap ops').1,
      ((s.run heap ops).2.run heap ops').2) := by
  induction ops generalizing s with
  | nil => rfl
  | cons op ops ih => simp only [List.cons_append, Scheduler.run, ih]

/-- An idle round moves the counter and leaves the outdated entry where it is. -/
theorem run_idleRound (v : UInt64) :
    (Scheduler.run taskHeap ⟨[outdatedTask], ∅, v⟩ [.push 1 .userInitiated 1 none, .pop]).2 =
      ⟨[outdatedTask], ∅, v + 1⟩ := by
  let u : ScheduledTask ℕ ℕ := { ScheduledTask.new 1 .userInitiated 1 none with version := v }
  have hle : ¬ u.Le outdatedTask := fun hle => hle rfl
  have hheap : taskHeap.pop [u, outdatedTask] = some (u, [outdatedTask]) := by
    change scanPop ScheduledTask.Le [u, outdatedTask] = _
    simp only [scanPop, if_neg hle]
  have hlookup : ((∅ : Registry ℕ ℕ).insert 1 u).lookup u.taskId = some u :=
    Finmap.lookup_insert _
  have herase : ((∅ : Registry ℕ ℕ).insert 1 u).erase 1 = ∅ := by
    refine Finmap.ext_lookup fun id => ?_
    by_cases hid : id = 1
    · rw [hid, Finmap.lookup_erase, Finmap.lookup_empty]
    · rw [Finmap.lookup_erase_ne hid, Finmap.lookup_insert_of_ne _ hid]
  have hpop : (Scheduler.pop taskHeap ⟨[u, outdatedTask], Finmap.insert 1 u ∅, v + 1⟩).2 =
      ⟨[outdatedTask], ∅, v + 1⟩ := by
    unfold Scheduler.pop Scheduler.popLoop
    simp only [List.length_cons, hheap, hlookup, if_true]
    exact congrArg (Scheduler.mk [outdatedTask] · (v + 1)) herase
  exact hpop

theorem run_idleRounds (k : ℕ) (v : UInt64) :
    (Scheduler.run taskHeap ⟨[outdatedTask], ∅, v⟩ (idleRounds k)).2 =
      ⟨[outdatedTask], ∅, v + UInt64.ofNat k⟩ := by
  induction k generalizing v with
  | zero => simp [idleRounds, Scheduler.run]
  | succ k ih =>
    have hrounds : idleRounds (k + 1) =
        [.push 1 .userInitiated 1 none, .pop] ++ idleRounds k := rfl
    rw [hrounds, Scheduler.run_append, run_idleRound, ih, Nat.add_comm, UInt64.ofNat_add,
      ← UInt64.add_assoc]
    rfl

theorem SpecRun.last_two {ops : List (SchedulerOp Id F)} {op op' : SchedulerOp Id F}
    {outs : List (SchedulerOut Id F)} (h : SpecRun m (ops ++ [op, op']) outs m') :
    ∃ m₁ m₂ out out', SpecStep m₁ op out m₂ ∧ SpecStep m₂ op' out' m' ∧
      outs.getLast? = some out' := by
  induction ops generalizing m outs with
  | nil =>
    cases h with
    | cons first rest =>
      cases rest with
      | cons second rest =>
        cases rest
        exact ⟨_, _, _, _, first, second, rfl⟩
  | cons op₀ ops ih =>
    cases h with
    | cons first rest =>
      obtain ⟨m₁, m₂, out, out', hfirst, hsecond, hlast⟩ := ih rest
      refine ⟨m₁, m₂, out, out', hfirst, hsecond, ?_⟩
      rw [List.getLast?_cons, hlast]
      rfl

/-- When the counter is back at the version of the removed task, `pop` returns that
task. -/
theorem removedAndRequeued_outs {k : ℕ} (hk : 2 + UInt64.ofNat k = 1) :
    (Scheduler.new.run taskHeap (removedAndRequeued k)).1.getLast? =
      some (.task (some outdatedTask.plain)) := by
  have hstart : (Scheduler.new.run taskHeap
      [.push 0 .prefetch 5 none, .remove 0]).2 = ⟨[outdatedTask], ∅, 2⟩ := rfl
  have hout : (Scheduler.run taskHeap ⟨[outdatedTask], ∅, 1⟩
      [.push 0 .prefetch 10 none, .pop]).1 = [.unit, .task (some outdatedTask.plain)] := rfl
  rw [removedAndRequeued, Scheduler.run_append, Scheduler.run_append, hstart, run_idleRounds, hk,
    hout, List.getLast?_append]
  rfl

/-- Past `2 ^ 64` versions an outdated entry is taken for the live task. -/
theorem outdated_task_returned : ¬ ∀ ops : List (SchedulerOp ℕ ℕ),
    ∃ m, SpecRun ∅ ops (Scheduler.new.run taskHeap ops).1 m := by
  intro h
  obtain ⟨m, hrun⟩ := h (removedAndRequeued (2 ^ 64 - 1))
  have hout := removedAndRequeued_outs (show 2 + UInt64.ofNat (2 ^ 64 - 1) = 1 by decide)
  generalize 2 ^ 64 - 1 = k at hrun hout
  rw [removedAndRequeued] at hrun hout
  obtain ⟨m₁, m₂, out, out', hpush, hpop, hlast⟩ := hrun.last_two
  obtain rfl := Option.some.inj (hout.symm.trans hlast)
  have hinsert : m₂ = m₁.insert 0 (.new 0 .prefetch 10 none) := by
    cases hpush
    rfl
  have hlive : m₂.lookup 0 = some outdatedTask.plain := by
    cases hpop
    assumption
  rw [hinsert, Finmap.lookup_insert] at hlive
  exact absurd (Option.some.inj hlive) (by decide)

end Tachyon
