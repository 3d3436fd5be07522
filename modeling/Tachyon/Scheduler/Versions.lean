import Tachyon.Scheduler.Refinement

/-!
# Versions that have been handed out

The calls keep the versions in the heap below the counter, and make no outdated entry live,
while the counter does not come round. Several entries may have one version.
-/

namespace Tachyon

open MaxHeap

variable {Id F : Type} [LinearOrder Id] [LinearOrder F] [Zero F]

/-- The versions in the heap have been handed out, and live tasks are in the heap. -/
structure Scheduler.Issued (s : Scheduler Id F) : Prop where
  counter : 0 < s.nextVersion.toNat
  used : ∀ t ∈ s.queue, 0 < t.version.toNat ∧ t.version.toNat < s.nextVersion.toNat
  queued : ∀ id t, s.index.lookup id = some t → t ∈ s.queue ∧ t.taskId = id

/-- What a call leaves behind: version numbers only go up, and no outdated entry is live. -/
structure Scheduler.Keeps (s : Scheduler Id F) (cost : ℕ) (s' : Scheduler Id F) : Prop where
  issued : s'.Issued
  le : s.nextVersion.toNat ≤ s'.nextVersion.toNat
  le_add : s'.nextVersion.toNat ≤ s.nextVersion.toNat + cost
  live : ∀ u ∈ s.queue, s'.Live u → s.Live u

variable {heap : TaskHeap Id F} {s : Scheduler Id F} {id : Id} {u w : ScheduledTask Id F}

section

omit [LinearOrder F] [Zero F]

theorem Scheduler.issued_new : (Scheduler.new : Scheduler Id F).Issued where
  counter := Nat.zero_lt_one
  used := by simp [Scheduler.new]
  queued := by simp [Scheduler.new]

theorem Scheduler.Issued.erase (h : s.Issued) (taskId : Id) :
    Scheduler.Issued { s with index := s.index.erase taskId } where
  counter := h.counter
  used := h.used
  queued := Queued.erase h.queued taskId

theorem Scheduler.Issued.keeps_self (h : s.Issued) (cost : ℕ) : s.Keeps cost s where
  issued := h
  le := le_rfl
  le_add := Nat.le_add_right _ cost
  live := fun _ _ hu => hu

theorem Scheduler.Issued.keeps_erase (h : s.Issued) (taskId : Id) :
    s.Keeps 0 { s with index := s.index.erase taskId } where
  issued := h.erase taskId
  le := le_rfl
  le_add := le_rfl
  live := fun _ _ hu => (live_erase.mp hu).2

end

/-! ### Queueing -/

theorem toNat_succ {version : UInt64} (h : version.toNat + 1 < 2 ^ 64) :
    (version + 1).toNat = version.toNat + 1 := by
  rw [UInt64.toNat_add]
  exact Nat.mod_eq_of_lt h

theorem Scheduler.Issued.enqueue (h : s.Issued) {nextVersion : UInt64}
    (hversion : 0 < u.version.toNat ∧ u.version.toNat < nextVersion.toNat)
    (hnext : s.nextVersion.toNat ≤ nextVersion.toNat) :
    Scheduler.Issued ⟨heap.push s.queue u, s.index.insert u.taskId u, nextVersion⟩ where
  counter := h.counter.trans_le hnext
  used := by
    intro w hw
    rcases Heap.mem_push.mp hw with rfl | hw
    · exact hversion
    · exact ⟨(h.used w hw).1, (h.used w hw).2.trans_le hnext⟩
  queued := Queued.enqueue h.queued nextVersion

/-- The scheduler after a task is queued under the next version. -/
def Scheduler.queued (heap : TaskHeap Id F) (s : Scheduler Id F) (task : ScheduledTask Id F) :
    Scheduler Id F :=
  let task := { task with version := s.nextVersion }
  ⟨heap.push s.queue task, s.index.insert task.taskId task, s.nextVersion + 1⟩

theorem Scheduler.Issued.queue (h : s.Issued) (heap : TaskHeap Id F)
    (hn : s.nextVersion.toNat + 1 < 2 ^ 64) (task : ScheduledTask Id F) :
    (s.queued heap task).Issued ∧
      (s.queued heap task).nextVersion.toNat = s.nextVersion.toNat + 1 ∧
      s.Replaces { task with version := s.nextVersion } (s.queued heap task) := by
  have hnext := toNat_succ hn
  have hfresh : ∀ w ∈ s.queue, w.version ≠ s.nextVersion :=
    fun w hw heq => Nat.lt_irrefl _ (heq ▸ (h.used w hw).2)
  refine ⟨h.enqueue ⟨h.counter, ?_⟩ ?_, hnext, replaces_enqueue hfresh _⟩
  · rw [hnext]
    exact Nat.lt_succ_self _
  · rw [hnext]
    exact Nat.le_succ _

theorem Scheduler.Issued.keeps_queued (h : s.Issued) (hn : s.nextVersion.toNat + 1 < 2 ^ 64)
    (task : ScheduledTask Id F) : s.Keeps 1 (s.queued heap task) := by
  obtain ⟨hissued, hnext, hreplaces⟩ := h.queue heap hn task
  refine ⟨hissued, by omega, by omega, fun u hu hlive => ?_⟩
  rcases (hreplaces.live u).mp hlive with rfl | ⟨-, hlive⟩
  · exact absurd (h.used _ hu).2 (Nat.lt_irrefl _)
  · exact hlive

/-- A task that was returned is pushed under its version. -/
theorem Scheduler.push_eq (s : Scheduler Id F) (heap : TaskHeap Id F) (hu : 0 < u.version.toNat) :
    s.push heap u = ⟨heap.push s.queue u, s.index.insert u.taskId u, s.nextVersion⟩ := by
  have hne : u.version ≠ 0 := by
    intro hzero
    rw [hzero] at hu
    exact Nat.lt_irrefl 0 hu
  rw [push, if_neg hne]

theorem Scheduler.live_push (hu : 0 < u.version.toNat) :
    (s.push heap u).Live w ↔ (w = u ∨ w ∈ s.queue ∧ w.taskId = u.taskId ∧ w.version = u.version) ∨
      w.taskId ≠ u.taskId ∧ s.Live w := by
  rw [s.push_eq heap hu, live_enqueue]

/-- What `pop` leaves behind, and what it returns. -/
theorem Scheduler.Issued.pop (h : s.Issued) (heap : TaskHeap Id F) :
    (s.pop heap).2.Issued ∧ (s.pop heap).2.nextVersion = s.nextVersion ∧
      (((∀ id, s.index.lookup id = none) ∧ (s.pop heap).1 = none ∧
          (s.pop heap).2.index = s.index) ∨
        ∃ t, s.Live t ∧ (∀ u, s.Live u → u.Le t) ∧ (s.pop heap).1 = some t ∧
          s.Drops t.taskId (s.pop heap).2) := by
  obtain ⟨hqueued, hnext, hsub, hcases⟩ := popLoop_live heap h.queued le_rfl
  refine ⟨⟨?_, fun w hw => ?_, hqueued⟩, hnext, hcases⟩
  · rw [Scheduler.pop, hnext]
    exact h.counter
  · rw [Scheduler.pop, hnext]
    exact h.used w (hsub.subset hw)

theorem Scheduler.Issued.keeps_pop (h : s.Issued) : s.Keeps 0 (s.pop heap).2 := by
  obtain ⟨hissued, hnext, hcases⟩ := h.pop heap
  have hcounter := congrArg UInt64.toNat hnext
  refine ⟨hissued, hcounter.ge, hcounter.le, fun u _ hu => ?_⟩
  rcases hcases with ⟨hbare, -, hindex⟩ | ⟨t, -, -, -, hdrops⟩
  · refine absurd hu (not_live_of_bare fun id => ?_)
    exact (congrArg (Finmap.lookup id) hindex).trans (hbare id)
  · exact ((hdrops.live u).mp hu).2

/-! ### Changes of a task -/

/-- A change of a public field. -/
inductive TaskEdit (F : Type) where
  | priority (newPriority : Priority)
  | progress (newProgress : Option F)

def TaskEdit.apply {Id F : Type} : TaskEdit F → ScheduledTask Id F → ScheduledTask Id F
  | priority newPriority, task => { task with priority := newPriority }
  | progress newProgress, task => { task with progress := newProgress }

/-- The update with the same new value. -/
def TaskEdit.call {Id F : Type} (taskId : Id) : TaskEdit F → SchedulerOp Id F
  | priority newPriority => .updatePriority taskId newPriority
  | progress newProgress => .updateProgress taskId newProgress

section

omit [LinearOrder Id] [LinearOrder F] [Zero F]

theorem TaskEdit.apply_taskId (edit : TaskEdit F) (task : ScheduledTask Id F) :
    (edit.apply task).taskId = task.taskId := by
  cases edit with
  | priority newPriority => rfl
  | progress newProgress => rfl

theorem TaskEdit.apply_version (edit : TaskEdit F) (task : ScheduledTask Id F) :
    (edit.apply task).version = task.version := by
  cases edit with
  | priority newPriority => rfl
  | progress newProgress => rfl

theorem TaskEdit.apply_plain (edit : TaskEdit F) (task : ScheduledTask Id F) :
    (edit.apply task).plain = edit.apply task.plain := by
  cases edit with
  | priority newPriority => rfl
  | progress newProgress => rfl

end

theorem Scheduler.step_call (edit : TaskEdit F) : s.step heap (edit.call id) =
    (.task ((s.update heap id edit.apply).1.map .plain), (s.update heap id edit.apply).2) := by
  cases edit with
  | priority newPriority => rfl
  | progress newProgress => rfl

/-- An update of a live task queues the changed task. -/
theorem Scheduler.step_edit (h : s.Issued) (edit : TaskEdit F) (hu : s.index.lookup id = some u) :
    s.step heap (edit.call id) = (.task (some u.plain), s.queued heap (edit.apply u)) := by
  have hid : (edit.apply u).taskId = id := (edit.apply_taskId u).trans (h.queued id u hu).2
  rw [step_call, update_eq edit.apply hu hid]
  rfl

theorem Scheduler.step_edit_none (edit : TaskEdit F) (hnone : s.index.lookup id = none) :
    s.step heap (edit.call id) = (.task none, s) := by
  rw [step_call, update, hnone]
  rfl

theorem Scheduler.Issued.keeps_edit (h : s.Issued) (hn : s.nextVersion.toNat + 1 < 2 ^ 64)
    (edit : TaskEdit F) (id : Id) : s.Keeps 1 (s.step heap (edit.call id)).2 := by
  cases hlookup : s.index.lookup id with
  | none =>
    rw [step_edit_none edit hlookup]
    exact h.keeps_self 1
  | some u =>
    rw [step_edit h edit hlookup]
    exact h.keeps_queued hn (edit.apply u)

/-! ### Every call -/

/-- The version numbers that a call may take. -/
def SchedulerOp.cost {Id F : Type} : SchedulerOp Id F → ℕ
  | push .. | updatePriority .. | updateProgress .. => 1
  | _ => 0

/-- A call does not make outdated entries live. -/
theorem Scheduler.Issued.keeps (h : s.Issued) (heap : TaskHeap Id F) (op : SchedulerOp Id F)
    (hn : s.nextVersion.toNat + op.cost < 2 ^ 64) : s.Keeps op.cost (s.step heap op).2 := by
  cases op with
  | push taskId priority fileSize progress => exact h.keeps_queued hn _
  | pop => exact h.keeps_pop
  | remove taskId => exact h.keeps_erase taskId
  | cancel taskId => exact h.keeps_erase taskId
  | updatePriority taskId newPriority => exact h.keeps_edit hn (.priority newPriority) taskId
  | updateProgress taskId newProgress => exact h.keeps_edit hn (.progress newProgress) taskId
  | _ => exact h.keeps_self 0

end Tachyon
