import Tachyon.Library.MaxHeap
import Mathlib.Data.Finmap
import Mathlib.Data.Prod.Lex

/-!
# The priority scheduler

`Scheduler` keeps a heap of entries, some of them outdated, beside an index of the
live ones. An entry is live while the index holds its version. Versions come from a
64-bit counter that goes on past its largest value.
-/

namespace Tachyon

open MaxHeap

/-- `Priority`. -/
inductive Priority where
  | prefetch
  | queue
  | userInitiated
  deriving DecidableEq, Repr

/-- The discriminant of a `Priority`, by which priorities compare. -/
def Priority.rank : Priority → ℕ
  | .prefetch => 0
  | .queue => 1
  | .userInitiated => 2

/-- `ScheduledTask`. No `progress` is NaN. -/
structure ScheduledTask (Id F : Type) where
  taskId : Id
  priority : Priority
  fileSize : ℕ
  progress : Option F
  version : UInt64
  deriving DecidableEq, Repr

/-- `ScheduledTask::new`. -/
def ScheduledTask.new {Id F : Type} (taskId : Id) (priority : Priority) (fileSize : ℕ)
    (progress : Option F) : ScheduledTask Id F where
  taskId := taskId
  priority := priority
  fileSize := fileSize
  progress := progress
  version := 0

variable {Id F : Type} [LinearOrder Id] [LinearOrder F] [Zero F]

/-- `Ord for ScheduledTask`. -/
def ScheduledTask.cmp (self other : ScheduledTask Id F) : Ordering :=
  let selfProgress := self.progress.getD 0
  let otherProgress := other.progress.getD 0
  (compare self.priority.rank other.priority.rank).then <|
    (compare selfProgress otherProgress).then <|
    (compare other.fileSize self.fileSize).then (compare self.taskId other.taskId)

/-- `other` is not smaller in the task ordering. -/
def ScheduledTask.Le (self other : ScheduledTask Id F) : Prop := self.cmp other ≠ .gt

instance : DecidableRel (@ScheduledTask.Le Id F _ _ _) := fun self other =>
  inferInstanceAs (Decidable (self.cmp other ≠ .gt))

/-- `Scheduler`. -/
structure Scheduler (Id F : Type) where
  queue : List (ScheduledTask Id F)
  index : Finmap fun _ : Id => ScheduledTask Id F
  nextVersion : UInt64

/-- `Scheduler::new`. -/
def Scheduler.new : Scheduler Id F := ⟨[], ∅, 1⟩

/-- `BinaryHeap<ScheduledTask>`. -/
abbrev TaskHeap (Id F : Type) [LinearOrder Id] [LinearOrder F] [Zero F] :=
  Heap (ScheduledTask Id F) ScheduledTask.Le

section Operations

variable (heap : TaskHeap Id F)

/-- `Scheduler::push`. -/
def Scheduler.push (s : Scheduler Id F) (task : ScheduledTask Id F) : Scheduler Id F :=
  let (task, nextVersion) :=
    if task.version = 0 then ({ task with version := s.nextVersion }, s.nextVersion + 1)
    else (task, s.nextVersion)
  { queue := heap.push s.queue task
    index := s.index.insert task.taskId task
    nextVersion := nextVersion }

/-- The loop of `Scheduler::pop`; every turn takes an entry out of the queue. -/
def Scheduler.popLoop : ℕ → Scheduler Id F → Option (ScheduledTask Id F) × Scheduler Id F
  | 0, s => (none, s)
  | fuel + 1, s =>
    match heap.pop s.queue with
    | none => (none, s)
    | some (task, queue) =>
      match s.index.lookup task.taskId with
      | some indexed =>
        if indexed.version = task.version then
          (some task, { s with queue := queue, index := s.index.erase task.taskId })
        else popLoop fuel { s with queue := queue }
      | none => popLoop fuel { s with queue := queue }

/-- `Scheduler::pop`. -/
def Scheduler.pop (s : Scheduler Id F) : Option (ScheduledTask Id F) × Scheduler Id F :=
  s.popLoop heap s.queue.length

/-- `Scheduler::len`. -/
def Scheduler.len (s : Scheduler Id F) : ℕ := s.index.keys.card

/-- `Scheduler::is_empty`. -/
def Scheduler.isEmpty (s : Scheduler Id F) : Bool := s.index.keys.card = 0

/-- `Scheduler::remove`. -/
def Scheduler.remove (s : Scheduler Id F) (taskId : Id) :
    Option (ScheduledTask Id F) × Scheduler Id F :=
  (s.index.lookup taskId, { s with index := s.index.erase taskId })

/-- `Scheduler::cancel`. -/
def Scheduler.cancel (s : Scheduler Id F) (taskId : Id) : Bool × Scheduler Id F :=
  let (removed, s) := s.remove taskId
  (removed.isSome, s)

/-- What `update_priority` and `update_progress` share: the task is queued once more as
`change` makes it. -/
def Scheduler.update (s : Scheduler Id F) (taskId : Id)
    (change : ScheduledTask Id F → ScheduledTask Id F) :
    Option (ScheduledTask Id F) × Scheduler Id F :=
  match s.index.lookup taskId with
  | none => (none, s)
  | some old =>
    let task := { change old with version := s.nextVersion }
    (some old, {
      queue := heap.push s.queue task
      index := (s.index.erase taskId).insert taskId task
      nextVersion := s.nextVersion + 1 })

/-- `Scheduler::update_priority`. -/
def Scheduler.updatePriority (s : Scheduler Id F) (taskId : Id) (newPriority : Priority) :
    Option (ScheduledTask Id F) × Scheduler Id F :=
  s.update heap taskId fun task => { task with priority := newPriority }

/-- `Scheduler::update_progress`. -/
def Scheduler.updateProgress (s : Scheduler Id F) (taskId : Id) (newProgress : Option F) :
    Option (ScheduledTask Id F) × Scheduler Id F :=
  s.update heap taskId fun task => { task with progress := newProgress }

/-- `Scheduler::contains`. -/
def Scheduler.contains (s : Scheduler Id F) (taskId : Id) : Bool := taskId ∈ s.index

/-- `Scheduler::get`. -/
def Scheduler.get (s : Scheduler Id F) (taskId : Id) : Option (ScheduledTask Id F) :=
  s.index.lookup taskId

end Operations

/-! ### The task ordering -/

/-- The fields the ordering looks at, the first first. -/
def ScheduledTask.key (task : ScheduledTask Id F) : ℕ ×ₗ F ×ₗ ℕᵒᵈ ×ₗ Id :=
  toLex (task.priority.rank, toLex (task.progress.getD 0,
    toLex (OrderDual.toDual task.fileSize, task.taskId)))

theorem ScheduledTask.le_iff (self other : ScheduledTask Id F) :
    self.Le other ↔ self.key ≤ other.key := by
  rw [← not_lt, ScheduledTask.Le, ne_eq, not_iff_not]
  simp only [ScheduledTask.cmp, ScheduledTask.key, Ordering.then_eq_gt, compare_gt_iff_gt,
    compare_eq_iff_eq, Prod.Lex.lt_iff, ofLex_toLex, OrderDual.toDual_lt_toDual,
    OrderDual.toDual_inj]
  grind

theorem ScheduledTask.le_total (self other : ScheduledTask Id F) :
    self.Le other ∨ other.Le self := by
  rw [ScheduledTask.le_iff, ScheduledTask.le_iff]
  exact LinearOrder.le_total _ _

theorem ScheduledTask.le_trans {a b c : ScheduledTask Id F} (hab : a.Le b) (hbc : b.Le c) :
    a.Le c := by
  rw [ScheduledTask.le_iff] at *
  exact hab.trans hbc

/-- Tasks that are equal in the ordering have one id. -/
theorem ScheduledTask.taskId_eq {a b : ScheduledTask Id F} (hab : a.Le b) (hba : b.Le a) :
    a.taskId = b.taskId := by
  rw [ScheduledTask.le_iff] at hab hba
  have hkey := le_antisymm hab hba
  simp only [ScheduledTask.key, toLex_inj, Prod.mk.injEq] at hkey
  exact hkey.2.2.2

end Tachyon
