import Tachyon.Library.EventRuns
import Tachyon.Scheduler.SameResults

/-!
# Queueing a returned task once more

A task that the scheduler returned keeps its version, and pushing it makes every entry of
that version live, also those that `remove` and the updates left in the heap as outdated.
-/

namespace Tachyon

open EventRuns MaxHeap

variable {Id F : Type} [LinearOrder Id] [LinearOrder F] [Zero F]

/-- `remove`, a change of the task it returns, and `push`. -/
def Scheduler.requeue (heap : TaskHeap Id F) (s : Scheduler Id F) (taskId : Id)
    (edit : TaskEdit F) : Scheduler Id F :=
  match s.remove taskId with
  | (some task, s) => s.push heap (edit.apply task)
  | (none, s) => s

/-- The new value ranks above every entry of the old one's version, or is such an entry. -/
def Scheduler.Supersedes (s : Scheduler Id F) (old new : ScheduledTask Id F) : Prop :=
  ∀ t ∈ s.queue, t.taskId = old.taskId → t.version = old.version → ¬new.Le t ∨ t.plain = new.plain

/-! ### Runs in which returned tasks are pushed -/

/-- A scheduler, and the tasks it has returned. -/
structure TaskOwner (Id F : Type) where
  scheduler : Scheduler Id F
  returned : List (ScheduledTask Id F)

/-- A call of a method, or a push of a returned task, its public fields changed in any way. -/
inductive OwnerCall (Id F : Type) [LinearOrder Id] [LinearOrder F] [Zero F] where
  | call (heap : TaskHeap Id F) (op : SchedulerOp Id F)
  | pushAgain (heap : TaskHeap Id F) (task : ScheduledTask Id F)

/-- The task that a call hands out, with its version. -/
def Scheduler.handsOut (heap : TaskHeap Id F) (s : Scheduler Id F) :
    SchedulerOp Id F → Option (ScheduledTask Id F)
  | .pop => (s.pop heap).1
  | .remove taskId => (s.remove taskId).1
  | .updatePriority taskId newPriority => (s.updatePriority heap taskId newPriority).1
  | .updateProgress taskId newProgress => (s.updateProgress heap taskId newProgress).1
  | .get taskId => s.get taskId
  | _ => none

def TaskOwner.step (o : TaskOwner Id F) : OwnerCall Id F → Option (TaskOwner Id F)
  | .call heap op => some
    { scheduler := (o.scheduler.step heap op).2
      returned := (o.scheduler.handsOut heap op).toList ++ o.returned }
  | .pushAgain heap task =>
    if o.returned.any (·.version == task.version) then
      some { o with scheduler := o.scheduler.push heap task }
    else none

def TaskOwner.new : TaskOwner Id F := ⟨.new, []⟩

def OwnerCall.cost : OwnerCall Id F → ℕ
  | call _ op => op.cost
  | pushAgain .. => 0

/-- No outdated entry becomes live. -/
def TaskOwner.RevivesNone (o : TaskOwner Id F) (call : OwnerCall Id F) : Prop :=
  ∀ o', o.step call = some o' → ∀ t ∈ o.scheduler.queue, ¬o.scheduler.Live t →
    ¬o'.scheduler.Live t

/-- A task is pushed again only when the heap has no outdated entry with its id and version. -/
def TaskOwner.PushesClean (o : TaskOwner Id F) : OwnerCall Id F → Prop
  | .call _ _ => True
  | .pushAgain _ task => ∀ t ∈ o.scheduler.queue, t.taskId = task.taskId →
    t.version = task.version → o.scheduler.Live t

/-- The versions of the returned tasks have been handed out. -/
structure TaskOwner.Issued (o : TaskOwner Id F) : Prop where
  scheduler : o.scheduler.Issued
  returned : ∀ t ∈ o.returned, 0 < t.version.toNat ∧
    t.version.toNat < o.scheduler.nextVersion.toNat

variable {heap heap' : TaskHeap Id F} {s : Scheduler Id F} {o o' : TaskOwner Id F}
  {call : OwnerCall Id F} {id : Id} {u w x : ScheduledTask Id F}

/-! ### Requeueing -/

theorem Scheduler.requeue_eq (edit : TaskEdit F) (hu : s.index.lookup id = some u) :
    s.requeue heap id edit =
      Scheduler.push heap { s with index := s.index.erase id } (edit.apply u) := by
  rw [requeue, remove, hu]

section

variable {edit : TaskEdit F} (h : s.Issued) (hu : s.index.lookup id = some u)

include h hu

omit [LinearOrder F] [Zero F] in
theorem Scheduler.Issued.apply_version :
    0 < (edit.apply u).version.toNat ∧ (edit.apply u).version.toNat < s.nextVersion.toNat := by
  rw [edit.apply_version]
  exact h.used u (h.queued id u hu).1

theorem Scheduler.Issued.requeue : (s.requeue heap id edit).Issued := by
  rw [requeue_eq edit hu, push_eq _ _ (h.apply_version hu).1]
  exact (h.erase id).enqueue (h.apply_version hu) le_rfl

theorem Scheduler.Issued.live_requeue : (s.requeue heap id edit).Live w ↔
    (w = edit.apply u ∨ w ∈ s.queue ∧ w.taskId = id ∧ w.version = u.version) ∨
      w.taskId ≠ id ∧ s.Live w := by
  have hid : (edit.apply u).taskId = id := (edit.apply_taskId u).trans (h.queued id u hu).2
  rw [requeue_eq edit hu, live_push (h.apply_version hu).1, (s.drops_erase id).live, hid,
    edit.apply_version]
  exact or_congr_right (and_congr_right fun hne => and_iff_right hne)

theorem Scheduler.Issued.lookup_requeue (id' : Id) : (s.requeue heap id edit).index.lookup id' =
    if id' = id then some (edit.apply u) else s.index.lookup id' := by
  have hid : (edit.apply u).taskId = id := (edit.apply_taskId u).trans (h.queued id u hu).2
  rw [requeue_eq edit hu, push_eq _ _ (h.apply_version hu).1, lookup_insert, lookup_erase, hid]
  split
  · rfl
  · rfl

/-- A changed task that ranks above the old copies is the one that is returned. -/
theorem Scheduler.Issued.top_requeue (hsupersedes : s.Supersedes u (edit.apply u)) :
    (s.requeue heap id edit).Top id x ↔ (edit.apply u).plain = x := by
  have hid := (h.queued id u hu).2
  have hcopy : ∀ w, (s.requeue heap id edit).Live w → w.taskId = id →
      w = edit.apply u ∨ ¬(edit.apply u).Le w ∨ w.plain = (edit.apply u).plain := by
    intro w hw hwid
    rcases (h.live_requeue hu).mp hw with (hw | ⟨hw, -, hversion⟩) | ⟨hne, -⟩
    · exact Or.inl hw
    · exact Or.inr (hsupersedes w hw (hwid.trans hid.symm) hversion)
    · exact absurd hwid hne
  constructor
  · rintro ⟨w, hw, hwid, hx, hmax⟩
    rcases hcopy w hw hwid with rfl | hlt | heq
    · exact hx
    · refine absurd (hmax _ ?_ ((edit.apply_taskId u).trans hid)) hlt
      exact (h.live_requeue hu).mpr (Or.inl (Or.inl rfl))
    · exact heq.symm.trans hx
  · intro hx
    refine ⟨edit.apply u, (h.live_requeue hu).mpr (Or.inl (Or.inl rfl)),
      (edit.apply_taskId u).trans hid, hx, fun w hw hwid => ?_⟩
    rcases hcopy w hw hwid with rfl | hlt | heq
    · exact ScheduledTask.le_refl _
    · exact (ScheduledTask.le_total _ w).resolve_left hlt
    · exact ScheduledTask.le_of_plain_eq heq

/-- An old copy that does not rank below the changed task may be returned instead. -/
theorem Scheduler.Issued.exists_top_requeue (heap : TaskHeap Id F)
    (hsupersedes : ¬s.Supersedes u (edit.apply u)) :
    ∃ x, (s.requeue heap id edit).Top id x ∧ x ≠ (edit.apply u).plain := by
  have hid := (h.queued id u hu).2
  unfold Supersedes at hsupersedes
  push Not at hsupersedes
  obtain ⟨w, hw, hwid, hversion, hle, hne⟩ := hsupersedes
  have hlive : (s.requeue heap id edit).Live w :=
    (h.live_requeue hu).mpr (Or.inl (Or.inr ⟨hw, hwid.trans hid, hversion⟩))
  obtain ⟨v, hv, hvid, hwv, hmax⟩ := exists_top hlive
  rw [hwid, hid] at hvid hmax
  by_cases hvw : v.Le w
  · refine ⟨w.plain, ⟨w, hlive, hwid.trans hid, rfl, fun y hy hyid => ?_⟩, hne⟩
    exact ScheduledTask.le_trans (hmax y hy hyid) hvw
  · refine ⟨v.plain, ⟨v, hv, hvid, rfl, hmax⟩, fun heq => hvw ?_⟩
    exact ScheduledTask.le_trans (ScheduledTask.le_of_plain_eq heq) hle

theorem Scheduler.Issued.alike_requeue (hn : s.nextVersion.toNat + 1 < 2 ^ 64)
    (hsupersedes : s.Supersedes u (edit.apply u)) :
    (s.requeue heap id edit).Alike (s.queued heap' (edit.apply u)) := by
  obtain ⟨-, -, hreplaces⟩ := h.queue heap' hn (edit.apply u)
  generalize htask : { edit.apply u with version := s.nextVersion } = task at hreplaces
  have hplain : task.plain = (edit.apply u).plain := by
    rw [← htask]
    rfl
  have hid : task.taskId = id := (ScheduledTask.taskId_eq_of_plain hplain).trans
    ((edit.apply_taskId u).trans (h.queued id u hu).2)
  constructor
  · intro id'
    rw [h.lookup_requeue hu, hreplaces.index, hid]
    split
    · rw [Option.map_some, Option.map_some, hplain]
    · rfl
  · intro id' x
    rw [hreplaces.top, hid]
    split
    · rename_i heq
      rw [heq, h.top_requeue hu hsupersedes, hplain]
    · rename_i hne
      refine top_congr fun w hw => ?_
      have hwid : w.taskId ≠ id := fun heq => hne (hw.symm.trans heq)
      have hwu : w ≠ edit.apply u := fun heq => hwid
        (heq ▸ (ScheduledTask.taskId_eq_of_plain hplain).symm.trans hid)
      rw [h.live_requeue hu]
      simp only [hwu, hwid, false_or, false_and, and_false, ne_eq, not_false_eq_true, true_and]

end

/-- Requeueing a task is the update with the same new value exactly where the changed task
supersedes what is left of the old one. -/
theorem Scheduler.Issued.sameResults_iff (h : s.Issued) (hn : s.nextVersion.toNat + 1 < 2 ^ 64)
    (edit : TaskEdit F) (hu : s.index.lookup id = some u) :
    (s.requeue heap id edit).SameResults (s.step heap' (edit.call id)).2 ↔
      s.Supersedes u (edit.apply u) := by
  obtain ⟨hqueued, -, hreplaces⟩ := h.queue heap' hn (edit.apply u)
  rw [step_edit h edit hu]
  constructor
  · intro hsame
    by_contra hsupersedes
    obtain ⟨x, hx, hne⟩ := h.exists_top_requeue hu heap hsupersedes
    obtain ⟨v, hv, hvid, hplain⟩ := hsame.exists_live heap hx
    rcases (hreplaces.live v).mp hv with rfl | ⟨hnot, -⟩
    · exact hne hplain.symm
    · exact hnot (hvid.trans ((edit.apply_taskId u).trans (h.queued id u hu).2).symm)
  · intro hsupersedes
    exact (h.alike_requeue hu hn hsupersedes).sameResults (h.requeue hu) hqueued

/-! ### Outdated entries -/

omit [LinearOrder F] [Zero F] in
theorem TaskOwner.issued_new : (TaskOwner.new : TaskOwner Id F).Issued where
  scheduler := Scheduler.issued_new
  returned := by simp [TaskOwner.new]

/-- What a call hands out was in the heap. -/
theorem Scheduler.Issued.handsOut_mem (h : s.Issued) {op : SchedulerOp Id F}
    (hu : s.handsOut heap op = some u) : u ∈ s.queue := by
  have hupdate : ∀ id change, (s.update heap id change).1 = s.index.lookup id := by
    intro id change
    rw [update]
    cases s.index.lookup id with
    | none => rfl
    | some old => rfl
  cases op with
  | pop => exact (live_of_popLoop hu).1
  | remove taskId => exact (h.queued taskId u hu).1
  | updatePriority taskId newPriority =>
    exact (h.queued taskId u ((hupdate taskId _).symm.trans hu)).1
  | updateProgress taskId newProgress =>
    exact (h.queued taskId u ((hupdate taskId _).symm.trans hu)).1
  | get taskId => exact (h.queued taskId u hu).1
  | _ => exact absurd hu.symm (Option.some_ne_none u)

/-- A method call hands out tasks of the heap, and makes no outdated entry live. -/
theorem TaskOwner.Issued.stepCall {op : SchedulerOp Id F} (h : o.Issued)
    (hn : o.scheduler.nextVersion.toNat + op.cost < 2 ^ 64)
    (hstep : o.step (.call heap op) = some o') :
    o'.Issued ∧ o'.scheduler.nextVersion.toNat ≤ o.scheduler.nextVersion.toNat + op.cost ∧
      o.RevivesNone (.call heap op) := by
  have hkeeps := h.scheduler.keeps heap op hn
  cases hstep
  refine ⟨⟨hkeeps.issued, fun u hu => ?_⟩, hkeeps.le_add, ?_⟩
  · rcases List.mem_append.mp hu with hu | hu
    · have hused := h.scheduler.used u (h.scheduler.handsOut_mem (Option.mem_toList.mp hu))
      exact ⟨hused.1, hused.2.trans_le hkeeps.le⟩
    · exact ⟨(h.returned u hu).1, (h.returned u hu).2.trans_le hkeeps.le⟩
  · intro o' ho' u hu hnot hlive
    cases ho'
    exact hnot (hkeeps.live u hu hlive)

theorem TaskOwner.Issued.stepPushAgain {task : ScheduledTask Id F} (h : o.Issued)
    (hstep : o.step (.pushAgain heap task) = some o') :
    o'.Issued ∧ o'.scheduler.nextVersion = o.scheduler.nextVersion ∧
      (o.RevivesNone (.pushAgain heap task) ↔ o.PushesClean (.pushAgain heap task)) := by
  have hstep' := hstep
  rw [TaskOwner.step] at hstep
  split at hstep
  · rename_i hany
    cases hstep
    obtain ⟨u, hu, hversion⟩ := List.any_eq_true.mp hany
    have hbounds := h.returned u hu
    rw [beq_iff_eq.mp hversion] at hbounds
    have hpush := o.scheduler.push_eq heap hbounds.1
    refine ⟨⟨?_, ?_⟩, ?_, ?_, ?_⟩
    · rw [hpush]
      exact h.scheduler.enqueue hbounds le_rfl
    · rw [hpush]
      exact h.returned
    · rw [hpush]
    · intro hrevives w hw hid hversion
      by_contra hnot
      refine hrevives _ hstep' w hw hnot ?_
      exact (Scheduler.live_push hbounds.1).mpr (Or.inl (Or.inr ⟨hw, hid, hversion⟩))
    · intro hclean o' ho' w hw hnot hlive
      obtain rfl := Option.some.inj (hstep'.symm.trans ho')
      rcases (Scheduler.live_push hbounds.1).mp hlive with (rfl | ⟨-, hid, hversion⟩) | ⟨-, hlive⟩
      · exact hnot (hclean _ hw rfl rfl)
      · exact hnot (hclean w hw hid hversion)
      · exact hnot hlive
  · exact absurd hstep.symm (Option.some_ne_none o')

/-- Runs keep the versions in order, as long as there are version numbers. -/
theorem TaskOwner.Issued.step (h : o.Issued)
    (hn : o.scheduler.nextVersion.toNat + call.cost < 2 ^ 64) (hstep : o.step call = some o') :
    o'.Issued ∧ o'.scheduler.nextVersion.toNat ≤ o.scheduler.nextVersion.toNat + call.cost ∧
      (o.RevivesNone call ↔ o.PushesClean call) := by
  cases call with
  | call heap op =>
    obtain ⟨hissued, hle, hrevives⟩ := h.stepCall hn hstep
    exact ⟨hissued, hle, iff_of_true hrevives trivial⟩
  | pushAgain heap task =>
    obtain ⟨hissued, hnext, hiff⟩ := h.stepPushAgain hstep
    exact ⟨hissued, (congrArg UInt64.toNat hnext).le, hiff⟩

/-- Calls that find the versions in order leave them in order. -/
theorem TaskOwner.Issued.run {calls : List (OwnerCall Id F)} (h : o.Issued)
    (hn : o.scheduler.nextVersion.toNat + (calls.map OwnerCall.cost).sum < 2 ^ 64)
    (hrun : EventRuns.run TaskOwner.step o calls = some o') :
    o'.Issued ∧ o'.scheduler.nextVersion.toNat ≤
      o.scheduler.nextVersion.toNat + (calls.map OwnerCall.cost).sum := by
  induction calls generalizing o with
  | nil =>
    obtain rfl := Option.some.inj hrun
    exact ⟨h, le_rfl⟩
  | cons call calls ih =>
    rw [List.map_cons, List.sum_cons] at hn ⊢
    obtain ⟨o₁, ho₁, hrun⟩ := run_cons.mp hrun
    obtain ⟨hissued, hle, -⟩ := h.step (by omega) ho₁
    obtain ⟨hlast, hlelast⟩ := ih hissued (by omega) hrun
    exact ⟨hlast, by omega⟩

/-- No call of a run makes an outdated entry live exactly where every push is clean. -/
theorem TaskOwner.Issued.revivesNone_iff {calls : List (OwnerCall Id F)} (h : o.Issued)
    (hn : o.scheduler.nextVersion.toNat + (calls.map OwnerCall.cost).sum < 2 ^ 64) :
    EachStep TaskOwner.step TaskOwner.RevivesNone o calls ↔
      EachStep TaskOwner.step TaskOwner.PushesClean o calls := by
  induction calls generalizing o with
  | nil => exact Iff.rfl
  | cons call calls ih =>
    rw [List.map_cons, List.sum_cons] at hn
    have hfirst : ∀ o', o.step call = some o' →
        ((o.RevivesNone call ∧ EachStep TaskOwner.step TaskOwner.RevivesNone o' calls) ↔
          (o.PushesClean call ∧ EachStep TaskOwner.step TaskOwner.PushesClean o' calls)) := by
      intro o' ho'
      obtain ⟨hissued, hle, hiff⟩ := h.step (by omega) ho'
      exact and_congr hiff (ih hissued (by omega))
    exact forall_congr' fun o' => forall_congr' fun ho' => hfirst o' ho'

/-- In every run of calls and pushes of returned tasks: requeueing a live task is the update with
the same new value exactly where the changed task ranks above what the heap has of its version,
and no outdated entry becomes live again exactly where the heap has none of the id and version
that is pushed. -/
theorem requeue_law (calls : List (OwnerCall Id F)) (o : TaskOwner Id F)
    (hrun : run TaskOwner.step TaskOwner.new calls = some o)
    (hn : (calls.map OwnerCall.cost).sum + 2 < 2 ^ 64) :
    (∀ id u edit heap heap', o.scheduler.get id = some u →
      ((o.scheduler.requeue heap id edit).SameResults
        (o.scheduler.step heap' (edit.call id)).2 ↔ o.scheduler.Supersedes u (edit.apply u))) ∧
    (EachStep TaskOwner.step TaskOwner.RevivesNone TaskOwner.new calls ↔
      EachStep TaskOwner.step TaskOwner.PushesClean TaskOwner.new calls) := by
  have hnew : (TaskOwner.new : TaskOwner Id F).scheduler.nextVersion.toNat = 1 := rfl
  obtain ⟨hissued, hle⟩ := TaskOwner.issued_new.run (by omega) hrun
  refine ⟨fun id u edit heap heap' hu => ?_, TaskOwner.issued_new.revivesNone_iff (by omega)⟩
  exact hissued.scheduler.sameResults_iff (by omega) edit hu

/-! ### A task that is lowered, and one that comes back -/

def queuedTask : ScheduledTask ℕ ℕ := { ScheduledTask.new 0 .queue 5 (some 0) with version := 1 }

/-- The owner of a scheduler with one task. -/
def ownerOfOne : TaskOwner ℕ ℕ := ⟨⟨[queuedTask], (∅ : Registry ℕ ℕ).insert 0 queuedTask, 2⟩, []⟩

def queueOne : List (OwnerCall ℕ ℕ) := [.call taskHeap (.push 0 .queue 5 (some 0))]

theorem requeue_law_one : run TaskOwner.step TaskOwner.new queueOne = some ownerOfOne ∧
    (queueOne.map OwnerCall.cost).sum + 2 < 2 ^ 64 ∧
    (∀ id u edit heap heap', ownerOfOne.scheduler.get id = some u →
      ((ownerOfOne.scheduler.requeue heap id edit).SameResults
        (ownerOfOne.scheduler.step heap' (edit.call id)).2 ↔
          ownerOfOne.scheduler.Supersedes u (edit.apply u))) ∧
    (EachStep TaskOwner.step TaskOwner.RevivesNone TaskOwner.new queueOne ↔
      EachStep TaskOwner.step TaskOwner.PushesClean TaskOwner.new queueOne) :=
  ⟨rfl, by decide, requeue_law queueOne ownerOfOne rfl (by decide)⟩

/-- The removed task is pushed again while its entry is in the heap. -/
def pushRemoved : List (OwnerCall ℕ ℕ) :=
  [.call taskHeap (.push 0 .queue 5 (some 0)), .call taskHeap (.remove 0),
    .pushAgain taskHeap { queuedTask with priority := .prefetch }]

/-- A lowered task comes back with its old priority, and a removed entry is live again. -/
theorem requeued_task_not_updated :
    (¬∀ calls o, run TaskOwner.step (TaskOwner.new : TaskOwner ℕ ℕ) calls = some o →
      ∀ id u edit heap heap', o.scheduler.get id = some u →
        (o.scheduler.requeue heap id edit).SameResults (o.scheduler.step heap' (edit.call id)).2) ∧
    ¬∀ calls, EachStep TaskOwner.step TaskOwner.RevivesNone (TaskOwner.new : TaskOwner ℕ ℕ)
      calls := by
  constructor
  · intro hsame
    have hlowered := hsame queueOne ownerOfOne rfl 0 queuedTask (.priority .prefetch) taskHeap
      taskHeap rfl
    have hrun : run TaskOwner.step TaskOwner.new queueOne = some ownerOfOne := rfl
    obtain ⟨hissued, -⟩ := TaskOwner.issued_new.run (by decide) hrun
    have hsupersedes := (hissued.scheduler.sameResults_iff (by decide) _ rfl).mp hlowered
    exact absurd (hsupersedes queuedTask List.mem_cons_self rfl rfl) (by decide)
  · intro hrevives
    have hclean := (TaskOwner.issued_new.revivesNone_iff (by decide)).mp (hrevives pushRemoved)
    have hpush := (((hclean _ rfl).2 _ rfl).2 _ rfl).1
    have hlive := hpush queuedTask List.mem_cons_self rfl rfl
    exact (Scheduler.live_erase.mp hlive).1 rfl

end Tachyon
