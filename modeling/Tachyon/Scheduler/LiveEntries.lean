import Tachyon.Scheduler.Scheduler
import Mathlib.Data.List.Perm.Subperm

/-!
# What is live in the heap

An entry of the heap is live while the index holds its version. What queueing, removing
and `pop` do to the live entries, whatever versions the entries have.
-/

namespace Tachyon

open MaxHeap

variable {Id F : Type} [LinearOrder Id] [LinearOrder F] [Zero F]

/-- The index holds the version of the entry. -/
def Scheduler.Holds (s : Scheduler Id F) (t : ScheduledTask Id F) : Prop :=
  (s.index.lookup t.taskId).map ScheduledTask.version = some t.version

/-- An entry of the heap that is not outdated. -/
def Scheduler.Live (s : Scheduler Id F) (t : ScheduledTask Id F) : Prop := t ∈ s.queue ∧ s.Holds t

/-- Every live task is in the heap. -/
def Scheduler.Queued (s : Scheduler Id F) : Prop :=
  ∀ id t, s.index.lookup id = some t → t ∈ s.queue ∧ t.taskId = id

/-- The id has become that of one live entry. -/
structure Scheduler.Replaces (s : Scheduler Id F) (task : ScheduledTask Id F)
    (s' : Scheduler Id F) : Prop where
  index : ∀ id, s'.index.lookup id = if id = task.taskId then some task else s.index.lookup id
  live : ∀ u, s'.Live u ↔ u = task ∨ u.taskId ≠ task.taskId ∧ s.Live u

/-- The id is no longer live. -/
structure Scheduler.Drops (s : Scheduler Id F) (taskId : Id) (s' : Scheduler Id F) : Prop where
  index : ∀ id, s'.index.lookup id = if id = taskId then none else s.index.lookup id
  live : ∀ u, s'.Live u ↔ u.taskId ≠ taskId ∧ s.Live u

variable {heap : TaskHeap Id F} {s s' : Scheduler Id F} {id : Id} {u w : ScheduledTask Id F}
  {rest : List (ScheduledTask Id F)}

section

omit [LinearOrder F] [Zero F]

theorem Scheduler.lookup_insert (s : Scheduler Id F) (task : ScheduledTask Id F) (id : Id) :
    (s.index.insert task.taskId task).lookup id =
      if id = task.taskId then some task else s.index.lookup id := by
  split
  · rename_i hid
    rw [hid, Finmap.lookup_insert]
  · rename_i hid
    exact Finmap.lookup_insert_of_ne _ hid

theorem Scheduler.lookup_erase (s : Scheduler Id F) (taskId id : Id) :
    (s.index.erase taskId).lookup id = if id = taskId then none else s.index.lookup id := by
  split
  · rename_i hid
    rw [hid, Finmap.lookup_erase]
  · rename_i hid
    exact Finmap.lookup_erase_ne hid

theorem Scheduler.Queued.live (h : s.Queued) (hu : s.index.lookup id = some u) : s.Live u := by
  obtain ⟨hmem, hid⟩ := h id u hu
  refine ⟨hmem, ?_⟩
  rw [Holds, hid, hu, Option.map_some]

theorem Scheduler.Queued.bare (h : s.Queued) (hnil : s.queue = []) (id : Id) :
    s.index.lookup id = none := by
  by_contra hne
  obtain ⟨u, hu⟩ := Option.ne_none_iff_exists'.mp hne
  exact List.not_mem_nil (hnil ▸ (h id u hu).1)

theorem Scheduler.Queued.erase (h : s.Queued) (taskId : Id) :
    Scheduler.Queued { s with index := s.index.erase taskId } := by
  intro id w hw
  rw [s.lookup_erase] at hw
  split at hw
  · exact absurd hw (Option.some_ne_none w).symm
  · exact h id w hw

theorem Scheduler.not_live_of_bare (h : ∀ id, s.index.lookup id = none) : ¬s.Live u := by
  rintro ⟨-, hholds⟩
  rw [Holds, h, Option.map_none] at hholds
  exact absurd hholds.symm (Option.some_ne_none u.version)

theorem Scheduler.drops_erase (s : Scheduler Id F) (taskId : Id) :
    s.Drops taskId { s with index := s.index.erase taskId } where
  index := s.lookup_erase taskId
  live := by
    intro w
    rw [Live, Live, Holds, Holds, s.lookup_erase]
    by_cases hid : w.taskId = taskId
    · simp [hid]
    · simp [hid]

theorem Scheduler.live_erase {taskId : Id} :
    Scheduler.Live { s with index := s.index.erase taskId } u ↔ u.taskId ≠ taskId ∧ s.Live u :=
  (s.drops_erase taskId).live u

end

/-! ### Queueing -/

theorem Scheduler.Queued.enqueue (h : s.Queued) (nextVersion : UInt64) :
    Scheduler.Queued ⟨heap.push s.queue u, s.index.insert u.taskId u, nextVersion⟩ := by
  intro id w hw
  rw [s.lookup_insert] at hw
  split at hw
  · rename_i hid
    cases hw
    exact ⟨Heap.mem_push.mpr (Or.inl rfl), hid.symm⟩
  · obtain ⟨hmem, hid⟩ := h id w hw
    exact ⟨Heap.mem_push.mpr (Or.inr hmem), hid⟩

/-- Every entry of the queued task's id and version is live. -/
theorem Scheduler.live_enqueue {nextVersion : UInt64} :
    Scheduler.Live ⟨heap.push s.queue u, s.index.insert u.taskId u, nextVersion⟩ w ↔
      (w = u ∨ w ∈ s.queue ∧ w.taskId = u.taskId ∧ w.version = u.version) ∨
        w.taskId ≠ u.taskId ∧ s.Live w := by
  rw [Live, Live, Holds, Holds, lookup_insert, Heap.mem_push]
  by_cases hid : w.taskId = u.taskId
  · rw [if_pos hid, Option.map_some, Option.some_inj]
    constructor
    · rintro ⟨rfl | hw, heq⟩
      · exact Or.inl (Or.inl rfl)
      · exact Or.inl (Or.inr ⟨hw, hid, heq.symm⟩)
    · rintro ((rfl | ⟨hw, -, heq⟩) | ⟨hne, -⟩)
      · exact ⟨Or.inl rfl, rfl⟩
      · exact ⟨Or.inr hw, heq.symm⟩
      · exact absurd hid hne
  · have hne : w ≠ u := fun heq => hid (heq ▸ rfl)
    rw [if_neg hid]
    simp only [hne, hid, false_or, false_and, and_false, ne_eq, not_false_eq_true, true_and]

/-- A task queued under a new version is the only live entry of its id. -/
theorem Scheduler.replaces_enqueue (hfresh : ∀ w ∈ s.queue, w.version ≠ u.version)
    (nextVersion : UInt64) :
    s.Replaces u ⟨heap.push s.queue u, s.index.insert u.taskId u, nextVersion⟩ where
  index := s.lookup_insert u
  live := by
    intro w
    rw [live_enqueue]
    constructor
    · rintro ((heq | ⟨hw, -, hversion⟩) | hlive)
      · exact Or.inl heq
      · exact absurd hversion (hfresh w hw)
      · exact Or.inr hlive
    · rintro (heq | hlive)
      · exact Or.inl (Or.inl heq)
      · exact Or.inr hlive

/-! ### What `pop` returns -/

/-- The heap can lose an entry that the index does not hold. -/
theorem Scheduler.Queued.shrink (h : s.Queued) {index : Finmap fun _ : Id => ScheduledTask Id F}
    (hpop : heap.pop s.queue = some (u, rest))
    (hindex : ∀ id w, index.lookup id = some w → s.index.lookup id = some w ∧ w ≠ u) :
    Scheduler.Queued ⟨rest, index, s.nextVersion⟩ := by
  intro id w hw
  obtain ⟨hold, hne⟩ := hindex id w hw
  obtain ⟨hmem, hid⟩ := h id w hold
  exact ⟨((Heap.mem_of_pop hpop).mp hmem).resolve_left hne, hid⟩

/-- Each turn of the loop returns the entry on top if it is live. -/
theorem Scheduler.popLoop_succ (fuel : ℕ) (hpop : heap.pop s.queue = some (u, rest)) :
    (s.Holds u → s.popLoop heap (fuel + 1) =
      (some u, { s with queue := rest, index := s.index.erase u.taskId })) ∧
    (¬s.Holds u → s.popLoop heap (fuel + 1) = popLoop heap fuel { s with queue := rest }) := by
  rw [popLoop, hpop, Holds]
  dsimp only
  cases s.index.lookup u.taskId with
  | none => simp
  | some indexed =>
    dsimp only
    rw [Option.map_some, Option.some_inj]
    exact ⟨fun h => if_pos h, fun h => if_neg h⟩

/-- A live entry that is taken out leaves the others of its id outdated. -/
theorem Scheduler.drops_pop (hpop : heap.pop s.queue = some (u, rest)) :
    s.Drops u.taskId { s with queue := rest, index := s.index.erase u.taskId } where
  index := s.lookup_erase u.taskId
  live := by
    intro w
    rw [Live, Live, Holds, Holds, s.lookup_erase, Heap.mem_of_pop hpop]
    by_cases hid : w.taskId = u.taskId
    · simp [hid]
    · have hne : w ≠ u := fun heq => hid (heq ▸ rfl)
      simp [hid, hne]

/-- An outdated entry that leaves the heap was not live. -/
theorem Scheduler.live_skip (hpop : heap.pop s.queue = some (u, rest)) (hu : ¬s.Holds u) :
    Scheduler.Live { s with queue := rest } w ↔ s.Live w := by
  rw [Live, Live, Heap.mem_of_pop hpop]
  constructor
  · exact fun hw => ⟨Or.inr hw.1, hw.2⟩
  · rintro ⟨rfl | hw, hholds⟩
    · exact absurd hholds hu
    · exact ⟨hw, hholds⟩

/-- `pop` returns a greatest live entry, and finds none only where none is live. -/
theorem Scheduler.popLoop_live (heap : TaskHeap Id F) {fuel : ℕ} (h : s.Queued)
    (hfuel : s.queue.length ≤ fuel) :
    (s.popLoop heap fuel).2.Queued ∧
      (s.popLoop heap fuel).2.nextVersion = s.nextVersion ∧
      (s.popLoop heap fuel).2.queue.Subperm s.queue ∧
      (((∀ id, s.index.lookup id = none) ∧ (s.popLoop heap fuel).1 = none ∧
          (s.popLoop heap fuel).2.index = s.index) ∨
        ∃ t, s.Live t ∧ (∀ u, s.Live u → u.Le t) ∧ (s.popLoop heap fuel).1 = some t ∧
          s.Drops t.taskId (s.popLoop heap fuel).2) := by
  induction fuel generalizing s with
  | zero =>
    have hnil : s.queue = [] := List.eq_nil_of_length_eq_zero (by omega)
    exact ⟨h, rfl, List.Subperm.refl _, Or.inl ⟨h.bare hnil, rfl, rfl⟩⟩
  | succ fuel ih =>
    cases hpop : heap.pop s.queue with
    | none =>
      have heq : s.popLoop heap (fuel + 1) = (none, s) := by rw [popLoop, hpop]
      rw [heq]
      exact ⟨h, rfl, List.Subperm.refl _, Or.inl ⟨h.bare (Heap.eq_nil_of_pop hpop), rfl, rfl⟩⟩
    | some popped =>
      obtain ⟨u, rest⟩ := popped
      obtain ⟨htake, hskip⟩ := popLoop_succ fuel hpop
      have hu : u ∈ s.queue := (Heap.mem_of_pop hpop).mpr (Or.inl rfl)
      have hrest : rest.Subperm s.queue :=
        (List.sublist_cons_self u rest).subperm.trans (heap.pop_perm _ _ _ hpop).symm.subperm
      by_cases hlive : s.Holds u
      · rw [htake hlive]
        refine ⟨h.shrink hpop fun id w hw => ?_, rfl, hrest, Or.inr ⟨u, ⟨hu, hlive⟩, ?_, rfl,
          drops_pop hpop⟩⟩
        · rw [s.lookup_erase] at hw
          split at hw
          · exact absurd hw (Option.some_ne_none w).symm
          · rename_i hid
            exact ⟨hw, fun heq => hid (heq ▸ (h id w hw).2.symm)⟩
        · exact fun w hw => heap.pop_max _ _ _ hpop w hw.1
      · have hqueued : Scheduler.Queued { s with queue := rest } := by
          refine h.shrink hpop fun id w hw => ⟨hw, fun heq => hlive ?_⟩
          rw [Holds, ← heq, (h id w hw).2, hw, Option.map_some]
        have hlength : rest.length ≤ fuel := by
          have hsucc := Heap.length_of_pop hpop
          omega
        rw [hskip hlive]
        obtain ⟨hafter, hnext, hsub, ⟨hbare, hnone, hindex⟩ | ⟨t, ht, hmax, hsome, hdrops⟩⟩ :=
          ih hqueued hlength
        · exact ⟨hafter, hnext, hsub.trans hrest, Or.inl ⟨hbare, hnone, hindex⟩⟩
        · refine ⟨hafter, hnext, hsub.trans hrest,
            Or.inr ⟨t, (live_skip hpop hlive).mp ht, ?_, hsome, ?_⟩⟩
          · exact fun w hw => hmax w ((live_skip hpop hlive).mpr hw)
          · exact ⟨hdrops.index, fun w => (hdrops.live w).trans
              (and_congr_right fun _ => live_skip hpop hlive)⟩

/-- A returned task was live. -/
theorem Scheduler.live_of_popLoop {fuel : ℕ} (h : (s.popLoop heap fuel).1 = some u) :
    s.Live u := by
  induction fuel generalizing s with
  | zero => exact absurd h (Option.some_ne_none u).symm
  | succ fuel ih =>
    cases hpop : heap.pop s.queue with
    | none =>
      rw [popLoop, hpop] at h
      exact absurd h (Option.some_ne_none u).symm
    | some popped =>
      obtain ⟨w, rest⟩ := popped
      obtain ⟨htake, hskip⟩ := popLoop_succ fuel hpop
      by_cases hlive : s.Holds w
      · rw [htake hlive] at h
        obtain rfl := Option.some.inj h
        exact ⟨(Heap.mem_of_pop hpop).mpr (Or.inl rfl), hlive⟩
      · rw [hskip hlive] at h
        exact (live_skip hpop hlive).mp (ih h)

theorem ScheduledTask.le_refl (u : ScheduledTask Id F) : u.Le u :=
  (ScheduledTask.le_total u u).elim (fun h => h) fun h => h

/-- Any greatest live entry may be the one that a heap gives first. -/
theorem Scheduler.exists_popLoop {fuel : ℕ} (hu : s.Live u) (hmax : ∀ w, s.Live w → w.Le u)
    (hfuel : s.queue.length ≤ fuel) :
    ((s.popLoop (preferring ScheduledTask.Le ScheduledTask.le_total
      (fun _ _ _ => ScheduledTask.le_trans) u) fuel).1) = some u := by
  induction fuel generalizing s with
  | zero =>
    have hnil : s.queue = [] := List.eq_nil_of_length_eq_zero (by omega)
    exact absurd (hnil ▸ hu.1) List.not_mem_nil
  | succ fuel ih =>
    generalize hheap : preferring ScheduledTask.Le ScheduledTask.le_total
      (fun _ _ _ => ScheduledTask.le_trans) u = heap at ih ⊢
    have hpreferred : (∀ w ∈ s.queue, w.Le u) → heap.pop s.queue = some (u, s.queue.erase u) := by
      intro hall
      rw [← hheap]
      exact if_pos ⟨hu.1, hall⟩
    cases hpop : heap.pop s.queue with
    | none => exact absurd (Heap.eq_nil_of_pop hpop ▸ hu.1) List.not_mem_nil
    | some popped =>
      obtain ⟨w, rest⟩ := popped
      obtain ⟨htake, hskip⟩ := popLoop_succ fuel hpop
      have hw : w ∈ s.queue := (Heap.mem_of_pop hpop).mpr (Or.inl rfl)
      have hgreatest := heap.pop_max _ _ _ hpop
      by_cases hlive : s.Holds w
      · have hall : ∀ v ∈ s.queue, v.Le u :=
          fun v hv => ScheduledTask.le_trans (hgreatest v hv) (hmax w ⟨hw, hlive⟩)
        rw [hpreferred hall] at hpop
        cases hpop
        rw [htake hlive]
      · have hlength : rest.length ≤ fuel := by
          have hsucc := Heap.length_of_pop hpop
          omega
        rw [hskip hlive]
        exact ih ((live_skip hpop hlive).mpr hu)
          (fun v hv => hmax v ((live_skip hpop hlive).mp hv)) hlength

end Tachyon
