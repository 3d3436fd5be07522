import Mathlib.Data.List.Nodup
import Mathlib.Logic.Function.Basic

/-!
# Semaphores that tasks share

A fair semaphore hands a permit that comes back to the task that has waited longest. Tasks hold
permits of several semaphores and wait for at most one. Every permit is available or held by a
task, and the queues hold exactly the tasks that wait, whatever the tasks do.
-/

/-- A counting semaphore with the numbers of the tasks in its queue. -/
structure FairSemaphore where
  available : ℕ
  queue : List ℕ
  exhausted : queue ≠ [] → available = 0

namespace FairSemaphore

def new (permits : ℕ) : FairSemaphore := ⟨permits, [], fun h => absurd rfl h⟩

/-- A permit is taken at once. -/
def take (s : FairSemaphore) : FairSemaphore :=
  ⟨s.available - 1, s.queue, fun h => by rw [s.exhausted h]⟩

/-- A task queues up. -/
def enqueue (i : ℕ) (s : FairSemaphore) (hnone : s.available = 0) : FairSemaphore :=
  ⟨s.available, s.queue ++ [i], fun _ => hnone⟩

/-- A permit comes back that no task waits for. -/
def putBack (s : FairSemaphore) : FairSemaphore :=
  ⟨s.available + 1, [], fun hne => absurd rfl hne⟩

/-- The first task leaves the queue. -/
def dequeue (s : FairSemaphore) : FairSemaphore :=
  ⟨s.available, s.queue.tail, fun h => s.exhausted fun hnil => h (by rw [hnil]; rfl)⟩

/-- A task leaves the queue. -/
def forget (i : ℕ) (s : FairSemaphore) : FairSemaphore :=
  ⟨s.available, s.queue.erase i, fun h => s.exhausted fun hnil => h (by rw [hnil]; rfl)⟩

end FairSemaphore

/-- What a task holds and waits for, and what becomes of it when it is given the permit. -/
structure SemaphoreUse (Id Task : Type) [DecidableEq Id] where
  holds : Task → Id → Bool
  waits : Task → Option Id
  grant : Task → Task
  waits_grant : ∀ t id, waits t = some id → waits (grant t) = none
  holds_grant : ∀ t id, waits t = some id →
    holds t id = false ∧ ∀ id', holds (grant t) id' = (holds t id' || decide (id' = id))

/-- Semaphores and the tasks that use them. -/
structure SemaphoreSystem (Id Task : Type) where
  semaphores : Id → FairSemaphore
  tasks : List Task

namespace SemaphoreSystem

variable {Id Task : Type} [DecidableEq Id]

/-- A new task. -/
def spawn (t : Task) (s : SemaphoreSystem Id Task) : SemaphoreSystem Id Task :=
  { s with tasks := s.tasks ++ [t] }

/-- A task goes on. -/
def become (i : ℕ) (t : Task) (s : SemaphoreSystem Id Task) : SemaphoreSystem Id Task :=
  { s with tasks := s.tasks.set i t }

/-- A task asks for a permit and gets it or queues up. -/
def request (id : Id) (i : ℕ) (granted queued : Task) (s : SemaphoreSystem Id Task) :
    SemaphoreSystem Id Task :=
  if h : (s.semaphores id).available = 0 then
    { semaphores := Function.update s.semaphores id ((s.semaphores id).enqueue i h)
      tasks := s.tasks.set i queued }
  else
    { semaphores := Function.update s.semaphores id (s.semaphores id).take
      tasks := s.tasks.set i granted }

/-- A permit goes to the first task of the queue, or becomes available. -/
def wake (u : SemaphoreUse Id Task) (id : Id) (s : SemaphoreSystem Id Task) :
    SemaphoreSystem Id Task :=
  if h : (s.semaphores id).queue = [] then
    { s with semaphores := Function.update s.semaphores id (s.semaphores id).putBack }
  else
    { semaphores := Function.update s.semaphores id (s.semaphores id).dequeue
      tasks := s.tasks.modify ((s.semaphores id).queue.head h) u.grant }

/-- A task returns its permit and goes on. -/
def release (u : SemaphoreUse Id Task) (id : Id) (i : ℕ) (after : Task)
    (s : SemaphoreSystem Id Task) : SemaphoreSystem Id Task :=
  (s.become i after).wake u id

/-- A task that waits gives up. -/
def withdraw (id : Id) (i : ℕ) (after : Task) (s : SemaphoreSystem Id Task) :
    SemaphoreSystem Id Task :=
  { semaphores := Function.update s.semaphores id ((s.semaphores id).forget i)
    tasks := s.tasks.set i after }

/-- The number of tasks that hold a permit of a semaphore. -/
def holders (u : SemaphoreUse Id Task) (id : Id) (s : SemaphoreSystem Id Task) : ℕ :=
  s.tasks.countP fun t => u.holds t id

/-- Every permit is available or held, and the queues hold the tasks that wait. -/
structure Conserves (u : SemaphoreUse Id Task) (capacity : Id → ℕ) (s : SemaphoreSystem Id Task) :
    Prop where
  permits : ∀ id, (s.semaphores id).available + s.holders u id = capacity id
  queued : ∀ id i, i ∈ (s.semaphores id).queue ↔
    ∃ t, s.tasks[i]? = some t ∧ u.waits t = some id
  distinct : ∀ id, (s.semaphores id).queue.Nodup

section Lists

variable {l : List Task} {i : ℕ} {t t' : Task}

/-- A replaced entry is counted instead of the old one. -/
theorem countP_set_add (p : Task → Bool) (h : l[i]? = some t) :
    (l.set i t').countP p + (if p t then 1 else 0) = l.countP p + (if p t' then 1 else 0) := by
  obtain ⟨hi, rfl⟩ := List.getElem?_eq_some_iff.mp h
  have hle : (if p l[i] then 1 else 0) ≤ l.countP p := List.boole_getElem_le_countP hi
  rw [List.countP_set hi]
  omega

theorem countP_set_of_eq (p : Task → Bool) (h : l[i]? = some t) (hp : p t' = p t) :
    (l.set i t').countP p = l.countP p := by
  have hsum := @countP_set_add Task l i t t' p h
  rw [hp] at hsum
  omega

/-- Tasks of two kinds, counted together. -/
theorem countP_add {p q r : Task → Bool}
    (h : ∀ t ∈ l, (if p t then 1 else 0) = (if q t then 1 else 0) + if r t then 1 else 0) :
    l.countP p = l.countP q + l.countP r := by
  induction l with
  | nil => rfl
  | cons t l ih =>
    have ht := h t List.mem_cons_self
    have hl := ih fun t' ht' => h t' (List.mem_cons_of_mem t ht')
    simp only [List.countP_cons]
    omega

theorem modify_eq_set {f : Task → Task} (h : l[i]? = some t) : l.modify i f = l.set i (f t) := by
  rw [List.modify_eq_set_getElem?, h]
  rfl

end Lists

section Steps

variable {u : SemaphoreUse Id Task} {capacity : Id → ℕ} {s : SemaphoreSystem Id Task} {id : Id}
  {i : ℕ} {t t' : Task}

theorem new_conserves (u : SemaphoreUse Id Task) (capacity : Id → ℕ) :
    Conserves u capacity ⟨fun id => .new (capacity id), []⟩ :=
  ⟨fun _ => rfl, fun _ _ => by simp [FairSemaphore.new], fun _ => List.nodup_nil⟩

theorem Conserves.holders_le (h : s.Conserves u capacity) (id : Id) :
    s.holders u id ≤ capacity id := by
  have hpermits := h.permits id
  omega

theorem Conserves.spawn (h : s.Conserves u capacity) (hholds : ∀ id, u.holds t id = false)
    (hwaits : u.waits t = none) : (s.spawn t).Conserves u capacity := by
  refine ⟨fun id => ?_, fun id i => ?_, h.distinct⟩
  · simpa [SemaphoreSystem.spawn, holders, hholds] using h.permits id
  · rw [SemaphoreSystem.spawn, h.queued id i]
    constructor
    · rintro ⟨t', ht', hwaits'⟩
      exact ⟨t', List.getElem?_append_left (List.getElem?_eq_some_iff.mp ht').1 ▸ ht', hwaits'⟩
    · rintro ⟨t', ht', hwaits'⟩
      rw [List.getElem?_append] at ht'
      split at ht'
      · exact ⟨t', ht', hwaits'⟩
      · simp only [List.getElem?_singleton] at ht'
        split at ht'
        · cases ht'
          rw [hwaits] at hwaits'
          cases hwaits'
        · cases ht'

/-- Who waits after one task has changed. -/
theorem waits_set_iff (ht : s.tasks[i]? = some t) {id : Id} {j : ℕ} :
    (∃ r, (s.tasks.set i t')[j]? = some r ∧ u.waits r = some id) ↔
      if j = i then u.waits t' = some id else ∃ r, s.tasks[j]? = some r ∧ u.waits r = some id := by
  have hi : i < s.tasks.length := (List.getElem?_eq_some_iff.mp ht).1
  split
  · rename_i hj
    subst hj
    simp [hi]
  · rename_i hj
    simp [List.getElem?_set_ne (Ne.symm hj)]

/-- A task that uses the semaphores as before. -/
theorem Conserves.become (h : s.Conserves u capacity) (ht : s.tasks[i]? = some t)
    (hholds : ∀ id, u.holds t' id = u.holds t id) (hwaits : u.waits t' = u.waits t) :
    (s.become i t').Conserves u capacity := by
  refine ⟨fun id => ?_, fun id j => ?_, h.distinct⟩
  · have hpermits := h.permits id
    rw [holders] at hpermits ⊢
    rw [SemaphoreSystem.become, countP_set_of_eq _ ht (hholds id)]
    exact hpermits
  · rw [SemaphoreSystem.become, h.queued id j, waits_set_iff ht]
    split
    · rename_i hj
      subst hj
      simp [ht, hwaits]
    · exact Iff.rfl

/-- A task and one semaphore change, and the permits of the semaphore with them; the task is in the
queue if it waits for a permit. -/
theorem Conserves.change {capacity' : Id → ℕ} {f : FairSemaphore} (h : s.Conserves u capacity)
    (ht : s.tasks[i]? = some t) (hcapacity : ∀ id', id' ≠ id → capacity' id' = capacity id')
    (hpermit : f.available + (if u.holds t' id then 1 else 0) + capacity id =
      (s.semaphores id).available + (if u.holds t id then 1 else 0) + capacity' id)
    (hholds : ∀ id', id' ≠ id → u.holds t' id' = u.holds t id')
    (hqueue : ∀ j, j ∈ f.queue ↔
      if j = i then u.waits t' = some id else j ∈ (s.semaphores id).queue)
    (hwaits : ∀ id', id' ≠ id → (u.waits t' = some id' ↔ u.waits t = some id'))
    (hdistinct : f.queue.Nodup) :
    Conserves u capacity' ⟨Function.update s.semaphores id f, s.tasks.set i t'⟩ := by
  refine ⟨fun id' => ?_, fun id' j => ?_, fun id' => ?_⟩
  · have hpermits := h.permits id'
    rw [holders] at hpermits ⊢
    dsimp only
    by_cases hid : id' = id
    · subst hid
      have hset := @countP_set_add Task _ i t t' (fun t => u.holds t id') ht
      rw [Function.update_self]
      omega
    · rw [Function.update_of_ne hid, countP_set_of_eq _ ht (hholds id' hid), hcapacity id' hid]
      exact hpermits
  · dsimp only
    rw [waits_set_iff ht]
    by_cases hid : id' = id
    · subst hid
      rw [Function.update_self, hqueue j, h.queued id' j]
    · rw [Function.update_of_ne hid, h.queued id' j]
      split
      · rename_i hj
        subst hj
        simp [ht, hwaits id' hid]
      · exact Iff.rfl
  · dsimp only
    by_cases hid : id' = id
    · subst hid
      rwa [Function.update_self]
    · rw [Function.update_of_ne hid]
      exact h.distinct id'

/-- The task has one more permit. -/
def Gains (u : SemaphoreUse Id Task) (id : Id) (t t' : Task) : Prop :=
  u.holds t id = false ∧ ∀ id', u.holds t' id' = (u.holds t id' || decide (id' = id))

theorem Gains.self (h : Gains u id t t') : u.holds t' id = true := by
  simp [h.2 id]

theorem Gains.other (h : Gains u id t t') {id' : Id} (hid : id' ≠ id) :
    u.holds t' id' = u.holds t id' := by
  simp [h.2 id', hid]

theorem Conserves.not_mem_queue (h : s.Conserves u capacity) (ht : s.tasks[i]? = some t)
    (hwaits : u.waits t ≠ some id) : i ∉ (s.semaphores id).queue := by
  rw [h.queued id i]
  simpa [ht] using hwaits

/-- A task that asks for a permit. -/
theorem Conserves.request {granted queued : Task} (h : s.Conserves u capacity)
    (ht : s.tasks[i]? = some t) (hwaits : u.waits t = none) (hgains : Gains u id t granted)
    (hgranted : u.waits granted = none) (hholds : ∀ id', u.holds queued id' = u.holds t id')
    (hqueued : u.waits queued = some id) :
    (s.request id i granted queued).Conserves u capacity := by
  have hnot : i ∉ (s.semaphores id).queue := h.not_mem_queue ht (by simp [hwaits])
  unfold SemaphoreSystem.request
  split
  · refine h.change ht (fun _ _ => rfl) ?_ (fun id' _ => hholds id') (fun j => ?_)
      (fun id' hid => ?_) ?_
    · simp [FairSemaphore.enqueue, hholds id]
    · by_cases hj : j = i
      · simp [FairSemaphore.enqueue, hj, hqueued]
      · simp [FairSemaphore.enqueue, hj]
    · simp [hqueued, hwaits, Ne.symm hid]
    · exact List.nodup_append.mpr ⟨h.distinct id, List.nodup_singleton i, by
        intro a ha b hb
        obtain rfl := List.mem_singleton.mp hb
        exact fun hab => hnot (hab ▸ ha)⟩
  · rename_i havailable
    refine h.change ht (fun _ _ => rfl) ?_ (fun id' hid => hgains.other hid) (fun j => ?_)
      (fun id' hid => ?_) (h.distinct id)
    · simp only [FairSemaphore.take, hgains.self, hgains.1, if_true, Bool.false_eq_true, if_false]
      omega
    · by_cases hj : j = i
      · subst hj
        simp [FairSemaphore.take, hgranted, hnot]
      · simp [FairSemaphore.take, hj]
    · simp [hgranted, hwaits]

/-- A task that gives up waiting. -/
theorem Conserves.withdraw (h : s.Conserves u capacity) (ht : s.tasks[i]? = some t)
    (hwaits : u.waits t = some id) (hholds : ∀ id', u.holds t' id' = u.holds t id')
    (hgone : u.waits t' = none) : (s.withdraw id i t').Conserves u capacity := by
  refine h.change ht (fun _ _ => rfl) ?_ (fun id' _ => hholds id') (fun j => ?_)
    (fun id' hid => ?_) ?_
  · simp [FairSemaphore.forget, hholds id]
  · by_cases hj : j = i
    · simp [FairSemaphore.forget, (h.distinct id).mem_erase_iff, hj, hgone]
    · simp [FairSemaphore.forget, (h.distinct id).mem_erase_iff, hj]
  · simp [hgone, hwaits, Ne.symm hid]
  · exact (h.distinct id).erase i

/-- A task that returns a permit. -/
theorem Conserves.release (h : s.Conserves u capacity) (ht : s.tasks[i]? = some t)
    (hwaits : u.waits t = none) (hgains : Gains u id t' t) (hgone : u.waits t' = none) :
    (s.release u id i t').Conserves u capacity := by
  have hnot : i ∉ (s.semaphores id).queue := h.not_mem_queue ht (by simp [hwaits])
  have hother (j : ℕ) (hj : j ∈ (s.semaphores id).queue) : j ≠ i := fun hji => hnot (hji ▸ hj)
  unfold SemaphoreSystem.release wake
  rw [SemaphoreSystem.become]
  dsimp only
  split
  · rename_i hempty
    refine h.change ht (fun _ _ => rfl) ?_ (fun id' hid => (hgains.other hid).symm) (fun j => ?_)
      (fun id' hid => ?_) List.nodup_nil
    · simp [FairSemaphore.putBack, hgains.self, hgains.1]
    · simp [FairSemaphore.putBack, hempty, hgone]
    · simp [hgone, hwaits]
  · rename_i hne
    -- the permit leaves the system with the task and comes back with the first of the queue
    obtain ⟨w, hw, hwaiting⟩ := (h.queued id _).mp (List.head_mem hne)
    have hwi := hother _ (List.head_mem hne)
    have hpermits := h.permits id
    have hheld : 0 < s.holders u id :=
      List.countP_pos_iff.mpr ⟨t, List.mem_of_getElem? ht, hgains.self⟩
    have hleft : Conserves u (Function.update capacity id (capacity id - 1))
        ⟨Function.update s.semaphores id (s.semaphores id), s.tasks.set i t'⟩ := by
      refine h.change ht (fun id' hid => Function.update_of_ne hid ..) ?_
        (fun id' hid => (hgains.other hid).symm) (fun j => ?_) (fun id' hid => ?_) (h.distinct id)
      · simp only [hgains.self, hgains.1, if_true, Bool.false_eq_true, if_false,
          Function.update_self]
        omega
      · by_cases hj : j = i
        · subst hj
          simp [hgone, hnot]
        · simp [hj]
      · simp [hgone, hwaits]
    rw [Function.update_eq_self] at hleft
    have hw' : (s.tasks.set i t')[(s.semaphores id).queue.head hne]? = some w := by
      rw [List.getElem?_set_ne (Ne.symm hwi), hw]
    rw [modify_eq_set hw']
    obtain ⟨hlacks, hgrant⟩ := u.holds_grant w id hwaiting
    refine hleft.change hw' (fun id' hid => (Function.update_of_ne hid ..).symm) ?_
      (fun id' hid => by simp [hgrant id', hid]) (fun j => ?_) (fun id' hid => ?_) ?_
    · simp only [FairSemaphore.dequeue, hlacks, hgrant id, Function.update_self, decide_true,
        Bool.or_true, if_true, Bool.false_eq_true, if_false]
      omega
    · have hcons := List.cons_head_tail hne
      have hdistinct := h.distinct id
      rw [← hcons, List.nodup_cons] at hdistinct
      have hmem : j ∈ (s.semaphores id).queue ↔
          j = (s.semaphores id).queue.head hne ∨ j ∈ (s.semaphores id).queue.tail := by
        conv_lhs => rw [← hcons]
        exact List.mem_cons
      by_cases hj : j = (s.semaphores id).queue.head hne
      · subst hj
        simp [FairSemaphore.dequeue, u.waits_grant w id hwaiting, hdistinct.1]
      · simp [FairSemaphore.dequeue, hmem, hj]
    · simp [u.waits_grant w id hwaiting, hwaiting, Ne.symm hid]
    · exact (h.distinct id).tail

end Steps

/-! ### The tasks after a step -/

section Tasks

variable {u : SemaphoreUse Id Task} {s : SemaphoreSystem Id Task} {id : Id} {i : ℕ}
  {t t' granted queued : Task} {Q : Task → Prop} {p : Task → Bool}

omit [DecidableEq Id] in
theorem forall_become (h : ∀ a ∈ s.tasks, Q a) (ht' : Q t') : ∀ a ∈ (s.become i t').tasks, Q a := by
  intro a ha
  rcases List.mem_or_eq_of_mem_set ha with hmem | rfl
  · exact h a hmem
  · exact ht'

theorem forall_request (h : ∀ a ∈ s.tasks, Q a) (hgranted : Q granted) (hqueued : Q queued) :
    ∀ a ∈ (s.request id i granted queued).tasks, Q a := by
  unfold request
  split
  · exact forall_become h hqueued
  · exact forall_become h hgranted

theorem forall_withdraw (h : ∀ a ∈ s.tasks, Q a) (ht' : Q t') :
    ∀ a ∈ (s.withdraw id i t').tasks, Q a := forall_become h ht'

theorem forall_release (h : ∀ a ∈ s.tasks, Q a) (ht' : Q t') (hgrant : ∀ a, Q a → Q (u.grant a)) :
    ∀ a ∈ (s.release u id i t').tasks, Q a := by
  have hbecome := @forall_become Id Task s i t' Q h ht'
  unfold release wake
  split
  · exact hbecome
  · intro a ha
    obtain ⟨j, hj⟩ := List.mem_iff_getElem?.mp ha
    rw [List.getElem?_modify] at hj
    obtain ⟨b, hb, rfl⟩ := Option.map_eq_some_iff.mp hj
    have hb' := hbecome b (List.mem_of_getElem? hb)
    split
    · exact hgrant b hb'
    · exact hb'

theorem request_tasks (ht : s.tasks[i]? = some t) :
    (s.request id i granted queued).tasks[i]? =
      some (if (s.semaphores id).available = 0 then queued else granted) := by
  have hi : i < s.tasks.length := (List.getElem?_eq_some_iff.mp ht).1
  unfold request
  split <;> simp [hi]

theorem request_semaphores_of_ne {id' : Id} (hid : id' ≠ id) :
    (s.request id i granted queued).semaphores id' = s.semaphores id' := by
  unfold request
  split <;> exact Function.update_of_ne hid ..

theorem countP_request (ht : s.tasks[i]? = some t) (hgranted : p granted = p t)
    (hqueued : p queued = p t) :
    (s.request id i granted queued).tasks.countP p = s.tasks.countP p := by
  unfold request
  split
  · exact countP_set_of_eq p ht hqueued
  · exact countP_set_of_eq p ht hgranted

theorem countP_modify (hgrant : ∀ a, p (u.grant a) = p a) (l : List Task) (j : ℕ) :
    (l.modify j u.grant).countP p = l.countP p := by
  cases hj : l[j]? with
  | none =>
    rw [List.modify_eq_self (List.getElem?_eq_none_iff.mp hj)]
  | some a =>
    rw [modify_eq_set hj]
    exact countP_set_of_eq p hj (hgrant a)

theorem countP_release (ht : s.tasks[i]? = some t) (ht' : p t' = p t)
    (hgrant : ∀ a, p (u.grant a) = p a) :
    (s.release u id i t').tasks.countP p = s.tasks.countP p := by
  have hset := countP_set_of_eq p ht ht'
  unfold release wake
  split
  · exact hset
  · exact (countP_modify hgrant _ _).trans hset

end Tasks

end SemaphoreSystem
