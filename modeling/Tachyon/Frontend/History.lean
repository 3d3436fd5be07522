import Tachyon.Frontend.Downloads
import Tachyon.Library.EventRuns

/-!
# The download history

A download that comes to an end should get one record in the history. Progress events and polls
change the same list of tasks, but only the events look for a task that comes to an end, so the one
that is first to tell of it decides whether there is a record.
-/

namespace Tachyon.Frontend

open EventRuns

/-- What the backend lists: every task once. -/
structure Snapshot where
  tasks : List TaskInfo
  nodup : (tasks.map TaskInfo.id).Nodup

/-- The progress of some tasks, an object with their identifiers as keys. -/
structure Payload where
  entries : List (String × ProgressPayload)
  nodup : (entries.map Prod.fst).Nodup

/-- What changes the stores. -/
inductive Event where
  | setTasks (snapshot : Snapshot)
  /-- `refreshTaskList`; an error is only shown. -/
  | refreshTaskList (answer : Except String Snapshot)
  | updateProgress (browser : Browser) (payload : Payload)

/-- The stores after an event, and the records it adds. -/
def Store.handle (s : Store) : Event → Option (Store × List (String × DownloadStatus))
  | .setTasks snapshot => some (s.setTasks snapshot.tasks, [])
  | .refreshTaskList (.ok snapshot) => some (s.setTasks snapshot.tasks, [])
  | .refreshTaskList (.error _) => some (s, [])
  | .updateProgress browser payload => s.updateProgress browser payload.entries

/-- The stores, the records added so far, and the terminal statuses that each task has come to
while the store knew it. -/
structure Observed where
  store : Store
  added : List (String × DownloadStatus)
  moved : String → List DownloadStatus

def Observed.initial (historyRecords : List HistoryRecord) : Observed :=
  ⟨.initial historyRecords, [], fun _ => []⟩

def Observed.step (o : Observed) (e : Event) : Option Observed := do
  let (store, added) ← o.store.handle e
  some {
    store := store
    added := o.added ++ added
    moved := fun id => o.moved id ++ (ended o.store store id).toList }

/-- The statuses of the records added for a task. -/
def recordsOf (id : String) (added : List (String × DownloadStatus)) : List DownloadStatus :=
  (added.filter fun record => record.1 = id).map Prod.snd

/-- A poll tells of no task that has come to an end, unless the store knows it or does not know the
task. -/
def Quiet (o : Observed) : Event → Prop
  | .setTasks snapshot | .refreshTaskList (.ok snapshot) =>
    ∀ task ∈ snapshot.tasks, task.status.isTerminal = true →
      ∀ old, o.store.status task.id = some old → old.isTerminal = true
  | .refreshTaskList (.error _) | .updateProgress _ _ => True

/-- Every task has a record for each time it came to an end, with the status it came to. -/
def Observed.Recorded (o : Observed) : Prop := ∀ id, recordsOf id o.added = o.moved id

/-- A task has fewer records than that. -/
def Observed.Behind (o : Observed) : Prop :=
  ∃ id, (recordsOf id o.added).length < (o.moved id).length

section

variable {o o' : Observed} {s s' s'' : Store} {id : String} {e : Event}

theorem recordsOf_append (added more : List (String × DownloadStatus)) :
    recordsOf id (added ++ more) = recordsOf id added ++ recordsOf id more := by
  rw [recordsOf, List.filter_append, List.map_append]
  rfl

theorem recordsOf_map_self (status : Option DownloadStatus) :
    recordsOf id (status.map fun status => (id, status)).toList = status.toList := by
  cases status with
  | none => rfl
  | some status => simp [recordsOf]

theorem recordsOf_map_of_ne {other : String} (hne : other ≠ id) (status : Option DownloadStatus) :
    recordsOf other (status.map fun status => (id, status)).toList = [] := by
  cases status with
  | none => rfl
  | some status => simp [recordsOf, hne.symm]

/-- A task whose status stays has not come to an end. -/
theorem ended_of_status_eq (h : s'.status id = s.status id) : ended s s' id = none := by
  unfold ended
  rw [h]
  cases s.status id with
  | none => rfl
  | some status => cases status <;> rfl

theorem ended_congr_left (h : s'.status id = s.status id) : ended s' s'' id = ended s s'' id := by
  unfold ended
  rw [h]

theorem ended_congr_right (h : s'.status id = s''.status id) : ended s s' id = ended s s'' id := by
  unfold ended
  rw [h]

/-- A payload adds the records of the tasks that come to an end. -/
theorem Store.Coherent.updateProgress (h : s.Coherent) (browser : Browser)
    {entries : List (String × ProgressPayload)} (hnodup : (entries.map Prod.fst).Nodup) :
    ∃ s' added, s.updateProgress browser entries = some (s', added) ∧ s'.Coherent ∧
      (∀ id, id ∉ entries.map Prod.fst → s'.status id = s.status id) ∧
      ∀ id, recordsOf id added = (ended s s' id).toList := by
  induction entries generalizing s with
  | nil =>
    refine ⟨s, [], rfl, h, fun _ _ => rfl, fun id => ?_⟩
    rw [ended_of_status_eq rfl]
    rfl
  | cons entry entries ih =>
    obtain ⟨id, p⟩ := entry
    obtain ⟨hfresh, hrest⟩ := List.nodup_cons.mp hnodup
    obtain ⟨s₁, hcoherent, hothers, hentry⟩ := h.updateEntry browser id p
    obtain ⟨s₂, added, hpayload, hcoherent', hkept, hadded⟩ := ih hcoherent hrest
    have hown : s₂.status id = s₁.status id := hkept id hfresh
    refine ⟨s₂, ((ended s s₁ id).map fun status => (id, status)).toList ++ added, ?_, hcoherent',
      ?_, ?_⟩
    · simp only [Store.updateProgress, hentry, hpayload, Option.bind_eq_bind, Option.bind_some]
    · intro other hother
      rw [List.map_cons, List.mem_cons, not_or] at hother
      exact (hkept other hother.2).trans (hothers other hother.1)
    · intro other
      rw [recordsOf_append, hadded]
      by_cases hsame : other = id
      · subst hsame
        rw [recordsOf_map_self, ended_of_status_eq hown, ended_congr_right hown]
        exact List.append_nil _
      · rw [recordsOf_map_of_ne hsame, ended_congr_left (hothers other hsame)]
        rfl

/-- A poll ends no task exactly where it is quiet. -/
theorem ended_setTasks_iff (snapshot : Snapshot) :
    (∀ id, ended s (s.setTasks snapshot.tasks) id = none) ↔
      ∀ task ∈ snapshot.tasks, task.status.isTerminal = true →
        ∀ old, s.status task.id = some old → old.isTerminal = true := by
  have hafter := Store.Coherent.setTasks s snapshot.nodup
  have hstatus : ∀ task ∈ snapshot.tasks,
      (s.setTasks snapshot.tasks).status task.id = some task.status := by
    intro task hmem
    obtain ⟨i, hi⟩ := List.mem_iff_getElem?.mp hmem
    have hindex := (hafter.index task.id i).mpr ⟨task, hi, rfl⟩
    have htask : (s.setTasks snapshot.tasks).tasks[i]? = some task := hi
    rw [hafter.status_eq, hindex, Option.bind_some, htask]
    rfl
  constructor
  · intro hnone task hmem hterminal old hold
    have hended := hnone task.id
    simp only [ended, hold, hstatus task hmem, Option.bind_eq_bind, Option.bind_some, hterminal,
      Bool.and_true] at hended
    by_contra hopen
    simp [hopen] at hended
  · intro hquiet id
    unfold ended
    cases hold : s.status id with
    | none => rfl
    | some old =>
      cases hnew : (s.setTasks snapshot.tasks).status id with
      | none => rfl
      | some new =>
        obtain ⟨task, hfind, rfl⟩ := Option.map_eq_some_iff.mp hnew
        have hid : task.id = id := by simpa using List.find?_some hfind
        have hmem : task ∈ snapshot.tasks := List.mem_of_find?_eq_some hfind
        simp only [Option.bind_eq_bind, Option.bind_some]
        rw [if_neg]
        intro hends
        rw [Bool.and_eq_true, Bool.not_eq_true'] at hends
        rw [← hid] at hold
        exact Bool.false_ne_true (hends.1.symm.trans (hquiet task hmem hends.2 old hold))

/-- What an event does to the records: it adds those of the tasks that come to an end, or none at
all where it is a poll that ends some. -/
theorem Observed.step_eq (ho : o.store.Coherent) (e : Event) : ∃ store added,
    o.step e = some ⟨store, o.added ++ added,
      fun id => o.moved id ++ (ended o.store store id).toList⟩ ∧ store.Coherent ∧
    (Quiet o e → ∀ id, recordsOf id added = (ended o.store store id).toList) ∧
    (¬Quiet o e → added = [] ∧ ∃ id, ended o.store store id ≠ none) := by
  have hpoll (snapshot : Snapshot) {quiet : Prop}
      (hiff : (∀ id, ended o.store (o.store.setTasks snapshot.tasks) id = none) ↔ quiet) :
      (quiet → ∀ id, recordsOf id [] =
        (ended o.store (o.store.setTasks snapshot.tasks) id).toList) ∧
      (¬quiet → ∃ id, ended o.store (o.store.setTasks snapshot.tasks) id ≠ none) := by
    refine ⟨fun h id => ?_, fun h => not_forall.mp (mt hiff.mp h)⟩
    rw [hiff.mpr h id]
    rfl
  cases e with
  | setTasks snapshot =>
    obtain ⟨hquiet, hloud⟩ := hpoll snapshot (ended_setTasks_iff snapshot)
    exact ⟨o.store.setTasks snapshot.tasks, [], rfl,
      Store.Coherent.setTasks o.store snapshot.nodup, hquiet, fun h => ⟨rfl, hloud h⟩⟩
  | refreshTaskList answer =>
    cases answer with
    | error message =>
      refine ⟨o.store, [], rfl, ho, ?_, fun h => absurd trivial h⟩
      intro _ id
      rw [ended_of_status_eq rfl]
      rfl
    | ok snapshot =>
      obtain ⟨hquiet, hloud⟩ := hpoll snapshot (ended_setTasks_iff snapshot)
      exact ⟨o.store.setTasks snapshot.tasks, [], rfl,
        Store.Coherent.setTasks o.store snapshot.nodup, hquiet, fun h => ⟨rfl, hloud h⟩⟩
  | updateProgress browser payload =>
    obtain ⟨store, added, hupdate, hcoherent, -, hadded⟩ :=
      ho.updateProgress browser payload.nodup
    refine ⟨store, added, ?_, hcoherent, fun _ => hadded, fun h => absurd trivial h⟩
    simp only [Observed.step, Store.handle, hupdate, Option.bind_eq_bind, Option.bind_some]

/-- A task that has fewer records than it should never catches up. -/
theorem Observed.Behind.step (ho : o.store.Coherent) (h : o.Behind) (hstep : o.step e = some o') :
    o'.Behind := by
  obtain ⟨store, added, heq, -, hquiet, hloud⟩ := Observed.step_eq ho e
  rw [heq] at hstep
  obtain rfl := Option.some.inj hstep
  obtain ⟨id, hlt⟩ := h
  have hle : (recordsOf id added).length ≤ (ended o.store store id).toList.length := by
    by_cases hq : Quiet o e
    · exact Nat.le_of_eq (congrArg List.length (hquiet hq id))
    · rw [(hloud hq).1]
      exact Nat.zero_le _
  refine ⟨id, ?_⟩
  rw [recordsOf_append, List.length_append, List.length_append]
  omega

/-- The records keep up with a quiet event. -/
theorem Observed.Recorded.step (ho : o.store.Coherent) (h : o.Recorded) (hquiet : Quiet o e)
    (hstep : o.step e = some o') : o'.Recorded := by
  obtain ⟨store, added, heq, -, hadded, -⟩ := Observed.step_eq ho e
  rw [heq] at hstep
  obtain rfl := Option.some.inj hstep
  intro id
  rw [recordsOf_append, h id, hadded hquiet id]

/-- A poll that ends a task leaves it behind. -/
theorem Observed.Recorded.behind (ho : o.store.Coherent) (h : o.Recorded) (hquiet : ¬Quiet o e)
    (hstep : o.step e = some o') : o'.Behind := by
  obtain ⟨store, added, heq, -, -, hloud⟩ := Observed.step_eq ho e
  rw [heq] at hstep
  obtain rfl := Option.some.inj hstep
  obtain ⟨rfl, id, hended⟩ := hloud hquiet
  refine ⟨id, ?_⟩
  rw [List.append_nil, h id, List.length_append]
  have hpos : 0 < (ended o.store store id).toList.length := by
    cases hstatus : ended o.store store id with
    | none => exact absurd hstatus hended
    | some status => exact Nat.one_pos
  omega

theorem Observed.Behind.not_recorded (h : o.Behind) : ¬o.Recorded := by
  intro hrecorded
  obtain ⟨id, hlt⟩ := h
  rw [hrecorded id] at hlt
  exact Nat.lt_irrefl _ hlt

/-- Every event can happen, and the index stays that of the tasks. -/
theorem Observed.step_coherent (ho : o.store.Coherent) (e : Event) :
    ∃ o', o.step e = some o' ∧ o'.store.Coherent := by
  obtain ⟨store, added, heq, hcoherent, -, -⟩ := Observed.step_eq ho e
  exact ⟨_, heq, hcoherent⟩

theorem run_behind {events : List Event} (ho : o.store.Coherent) (h : o.Behind) :
    ∃ o', run Observed.step o events = some o' ∧ o'.Behind := by
  induction events generalizing o with
  | nil => exact ⟨o, rfl, h⟩
  | cons e events ih =>
    obtain ⟨o₁, hstep, ho₁⟩ := Observed.step_coherent ho e
    obtain ⟨o', hrun, hbehind⟩ := ih ho₁ (h.step ho hstep)
    exact ⟨o', run_cons.mpr ⟨o₁, hstep, hrun⟩, hbehind⟩

/-- A run keeps the records complete where all its events are quiet, and only there. -/
theorem run_recorded_iff {events : List Event} (ho : o.store.Coherent) (h : o.Recorded) :
    ∃ o', run Observed.step o events = some o' ∧
      (o'.Recorded ↔ EachStep Observed.step Quiet o events) := by
  induction events generalizing o with
  | nil => exact ⟨o, rfl, iff_of_true h trivial⟩
  | cons e events ih =>
    obtain ⟨o₁, hstep, ho₁⟩ := Observed.step_coherent ho e
    by_cases hquiet : Quiet o e
    · obtain ⟨o', hrun, hiff⟩ := ih ho₁ (h.step ho hquiet hstep)
      refine ⟨o', run_cons.mpr ⟨o₁, hstep, hrun⟩, hiff.trans ?_⟩
      constructor
      · intro heach o₂ hstep'
        obtain rfl := Option.some.inj (hstep.symm.trans hstep')
        exact ⟨hquiet, heach⟩
      · intro heach
        exact (heach o₁ hstep).2
    · obtain ⟨o', hrun, hbehind⟩ := run_behind ho₁ (h.behind ho hquiet hstep)
      refine ⟨o', run_cons.mpr ⟨o₁, hstep, hrun⟩, ?_⟩
      exact iff_of_false hbehind.not_recorded fun heach => hquiet (heach o₁ hstep).1

end

/-- Whatever polls and events bring, no call throws, and every task has one record for each time it
came to an end, with that status, exactly where no poll was the first to tell of an end. -/
theorem history_exactly_once_iff (historyRecords : List HistoryRecord) (events : List Event) :
    ∃ o, run Observed.step (.initial historyRecords) events = some o ∧
      ((∀ id, recordsOf id o.added = o.moved id) ↔
        EachStep Observed.step Quiet (.initial historyRecords) events) :=
  run_recorded_iff (Store.coherent_initial historyRecords) fun _ => rfl

/-- A task of a given status. -/
def listed (status : DownloadStatus) : Snapshot where
  tasks := [⟨"t", "http://a/f", "f", none, 0, 0, status, 0, 1, 0, ""⟩]
  nodup := List.nodup_singleton _

/-- A poll that is first to tell that a task has completed leaves it without a record. -/
theorem lost_record : ∃ o, run Observed.step (.initial [])
      [.setTasks (listed .downloading), .refreshTaskList (.ok (listed .completed))] = some o ∧
    o.moved "t" = [.completed] ∧ recordsOf "t" o.added = [] :=
  ⟨_, rfl, by decide, rfl⟩

end Tachyon.Frontend
