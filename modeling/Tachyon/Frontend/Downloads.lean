import Mathlib.Data.List.Induction
import Mathlib.Data.List.Nodup
import Mathlib.Logic.Function.Basic

/-!
# The task list of the frontend

The store `downloads` holds the tasks that the backend last listed and an index of them. A poll
replaces the list, a progress event changes entries of it, and the store `history` keeps the last
hundred downloads that came to an end.
-/

namespace Tachyon.Frontend

/-- `DownloadStatus` -/
inductive DownloadStatus where
  | pending
  | connecting
  | downloading
  | paused
  | resuming
  | verifying
  | completed
  | failed
  | cancelled
  deriving DecidableEq, Repr

/-- `TERMINAL_STATUSES` -/
def DownloadStatus.isTerminal : DownloadStatus → Bool
  | .completed | .failed | .cancelled => true
  | _ => false

/-- `VALID_STATUSES`, each with the status it is. -/
def validStatuses : List (String × DownloadStatus) :=
  [("pending", .pending), ("connecting", .connecting), ("downloading", .downloading),
    ("paused", .paused), ("resuming", .resuming), ("verifying", .verifying),
    ("completed", .completed), ("failed", .failed), ("cancelled", .cancelled)]

/-- `TaskInfo` -/
structure TaskInfo where
  id : String
  url : String
  fileName : String
  fileSize : Option Float
  downloaded : Float
  speed : Float
  status : DownloadStatus
  progress : Float
  fragmentsTotal : Float
  fragmentsDone : Float
  createdAt : String

/-- `ProgressPayload`. A number can be missing. -/
structure ProgressPayload where
  progress : Option Float
  downloaded : Option Float
  speed : Option Float
  status : String
  fragmentsDone : Option Float

/-- `HistoryRecord` -/
structure HistoryRecord where
  id : String
  url : String
  fileName : String
  fileSize : Float
  status : DownloadStatus
  duration : Float
  avgSpeed : Float
  completedAt : String

/-- What the browser answers: `Date.now()`, `new Date(..).getTime()`, and what `generateId()` and
`new Date().toISOString()` give for the record of a task. -/
structure Browser where
  now : Float
  getTime : String → Float
  recordId : String → String
  completedAt : String → String

/-- `MAX_RECORDS` -/
def maxRecords : ℕ := 100

/-- `addHistoryRecord`; the records are put into local storage as they are. -/
def addHistoryRecord (newRecord : HistoryRecord) (prev : List HistoryRecord) :
    List HistoryRecord :=
  let updated := newRecord :: prev
  if updated.length > maxRecords then updated.take maxRecords else updated

/-- `x || 0` -/
def orZero (x : Option Float) : Float :=
  match x with
  | none => 0
  | some x => if x.isNaN then 0 else x

/-- The record of a task that has come to an end. -/
def historyRecord (browser : Browser) (task : TaskInfo) (status : DownloadStatus) :
    HistoryRecord :=
  let duration :=
    if task.createdAt.isEmpty then 0 else browser.now - browser.getTime task.createdAt
  { id := browser.recordId task.id
    url := task.url
    fileName := task.fileName
    fileSize := orZero task.fileSize
    status := status
    duration := (duration / 1000).floor
    avgSpeed := if duration > 0 then orZero (some task.downloaded) / (duration / 1000) else 0
    completedAt := browser.completedAt task.id }

/-- The stores `downloads` and `history`. -/
structure Store where
  tasks : List TaskInfo
  taskIndexMap : String → Option ℕ
  historyRecords : List HistoryRecord

/-- The stores when the page is loaded. -/
def Store.initial (historyRecords : List HistoryRecord) : Store :=
  ⟨[], fun _ => none, historyRecords⟩

/-- `rebuildIndexMap` -/
def rebuildIndexMap (tasks : List TaskInfo) : String → Option ℕ :=
  tasks.zipIdx.foldl (fun map entry => Function.update map entry.1.id (some entry.2)) fun _ => none

/-- `setTasks` -/
def Store.setTasks (s : Store) (newTasks : List TaskInfo) : Store :=
  { s with tasks := newTasks, taskIndexMap := rebuildIndexMap newTasks }

/-- What `setTasksRaw` makes of a task in `updateProgress`. -/
def TaskInfo.withProgress (task : TaskInfo) (p : ProgressPayload) : TaskInfo :=
  { task with
    downloaded := p.downloaded.getD task.downloaded
    speed := p.speed.getD task.speed
    status := (validStatuses.lookup p.status).getD task.status
    progress := p.progress.getD task.progress
    fragmentsDone := p.fragmentsDone.getD task.fragmentsDone }

/-- An entry of the payload in `updateProgress`, and the record it adds, if any, as the task's
identifier and its status. Nothing where the index names no task, which throws. -/
def Store.updateEntry (browser : Browser) (s : Store) (id : String) (p : ProgressPayload) :
    Option (Store × Option (String × DownloadStatus)) :=
  match s.taskIndexMap id with
  | none => some (s, none)
  | some idx => do
    let task ← s.tasks[idx]?
    let updated := task.withProgress p
    let s := { s with tasks := s.tasks.set idx updated }
    if !task.status.isTerminal && updated.status.isTerminal then
      some ({ s with
        historyRecords :=
          addHistoryRecord (historyRecord browser updated updated.status) s.historyRecords },
        some (id, updated.status))
    else some (s, none)

/-- `updateProgress`, with the records it adds. -/
def Store.updateProgress (browser : Browser) (s : Store) :
    List (String × ProgressPayload) → Option (Store × List (String × DownloadStatus))
  | [] => some (s, [])
  | (id, p) :: entries => do
    let (s₁, added) ← s.updateEntry browser id p
    let (s₂, rest) ← s₁.updateProgress browser entries
    some (s₂, added.toList ++ rest)

/-- The status of a task that the store knows. -/
def Store.status (s : Store) (id : String) : Option DownloadStatus :=
  (s.tasks.find? fun task => task.id == id).map TaskInfo.status

/-! ### The index of the tasks -/

/-- The index has the places of the tasks. -/
structure Store.Coherent (s : Store) : Prop where
  nodup : (s.tasks.map TaskInfo.id).Nodup
  index : ∀ id i, s.taskIndexMap id = some i ↔ ∃ task, s.tasks[i]? = some task ∧ task.id = id

theorem rebuildIndexMap_concat {tasks : List TaskInfo} {task : TaskInfo} :
    rebuildIndexMap (tasks ++ [task]) =
      Function.update (rebuildIndexMap tasks) task.id (some tasks.length) := by
  unfold rebuildIndexMap
  rw [List.zipIdx_append, List.foldl_append]
  simp

theorem rebuildIndexMap_eq_some {tasks : List TaskInfo} (hnodup : (tasks.map TaskInfo.id).Nodup)
    {id : String} {i : ℕ} :
    rebuildIndexMap tasks id = some i ↔ ∃ task, tasks[i]? = some task ∧ task.id = id := by
  induction tasks using List.reverseRecOn with
  | nil => simp [rebuildIndexMap]
  | append_singleton tasks last ih =>
    rw [List.map_append, List.map_singleton, List.nodup_append] at hnodup
    obtain ⟨hfront, -, hnew⟩ := hnodup
    rw [rebuildIndexMap_concat]
    by_cases hid : id = last.id
    · subst hid
      rw [Function.update_self]
      constructor
      · intro h
        obtain rfl := Option.some.inj h
        exact ⟨last, List.getElem?_concat_length, rfl⟩
      · rintro ⟨task, htask, hsame⟩
        rcases Nat.lt_trichotomy i tasks.length with hlt | heq | hgt
        · rw [List.getElem?_append_left hlt] at htask
          have hmem := List.mem_map_of_mem (f := TaskInfo.id) (List.mem_of_getElem? htask)
          exact absurd hsame (hnew _ hmem _ List.mem_cons_self)
        · rw [heq]
        · rw [List.getElem?_eq_none (by simp; omega)] at htask
          cases htask
    · rw [Function.update_of_ne hid, ih hfront]
      refine exists_congr fun task => ?_
      rcases Nat.lt_trichotomy i tasks.length with hlt | heq | hgt
      · rw [List.getElem?_append_left hlt]
      · subst heq
        rw [List.getElem?_concat_length, List.getElem?_eq_none (Nat.le_refl _)]
        refine iff_of_false (by simp) ?_
        rintro ⟨hlast, hsame⟩
        rw [Option.some.inj hlast] at hid
        exact hid hsame.symm
      · rw [List.getElem?_eq_none (show tasks.length ≤ i by omega),
          List.getElem?_eq_none (show (tasks ++ [last]).length ≤ i by simp; omega)]

theorem Store.Coherent.setTasks (s : Store) {newTasks : List TaskInfo}
    (hnodup : (newTasks.map TaskInfo.id).Nodup) : (s.setTasks newTasks).Coherent :=
  ⟨hnodup, fun _ _ => rebuildIndexMap_eq_some hnodup⟩

theorem Store.coherent_initial (historyRecords : List HistoryRecord) :
    (Store.initial historyRecords).Coherent :=
  ⟨List.nodup_nil, fun _ _ => by simp [Store.initial]⟩

/-- A task that the index names has its status, and any other has none. -/
theorem Store.Coherent.status_eq {s : Store} (h : s.Coherent) (id : String) :
    s.status id = (s.taskIndexMap id).bind fun i => (s.tasks[i]?).map TaskInfo.status := by
  have hplace : ∀ task ∈ s.tasks, task.id = id → ∃ i, s.tasks[i]? = some task ∧
      s.taskIndexMap id = some i := by
    intro task hmem hid
    obtain ⟨i, hi⟩ := List.mem_iff_getElem?.mp hmem
    exact ⟨i, hi, (h.index id i).mpr ⟨task, hi, hid⟩⟩
  unfold Store.status
  cases hfind : s.tasks.find? fun task => task.id == id with
  | none =>
    cases hindex : s.taskIndexMap id with
    | none => rfl
    | some i =>
      obtain ⟨task, htask, hid⟩ := (h.index id i).mp hindex
      have hnot := List.find?_eq_none.mp hfind task (List.mem_of_getElem? htask)
      exact absurd (beq_iff_eq.mpr hid) hnot
  | some task =>
    have hid : task.id = id := by simpa using List.find?_some hfind
    obtain ⟨i, htask, hindex⟩ := hplace task (List.mem_of_find?_eq_some hfind) hid
    rw [hindex, Option.bind_some, htask]

theorem Store.Coherent.set {s : Store} (h : s.Coherent) {i : ℕ} {task updated : TaskInfo}
    (htask : s.tasks[i]? = some task) (hid : updated.id = task.id)
    (historyRecords : List HistoryRecord) :
    Store.Coherent ⟨s.tasks.set i updated, s.taskIndexMap, historyRecords⟩ := by
  have hget : ∀ j : ℕ,
      ((s.tasks.set i updated)[j]?).map TaskInfo.id = (s.tasks[j]?).map TaskInfo.id := by
    intro (j : ℕ)
    by_cases hij : i = j
    · subst hij
      have hlt := (List.getElem?_eq_some_iff.mp htask).1
      rw [List.getElem?_set_self hlt, htask, Option.map_some, Option.map_some, hid]
    · rw [List.getElem?_set_ne hij]
  refine ⟨?_, ?_⟩
  · have hids : (s.tasks.set i updated).map TaskInfo.id = s.tasks.map TaskInfo.id := by
      refine List.ext_getElem? fun j => ?_
      rw [List.getElem?_map, List.getElem?_map, hget]
    rw [hids]
    exact h.nodup
  · intro id j
    have hname : ∀ x : Option TaskInfo,
        (∃ task, x = some task ∧ task.id = id) ↔ x.map TaskInfo.id = some id := by simp
    rw [h.index, hname, hname, hget]

/-- The status of a task that has come to an end. -/
def ended (s s' : Store) (id : String) : Option DownloadStatus := do
  let old ← s.status id
  let new ← s'.status id
  if !old.isTerminal && new.isTerminal then some new else none

/-- Replacing a task changes its own status and no other. -/
theorem Store.Coherent.status_set {s : Store} (h : s.Coherent) {i : ℕ} {task updated : TaskInfo}
    (htask : s.tasks[i]? = some task) (hid : updated.id = task.id)
    (historyRecords : List HistoryRecord) (id : String) :
    Store.status ⟨s.tasks.set i updated, s.taskIndexMap, historyRecords⟩ id =
      if id = task.id then some updated.status else s.status id := by
  have hlt := (List.getElem?_eq_some_iff.mp htask).1
  have hindex := (h.index task.id i).mpr ⟨task, htask, rfl⟩
  rw [(h.set htask hid historyRecords).status_eq]
  by_cases hown : id = task.id
  · subst hown
    simp only [hindex, Option.bind_some, List.getElem?_set_self hlt, Option.map_some, if_true]
  · rw [if_neg hown, h.status_eq]
    cases hplace : s.taskIndexMap id with
    | none => rfl
    | some j =>
      have hij : i ≠ j := by
        rintro rfl
        obtain ⟨task', htask', hid'⟩ := (h.index id i).mp hplace
        rw [htask] at htask'
        obtain rfl := Option.some.inj htask'
        exact hown hid'.symm
      simp only [Option.bind_some, List.getElem?_set_ne hij]

/-- An entry of a payload changes its own task, and adds a record where the task comes to an
end. -/
theorem Store.Coherent.updateEntry {s : Store} (h : s.Coherent) (browser : Browser) (id : String)
    (p : ProgressPayload) : ∃ s', s'.Coherent ∧
      (∀ other, other ≠ id → s'.status other = s.status other) ∧
      s.updateEntry browser id p = some (s', (ended s s' id).map fun status => (id, status)) := by
  unfold Store.updateEntry
  cases hindex : s.taskIndexMap id with
  | none =>
    have hunknown : s.status id = none := by
      rw [h.status_eq, hindex]
      rfl
    refine ⟨s, h, fun _ _ => rfl, ?_⟩
    simp only [ended, hunknown]
    rfl
  | some i =>
    obtain ⟨task, htask, rfl⟩ := (h.index id i).mp hindex
    have hold : s.status task.id = some task.status := by
      rw [h.status_eq, hindex, Option.bind_some, htask]
      rfl
    have hsame : (task.withProgress p).id = task.id := rfl
    have hset := h.set htask hsame
    have hstatus := h.status_set htask hsame
    have hothers : ∀ historyRecords, ∀ other, other ≠ task.id →
        Store.status ⟨s.tasks.set i (task.withProgress p), s.taskIndexMap, historyRecords⟩ other =
          s.status other := by
      intro historyRecords other hother
      rw [hstatus, if_neg hother]
    simp only [htask, Option.bind_eq_bind, Option.bind_some]
    by_cases hends : (!task.status.isTerminal && (task.withProgress p).status.isTerminal) = true
    · rw [if_pos hends]
      let added := addHistoryRecord
        (historyRecord browser (task.withProgress p) (task.withProgress p).status)
        s.historyRecords
      refine ⟨⟨s.tasks.set i (task.withProgress p), s.taskIndexMap, added⟩, hset added,
        hothers added, ?_⟩
      simp only [ended, hold, hstatus, if_true, Option.bind_eq_bind, Option.bind_some,
        if_pos hends, Option.map_some]
      rfl
    · rw [if_neg hends]
      refine ⟨⟨s.tasks.set i (task.withProgress p), s.taskIndexMap, s.historyRecords⟩,
        hset s.historyRecords, hothers s.historyRecords, ?_⟩
      simp only [ended, hold, hstatus, if_true, Option.bind_eq_bind, Option.bind_some,
        if_neg hends, Option.map_none]

end Tachyon.Frontend
