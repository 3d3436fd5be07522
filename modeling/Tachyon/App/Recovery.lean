import Tachyon.App.Commands
import Tachyon.Core.Paths
import Tachyon.Store.Refinement

/-!
# The restart

`recover_pending_snapshots` reads every entry of a task and keeps those whose status it
lists. The list has two of the six states that are not final, and the first entry that is
neither a snapshot nor a legacy record ends the loop with its error.
-/

namespace Tachyon

open Resumption EventRuns

/-! ### The recovery manager -/

/-- `TaskRecord`, the entry of an earlier version. -/
structure TaskRecord where
  taskId : String
  url : String
  savePath : String
  fileSize : Option UInt64
  downloaded : ℕ
  completedFragments : List ℕ
  totalFragments : ℕ
  status : String

/-- `parse_legacy_status`. -/
def parseLegacyStatus : String → DownloadState
  | "pending" => .pending
  | "connecting" => .connecting
  | "downloading" => .downloading
  | "paused" => .paused
  | "resuming" => .resuming
  | "verifying" => .verifying
  | "completed" => .completed
  | "failed" => .failed
  | "cancelled" => .cancelled
  | _ => .failed

/-- `TaskSnapshot::from` of a legacy record. -/
def TaskRecord.toSnapshot (r : TaskRecord) : TaskSnapshot where
  id := r.taskId
  url := r.url
  savePath := r.savePath
  fileName := (StdPath.new r.savePath).fileName.getD "unknown"
  fileSize := r.fileSize
  downloaded := r.downloaded
  completedFragments := r.completedFragments
  totalFragments := r.totalFragments
  fragmentSize := 0
  status := parseLegacyStatus r.status
  etag := none
  lastModified := none
  contentLength := r.fileSize
  createdAt := ""
  updatedAt := ""
  failReason := none
  retryCount := 0

/-- How `serde_json` reads the two kinds of entries. -/
structure EntryReader where
  snapshot : String → Option TaskSnapshot
  record : String → Option TaskRecord

/-- An entry as a snapshot, read as a legacy record where it is none; `none` is malformed. -/
def EntryReader.read (reader : EntryReader) (json : String) : Option TaskSnapshot :=
  (reader.snapshot json).or ((reader.record json).map TaskRecord.toSnapshot)

/-- What the recovery manager reads of its `KvStore`. -/
structure KvStore (M : Type → Type) where
  getRaw : String → M (Option String)
  keys : M (List String)

/-- The key is that of a task. -/
def isTaskKey (key : String) : Bool := "task_".toList.isPrefixOf key.toList

section RecoveryManager

variable {M : Type → Type} [Monad M] [MonadExceptOf IoError M] (store : KvStore M)
  (reader : EntryReader)

/-- `load_task_snapshot_by_key`. -/
def loadTaskSnapshotByKey (key : String) : M (Option TaskSnapshot) := do
  match ← store.getRaw key with
  | none => pure none
  | some json =>
    match reader.read json with
    | some snapshot => pure (some snapshot)
    | none => throw IoError.invalidData

/-- The loop of `load_all_task_snapshots` over the keys. -/
def loadTaskSnapshots : List String → M (List TaskSnapshot)
  | [] => pure []
  | key :: rest =>
    if isTaskKey key then do
      let snapshot ← loadTaskSnapshotByKey store reader key
      let tasks ← loadTaskSnapshots rest
      pure (snapshot.toList ++ tasks)
    else loadTaskSnapshots rest

/-- `load_all_task_snapshots`. -/
def loadAllTaskSnapshots : M (List TaskSnapshot) := do
  let keys ← store.keys
  loadTaskSnapshots store reader keys

/-- `recover_pending_snapshots`. -/
def recoverPendingSnapshots : M (List TaskSnapshot) := do
  let snapshots ← loadAllTaskSnapshots store reader
  pure (snapshots.filter TaskSnapshot.recoverable)

end RecoveryManager

/-- The store of a map, with its keys in some order. -/
def KvStore.ofMap (m : MemoryStore) (keys : List String) : KvStore (Except IoError) where
  getRaw := fun key => .ok (m.get key)
  keys := .ok keys

/-- The store of a directory. -/
def KvStore.ofFiles : KvStore StoreM where
  getRaw := FileStore.get
  keys := FileStore.keys ""

/-- `TaskStore::load_recoverable`; `text` is how an I/O error is displayed. -/
def loadRecoverable (text : IoError → String) (store : KvStore (Except IoError))
    (reader : EntryReader) : Except AppError (List TaskSnapshot) :=
  match recoverPendingSnapshots store reader with
  | .ok found => .ok found
  | .error e =>
    let message := text e
    .error (.config s!"加载恢复任务失败: {message}")

/-! ### What is recovered -/

/-- What the restart is for: the snapshots of all tasks that have not ended. -/
def unfinishedSnapshots (m : MemoryStore) (reader : EntryReader) : List TaskSnapshot :=
  ((m.keys "task_").filterMap fun key => (m.get key).bind reader.read).filter
    fun snapshot => !snapshot.status.isTerminal

/-- The entry is read and has a status that the recovery knows, or has ended. -/
def EntryReader.Recovers (reader : EntryReader) (json : String) : Prop :=
  ∃ snapshot, reader.read json = some snapshot ∧
    snapshot.status ∉ [.pending, .connecting, .resuming, .verifying]

section Recovers

variable {m : MemoryStore} {reader : EntryReader} {keys all : List String}
  {found : List TaskSnapshot}

theorem loadTaskSnapshotByKey_ofMap {key : String} {snapshot : Option TaskSnapshot} :
    loadTaskSnapshotByKey (.ofMap m all) reader key = .ok snapshot ↔
      (∀ json, m.get key = some json → (reader.read json).isSome) ∧
        snapshot = (m.get key).bind reader.read := by
  have hget : loadTaskSnapshotByKey (.ofMap m all) reader key =
      match m.get key with
      | none => .ok none
      | some json =>
        match reader.read json with
        | some snapshot => .ok (some snapshot)
        | none => .error .invalidData := rfl
  rw [hget]
  cases m.get key with
  | none =>
    constructor
    · rintro ⟨⟩
      exact ⟨fun _ h => absurd h (Option.some_ne_none _).symm, rfl⟩
    · rintro ⟨-, rfl⟩
      rfl
  | some json =>
    dsimp only
    cases hread : reader.read json with
    | none =>
      constructor
      · rintro ⟨⟩
      · rintro ⟨h, -⟩
        have hsome := h json rfl
        rw [hread] at hsome
        cases hsome
    | some snapshot' =>
      constructor
      · rintro ⟨⟩
        refine ⟨?_, hread.symm⟩
        rintro _ ⟨⟩
        rw [hread]
        rfl
      · rintro ⟨-, rfl⟩
        exact congrArg Except.ok hread.symm

/-- The loop succeeds when every entry of a task can be read. -/
theorem loadTaskSnapshots_ofMap :
    loadTaskSnapshots (.ofMap m all) reader keys = .ok found ↔
      (∀ key ∈ keys.filter isTaskKey, ∀ json, m.get key = some json →
        (reader.read json).isSome) ∧
      found = (keys.filter isTaskKey).filterMap fun key => (m.get key).bind reader.read := by
  induction keys generalizing found with
  | nil =>
    constructor
    · rintro ⟨⟩
      exact ⟨fun _ hkey => absurd hkey List.not_mem_nil, rfl⟩
    · rintro ⟨-, rfl⟩
      rfl
  | cons key rest ih =>
    unfold loadTaskSnapshots
    by_cases htask : isTaskKey key = true
    · rw [if_pos htask, List.filter_cons_of_pos htask, List.forall_mem_cons]
      constructor
      · intro h
        obtain ⟨snapshot, hsnapshot, h⟩ := bind_eq_ok.mp h
        obtain ⟨tasks, htasks, h⟩ := bind_eq_ok.mp h
        obtain ⟨hreadable, rfl⟩ := loadTaskSnapshotByKey_ofMap.mp hsnapshot
        obtain ⟨hrest, rfl⟩ := ih.mp htasks
        refine ⟨⟨hreadable, hrest⟩, ?_⟩
        rw [← Except.ok.inj h, List.filterMap_cons]
        cases (m.get key).bind reader.read with
        | none => rfl
        | some snapshot => rfl
      · rintro ⟨⟨hreadable, hrest⟩, rfl⟩
        refine bind_eq_ok.mpr ⟨_, loadTaskSnapshotByKey_ofMap.mpr ⟨hreadable, rfl⟩, ?_⟩
        refine bind_eq_ok.mpr ⟨_, ih.mpr ⟨hrest, rfl⟩, ?_⟩
        rw [List.filterMap_cons]
        cases (m.get key).bind reader.read with
        | none => rfl
        | some snapshot => rfl
    · rw [if_neg htask, List.filter_cons_of_neg htask]
      exact ih

/-- The map lists the keys of the tasks as the loop finds them. -/
theorem filter_isTaskKey_perm (hkeys : keys.Perm (m.keys "")) :
    (keys.filter isTaskKey).Perm (m.keys "task_") := by
  have hall : m.keys "" = AList.keys m := by
    unfold MemoryStore.keys
    exact List.filter_eq_self.mpr fun _ _ => rfl
  rw [hall] at hkeys
  exact hkeys.filter isTaskKey

/-- The recovery succeeds when every entry of a task can be read, and gives those with the
statuses it lists. -/
theorem recoverPendingSnapshots_ofMap :
    recoverPendingSnapshots (.ofMap m keys) reader = .ok found ↔
      (∀ key ∈ keys.filter isTaskKey, ∀ json, m.get key = some json →
        (reader.read json).isSome) ∧
      found = ((keys.filter isTaskKey).filterMap fun key =>
        (m.get key).bind reader.read).filter TaskSnapshot.recoverable := by
  constructor
  · intro h
    obtain ⟨snapshots, hsnapshots, h⟩ := bind_eq_ok.mp h
    obtain ⟨keys', hkeys, hsnapshots⟩ := bind_eq_ok.mp hsnapshots
    obtain rfl := Except.ok.inj hkeys
    obtain ⟨hreadable, rfl⟩ := loadTaskSnapshots_ofMap.mp hsnapshots
    exact ⟨hreadable, (Except.ok.inj h).symm⟩
  · rintro ⟨hreadable, rfl⟩
    refine bind_eq_ok.mpr ⟨_, bind_eq_ok.mpr ⟨keys, rfl, ?_⟩, rfl⟩
    exact loadTaskSnapshots_ofMap.mpr ⟨hreadable, rfl⟩

theorem loadRecoverable_eq_ok {text : IoError → String} {store : KvStore (Except IoError)} :
    loadRecoverable text store reader = .ok found ↔
      recoverPendingSnapshots store reader = .ok found := by
  unfold loadRecoverable
  cases recoverPendingSnapshots store reader with
  | ok found' =>
    constructor
    · rintro ⟨⟩
      rfl
    · rintro ⟨⟩
      rfl
  | error e =>
    constructor
    · rintro ⟨⟩
    · rintro ⟨⟩

theorem not_mem_of_isTerminal {status : DownloadState} (h : status.isTerminal = true) :
    status ∉ [.pending, .connecting, .resuming, .verifying] := by
  revert h
  cases status <;> decide

theorem recoverable_iff {snapshot : TaskSnapshot} :
    snapshot.recoverable = true ↔ snapshot.status.isTerminal = false ∧
      snapshot.status ∉ [.pending, .connecting, .resuming, .verifying] := by
  unfold TaskSnapshot.recoverable
  cases snapshot.status <;> decide

end Recovers

section Files

variable {m : MemoryStore} {d : Dir}

theorem loadTaskSnapshotByKey_performs (hrep : Represents d m) (reader : EntryReader)
    (all : List String) (key : String) :
    Performs m m (loadTaskSnapshotByKey .ofFiles reader key) d fun snapshot d' =>
      loadTaskSnapshotByKey (.ofMap m all) reader key = .ok snapshot ∧ Represents d' m := by
  refine (get_performs hrep key).bind ?_
  rintro found d' ⟨rfl, hrep'⟩
  have hmap : loadTaskSnapshotByKey (.ofMap m all) reader key =
      match m.get key with
      | none => .ok none
      | some json =>
        match reader.read json with
        | some snapshot => .ok (some snapshot)
        | none => .error .invalidData := rfl
  rw [hmap]
  cases m.get key with
  | none => exact Performs.pure ⟨rfl, hrep'⟩
  | some json =>
    dsimp only
    cases reader.read json with
    | none => exact Performs.throw hrep'
    | some snapshot => exact Performs.pure ⟨rfl, hrep'⟩

theorem loadTaskSnapshots_performs (hrep : Represents d m) (reader : EntryReader)
    (all keys : List String) :
    Performs m m (loadTaskSnapshots .ofFiles reader keys) d fun found d' =>
      loadTaskSnapshots (.ofMap m all) reader keys = .ok found ∧ Represents d' m := by
  induction keys generalizing d with
  | nil => exact Performs.pure ⟨rfl, hrep⟩
  | cons key rest ih =>
    unfold loadTaskSnapshots
    by_cases htask : isTaskKey key = true
    · rw [if_pos htask, if_pos htask]
      refine (loadTaskSnapshotByKey_performs hrep reader all key).bind ?_
      rintro snapshot d₁ ⟨hsnapshot, hrep₁⟩
      refine (ih hrep₁).bind ?_
      rintro tasks d₂ ⟨htasks, hrep₂⟩
      exact Performs.pure ⟨bind_eq_ok.mpr ⟨snapshot, hsnapshot,
        bind_eq_ok.mpr ⟨tasks, htasks, rfl⟩⟩, hrep₂⟩
    · rw [if_neg htask, if_neg htask]
      exact ih hrep

/-- What the recovery of the file store finds is what that of the map it holds finds. -/
theorem recoverPendingSnapshots_performs (hrep : Represents d m) (reader : EntryReader) :
    Performs m m (recoverPendingSnapshots .ofFiles reader) d fun found d' =>
      (∃ keys, keys.Perm (m.keys "") ∧
        recoverPendingSnapshots (.ofMap m keys) reader = .ok found) ∧ Represents d' m := by
  have hload : Performs m m (loadAllTaskSnapshots .ofFiles reader) d fun snapshots d' =>
      (∃ keys, keys.Perm (m.keys "") ∧
        loadAllTaskSnapshots (.ofMap m keys) reader = .ok snapshots) ∧ Represents d' m := by
    refine (keys_performs hrep "").bind ?_
    rintro keys d₁ ⟨hkeys, hrep₁⟩
    refine (loadTaskSnapshots_performs hrep₁ reader keys keys).mono ?_
    rintro snapshots d₂ ⟨hsnapshots, hrep₂⟩
    exact ⟨⟨keys, hkeys, bind_eq_ok.mpr ⟨keys, rfl, hsnapshots⟩⟩, hrep₂⟩
  refine hload.bind ?_
  rintro snapshots d₁ ⟨⟨keys, hkeys, hsnapshots⟩, hrep₁⟩
  exact Performs.pure ⟨⟨keys, hkeys, bind_eq_ok.mpr ⟨snapshots, hsnapshots, rfl⟩⟩, hrep₁⟩

end Files

/-- The restart finds exactly the tasks that have not ended if and only if every entry of a
task can be read and no task has one of the four other statuses. -/
theorem recovers_unfinished_iff (m : MemoryStore) (reader : EntryReader) (keys : List String)
    (hkeys : keys.Perm (m.keys "")) (text : IoError → String) :
    (∃ found, loadRecoverable text (.ofMap m keys) reader = .ok found ∧
      found.Perm (unfinishedSnapshots m reader)) ↔
    ∀ key ∈ m.keys "task_", ∀ json, m.get key = some json → reader.Recovers json := by
  have hperm := filter_isTaskKey_perm hkeys
  constructor
  · rintro ⟨found, hload, hfound⟩ key hkey json hjson
    obtain ⟨hreadable, rfl⟩ :=
      recoverPendingSnapshots_ofMap.mp (loadRecoverable_eq_ok.mp hload)
    have hread := hreadable key (hperm.mem_iff.mpr hkey) json hjson
    obtain ⟨snapshot, hsnapshot⟩ := Option.isSome_iff_exists.mp hread
    refine ⟨snapshot, hsnapshot, ?_⟩
    cases hterminal : snapshot.status.isTerminal with
    | true => exact not_mem_of_isTerminal hterminal
    | false =>
      have hmem : snapshot ∈ unfinishedSnapshots m reader := by
        refine List.mem_filter.mpr ⟨List.mem_filterMap.mpr ⟨key, hkey, ?_⟩, ?_⟩
        · rw [hjson]
          exact hsnapshot
        · rw [hterminal]
          rfl
      have hrecoverable := (List.mem_filter.mp (hfound.mem_iff.mpr hmem)).2
      exact (recoverable_iff.mp hrecoverable).2
  · intro hrecovers
    have hreadable : ∀ key ∈ keys.filter isTaskKey, ∀ json, m.get key = some json →
        (reader.read json).isSome := by
      intro key hkey json hjson
      obtain ⟨snapshot, hsnapshot, -⟩ := hrecovers key (hperm.mem_iff.mp hkey) json hjson
      rw [hsnapshot]
      rfl
    refine ⟨_, loadRecoverable_eq_ok.mpr (recoverPendingSnapshots_ofMap.mpr ⟨hreadable, rfl⟩), ?_⟩
    refine ((hperm.filterMap _).filter _).trans (List.Perm.of_eq (List.filter_congr ?_))
    intro snapshot hmem
    obtain ⟨key, hkey, hsnapshot⟩ := List.mem_filterMap.mp hmem
    obtain ⟨json, hjson, hsnapshot⟩ := Option.bind_eq_some_iff.mp hsnapshot
    obtain ⟨snapshot', hsnapshot', hstatus⟩ := hrecovers key hkey json hjson
    obtain rfl := Option.some.inj (hsnapshot.symm.trans hsnapshot')
    rw [Bool.eq_iff_iff, recoverable_iff, and_iff_left hstatus, Bool.not_eq_true']

/-- A task in the middle of its download. -/
def savedSnapshot (status : DownloadState) : TaskSnapshot where
  id := "task-1"
  url := "https://a.example/model.bin"
  savePath := "/downloads/model.bin"
  fileName := "model.bin"
  fileSize := some 1000
  downloaded := 250
  completedFragments := [0]
  totalFragments := 4
  fragmentSize := 250
  status := status
  etag := none
  lastModified := none
  contentLength := some 1000
  createdAt := "2026-05-29T00:00:00Z"
  updatedAt := "2026-05-29T00:00:01Z"
  failReason := none
  retryCount := 0

/-- The entry `serde_json` writes for it. -/
def savedEntry (status : String) : String :=
  "\x7b\"id\":\"task-1\",\"url\":\"https://a.example/model.bin\"," ++
  "\"savePath\":\"/downloads/model.bin\",\"fileName\":\"model.bin\",\"fileSize\":1000," ++
  "\"downloaded\":250,\"completedFragments\":[0],\"totalFragments\":4,\"fragmentSize\":250," ++
  "\"status\":\"" ++ status ++ "\",\"etag\":null,\"lastModified\":null," ++
  "\"contentLength\":1000,\"createdAt\":\"2026-05-29T00:00:00Z\"," ++
  "\"updatedAt\":\"2026-05-29T00:00:01Z\",\"failReason\":null,\"retryCount\":0\x7d"

/-- Two such entries are read; a text cut short is malformed. -/
def savedReader : EntryReader where
  snapshot := fun json =>
    if json = savedEntry "downloading" then some (savedSnapshot .downloading)
    else if json = savedEntry "pending" then some (savedSnapshot .pending)
    else none
  record := fun _ => none

/-- A store with the entry of the task. -/
def savedStore (status : String) : MemoryStore :=
  AList.insert "task_task-1" (savedEntry status) ∅

/-- A task whose status is Downloading is found. -/
theorem recovers_unfinished_iff_downloading :
    ((∃ found, loadRecoverable (fun _ => "") (.ofMap (savedStore "downloading") ["task_task-1"])
        savedReader = .ok found ∧
      found.Perm (unfinishedSnapshots (savedStore "downloading") savedReader)) ↔
    ∀ key ∈ (savedStore "downloading").keys "task_", ∀ json,
      (savedStore "downloading").get key = some json → savedReader.Recovers json) ∧
    unfinishedSnapshots (savedStore "downloading") savedReader = [savedSnapshot .downloading] :=
  ⟨recovers_unfinished_iff _ _ _ (List.Perm.of_eq rfl) _, by decide +kernel⟩

/-- A pending task is not found, a malformed entry keeps every task from being found, and
what `create_task` has saved is not found after a restart. -/
theorem unfinished_not_recovered :
    (loadRecoverable (fun _ => "") (.ofMap (savedStore "pending") ["task_task-1"]) savedReader =
        .ok [] ∧
      unfinishedSnapshots (savedStore "pending") savedReader = [savedSnapshot .pending]) ∧
    (loadRecoverable (fun _ => "expected value")
        (.ofMap ((savedStore "downloading").set "task_x" "\x7b") ["task_task-1", "task_x"])
        savedReader = .error (.config "加载恢复任务失败: expected value") ∧
      unfinishedSnapshots ((savedStore "downloading").set "task_x" "\x7b") savedReader =
        [savedSnapshot .downloading]) ∧
    ∃ s, run (AppState.step (fun _ => "") .copied) (AppState.new fun _ => none)
        (AppState.created "task-1" "a.example") = some s ∧
      (s.tasks.lookup "task-1").map TaskInfo.status = some .pending ∧
      s.recoverable ["task-1"] = [] := by
  refine ⟨by decide +kernel, by decide +kernel, ?_⟩
  have hany : (run (AppState.step (fun _ => "") .copied) (AppState.new fun _ => none)
      (AppState.created "task-1" "a.example")).any (fun s =>
        (s.tasks.lookup "task-1").map TaskInfo.status = some .pending ∧
          s.recoverable ["task-1"] = []) = true := by
    decide +kernel
  obtain ⟨s, hrun, hs⟩ := (Option.any_eq_true _ _).mp hany
  exact ⟨s, hrun, of_decide_eq_true hs⟩

end Tachyon
