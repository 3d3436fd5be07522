import Tachyon.App.Recovery
import Mathlib.Data.Countable.Basic
import Mathlib.Logic.Equiv.List

/-!
# Progress of a fragment

`update_fragment_progress` reads a task as a `TaskRecord`, changes it and saves it as a
`TaskSnapshot` again. A lock is held from the read to the write, so that no update is lost;
what a record does not have is.
-/

namespace Tachyon

open Resumption

/-! ### The conversions -/

/-- `TaskRecord::from` of a snapshot. -/
def TaskSnapshot.toRecord (s : TaskSnapshot) : TaskRecord where
  taskId := s.id
  url := s.url
  savePath := s.savePath
  fileSize := s.fileSize
  downloaded := s.downloaded
  completedFragments := s.completedFragments
  totalFragments := s.totalFragments
  status := s.status.debug.toLower

/-- The numbers have the ranges of their types. -/
structure TaskSnapshot.Fits (s : TaskSnapshot) : Prop where
  downloaded : s.downloaded < u64Bound
  completedFragments : ∀ index ∈ s.completedFragments, index < u32Bound
  totalFragments : s.totalFragments < u32Bound
  fragmentSize : s.fragmentSize < u64Bound
  retryCount : s.retryCount < u32Bound

/-- What `serde_json` writes for a snapshot it reads as that snapshot. -/
def EntryReader.ReadsBack (reader : EntryReader) (toJson : TaskSnapshot → String) : Prop :=
  ∀ s : TaskSnapshot, s.Fits → reader.snapshot (toJson s) = some s

/-- The arguments of `update_fragment_progress`. -/
structure ProgressUpdate where
  taskId : String
  fragmentIndex : ℕ
  downloadedBytes : ℕ

/-- The arguments have the ranges of their types. -/
structure ProgressUpdate.Fits (u : ProgressUpdate) : Prop where
  fragmentIndex : u.fragmentIndex < u32Bound
  downloadedBytes : u.downloadedBytes < u64Bound

/-- The index, once. -/
def withFragment (completedFragments : List ℕ) (index : ℕ) : List ℕ :=
  if index ∈ completedFragments then completedFragments else completedFragments ++ [index]

/-- What the update changes in a record. -/
def TaskRecord.progressed (r : TaskRecord) (u : ProgressUpdate) : TaskRecord :=
  { r with
    completedFragments := withFragment r.completedFragments u.fragmentIndex
    downloaded := u.downloadedBytes }

/-- A snapshot with the progress and nothing else changed. -/
def TaskSnapshot.progressed (s : TaskSnapshot) (u : ProgressUpdate) : TaskSnapshot :=
  { s with
    completedFragments := withFragment s.completedFragments u.fragmentIndex
    downloaded := u.downloadedBytes }

/-! ### The update -/

/-- What an update asks for: the lock, and the calls of its `KvStore`. -/
inductive ProgressRequest (ι : Type) where
  /-- `progress_lock.lock()`, of one caller. -/
  | lock (i : ι)
  /-- The guard is dropped. -/
  | unlock
  | getRaw (key : String)
  | keys
  | put (key json : String)

/-- The type of the answer to each request. -/
@[reducible] def ProgressAnswer {ι : Type} : ProgressRequest ι → Type
  | .lock _ | .unlock => Unit
  | .getRaw _ => Except IoError (Option String)
  | .keys => Except IoError (List String)
  | .put _ _ => Except IoError Unit

/-- A call of the recovery manager that can fail with an I/O error. -/
abbrev ProgressM (ι α : Type) := ExceptT IoError (Prog (ProgressAnswer (ι := ι))) α

/-- The key of a task. -/
def taskKey (taskId : String) : String := "task_" ++ taskId

section Update

variable {ι : Type} (reader : EntryReader) (toJson : TaskSnapshot → String)

/-- The store that the callers share. -/
def KvStore.shared : KvStore (ProgressM ι) where
  getRaw := fun key => ExceptT.mk (Prog.ask (ProgressRequest.getRaw key))
  keys := ExceptT.mk (Prog.ask ProgressRequest.keys)

/-- `load_task`. -/
def loadTask (taskId : String) : ProgressM ι (Option TaskRecord) := do
  let snapshot ← loadTaskSnapshotByKey KvStore.shared reader (taskKey taskId)
  pure (snapshot.map TaskSnapshot.toRecord)

/-- `save_task_snapshot`. -/
def saveTaskSnapshot (snapshot : TaskSnapshot) : ProgressM ι Unit :=
  ExceptT.mk (Prog.ask (ProgressRequest.put (taskKey snapshot.id) (toJson snapshot)))

/-- `save_task`. -/
def saveTask (record : TaskRecord) : ProgressM ι Unit :=
  saveTaskSnapshot toJson record.toSnapshot

/-- `update_fragment_progress` under its lock. -/
def recordProgress (u : ProgressUpdate) : ProgressM ι Unit := do
  match ← loadTask reader u.taskId with
  | some record => saveTask toJson (record.progressed u)
  | none => pure ()

/-- `update_fragment_progress` of a caller; the guard is dropped also when a call fails. -/
def updateFragmentProgress (i : ι) (u : ProgressUpdate) : ProgressM ι Unit :=
  ExceptT.mk do
    Prog.ask (ProgressRequest.lock i)
    let result ← (recordProgress reader toJson u).run
    Prog.ask ProgressRequest.unlock
    pure result

end Update

/-- The store, and who holds the lock. -/
structure SharedStore (ι : Type) where
  holder : Option ι
  entries : MemoryStore

/-- The answers of the lock and of the store. A call of the store that fails has no effect. -/
def SharedStore.Handles {ι : Type} :
    (r : ProgressRequest ι) → SharedStore ι → ProgressAnswer r → SharedStore ι → Prop
  | .lock i, w, _, w' => w.holder = none ∧ w' = { w with holder := some i }
  | .unlock, w, _, w' => w' = { w with holder := none }
  | .getRaw key, w, x, w' => (∀ found, x = .ok found → found = w.entries.get key) ∧ w' = w
  | .keys, w, x, w' => (∀ found, x = .ok found → found.Perm (w.entries.keys "")) ∧ w' = w
  | .put key json, w, x, w' =>
    match x with
    | .ok _ => w' = { w with entries := w.entries.set key json }
    | .error _ => w' = w

/-- The store after a snapshot is saved. -/
def SharedStore.save {ι : Type} (w : SharedStore ι) (toJson : TaskSnapshot → String)
    (s : TaskSnapshot) : SharedStore ι :=
  { w with entries := w.entries.set (taskKey s.id) (toJson s) }

/-- The stored snapshot of a task. -/
def SharedStore.stored {ι : Type} (w : SharedStore ι) (reader : EntryReader) (taskId : String) :
    Option TaskSnapshot := (w.entries.get (taskKey taskId)).bind reader.read

/-! ### What the conversions keep -/

/-- What the update saves in place of a snapshot. -/
def TaskSnapshot.recorded (s : TaskSnapshot) (u : ProgressUpdate) : TaskSnapshot :=
  (s.toRecord.progressed u).toSnapshot

/-- A snapshot that says no more than its record. -/
structure TaskSnapshot.IsRecord (s : TaskSnapshot) : Prop where
  fileName : s.fileName = (StdPath.new s.savePath).fileName.getD "unknown"
  fragmentSize : s.fragmentSize = 0
  etag : s.etag = none
  lastModified : s.lastModified = none
  contentLength : s.contentLength = s.fileSize
  createdAt : s.createdAt = ""
  updatedAt : s.updatedAt = ""
  failReason : s.failReason = none
  retryCount : s.retryCount = 0

/-- The way through the text of the status loses nothing. -/
theorem parseLegacyStatus_debug (status : DownloadState) :
    parseLegacyStatus status.debug.toLower = status := by
  cases status <;> decide +kernel

theorem TaskSnapshot.recorded_id (s : TaskSnapshot) (u : ProgressUpdate) :
    (s.recorded u).id = s.id := rfl

theorem mem_withFragment (completedFragments : List ℕ) (index : ℕ) :
    index ∈ withFragment completedFragments index := by
  unfold withFragment
  by_cases h : index ∈ completedFragments
  · rw [if_pos h]
    exact h
  · rw [if_neg h]
    exact List.mem_append_right _ (List.mem_singleton_self index)

theorem subset_withFragment (completedFragments : List ℕ) (index : ℕ) :
    completedFragments ⊆ withFragment completedFragments index := by
  unfold withFragment
  by_cases h : index ∈ completedFragments
  · rw [if_pos h]
    exact List.Subset.refl _
  · rw [if_neg h]
    exact List.subset_append_left _ _

theorem eq_or_mem_of_mem_withFragment {completedFragments : List ℕ} {index i : ℕ}
    (h : i ∈ withFragment completedFragments index) : i = index ∨ i ∈ completedFragments := by
  unfold withFragment at h
  by_cases hmem : index ∈ completedFragments
  · rw [if_pos hmem] at h
    exact Or.inr h
  · rw [if_neg hmem] at h
    rcases List.mem_append.mp h with h | h
    · exact Or.inr h
    · exact Or.inl (List.mem_singleton.mp h)

theorem TaskSnapshot.Fits.recorded {s : TaskSnapshot} {u : ProgressUpdate} (hs : s.Fits)
    (hu : u.Fits) : (s.recorded u).Fits where
  downloaded := hu.downloadedBytes
  completedFragments := by
    intro index hindex
    rcases eq_or_mem_of_mem_withFragment hindex with rfl | hindex
    · exact hu.fragmentIndex
    · exact hs.completedFragments index hindex
  totalFragments := hs.totalFragments
  fragmentSize := by
    change 0 < u64Bound
    decide
  retryCount := by
    change 0 < u32Bound
    decide

/-- Only the progress is changed if and only if the snapshot says no more than its record. -/
theorem TaskSnapshot.recorded_eq_progressed (s : TaskSnapshot) (u : ProgressUpdate) :
    s.recorded u = s.progressed u ↔ s.IsRecord := by
  constructor
  · intro h
    exact {
      fileName := (congrArg TaskSnapshot.fileName h).symm
      fragmentSize := (congrArg TaskSnapshot.fragmentSize h).symm
      etag := (congrArg TaskSnapshot.etag h).symm
      lastModified := (congrArg TaskSnapshot.lastModified h).symm
      contentLength := (congrArg TaskSnapshot.contentLength h).symm
      createdAt := (congrArg TaskSnapshot.createdAt h).symm
      updatedAt := (congrArg TaskSnapshot.updatedAt h).symm
      failReason := (congrArg TaskSnapshot.failReason h).symm
      retryCount := (congrArg TaskSnapshot.retryCount h).symm }
  · rintro ⟨h₁, h₂, h₃, h₄, h₅, h₆, h₇, h₈, h₉⟩
    unfold TaskSnapshot.recorded TaskSnapshot.progressed TaskRecord.toSnapshot
      TaskRecord.progressed TaskSnapshot.toRecord
    rw [parseLegacyStatus_debug, h₁, h₂, h₃, h₄, h₅, h₆, h₇, h₈, h₉]

/-! ### One update -/

section Update

variable {ι : Type} {reader : EntryReader} {toJson : TaskSnapshot → String}
  {u : ProgressUpdate} {s : TaskSnapshot}

/-- Under the lock an update reads once, and writes once when the entry is read. -/
theorem recordProgress_eq : (recordProgress (ι := ι) reader toJson u).run =
    .call (.getRaw (taskKey u.taskId)) fun x =>
      match x with
      | .error e => .done (.error e)
      | .ok none => .done (.ok ())
      | .ok (some json) =>
        match reader.read json with
        | none => .done (.error .invalidData)
        | some s => .call (.put (taskKey s.id) (toJson (s.recorded u))) .done := by
  refine congrArg (Prog.call _) (funext fun x => ?_)
  cases x with
  | error e => rfl
  | ok found =>
    cases found with
    | none => rfl
    | some json =>
      simp only [Prog.bind, ExceptT.bindCont]
      cases reader.read json with
      | none => rfl
      | some s => rfl

/-- The lock is held over the whole update. -/
theorem updateFragmentProgress_eq {i : ι} : (updateFragmentProgress reader toJson i u).run =
    .call (.lock i) fun _ => (recordProgress reader toJson u).run >>= fun result =>
      .call .unlock fun _ => .done result := rfl

/-- Under the lock a success has saved what the record kept. -/
theorem recordProgress_returns {w w' : SharedStore ι}
    (hstored : w.stored reader u.taskId = some s)
    (hrun : (recordProgress reader toJson u).run.Returns SharedStore.Handles w (.ok ()) w') :
    w' = w.save toJson (s.recorded u) := by
  obtain ⟨json, hjson, hsnapshot⟩ := Option.bind_eq_some_iff.mp hstored
  rw [recordProgress_eq] at hrun
  cases hrun with
  | @call _ _ _ _ _ x _ hget hrun =>
    obtain ⟨hfound, rfl⟩ := hget
    cases x with
    | error e => cases hrun
    | ok found =>
      obtain rfl := (hfound found rfl).trans hjson
      simp only [hsnapshot] at hrun
      cases hrun with
      | @call _ _ _ _ _ x _ hput hrun =>
        cases hrun
        exact hput

theorem taskKey_injective : Function.Injective taskKey := by
  intro taskId taskId' h
  have hlist := congrArg String.toList h
  unfold taskKey at hlist
  rw [String.toList_append, String.toList_append, List.append_cancel_left_eq] at hlist
  exact String.toList_inj.mp hlist

/-- What is saved is stored for its task, and nothing else is changed. -/
theorem stored_save (hread : reader.ReadsBack toJson) (hs : s.Fits) (w : SharedStore ι)
    (taskId : String) : (w.save toJson s).stored reader taskId =
      if taskId = s.id then some s else w.stored reader taskId := by
  unfold SharedStore.stored SharedStore.save MemoryStore.get MemoryStore.set
  by_cases h : taskId = s.id
  · subst h
    rw [if_pos rfl, AList.lookup_insert, Option.bind_some, EntryReader.read, hread s hs]
    rfl
  · rw [if_neg h, AList.lookup_insert_ne (taskKey_injective.ne h)]

/-- After an update that succeeds, the task has what its record kept. -/
theorem stored_recorded {i : ι} {w w' : SharedStore ι} (hread : reader.ReadsBack toJson)
    (hs : s.Fits) (hu : u.Fits) (hid : s.id = u.taskId)
    (hstored : w.stored reader u.taskId = some s)
    (hrun : Yields SharedStore.Handles (updateFragmentProgress reader toJson i u) w (.ok ()) w') :
    w'.stored reader u.taskId = some (s.recorded u) := by
  unfold Yields at hrun
  rw [updateFragmentProgress_eq] at hrun
  cases hrun with
  | call hlock hrun =>
    obtain ⟨-, rfl⟩ := hlock
    obtain ⟨result, w₁, hbody, hrun⟩ := Prog.Returns.bind_inv hrun
    cases hrun with
    | call hunlock hdone =>
      cases hdone
      obtain rfl := hunlock
      obtain rfl := recordProgress_returns (w := { w with holder := some i }) hstored hbody
      have hsaved := stored_save hread (hs.recorded hu) w u.taskId
      rw [TaskSnapshot.recorded_id, if_pos hid.symm] at hsaved
      exact hsaved

/-- An update of a stored task succeeds when its calls do. -/
theorem updateFragmentProgress_yields {i : ι} {w : SharedStore ι} (hfree : w.holder = none)
    (hstored : w.stored reader u.taskId = some s) :
    Yields SharedStore.Handles (updateFragmentProgress reader toJson i u) w (.ok ())
      (w.save toJson (s.recorded u)) := by
  obtain ⟨holder, entries⟩ := w
  obtain rfl : holder = none := hfree
  obtain ⟨json, hjson, hsnapshot⟩ := Option.bind_eq_some_iff.mp hstored
  let locked : SharedStore ι := ⟨some i, entries⟩
  have hlock : SharedStore.Handles (.lock i) ⟨none, entries⟩ () locked := ⟨rfl, rfl⟩
  have hget : SharedStore.Handles (.getRaw (taskKey u.taskId)) locked (.ok (some json)) locked := by
    refine ⟨fun found h => ?_, rfl⟩
    rw [← Except.ok.inj h]
    exact hjson.symm
  have hput : SharedStore.Handles (.put (taskKey s.id) (toJson (s.recorded u))) locked (.ok ())
      (locked.save toJson (s.recorded u)) := rfl
  have hunlock : SharedStore.Handles .unlock (locked.save toJson (s.recorded u)) ()
      (SharedStore.save ⟨none, entries⟩ toJson (s.recorded u)) := rfl
  have hbody : (recordProgress reader toJson u).run.Returns SharedStore.Handles locked (.ok ())
      (locked.save toJson (s.recorded u)) := by
    rw [recordProgress_eq]
    refine .call hget ?_
    simp only [hsnapshot]
    exact .call hput (.done _ _)
  unfold Yields
  rw [updateFragmentProgress_eq]
  exact .call hlock (hbody.bind (.call hunlock (.done _ _)))

end Update

/-! ### Updates at the same time -/

section Concurrent

variable {ι : Type} {reader : EntryReader} {toJson : TaskSnapshot → String}
  {w w' : SharedStore ι} {taskId : String} {s : TaskSnapshot} {u : ProgressUpdate}

/-- The task has a stored snapshot under its own id. -/
structure SharedStore.Holds (w : SharedStore ι) (reader : EntryReader) (taskId : String)
    (s : TaskSnapshot) : Prop where
  stored : w.stored reader taskId = some s
  id_eq : s.id = taskId
  fits : s.Fits

/-- Every stored task is still stored, with all its completed fragments. -/
def Grows (reader : EntryReader) (w w' : SharedStore ι) : Prop :=
  ∀ taskId s, w.Holds reader taskId s →
    ∃ s', w'.Holds reader taskId s' ∧ s.completedFragments ⊆ s'.completedFragments

theorem Grows.of_entries_eq (h : w'.entries = w.entries) : Grows reader w w' := by
  intro taskId s hs
  refine ⟨s, ⟨?_, hs.id_eq, hs.fits⟩, List.Subset.refl _⟩
  unfold SharedStore.stored
  rw [h]
  exact hs.stored

theorem Grows.trans {w'' : SharedStore ι} (h : Grows reader w w') (h' : Grows reader w' w'') :
    Grows reader w w'' := by
  intro taskId s hs
  obtain ⟨s', hs', hsubset⟩ := h taskId s hs
  obtain ⟨s'', hs'', hsubset'⟩ := h' taskId s' hs'
  exact ⟨s'', hs'', List.Subset.trans hsubset hsubset'⟩

/-- Saving a record whose snapshot is the stored one loses no fragment. -/
theorem SharedStore.Holds.save (hread : reader.ReadsBack toJson) (hu : u.Fits)
    (hs : w.Holds reader taskId s) :
    (w.save toJson (s.recorded u)).Holds reader taskId (s.recorded u) ∧
      Grows reader w (w.save toJson (s.recorded u)) := by
  have hsaved := stored_save hread (hs.fits.recorded hu) w
  have hown : (w.save toJson (s.recorded u)).Holds reader taskId (s.recorded u) := by
    refine ⟨?_, hs.id_eq, hs.fits.recorded hu⟩
    rw [hsaved, TaskSnapshot.recorded_id, if_pos hs.id_eq.symm]
  refine ⟨hown, fun other s₁ hs₁ => ?_⟩
  by_cases h : other = taskId
  · subst h
    obtain rfl := Option.some.inj (hs₁.stored.symm.trans hs.stored)
    exact ⟨_, hown, subset_withFragment _ _⟩
  · refine ⟨s₁, ⟨?_, hs₁.id_eq, hs₁.fits⟩, List.Subset.refl _⟩
    rw [hsaved, TaskSnapshot.recorded_id, hs.id_eq, if_neg h]
    exact hs₁.stored

/-- Whoever holds the lock can count on the store, and no one takes a fragment away. -/
def progressContract (reader : EntryReader) (i : ι) :
    Contract (ProgressRequest ι) (SharedStore ι) where
  rely := fun w w' => (w.holder = some i → w' = w) ∧ Grows reader w w'
  guar := fun w w' => (∀ j, w.holder = some j → j = i) ∧ Grows reader w w'
  issue := fun _ _ => True
  rely_refl := fun _ => ⟨fun _ => rfl, Grows.of_entries_eq rfl⟩
  rely_trans := by
    rintro w w' w'' ⟨hsame, hgrows⟩ ⟨hsame', hgrows'⟩
    refine ⟨fun hholder => ?_, hgrows.trans hgrows'⟩
    obtain rfl := hsame hholder
    exact hsame' hholder

/-- The fragment of an update that has succeeded is stored. -/
def Recorded (reader : EntryReader) (u : ProgressUpdate) (result : Except IoError Unit)
    (w : SharedStore ι) : Prop :=
  result = .ok () → ∃ s, w.Holds reader u.taskId s ∧ u.fragmentIndex ∈ s.completedFragments

theorem Recorded.grows {result : Except IoError Unit} (h : Recorded reader u result w)
    (hgrows : Grows reader w w') : Recorded reader u result w' := by
  intro hok
  obtain ⟨s, hs, hmem⟩ := h hok
  obtain ⟨s', hs', hsubset⟩ := hgrows _ s hs
  exact ⟨s', hs', hsubset hmem⟩

/-- Who holds the lock may take any step that keeps the fragments. -/
theorem progressContract_guar {i : ι} (hholder : w.holder = some i)
    (hgrows : Grows reader w w') : (progressContract reader i).guar w w' := by
  refine ⟨fun j hj => ?_, hgrows⟩
  rw [hholder] at hj
  exact (Option.some.inj hj).symm

/-- The section is left with the lock still held. -/
theorem section_done {i : ι} {result : Except IoError Unit} (hholder : w.holder = some i)
    (h : Recorded reader u result w) :
    (Prog.done result).Safe SharedStore.Handles (progressContract reader i)
      (fun result w' => w'.holder = some i ∧ Recorded reader u result w') w := by
  rintro w' ⟨hsame, -⟩
  obtain rfl := hsame hholder
  exact ⟨hholder, h⟩

/-- The section under the lock. -/
theorem recordProgress_safe {i : ι} (hread : reader.ReadsBack toJson) (hu : u.Fits)
    (hholder : w.holder = some i) (hs : w.Holds reader u.taskId s) :
    (recordProgress reader toJson u).run.Safe SharedStore.Handles (progressContract reader i)
      (fun result w' => w'.holder = some i ∧ Recorded reader u result w') w := by
  rw [recordProgress_eq]
  rintro w₁ ⟨hsame, -⟩
  obtain rfl := hsame hholder
  refine ⟨trivial, ?_⟩
  rintro x w₂ ⟨hfound, rfl⟩
  refine ⟨progressContract_guar hholder (Grows.of_entries_eq rfl), ?_⟩
  obtain ⟨json, hjson, hsnapshot⟩ := Option.bind_eq_some_iff.mp hs.stored
  cases x with
  | error e => exact section_done hholder fun h => by cases h
  | ok found =>
    obtain rfl := (hfound found rfl).trans hjson
    simp only [hsnapshot]
    rintro w₁ ⟨hsame, -⟩
    obtain rfl := hsame hholder
    refine ⟨trivial, fun x w₃ hput => ?_⟩
    cases x with
    | error e =>
      obtain rfl := hput
      refine ⟨progressContract_guar hholder (Grows.of_entries_eq rfl), ?_⟩
      exact section_done hholder fun h => by cases h
    | ok _ =>
      obtain rfl := hput
      obtain ⟨hown, hgrows⟩ := hs.save hread hu
      refine ⟨progressContract_guar hholder hgrows, section_done hholder fun _ => ?_⟩
      exact ⟨_, hown, mem_withFragment _ _⟩

/-- Every caller keeps the contract. -/
theorem updateFragmentProgress_safe {i : ι} (hread : reader.ReadsBack toJson) (hu : u.Fits)
    (hs : w.Holds reader u.taskId s) :
    (updateFragmentProgress reader toJson i u).run.Safe SharedStore.Handles
      (progressContract reader i) (Recorded reader u) w := by
  rw [updateFragmentProgress_eq]
  rintro w₁ ⟨-, hgrows⟩
  obtain ⟨s₁, hs₁, -⟩ := hgrows _ s hs
  refine ⟨trivial, ?_⟩
  rintro x w₂ ⟨hfree, rfl⟩
  have hlocked : Grows reader w₁ { w₁ with holder := some i } := Grows.of_entries_eq rfl
  obtain ⟨s₂, hs₂, -⟩ := hlocked _ s₁ hs₁
  refine ⟨⟨fun j hj => ?_, hlocked⟩, ?_⟩
  · rw [hfree] at hj
    cases hj
  · refine (recordProgress_safe hread hu rfl hs₂).bind ?_
    rintro result w₃ ⟨hholder, hrecorded⟩ w₄ ⟨hsame, -⟩
    obtain rfl := hsame hholder
    refine ⟨trivial, fun _ w₅ hunlock => ?_⟩
    obtain rfl := hunlock
    have hreleased : Grows reader w₄ { w₄ with holder := none } := Grows.of_entries_eq rfl
    refine ⟨progressContract_guar hholder hreleased, ?_⟩
    rintro w₆ ⟨-, hgrows'⟩
    exact hrecorded.grows (hreleased.trans hgrows')

/-- However updates of stored tasks interleave, the fragment of each one that has succeeded is
in the list. -/
theorem fragments_recorded [DecidableEq ι] (hread : reader.ReadsBack toJson)
    {updates : ι → ProgressUpdate} (hfits : ∀ i, (updates i).Fits)
    (hstored : ∀ i, ∃ s, w.Holds reader (updates i).taskId s)
    {threads : ι → Prog ProgressAnswer (Except IoError Unit)}
    (hrun : Relation.ReflTransGen (PoolStep SharedStore.Handles)
      (fun i => (updateFragmentProgress reader toJson i (updates i)).run, w) (threads, w'))
    {i : ι} (hdone : threads i = .done (.ok ())) :
    ∃ s, w'.Holds reader (updates i).taskId s ∧
      (updates i).fragmentIndex ∈ s.completedFragments := by
  have hsafe : ∀ state, Relation.ReflTransGen (PoolStep SharedStore.Handles)
      (fun i => (updateFragmentProgress reader toJson i (updates i)).run, w) state →
      ∀ i, (state.1 i).Safe SharedStore.Handles (progressContract reader i)
        (Recorded reader (updates i)) state.2 := by
    intro state hrun
    induction hrun with
    | refl =>
      intro i
      obtain ⟨s, hs⟩ := hstored i
      exact updateFragmentProgress_safe hread (hfits i) hs
    | tail _ hstep ih =>
      refine (pool_step_safe ?_ ih hstep).2
      rintro i j w w' hij ⟨hholder, hgrows⟩
      exact ⟨fun hj => absurd (hholder j hj).symm hij, hgrows⟩
  have hthread : (threads i).Safe SharedStore.Handles (progressContract reader i)
      (Recorded reader (updates i)) w' := hsafe _ hrun i
  rw [hdone] at hthread
  exact hthread.post_of_done rfl

end Concurrent

/-! ### A task whose fragments are completed -/

section Example

theorem countable_string : Countable String := by
  refine Function.Injective.countable (f := fun s => s.toList.map Char.toNat) fun s s' h => ?_
  exact String.toList_inj.mp (List.map_injective_iff.mpr (fun _ _ => Char.toNat_inj.mp) h)

theorem countable_taskSnapshot : Countable TaskSnapshot := by
  have := countable_string
  have : Countable UInt64 := Function.Injective.countable fun _ _ h => UInt64.toNat_inj.mp h
  have : Countable DownloadState :=
    Function.Injective.countable (f := DownloadState.debug) fun a b => by
      cases a <;> cases b <;> decide +kernel
  refine Function.Injective.countable (f := fun s : TaskSnapshot => (s.id, s.url, s.savePath,
    s.fileName, s.fileSize, s.downloaded, s.completedFragments, s.totalFragments, s.fragmentSize,
    s.status, s.etag, s.lastModified, s.contentLength, s.createdAt, s.updatedAt, s.failReason,
    s.retryCount)) ?_
  rintro ⟨⟩ ⟨⟩ h
  cases h
  rfl

/-- The second fragment of the task is completed. -/
def secondFragment : ProgressUpdate := ⟨"task-1", 1, 500⟩

/-- The third fragment of the task is completed. -/
def thirdFragment : ProgressUpdate := ⟨"task-1", 2, 750⟩

/-- Both are completed at the same time. -/
def bothFragments (b : Bool) : ProgressUpdate := if b then secondFragment else thirdFragment

/-- The task after its second fragment. -/
def halfSnapshot : TaskSnapshot := (savedSnapshot .downloading).recorded secondFragment

theorem savedSnapshot_fits : (savedSnapshot .downloading).Fits where
  downloaded := by decide
  completedFragments := by decide
  totalFragments := by decide
  fragmentSize := by decide
  retryCount := by decide

theorem secondFragment_fits : secondFragment.Fits := ⟨by decide, by decide⟩

theorem thirdFragment_fits : thirdFragment.Fits := ⟨by decide, by decide⟩

/-- The entry `serde_json` writes for the task after an update. -/
def recordedEntry (downloaded completedFragments : String) : String :=
  "\x7b\"id\":\"task-1\",\"url\":\"https://a.example/model.bin\"," ++
  "\"savePath\":\"/downloads/model.bin\",\"fileName\":\"model.bin\",\"fileSize\":1000," ++
  "\"downloaded\":" ++ downloaded ++ ",\"completedFragments\":[" ++ completedFragments ++
  "],\"totalFragments\":4,\"fragmentSize\":0,\"status\":\"downloading\",\"etag\":null," ++
  "\"lastModified\":null,\"contentLength\":1000,\"createdAt\":\"\",\"updatedAt\":\"\"," ++
  "\"failReason\":null,\"retryCount\":0\x7d"

/-- Some text of its own for every other snapshot. -/
noncomputable def otherEntry (s : TaskSnapshot) : String :=
  have := countable_taskSnapshot
  String.ofList (List.replicate (Classical.choose (exists_injective_nat TaskSnapshot) s) ' ')

/-- The entries of the task, and of every other snapshot. -/
noncomputable def taskEntry : TaskSnapshot → String :=
  Function.update (Function.update (Function.update otherEntry
    (savedSnapshot .downloading) (savedEntry "downloading"))
    halfSnapshot (recordedEntry "500" "0,1"))
    (halfSnapshot.recorded thirdFragment) (recordedEntry "750" "0,1,2")

theorem injective_update {f : TaskSnapshot → String} (hf : Function.Injective f)
    {s : TaskSnapshot} {text : String} (htext : ∀ s', f s' ≠ text) :
    Function.Injective (Function.update f s text) := by
  intro s₁ s₂ h
  by_cases h₁ : s₁ = s
  · by_cases h₂ : s₂ = s
    · rw [h₁, h₂]
    · rw [h₁, Function.update_self, Function.update_of_ne h₂] at h
      exact absurd h.symm (htext s₂)
  · by_cases h₂ : s₂ = s
    · rw [h₂, Function.update_self, Function.update_of_ne h₁] at h
      exact absurd h (htext s₁)
    · rw [Function.update_of_ne h₁, Function.update_of_ne h₂] at h
      exact hf h

theorem update_ne {f : TaskSnapshot → String} {s : TaskSnapshot} {text text' : String}
    (hf : ∀ s', f s' ≠ text') (htext : text ≠ text') (s' : TaskSnapshot) :
    Function.update f s text s' ≠ text' := by
  by_cases h : s' = s
  · rw [h, Function.update_self]
    exact htext
  · rw [Function.update_of_ne h]
    exact hf s'

theorem otherEntry_injective : Function.Injective otherEntry := by
  intro s s' h
  have := countable_taskSnapshot
  refine Classical.choose_spec (exists_injective_nat TaskSnapshot) ?_
  have hlength := congrArg List.length (String.ofList_injective h)
  rwa [List.length_replicate, List.length_replicate] at hlength

theorem otherEntry_ne {text : String} (h : '0' ∈ text.toList) (s : TaskSnapshot) :
    otherEntry s ≠ text := by
  rintro rfl
  rw [otherEntry, String.toList_ofList] at h
  exact absurd (List.eq_of_mem_replicate h) (by decide)

/-- The reader that knows these entries. -/
noncomputable def taskReader : EntryReader where
  snapshot := Function.partialInv taskEntry
  record := fun _ => none

theorem mem_toList_append {c : Char} (text : String) {last : String} (h : c ∈ last.toList) :
    c ∈ (text ++ last).toList := by
  rw [String.toList_append]
  exact List.mem_append_right _ h

theorem zero_mem_savedEntry (status : String) : '0' ∈ (savedEntry status).toList :=
  mem_toList_append _ (by decide)

theorem zero_mem_recordedEntry (downloaded completedFragments : String) :
    '0' ∈ (recordedEntry downloaded completedFragments).toList :=
  mem_toList_append _ (by decide)

theorem taskReader_readsBack : taskReader.ReadsBack taskEntry := by
  intro s _
  refine Function.partialInv_left ?_ s
  have h₁₂ : savedEntry "downloading" ≠ recordedEntry "500" "0,1" := by decide +kernel
  have h₁₃ : savedEntry "downloading" ≠ recordedEntry "750" "0,1,2" := by decide +kernel
  have h₂₃ : recordedEntry "500" "0,1" ≠ recordedEntry "750" "0,1,2" := by decide +kernel
  refine injective_update (injective_update (injective_update otherEntry_injective ?_) ?_) ?_
  · exact otherEntry_ne (zero_mem_savedEntry _)
  · exact update_ne (otherEntry_ne (zero_mem_recordedEntry _ _)) h₁₂
  · exact update_ne (update_ne (otherEntry_ne (zero_mem_recordedEntry _ _)) h₁₃) h₂₃

/-- The task is stored and no update runs. -/
def taskStore : SharedStore Bool :=
  ⟨none, AList.insert (taskKey "task-1") (savedEntry "downloading") ∅⟩

theorem taskStore_holds :
    taskStore.Holds taskReader "task-1" (savedSnapshot .downloading) where
  stored := by
    have hentry : taskEntry (savedSnapshot .downloading) = savedEntry "downloading" := by
      unfold taskEntry
      rw [Function.update_of_ne (by decide +kernel), Function.update_of_ne (by decide +kernel),
        Function.update_self]
    have hread := taskReader_readsBack (savedSnapshot .downloading) savedSnapshot_fits
    unfold SharedStore.stored taskStore MemoryStore.get
    rw [AList.lookup_insert, Option.bind_some, ← hentry, EntryReader.read, hread]
    rfl
  id_eq := rfl
  fits := savedSnapshot_fits

end Example

/-- An update changes nothing but the progress of the stored snapshot if and only if that
snapshot says no more than its record; updates at the same time lose no fragment. -/
theorem updateFragmentProgress_iff {reader : EntryReader} {toJson : TaskSnapshot → String}
    (hread : reader.ReadsBack toJson) {ι : Type} [DecidableEq ι] :
    (∀ (i : ι) (u : ProgressUpdate) (s : TaskSnapshot) (w w' : SharedStore ι), u.Fits →
      w.Holds reader u.taskId s →
      Yields SharedStore.Handles (updateFragmentProgress reader toJson i u) w (.ok ()) w' →
      (w'.stored reader u.taskId = some (s.progressed u) ↔ s.IsRecord)) ∧
    ∀ (updates : ι → ProgressUpdate) (w w' : SharedStore ι)
      (threads : ι → Prog ProgressAnswer (Except IoError Unit)), (∀ i, (updates i).Fits) →
      (∀ i, ∃ s, w.Holds reader (updates i).taskId s) →
      Relation.ReflTransGen (PoolStep SharedStore.Handles)
        (fun i => (updateFragmentProgress reader toJson i (updates i)).run, w) (threads, w') →
      ∀ i, threads i = .done (.ok ()) → ∃ s, w'.Holds reader (updates i).taskId s ∧
        (updates i).fragmentIndex ∈ s.completedFragments := by
  constructor
  · intro i u s w w' hu hs hrun
    rw [stored_recorded hread hs.fits hu hs.id_eq hs.stored hrun, Option.some_inj]
    exact s.recorded_eq_progressed u
  · intro updates w w' threads hfits hstored hrun i hdone
    exact fragments_recorded hread hfits hstored hrun hdone

/-- The update of a task in the middle of its download drops the size of its fragments, and
when it was created. -/
theorem updateFragmentProgress_drops : ∃ w',
    Yields SharedStore.Handles (updateFragmentProgress taskReader taskEntry true secondFragment)
      taskStore (.ok ()) w' ∧
    w'.stored taskReader "task-1" = some halfSnapshot ∧
    halfSnapshot ≠ (savedSnapshot .downloading).progressed secondFragment ∧
    (savedSnapshot .downloading).fragmentSize = 250 ∧ halfSnapshot.fragmentSize = 0 ∧
    (savedSnapshot .downloading).createdAt = "2026-05-29T00:00:00Z" ∧
    halfSnapshot.createdAt = "" := by
  refine ⟨_, updateFragmentProgress_yields rfl taskStore_holds.stored, ?_, by decide +kernel,
    rfl, rfl, rfl, rfl⟩
  exact (taskStore_holds.save taskReader_readsBack secondFragment_fits).1.stored

/-- The next update of that task changes its progress only, and two updates at the same time
are both in the list. -/
theorem updateFragmentProgress_iff_task :
    (∃ w', Yields SharedStore.Handles
        (updateFragmentProgress taskReader taskEntry false thirdFragment)
        (taskStore.save taskEntry halfSnapshot) (.ok ()) w' ∧
      w'.stored taskReader "task-1" = some (halfSnapshot.progressed thirdFragment)) ∧
    ∃ w', Relation.ReflTransGen (PoolStep SharedStore.Handles)
        (fun b => (updateFragmentProgress taskReader taskEntry b (bothFragments b)).run, taskStore)
        (fun _ => .done (.ok ()), w') ∧
      ∀ b, ∃ s, w'.Holds taskReader (bothFragments b).taskId s ∧
        (bothFragments b).fragmentIndex ∈ s.completedFragments := by
  obtain ⟨hone, htwo⟩ := updateFragmentProgress_iff taskReader_readsBack (ι := Bool)
  have hhalf := (taskStore_holds.save taskReader_readsBack secondFragment_fits).1
  have hthird : Yields SharedStore.Handles
      (updateFragmentProgress taskReader taskEntry false thirdFragment) _ _ _ :=
    updateFragmentProgress_yields rfl hhalf.stored
  constructor
  · refine ⟨_, hthird, (hone _ _ _ _ _ thirdFragment_fits hhalf hthird).mpr ?_⟩
    exact ⟨by decide +kernel, rfl, rfl, rfl, rfl, rfl, rfl, rfl, rfl⟩
  · have hfirst : Relation.ReflTransGen (PoolStep SharedStore.Handles)
        (fun b => (updateFragmentProgress taskReader taskEntry b (bothFragments b)).run, taskStore)
        _ := pool_returns (i := true) (updateFragmentProgress_yields rfl taskStore_holds.stored)
    have hsecond := hfirst.trans (pool_returns (i := false) hthird)
    have hdone : Function.update (Function.update (fun b =>
        (updateFragmentProgress taskReader taskEntry b (bothFragments b)).run)
        true (.done (.ok ()))) false (.done (.ok ())) = fun _ => .done (.ok ()) := by
      funext b
      cases b <;> rfl
    rw [hdone] at hsecond
    refine ⟨_, hsecond, fun b => htwo _ _ _ _ ?_ ?_ hsecond b rfl⟩
    · intro b
      cases b
      · exact thirdFragment_fits
      · exact secondFragment_fits
    · intro b
      cases b <;> exact ⟨_, taskStore_holds⟩

end Tachyon
