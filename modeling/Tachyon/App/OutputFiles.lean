import Tachyon.App.Commands
import Tachyon.Core.SavePath
import Tachyon.Engine.DownloadTask

/-!
# The files of the tasks

`run` opens the file that `validate_save_path` gives for the probed file name, and writes
it. Nothing compares that file with those of other tasks, so two tasks with one directory
and one file name share it. Where the save paths differ and are no links, every file holds
what its own task wrote.
-/

namespace Tachyon

open EventRuns

/-- What a run does to its file. -/
inductive Access where
  | allocate (size : ℕ)
  | write (offset : ℕ) (data : Bytes)

/-- A file after an access. -/
def Access.apply (platform : Platform) (file : Bytes) : Access → Bytes
  | .allocate size => platform.allocate file size
  | .write offset data => ByteFile.pwrite file offset data

/-- The path of a file name in the canonical parent, as `validate_save_path` builds it. -/
def savePath (tree : FileTree String) (finalPath : StdPath) : Option (List String) := do
  let parent ← finalPath.parent
  let canonicalParent ← ((prepareParent tree parent).2.canonicalize parent.toPath).toOption
  let fileName ← finalPath.fileName
  some (canonicalParent ++ [fileName])

section SavePath

variable {tree tree' : FileTree String} {finalPath expectedBase : StdPath}
  {p path file : List String}

/-- An accepted path is the save path, or what the save path leads to. -/
theorem validateSavePath_savePath
    (hok : validateSavePath tree finalPath expectedBase = (.ok p, tree')) :
    ∃ canonicalParent fileName, savePath tree finalPath = some (canonicalParent ++ [fileName]) ∧
      tree'.Real canonicalParent ∧
      (tree'.resolve (.ofLoc (canonicalParent ++ [fileName])) = .found p ∨
        p = canonicalParent ++ [fileName]) := by
  obtain ⟨base, parent, canonicalParent, -, hparent, hprepared, hcanonical, hcheck⟩ :=
    validateSavePath_eq_ok hok
  obtain ⟨-, fileName, hname, hresult⟩ := checkSavePath_eq_ok hcheck
  refine ⟨canonicalParent, fileName, ?_, FileTree.canonicalize_real hcanonical, ?_⟩
  · unfold savePath
    simp only [hparent, hprepared, hcanonical, hname, Except.toOption, Option.bind_eq_bind,
      Option.bind_some]
  · rcases hresult with ⟨hfound, -⟩ | ⟨-, rfl⟩
    · exact Or.inl hfound
    · exact Or.inr rfl

/-- Where no link stands at the save path, the file that is opened stands there. -/
theorem openForWrite_savePath
    (hok : validateSavePath tree finalPath expectedBase = (.ok p, tree'))
    (hpath : savePath tree finalPath = some path)
    (hlink : ∀ target, tree'.node path ≠ some (.symlink target))
    (hopen : tree'.openForWrite (.ofLoc p) = some file) : file = path := by
  obtain ⟨canonicalParent, fileName, hsave, hreal, hresult⟩ := validateSavePath_savePath hok
  obtain rfl := Option.some.inj (hpath.symm.trans hsave)
  have hp : p = canonicalParent ++ [fileName] := by
    rcases hresult with hfound | rfl
    · rcases FileTree.resolve_name_cases hreal hlink with hcase | hcase | hcase
      · exact FileTree.Reached.found.inj (hfound.symm.trans hcase)
      · cases hfound.symm.trans hcase
      · cases hfound.symm.trans hcase
    · rfl
  rw [hp] at hopen
  exact FileTree.openForWrite_name hreal hlink hopen

end SavePath

/-- The storage that a run has opened. The code keeps the open file; the save path, the
content at the opening and the accesses since are for the record. -/
structure Storage where
  id : String
  file : List String
  path : Option (List String)
  before : Bytes
  accesses : List Access

/-- The storages with one more access to that of a task. -/
def Storage.recordAccess (id : String) (a : Access) (storage : Storage) : Storage :=
  if storage.id = id then { storage with accesses := storage.accesses ++ [a] } else storage

@[simp] theorem Storage.recordAccess_id (id : String) (a : Access) (storage : Storage) :
    (storage.recordAccess id a).id = storage.id := by
  unfold recordAccess
  split <;> rfl

@[simp] theorem Storage.recordAccess_file (id : String) (a : Access) (storage : Storage) :
    (storage.recordAccess id a).file = storage.file := by
  unfold recordAccess
  split <;> rfl

@[simp] theorem Storage.recordAccess_path (id : String) (a : Access) (storage : Storage) :
    (storage.recordAccess id a).path = storage.path := by
  unfold recordAccess
  split <;> rfl

@[simp] theorem Storage.recordAccess_before (id : String) (a : Access) (storage : Storage) :
    (storage.recordAccess id a).before = storage.before := by
  unfold recordAccess
  split <;> rfl

/-- The application with the files it writes, by their locations. -/
structure OutputState where
  app : AppState
  tree : FileTree String
  contents : List String → Bytes
  storages : List Storage

/-- The steps of the application and of the storages. -/
inductive OutputEvent where
  | app (e : AppEvent)
  /-- A directory is created with those above it. -/
  | createDirAll (path : FileTree.Route String)
  /-- `init_storage`, within `run`. -/
  | initStorage (id : String)
  /-- `run` accesses its storage. -/
  | access (id : String) (a : Access)

namespace OutputState

/-- Where `run` of a task opens its file: the path, and the directory it must lie in. -/
def target (s : OutputState) (id : String) : Option (StdPath × StdPath) := do
  let r ← s.app.runs id
  match r.phase with
  | .running metadata =>
    some (.new (joinPath r.downloadDir metadata.fileName), .new r.downloadDir)
  | _ => none

/-- `DynStorage::open_with_strategy`: the file is created where it is missing. -/
def openStorage (s : OutputState) (id : String) (path : Option (List String))
    (canonicalPath : List String) : OutputState :=
  match s.tree.openForWrite (.ofLoc canonicalPath) with
  | none => s
  | some file =>
    let before := if s.tree.node file = none then [] else s.contents file
    { s with
      tree := match s.tree.resolve (.ofLoc canonicalPath) with
        | .missing dir n => s.tree.add dir n .file
        | _ => s.tree
      contents := Function.update s.contents file before
      storages := ⟨id, file, path, before, []⟩ :: s.storages }

/-- One step, `none` where the event cannot happen. -/
def step (text : Ipv6Addr → String) (platform : Platform) (s : OutputState) :
    OutputEvent → Option OutputState
  | .app e => (s.app.step text .copied e).map fun app => { s with app := app }
  | .createDirAll path => some { s with tree := (s.tree.createDirAll path).2 }
  | .initStorage id => do
    let (finalPath, downloadDir) ← s.target id
    guard (∀ storage ∈ s.storages, storage.id ≠ id)
    let (result, tree) := validateSavePath s.tree finalPath downloadDir
    match result with
    | .error _ => some { s with tree := tree }
    | .ok canonicalPath =>
      some (openStorage { s with tree := tree } id (savePath s.tree finalPath) canonicalPath)
  | .access id a => do
    let _ ← s.target id
    let storage ← s.storages.find? fun storage => storage.id = id
    some { s with
      contents := Function.update s.contents storage.file
        (a.apply platform (s.contents storage.file))
      storages := s.storages.map (Storage.recordAccess id a) }

/-- The application before its first step, on any files. -/
def initial (store : String → Option TaskSnapshot) (tree : FileTree String)
    (contents : List String → Bytes) : OutputState := ⟨.new store, tree, contents, []⟩

/-- The save path of the storage about to be opened is that of no storage opened before, and
no link stands there. -/
def distinctPath (s : OutputState) : OutputEvent → Bool
  | .initStorage id =>
    match s.target id with
    | some (finalPath, downloadDir) =>
      match validateSavePath s.tree finalPath downloadDir with
      | (.ok _, tree) => (savePath s.tree finalPath).all fun path =>
          (match tree.node path with
            | some (.symlink _) => false
            | _ => true) &&
          s.storages.all fun storage => storage.path ≠ some path
      | (.error _, _) => true
    | none => true
  | _ => true

/-- No file belongs to two tasks, and each holds what its own task wrote over what was there. -/
structure Exclusive (platform : Platform) (s : OutputState) : Prop where
  own : ∀ a ∈ s.storages, ∀ b ∈ s.storages, a.file = b.file → a.id = b.id
  bytes : ∀ a ∈ s.storages, s.contents a.file = a.accesses.foldl (Access.apply platform) a.before

section Runs

variable {text : Ipv6Addr → String} {platform : Platform} {s s' : OutputState} {id : String}

theorem step_app {e : AppEvent} (h : s.step text platform (.app e) = some s') :
    s'.storages = s.storages ∧ s'.contents = s.contents := by
  obtain ⟨app, -, rfl⟩ := Option.map_eq_some_iff.mp h
  exact ⟨rfl, rfl⟩

/-- What `init_storage` does: nothing to the files, or a storage for a file, at the save path
unless a link stands there. -/
theorem step_initStorage (h : s.step text platform (.initStorage id) = some s')
    (hdistinct : s.distinctPath (.initStorage id) = true) :
    (s'.storages = s.storages ∧ s'.contents = s.contents) ∨
      ∃ file before, (∀ storage ∈ s.storages, storage.id ≠ id) ∧
        (∀ storage ∈ s.storages, storage.path ≠ some file) ∧
        s'.storages = ⟨id, file, some file, before, []⟩ :: s.storages ∧
        s'.contents = Function.update s.contents file before := by
  obtain ⟨⟨finalPath, downloadDir⟩, htarget, h⟩ := Option.bind_eq_some_iff.mp h
  obtain ⟨hid, h⟩ := guard_bind_eq_some.mp h
  rcases hvalidate : validateSavePath s.tree finalPath downloadDir with ⟨result, tree⟩
  rw [hvalidate] at h
  cases result with
  | error e =>
    obtain rfl := Option.some.inj h
    exact Or.inl ⟨rfl, rfl⟩
  | ok canonicalPath =>
    obtain rfl := Option.some.inj h
    obtain ⟨canonicalParent, fileName, hpath, -⟩ := validateSavePath_savePath hvalidate
    simp only [distinctPath, htarget, hpath, hvalidate, Option.all_some, Bool.and_eq_true,
      List.all_eq_true, decide_eq_true_eq] at hdistinct
    obtain ⟨hlink, hnew⟩ := hdistinct
    rw [hpath]
    unfold openStorage
    cases hopen : tree.openForWrite (.ofLoc canonicalPath) with
    | none => exact Or.inl ⟨rfl, rfl⟩
    | some file =>
      have hnolink (target : FileTree.Route String) :
          tree.node (canonicalParent ++ [fileName]) ≠ some (.symlink target) := by
        intro hnode
        rw [hnode] at hlink
        cases hlink
      obtain rfl := openForWrite_savePath hvalidate hpath hnolink hopen
      exact Or.inr ⟨_, _, hid, hnew, rfl, rfl⟩

/-- What an access does: the file of the task's own storage changes, and the storage has one
more access. -/
theorem step_access {a : Access} (h : s.step text platform (.access id a) = some s') :
    ∃ storage ∈ s.storages, storage.id = id ∧
      s'.contents = Function.update s.contents storage.file
        (a.apply platform (s.contents storage.file)) ∧
      s'.storages = s.storages.map (Storage.recordAccess id a) := by
  obtain ⟨_, -, h⟩ := Option.bind_eq_some_iff.mp h
  obtain ⟨storage, hfind, h⟩ := Option.bind_eq_some_iff.mp h
  obtain rfl := Option.some.inj h
  have hid := List.find?_some hfind
  exact ⟨storage, List.mem_of_find?_eq_some hfind, of_decide_eq_true hid, rfl, rfl⟩

/-- The invariant: every task has one storage, whose file stands at its save path. -/
structure Separate (platform : Platform) (s : OutputState) : Prop extends Exclusive platform s where
  ids : ∀ a ∈ s.storages, ∀ b ∈ s.storages, a.id = b.id → a = b
  paths : ∀ a ∈ s.storages, a.path = some a.file

/-- A storage for a file that is no other's keeps the storages separate. -/
theorem Separate.cons {file : List String} {before : Bytes} (hs : Separate platform s)
    (hid : ∀ storage ∈ s.storages, storage.id ≠ id)
    (hnew : ∀ storage ∈ s.storages, storage.path ≠ some file)
    (hstorages : s'.storages = ⟨id, file, some file, before, []⟩ :: s.storages)
    (hcontents : s'.contents = Function.update s.contents file before) :
    Separate platform s' := by
  have hfile (a : Storage) (ha : a ∈ s.storages) : a.file ≠ file := by
    intro heq
    refine hnew a ha ?_
    rw [hs.paths a ha, heq]
  constructor
  · constructor
    · intro a ha b hb heq
      rw [hstorages] at ha hb
      rcases List.mem_cons.mp ha with rfl | ha
      · rcases List.mem_cons.mp hb with rfl | hb
        · rfl
        · exact absurd heq.symm (hfile b hb)
      · rcases List.mem_cons.mp hb with rfl | hb
        · exact absurd heq (hfile a ha)
        · exact hs.own a ha b hb heq
    · intro a ha
      rw [hstorages] at ha
      rw [hcontents]
      rcases List.mem_cons.mp ha with rfl | ha
      · exact Function.update_self ..
      · rw [Function.update_of_ne (hfile a ha)]
        exact hs.bytes a ha
  · intro a ha b hb heq
    rw [hstorages] at ha hb
    rcases List.mem_cons.mp ha with rfl | ha
    · rcases List.mem_cons.mp hb with rfl | hb
      · rfl
      · exact absurd heq.symm (hid b hb)
    · rcases List.mem_cons.mp hb with rfl | hb
      · exact absurd heq (hid a ha)
      · exact hs.ids a ha b hb heq
  · intro a ha
    rw [hstorages] at ha
    rcases List.mem_cons.mp ha with rfl | ha
    · rfl
    · exact hs.paths a ha

/-- An access to its own file keeps the storages separate. -/
theorem Separate.access {storage : Storage} {a : Access} (hs : Separate platform s)
    (hstorage : storage ∈ s.storages) (hid : storage.id = id)
    (hcontents : s'.contents = Function.update s.contents storage.file
      (a.apply platform (s.contents storage.file)))
    (hstorages : s'.storages = s.storages.map (Storage.recordAccess id a)) :
    Separate platform s' := by
  have hmem (b : Storage) (hb : b ∈ s'.storages) : ∃ b₀ ∈ s.storages, b₀.recordAccess id a = b := by
    rw [hstorages] at hb
    exact List.mem_map.mp hb
  constructor
  · constructor
    · intro b hb c hc heq
      obtain ⟨b, hold, rfl⟩ := hmem b hb
      obtain ⟨c, hold', rfl⟩ := hmem c hc
      simp only [Storage.recordAccess_file, Storage.recordAccess_id] at heq ⊢
      exact hs.own b hold c hold' heq
    · intro b hb
      obtain ⟨b, hold, rfl⟩ := hmem b hb
      rw [hcontents, Storage.recordAccess_file, Storage.recordAccess_before]
      by_cases howner : b.id = id
      · obtain rfl := hs.ids b hold storage hstorage (howner.trans hid.symm)
        have haccesses : (b.recordAccess id a).accesses = b.accesses ++ [a] := by
          rw [Storage.recordAccess, if_pos howner]
        rw [haccesses, List.foldl_append, ← hs.bytes b hold, Function.update_self]
        rfl
      · have hfile : b.file ≠ storage.file := by
          intro heq
          exact howner ((hs.own b hold storage hstorage heq).trans hid)
        rw [Function.update_of_ne hfile, Storage.recordAccess, if_neg howner]
        exact hs.bytes b hold
  · intro b hb c hc heq
    obtain ⟨b, hold, rfl⟩ := hmem b hb
    obtain ⟨c, hold', rfl⟩ := hmem c hc
    simp only [Storage.recordAccess_id] at heq
    rw [hs.ids b hold c hold' heq]
  · intro b hb
    obtain ⟨b, hold, rfl⟩ := hmem b hb
    rw [Storage.recordAccess_path, Storage.recordAccess_file]
    exact hs.paths b hold

/-- A step that changes no file and no storage keeps them separate. -/
theorem Separate.congr (hs : Separate platform s) (hstorages : s'.storages = s.storages)
    (hcontents : s'.contents = s.contents) : Separate platform s' := by
  constructor
  · constructor
    · rw [hstorages]
      exact hs.own
    · rw [hstorages, hcontents]
      exact hs.bytes
  · rw [hstorages]
    exact hs.ids
  · rw [hstorages]
    exact hs.paths

/-- A step that opens no storage at the save path of another keeps them separate. -/
theorem separate_step {e : OutputEvent} (hs : Separate platform s)
    (hdistinct : s.distinctPath e = true) (h : s.step text platform e = some s') :
    Separate platform s' := by
  cases e with
  | app e =>
    obtain ⟨hstorages, hcontents⟩ := step_app h
    exact hs.congr hstorages hcontents
  | createDirAll path =>
    obtain rfl := Option.some.inj h
    exact hs.congr rfl rfl
  | initStorage id =>
    obtain ⟨hstorages, hcontents⟩ | ⟨file, before, hid, hnew, hstorages, hcontents⟩ :=
      step_initStorage h hdistinct
    · exact hs.congr hstorages hcontents
    · exact hs.cons hid hnew hstorages hcontents
  | access id a =>
    obtain ⟨storage, hstorage, hid, hcontents, hstorages⟩ := step_access h
    exact hs.access hstorage hid hcontents hstorages

end Runs

/-- The directory of the downloads, with a link in it. -/
def downloadsTree : FileTree String :=
  (FileTree.empty.add [] "downloads" .dir).add ["downloads"] "latest.bin"
    (.symlink ⟨false, [.name "model.bin"]⟩)

/-- A task is created for an URL of the host, its probe gives the file name, and `run` opens
its storage and writes a byte. -/
def downloading (id host fileName : String) (byte : UInt8) : List OutputEvent :=
  let events : List AppEvent := AppState.created id host ++
    [.run id .check, .run id .mark, .run id .inject, .run id .checkControl,
      .run id (.probe (.ok ⟨fileName, some 1, none, true, none, none⟩)), .run id .size,
      .run id .copy, .run id (.saveMetadata "2026-05-29T00:00:30Z" true), .run id .checkControl]
  events.map .app ++ [.initStorage id, .access id (.allocate 1), .access id (.write 0 [byte])]

/-- The two tasks run on one file at a time, and the first ends Completed with the byte of the
second. -/
def Shared (s : OutputState) : Prop :=
  (∃ a ∈ s.storages, ∃ b ∈ s.storages, a.id ≠ b.id ∧ a.file = b.file ∧
    (s.target a.id).isSome ∧ (s.target b.id).isSome) ∧
  (run (step (fun _ => "") .linux) s
    [.app (.run "task-1" (.finish (.ok ()))), .app (.run "task-2" (.finish (.ok ())))]).any
      (fun s' => ((s'.app.copies "task-1").lookup "task-1").map TaskInfo.status =
          some .completed ∧
        s'.contents ["downloads", "model.bin"] = [2]) = true

instance (s : OutputState) : Decidable s.Shared := inferInstanceAs (Decidable (_ ∧ _))

end OutputState

end Tachyon
