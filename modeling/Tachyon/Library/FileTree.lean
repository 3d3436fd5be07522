import Mathlib.Data.List.Basic
import Mathlib.Data.List.Infix

/-!
# Trees of files with symbolic links

A tree gives what stands at each location, a location being the names that lead to it from
the root. Paths are resolved component by component; a symbolic link puts its target in
front of what is left of the path, a bounded number of times.
-/

namespace FileTree

/-- A component of a path. -/
inductive Step (Name : Type) where
  | current
  | parent
  | name (n : Name)
  deriving DecidableEq

/-- A path, from the root or from the working directory. -/
structure Route (Name : Type) where
  absolute : Bool
  components : List (Step Name)
  deriving DecidableEq

/-- What stands at a location. -/
inductive Node (Name : Type) where
  | dir
  | file
  | symlink (target : Route Name)
  deriving DecidableEq

/-- Why an operation fails. -/
inductive Failure where
  | notFound
  | notDirectory
  | tooManyLinks
  | alreadyExists
  | refused
  deriving DecidableEq, Repr

end FileTree

/-- A tree of files: everything but the root stands in a directory. Nothing can be created
at the locations it refuses. -/
structure FileTree (Name : Type) where
  node : List Name → Option (FileTree.Node Name)
  cwd : List Name
  maxLinks : ℕ
  refuses : List Name → Bool
  root_dir : node [] = some .dir
  cwd_dir : node cwd = some .dir
  parent_dir : ∀ loc n, (node (loc ++ [n])).isSome → node loc = some .dir

namespace FileTree

/-- Where a path leads: to something, to a name that is free in a directory, or nowhere. -/
inductive Reached (Name : Type) where
  | found (loc : List Name)
  | missing (dir : List Name) (n : Name)
  | failed (e : Failure)
  deriving DecidableEq

variable {Name : Type}

/-- The path of no characters. -/
def Route.isEmpty (p : Route Name) : Bool := !p.absolute && p.components.isEmpty

/-- The path of a location. -/
def Route.ofLoc (loc : List Name) : Route Name := ⟨true, loc.map .name⟩

/-- The tree of the root alone. -/
def empty [DecidableEq Name] : FileTree Name where
  node := fun loc => if loc = [] then some .dir else none
  cwd := []
  maxLinks := 40
  refuses := fun _ => false
  root_dir := rfl
  cwd_dir := rfl
  parent_dir := by
    intro loc n h
    rw [if_neg (by simp)] at h
    cases h

variable (tree : FileTree Name)

/-- Where a path starts that is met in a directory. -/
def startOf (loc : List Name) (p : Route Name) : List Name := if p.absolute then [] else loc

section Walk

variable [DecidableEq Name]

/-- Walks the components from a location; `next` walks on behind a symbolic link. -/
def walkFrom (next : List Name → List (Step Name) → Reached Name) :
    List Name → List (Step Name) → Reached Name
  | loc, [] => .found loc
  | loc, c :: rest =>
    if tree.node loc ≠ some .dir then .failed .notDirectory
    else
      match c with
      | .current => walkFrom next loc rest
      | .parent => walkFrom next loc.dropLast rest
      | .name n =>
        match tree.node (loc ++ [n]) with
        | none => if rest.isEmpty then .missing loc n else .failed .notFound
        | some (.symlink target) =>
          if target.isEmpty then .failed .notFound
          else next (startOf loc target) (target.components ++ rest)
        | some _ => walkFrom next (loc ++ [n]) rest

/-- Walks the components from a location, through at most so many symbolic links. -/
def walk : ℕ → List Name → List (Step Name) → Reached Name
  | 0 => tree.walkFrom fun _ _ => .failed .tooManyLinks
  | links + 1 => tree.walkFrom (walk links)

/-- Resolves a path, following every symbolic link. -/
def resolve (p : Route Name) : Reached Name :=
  if p.isEmpty then .failed .notFound
  else tree.walk tree.maxLinks (startOf tree.cwd p) p.components

/-- Resolves a path without following its last component. -/
def entry (p : Route Name) : Reached Name :=
  match p.components.getLast? with
  | some (.name n) =>
    match tree.walk tree.maxLinks (startOf tree.cwd p) p.components.dropLast with
    | .found loc =>
      if tree.node loc ≠ some .dir then .failed .notDirectory
      else if (tree.node (loc ++ [n])).isSome then .found (loc ++ [n]) else .missing loc n
    | .missing _ _ => .failed .notFound
    | .failed e => .failed e
  | _ => tree.resolve p

/-- The location a path leads to. -/
def canonicalize (p : Route Name) : Except Failure (List Name) :=
  match tree.resolve p with
  | .found loc => .ok loc
  | .missing _ _ => .error .notFound
  | .failed e => .error e

/-- The path leads to something. -/
def exists_ (p : Route Name) : Bool := (tree.canonicalize p).toBool

/-- What the path leads to. -/
def metadata (p : Route Name) : Except Failure (Node Name) :=
  match tree.resolve p with
  | .found loc => (tree.node loc).elim (.error .notFound) .ok
  | .missing _ _ => .error .notFound
  | .failed e => .error e

/-- What stands at the path itself. -/
def symlinkMetadata (p : Route Name) : Except Failure (Node Name) :=
  match tree.entry p with
  | .found loc => (tree.node loc).elim (.error .notFound) .ok
  | .missing _ _ => .error .notFound
  | .failed e => .error e

/-- The path leads to a directory. -/
def isDir (p : Route Name) : Bool := tree.metadata p matches .ok .dir

end Walk

/-! ### Creation -/

section Create

variable [DecidableEq Name]

theorem add_root (loc : List Name) (n : Name) (what : Node Name) :
    (fun l => if l = loc ++ [n] then some what else tree.node l) [] = some .dir := by
  dsimp only
  rw [if_neg (by simp)]
  exact tree.root_dir

/-- The tree with something at a free name of a directory. -/
def add (loc : List Name) (n : Name) (what : Node Name) : FileTree Name :=
  if h : tree.node loc = some .dir ∧ tree.node (loc ++ [n]) = none then
    { tree with
      node := fun l => if l = loc ++ [n] then some what else tree.node l
      root_dir := add_root tree loc n what
      cwd_dir := by
        rw [if_neg]
        · exact tree.cwd_dir
        · intro hcwd
          have hdir := tree.cwd_dir
          rw [hcwd, h.2] at hdir
          cases hdir
      parent_dir := by
        intro loc' n' hsome
        by_cases hnew : loc' ++ [n'] = loc ++ [n]
        · obtain ⟨rfl, -⟩ := List.append_inj' hnew rfl
          rw [if_neg (by simp)]
          exact h.1
        · rw [if_neg hnew] at hsome
          have hparent := tree.parent_dir loc' n' hsome
          rw [if_neg]
          · exact hparent
          · intro hloc
            rw [hloc, h.2] at hparent
            cases hparent }
  else tree

/-- Creates a directory. -/
def createDir (p : Route Name) : Except Failure Unit × FileTree Name :=
  match tree.entry p with
  | .found _ => (.error .alreadyExists, tree)
  | .missing loc n =>
    if tree.refuses (loc ++ [n]) then (.error .refused, tree) else (.ok (), tree.add loc n .dir)
  | .failed e => (.error e, tree)

/-- Creates a directory and the directories above it; the components are given from the
last to the first. -/
def createDirAllFrom (absolute : Bool) : List (Step Name) → FileTree Name →
    Except Failure Unit × FileTree Name
  | [], tree => (.ok (), tree)
  | c :: above, tree =>
    let p : Route Name := ⟨absolute, (c :: above).reverse⟩
    let again : Failure → FileTree Name → Except Failure Unit := fun e tree =>
      if tree.isDir p then .ok () else .error e
    match tree.createDir p with
    | (.ok (), tree) => (.ok (), tree)
    | (.error .notFound, _) =>
      match createDirAllFrom absolute above tree with
      | (.error e, tree) => (.error e, tree)
      | (.ok (), tree) =>
        match tree.createDir p with
        | (.ok (), tree) => (.ok (), tree)
        | (.error e, _) => (again e tree, tree)
    | (.error e, _) => (again e tree, tree)

/-- Creates a directory and the directories above it. -/
def createDirAll (p : Route Name) : Except Failure Unit × FileTree Name :=
  createDirAllFrom p.absolute p.components.reverse tree

/-- The location of the file that opening the path for writing opens, or creates where it
is missing. -/
def openForWrite (p : Route Name) : Option (List Name) :=
  match tree.resolve p with
  | .found loc => if tree.node loc = some .file then some loc else none
  | .missing loc n => if tree.refuses (loc ++ [n]) then none else some (loc ++ [n])
  | .failed _ => none

end Create

/-! ### What walks reach -/

section Reach

variable {tree} {loc loc' names : List Name} {n : Name} {what : Node Name}

/-- Something that is not a symbolic link stands at the location. -/
def Real (tree : FileTree Name) (loc : List Name) : Prop :=
  tree.node loc = some .dir ∨ tree.node loc = some .file

/-- Above everything there is a directory. -/
theorem dir_above (h : (tree.node (loc ++ names)).isSome) (hnames : names ≠ []) :
    tree.node loc = some .dir := by
  induction names using List.reverseRecOn with
  | nil => exact absurd rfl hnames
  | append_singleton names n ih =>
    rw [← List.append_assoc] at h
    have hdir := tree.parent_dir (loc ++ names) n h
    by_cases hnil : names = []
    · rw [hnil, List.append_nil] at hdir
      exact hdir
    · exact ih (by rw [hdir]; rfl) hnil

theorem dir_dropLast (h : tree.node loc = some .dir) : tree.node loc.dropLast = some .dir := by
  induction loc using List.reverseRecOn with
  | nil => exact h
  | append_singleton loc n =>
    rw [List.dropLast_concat]
    exact tree.parent_dir loc n (by rw [h]; rfl)

variable [DecidableEq Name]

/-- What a walk reaches is there: the found is no link, and the missing is free in a
directory. -/
def Sound (tree : FileTree Name) : Reached Name → Prop
  | .found loc => tree.Real loc
  | .missing loc n => tree.node loc = some .dir ∧ tree.node (loc ++ [n]) = none
  | .failed _ => True

/-- One component of a walk, from a directory. -/
theorem walkFrom_cons {next : List Name → List (Step Name) → Reached Name}
    {rest : List (Step Name)} (c : Step Name) (hdir : tree.node loc = some .dir) :
    tree.walkFrom next loc (c :: rest) =
      match c with
      | .current => tree.walkFrom next loc rest
      | .parent => tree.walkFrom next loc.dropLast rest
      | .name n =>
        match tree.node (loc ++ [n]) with
        | none => if rest.isEmpty then .missing loc n else .failed .notFound
        | some (.symlink target) =>
          if target.isEmpty then .failed .notFound
          else next (startOf loc target) (target.components ++ rest)
        | some _ => tree.walkFrom next (loc ++ [n]) rest := by
  cases c <;> rw [walkFrom, if_neg (fun h => h hdir)]

theorem walkFrom_stuck {next : List Name → List (Step Name) → Reached Name}
    {rest : List (Step Name)} (c : Step Name) (hdir : tree.node loc ≠ some .dir) :
    tree.walkFrom next loc (c :: rest) = .failed .notDirectory := by
  cases c <;> rw [walkFrom, if_pos hdir]

theorem walkFrom_sound {next : List Name → List (Step Name) → Reached Name}
    (hnext : ∀ loc todo, tree.node loc = some .dir → tree.Sound (next loc todo))
    (todo : List (Step Name)) (hloc : tree.Real loc) :
    tree.Sound (tree.walkFrom next loc todo) := by
  induction todo generalizing loc with
  | nil => exact hloc
  | cons c rest ih =>
    by_cases hdir : tree.node loc = some .dir
    · rw [walkFrom_cons c hdir]
      cases c with
      | current => exact ih hloc
      | parent => exact ih (Or.inl (dir_dropLast hdir))
      | name n =>
        dsimp only
        cases hnode : tree.node (loc ++ [n]) with
        | none =>
          dsimp only
          split
          · exact ⟨hdir, hnode⟩
          · trivial
        | some what =>
          cases what with
          | dir => exact ih (Or.inl hnode)
          | file => exact ih (Or.inr hnode)
          | symlink target =>
            dsimp only
            split
            · trivial
            · refine hnext _ _ ?_
              unfold startOf
              split
              · exact tree.root_dir
              · exact hdir
    · rw [walkFrom_stuck c hdir]
      trivial

theorem walk_sound (links : ℕ) (todo : List (Step Name)) (hloc : tree.Real loc) :
    tree.Sound (tree.walk links loc todo) := by
  induction links generalizing loc todo with
  | zero =>
    refine walkFrom_sound ?_ todo hloc
    intro loc todo hdir
    trivial
  | succ links ih =>
    exact walkFrom_sound (fun loc todo hdir => ih todo (Or.inl hdir)) todo hloc

omit [DecidableEq Name] in
theorem startOf_dir (p : Route Name) : tree.node (startOf tree.cwd p) = some .dir := by
  unfold startOf
  split
  · exact tree.root_dir
  · exact tree.cwd_dir

theorem resolve_sound (p : Route Name) : tree.Sound (tree.resolve p) := by
  unfold resolve
  split
  · trivial
  · exact walk_sound _ _ (Or.inl (startOf_dir p))

theorem canonicalize_eq_ok {p : Route Name} :
    tree.canonicalize p = .ok loc ↔ tree.resolve p = .found loc := by
  unfold canonicalize
  cases tree.resolve p with
  | found loc' => simp
  | missing dir n => simp
  | failed e => simp

/-- A canonical location is no link. -/
theorem canonicalize_real {p : Route Name} (h : tree.canonicalize p = .ok loc) : tree.Real loc := by
  have hsound := tree.resolve_sound p
  rw [canonicalize_eq_ok.mp h] at hsound
  exact hsound

/-- Names that lead through directories are walked. -/
theorem walkFrom_names {next : List Name → List (Step Name) → Reached Name}
    {rest : List (Step Name)} (h : tree.Real (loc ++ names)) :
    tree.walkFrom next loc (names.map .name ++ rest) = tree.walkFrom next (loc ++ names) rest := by
  induction names generalizing loc with
  | nil => rw [List.map_nil, List.nil_append, List.append_nil]
  | cons n names ih =>
    have hsome : (tree.node (loc ++ (n :: names))).isSome := by
      rcases h with h | h <;> rw [h] <;> rfl
    have hdir := dir_above hsome (List.cons_ne_nil n names)
    rw [List.append_cons] at h
    rw [List.map_cons, List.cons_append, walkFrom_cons (.name n) hdir]
    have hreal : tree.Real (loc ++ [n]) := by
      cases names with
      | nil => rwa [List.append_nil] at h
      | cons n' names' =>
        have hthere : (tree.node (loc ++ [n] ++ (n' :: names'))).isSome := by
          rcases h with h | h <;> rw [h] <;> rfl
        exact Or.inl (dir_above hthere (List.cons_ne_nil n' names'))
    rw [List.append_cons, ← ih h]
    dsimp only
    rcases hreal with hreal | hreal <;> rw [hreal]

theorem walk_names {links : ℕ} {rest : List (Step Name)} (h : tree.Real (loc ++ names)) :
    tree.walk links loc (names.map .name ++ rest) = tree.walk links (loc ++ names) rest := by
  cases links with
  | zero => exact walkFrom_names h
  | succ links => exact walkFrom_names h

/-- The path of a location leads there. -/
theorem resolve_ofLoc (h : tree.Real loc) : tree.resolve (.ofLoc loc) = .found loc := by
  have hwalk : tree.walk tree.maxLinks [] (loc.map .name ++ []) =
      tree.walk tree.maxLinks ([] ++ loc) [] := walk_names h
  rw [List.append_nil, List.nil_append] at hwalk
  rw [resolve, if_neg (by simp [Route.isEmpty, Route.ofLoc])]
  have hnil : tree.walk tree.maxLinks loc [] = .found loc := by
    cases tree.maxLinks <;> rfl
  exact hwalk.trans hnil

/-- The path of a name below a location leads to what bears the name, behind a link to what
the link leads to. -/
theorem resolve_name (hloc : tree.Real loc) :
    tree.resolve (.ofLoc (loc ++ [n])) = tree.walk tree.maxLinks loc [.name n] := by
  have hwalk : tree.walk tree.maxLinks [] (loc.map .name ++ [.name n]) =
      tree.walk tree.maxLinks ([] ++ loc) [.name n] := walk_names hloc
  rw [List.nil_append] at hwalk
  rw [resolve, if_neg (by simp [Route.isEmpty, Route.ofLoc])]
  rw [← hwalk, Route.ofLoc, List.map_append]
  rfl

theorem walk_cons (links : ℕ) (c : Step Name) (rest : List (Step Name)) :
    ∃ next, tree.walk links loc (c :: rest) = tree.walkFrom next loc (c :: rest) := by
  cases links with
  | zero => exact ⟨_, rfl⟩
  | succ links => exact ⟨_, rfl⟩

/-- A free name in a directory is missing there. -/
theorem walk_free (links : ℕ) (hdir : tree.node loc = some .dir)
    (hfree : tree.node (loc ++ [n]) = none) : tree.walk links loc [.name n] = .missing loc n := by
  obtain ⟨next, hnext⟩ := @walk_cons _ tree loc _ links (.name n) []
  rw [hnext, walkFrom_cons (.name n) hdir]
  dsimp only
  rw [hfree]
  rfl

/-- The path of a name below a location ends there, unless a link stands there. -/
theorem resolve_name_cases (hloc : tree.Real loc)
    (hlink : ∀ target, tree.node (loc ++ [n]) ≠ some (.symlink target)) :
    tree.resolve (.ofLoc (loc ++ [n])) = .found (loc ++ [n]) ∨
      tree.resolve (.ofLoc (loc ++ [n])) = .missing loc n ∨
      tree.resolve (.ofLoc (loc ++ [n])) = .failed .notDirectory := by
  by_cases hdir : tree.node loc = some .dir
  · cases hnode : tree.node (loc ++ [n]) with
    | none =>
      rw [resolve_name hloc]
      exact Or.inr (Or.inl (walk_free _ hdir hnode))
    | some what =>
      cases what with
      | symlink target => exact absurd hnode (hlink target)
      | dir => exact Or.inl (resolve_ofLoc (Or.inl hnode))
      | file => exact Or.inl (resolve_ofLoc (Or.inr hnode))
  · obtain ⟨next, hnext⟩ := @walk_cons _ tree loc _ tree.maxLinks (.name n) []
    rw [resolve_name hloc, hnext, walkFrom_stuck _ hdir]
    exact Or.inr (Or.inr rfl)

/-- What is missing at the end of a path is its last name, unless a link stands there. -/
theorem resolve_missing (hloc : tree.Real loc) {dir : List Name} {m : Name}
    (h : tree.resolve (.ofLoc (loc ++ [n])) = .missing dir m) :
    (dir = loc ∧ m = n) ∨ ∃ target, tree.node (loc ++ [n]) = some (.symlink target) := by
  by_cases hlink : ∃ target, tree.node (loc ++ [n]) = some (.symlink target)
  · exact Or.inr hlink
  · rcases resolve_name_cases hloc (not_exists.mp hlink) with hfound | hmissing | hfailed
    · rw [hfound] at h
      cases h
    · rw [hmissing] at h
      obtain ⟨rfl, rfl⟩ := Reached.missing.inj h
      exact Or.inl ⟨rfl, rfl⟩
    · rw [hfailed] at h
      cases h

/-- Something new stands at the free name, and everything else is as it was. -/
theorem node_add (hdir : tree.node loc = some .dir) (hfree : tree.node (loc ++ [n]) = none)
    (l : List Name) :
    (tree.add loc n what).node l = if l = loc ++ [n] then some what else tree.node l := by
  unfold add
  rw [dif_pos ⟨hdir, hfree⟩]

/-- A name in a directory is looked up there. -/
theorem entry_name (hdir : tree.node loc = some .dir) :
    tree.entry (.ofLoc (loc ++ [n])) =
      if (tree.node (loc ++ [n])).isSome then .found (loc ++ [n]) else .missing loc n := by
  have hwalk : tree.walk tree.maxLinks [] (loc.map .name) = .found loc := by
    have hnames : tree.walk tree.maxLinks [] (loc.map .name ++ []) =
        tree.walk tree.maxLinks ([] ++ loc) [] := walk_names (Or.inl hdir)
    rw [List.append_nil, List.nil_append] at hnames
    rw [hnames]
    cases tree.maxLinks <;> rfl
  unfold entry
  simp only [Route.ofLoc, List.map_append, List.map_cons, List.map_nil, List.getLast?_concat,
    List.dropLast_concat, startOf, if_true, hwalk, hdir, not_true_eq_false, ne_eq, if_false]

/-- A directory is created at a free name of a directory that does not refuse it. -/
theorem createDir_name (hdir : tree.node loc = some .dir) :
    tree.createDir (.ofLoc (loc ++ [n])) =
      if (tree.node (loc ++ [n])).isSome then (.error .alreadyExists, tree)
      else if tree.refuses (loc ++ [n]) then (.error .refused, tree)
      else (.ok (), tree.add loc n .dir) := by
  unfold createDir
  rw [entry_name hdir]
  by_cases hnode : (tree.node (loc ++ [n])).isSome = true
  · rw [if_pos hnode, if_pos hnode]
  · rw [if_neg hnode, if_neg hnode]

/-- What stands at a name of a directory. -/
theorem symlinkMetadata_name (hdir : tree.node loc = some .dir) :
    tree.symlinkMetadata (.ofLoc (loc ++ [n])) =
      (tree.node (loc ++ [n])).elim (.error .notFound) .ok := by
  unfold symlinkMetadata
  rw [entry_name hdir]
  cases hnode : tree.node (loc ++ [n]) with
  | none => rfl
  | some what =>
    rw [Option.isSome_some, if_pos rfl]
    dsimp only
    rw [hnode]

theorem isDir_ofLoc (hreal : tree.Real loc) :
    tree.isDir (.ofLoc loc) ↔ tree.node loc = some .dir := by
  unfold isDir metadata
  rw [resolve_ofLoc hreal]
  rcases hreal with hnode | hnode <;> simp [hnode]

/-- The canonical location of a directory holds one. -/
theorem node_of_isDir {p : Route Name} (hcanonical : tree.canonicalize p = .ok loc)
    (h : tree.isDir p) : tree.node loc = some .dir := by
  unfold isDir metadata at h
  rw [canonicalize_eq_ok.mp hcanonical] at h
  rcases canonicalize_real hcanonical with hnode | hnode
  · exact hnode
  · simp [hnode] at h

/-- Opening for writing opens a file that is there or creates one at a free name. -/
theorem openForWrite_eq_some {p : Route Name} :
    tree.openForWrite p = some loc ↔
      (tree.resolve p = .found loc ∧ tree.node loc = some .file) ∨
        ∃ dir n, tree.resolve p = .missing dir n ∧ tree.refuses (dir ++ [n]) = false ∧
          loc = dir ++ [n] := by
  unfold openForWrite
  cases tree.resolve p with
  | found loc' =>
    dsimp only
    by_cases hfile : tree.node loc' = some .file
    · rw [if_pos hfile]
      constructor
      · rintro ⟨⟩
        exact Or.inl ⟨rfl, hfile⟩
      · rintro (⟨hfound, -⟩ | ⟨dir, n, hmissing, -⟩)
        · rw [Reached.found.inj hfound]
        · cases hmissing
    · rw [if_neg hfile]
      constructor
      · rintro ⟨⟩
      · rintro (⟨hfound, hfile'⟩ | ⟨dir, n, hmissing, -⟩)
        · rw [Reached.found.inj hfound] at hfile
          exact absurd hfile' hfile
        · cases hmissing
  | missing dir n =>
    dsimp only
    by_cases hrefused : tree.refuses (dir ++ [n]) = true
    · rw [if_pos hrefused]
      constructor
      · rintro ⟨⟩
      · rintro (⟨hfound, -⟩ | ⟨dir', n', hmissing, hfree, -⟩)
        · cases hfound
        · obtain ⟨rfl, rfl⟩ := Reached.missing.inj hmissing
          rw [hrefused] at hfree
          cases hfree
    · rw [if_neg hrefused]
      constructor
      · rintro ⟨⟩
        exact Or.inr ⟨dir, n, rfl, by simpa using hrefused, rfl⟩
      · rintro (⟨hfound, -⟩ | ⟨dir', n', hmissing, -, rfl⟩)
        · cases hfound
        · obtain ⟨rfl, rfl⟩ := Reached.missing.inj hmissing
          rfl
  | failed e => simp

/-- Where no link stands at the end of a path, opening it opens that very file. -/
theorem openForWrite_name (hloc : tree.Real loc)
    (hlink : ∀ target, tree.node (loc ++ [n]) ≠ some (.symlink target))
    (h : tree.openForWrite (.ofLoc (loc ++ [n])) = some loc') : loc' = loc ++ [n] := by
  rcases openForWrite_eq_some.mp h with ⟨hfound, -⟩ | ⟨dir, m, hmissing, -, rfl⟩
  · rcases resolve_name_cases hloc hlink with hcase | hcase | hcase
    · exact Reached.found.inj (hfound.symm.trans hcase)
    · cases hfound.symm.trans hcase
    · cases hfound.symm.trans hcase
  · rcases resolve_name_cases hloc hlink with hcase | hcase | hcase
    · cases hmissing.symm.trans hcase
    · obtain ⟨rfl, rfl⟩ := Reached.missing.inj (hmissing.symm.trans hcase)
      rfl
    · cases hmissing.symm.trans hcase

end Reach

end FileTree
