import Tachyon.Core.Error
import Tachyon.Core.Paths

/-!
# The authorisation of a download directory

`authorize_download_dir` finds the deepest ancestor of the requested directory that exists,
checks that it lies under an authorised root, and creates what is missing below it, one
directory at a time.
-/

namespace Tachyon

/-- `is_forbidden_authorized_root`. -/
def isForbiddenAuthorizedRoot (canonical : List String) : Bool :=
  canonical.isEmpty || canonical.head?.any fun name => name ∈ ["usr", "etc", "System"]

/-- The root an entry of `authorized_dirs` stands for. -/
def canonicalAuthorizedRoot (tree : FileTree String) (dir : String) :
    Except AppError (List String) :=
  let path := StdPath.new dir
  if dir.isEmpty ∨ ¬path.absolute ∨ ¬tree.exists_ path.toPath then
    .error (.config s!"authorized_dirs 路径无效: {dir}")
  else
    match tree.canonicalize path.toPath with
    | .error _ => .error (.config s!"authorized_dirs 路径无法解析: {dir}")
    | .ok canonical =>
      if ¬tree.isDir (.ofLoc canonical) ∨ isForbiddenAuthorizedRoot canonical then
        .error (.config s!"authorized_dirs 路径无效: {dir}")
      else .ok canonical

/-- `canonical_authorized_roots`. -/
def canonicalAuthorizedRoots (tree : FileTree String) (authorizedDirs : List String) :
    Except AppError (List (List String)) :=
  if authorizedDirs.isEmpty then .error (.config "authorized_dirs 不能为空")
  else authorizedDirs.mapM (canonicalAuthorizedRoot tree)

/-- `deepest_existing_ancestor`. -/
def deepestExistingAncestor (tree : FileTree String) (path : StdPath) : Option StdPath :=
  path.ancestors.find? fun ancestor => tree.exists_ ancestor.toPath

/-- `ensure_not_symlink_or_reparse`, where links are the only reparse points. -/
def ensureNotSymlinkOrReparse (tree : FileTree String) (path : FileTree.Route String)
    (requested : String) : Except AppError Unit :=
  match tree.symlinkMetadata path with
  | .error _ => .error (.config s!"下载目录无法解析: {requested}")
  | .ok (.symlink _) => .error (.config s!"下载目录未授权: {requested}")
  | .ok _ => .ok ()

/-- `missing_components_after`. -/
def missingComponentsAfter (requested existingAncestor : StdPath) (text : String) :
    Except AppError (List String) :=
  match requested.stripPrefix existingAncestor with
  | none => .error (.config s!"下载目录无法解析: {text}")
  | some relative => .ok (relative.filterMap fun
    | .name n => some n
    | _ => none)

/-- `ensure_authorized_directory`. -/
def ensureAuthorizedDirectory (tree : FileTree String) (path : FileTree.Route String)
    (authorizedRoot : List String) (requested : String) : Except AppError Unit := do
  ensureNotSymlinkOrReparse tree path requested
  match tree.canonicalize path with
  | .error _ => .error (.config s!"下载目录无法解析: {requested}")
  | .ok canonical =>
    if ¬tree.isDir (.ofLoc canonical) ∨ ¬authorizedRoot <+: canonical then
      .error (.config s!"下载目录未授权: {requested}")
    else .ok ()

/-- The loop of `create_authorized_dir_chain`, with the tree it leaves behind. -/
def createChainLoop (authorizedRoot : List String) (requested : String) :
    List String → List String → FileTree String → Except AppError (List String) × FileTree String
  | candidate, [], tree => (.ok candidate, tree)
  | candidate, component :: rest, tree =>
    let candidate := candidate ++ [component]
    if tree.exists_ (.ofLoc candidate) then
      match ensureAuthorizedDirectory tree (.ofLoc candidate) authorizedRoot requested with
      | .error e => (.error e, tree)
      | .ok () => createChainLoop authorizedRoot requested candidate rest tree
    else
      match tree.createDir (.ofLoc candidate) with
      | (.error e, tree) =>
        let message := failureText e
        (.error (.config s!"创建下载目录失败: {requested}: {message}"), tree)
      | (.ok (), tree) =>
        match ensureAuthorizedDirectory tree (.ofLoc candidate) authorizedRoot requested with
        | .error e => (.error e, tree)
        | .ok () => createChainLoop authorizedRoot requested candidate rest tree

/-- `create_authorized_dir_chain`. -/
def createAuthorizedDirChain (candidate missingComponents authorizedRoot : List String)
    (requested : String) (tree : FileTree String) :
    Except AppError (List String) × FileTree String :=
  match ensureAuthorizedDirectory tree (.ofLoc candidate) authorizedRoot requested with
  | .error e => (.error e, tree)
  | .ok () => createChainLoop authorizedRoot requested candidate missingComponents tree

/-- The checks of `authorize_download_dir` before anything is created: the canonical
ancestor to start from, what is missing below it, and the root it lies under. -/
def authorizeAncestor (tree : FileTree String) (authorizedDirs : List String)
    (requestedDir : String) : Except AppError (List String × List String × List String) :=
  let requested := StdPath.new requestedDir
  let unauthorized : AppError := .config s!"下载目录未授权: {requestedDir}"
  if requestedDir.isEmpty then .error (.config "下载目录未授权: 空路径")
  else if ¬requested.absolute then .error unauthorized
  else if .parent ∈ requested.components then .error unauthorized
  else do
    let authorizedRoots ← canonicalAuthorizedRoots tree authorizedDirs
    match deepestExistingAncestor tree requested with
    | none => .error unauthorized
    | some existingAncestor =>
      ensureNotSymlinkOrReparse tree existingAncestor.toPath requestedDir
      if ¬tree.isDir existingAncestor.toPath then
        let ancestor := existingAncestor.display
        .error (.config s!"下载目录已存在但不是目录: {ancestor}")
      else
        match tree.canonicalize existingAncestor.toPath with
        | .error _ => .error (.config s!"下载目录无法解析: {requestedDir}")
        | .ok canonicalAncestor =>
          match authorizedRoots.find? fun root => decide (root <+: canonicalAncestor) with
          | none => .error unauthorized
          | some authorizedRoot => do
            let missing ← missingComponentsAfter requested existingAncestor requestedDir
            .ok (canonicalAncestor, missing, authorizedRoot)

/-- `authorize_download_dir`, with the tree it leaves behind. -/
def authorizeDownloadDir (tree : FileTree String) (authorizedDirs : List String)
    (requestedDir : String) : Except AppError String × FileTree String :=
  match authorizeAncestor tree authorizedDirs requestedDir with
  | .error e => (.error e, tree)
  | .ok (canonicalAncestor, missing, authorizedRoot) =>
    match createAuthorizedDirChain canonicalAncestor missing authorizedRoot requestedDir tree with
    | (.error e, tree) => (.error e, tree)
    | (.ok candidate, tree) =>
      match tree.canonicalize (.ofLoc candidate) with
      | .error _ => (.error (.config s!"下载目录无法解析: {requestedDir}"), tree)
      | .ok canonicalRequested =>
        if ¬tree.isDir (.ofLoc canonicalRequested) ∨ ¬authorizedRoot <+: canonicalRequested then
          (.error (.config s!"下载目录未授权: {requestedDir}"), tree)
        else (.ok (displayPath canonicalRequested), tree)

/-- A canonical root of the configuration. -/
def AuthorizedRoot (tree : FileTree String) (authorizedDirs : List String)
    (root : List String) : Prop :=
  ∃ dir ∈ authorizedDirs, tree.canonicalize (StdPath.new dir).toPath = .ok root

/-- The second tree has more directories under the root, and is the first otherwise. -/
def GrownUnder (root : List String) (tree tree' : FileTree String) : Prop :=
  ∀ loc, tree'.node loc = tree.node loc ∨
    (tree.node loc = none ∧ tree'.node loc = some .dir ∧ root <+: loc)

/-- What is owed for an answer: an accepted path is the canonical path of a directory under
an authorised root, and whatever is answered, directories under an authorised root are all
that was created and nothing else changed. -/
structure Contained (tree : FileTree String) (authorizedDirs : List String)
    (result : Except AppError String) (tree' : FileTree String) : Prop where
  accepted : ∀ p, result = .ok p → ∃ loc root, p = displayPath loc ∧
    tree'.node loc = some .dir ∧ tree'.canonicalize (.ofLoc loc) = .ok loc ∧
    AuthorizedRoot tree authorizedDirs root ∧ root <+: loc
  grown : ∀ loc, tree'.node loc = tree.node loc ∨ (tree.node loc = none ∧
    tree'.node loc = some .dir ∧ ∃ root, AuthorizedRoot tree authorizedDirs root ∧ root <+: loc)

section Authorize

variable {tree tree' tree'' : FileTree String} {root candidate missing : List String}
  {requested : String} {authorizedDirs : List String}

theorem GrownUnder.refl (root : List String) (tree : FileTree String) :
    GrownUnder root tree tree := fun _ => Or.inl rfl

theorem GrownUnder.trans (h : GrownUnder root tree tree') (h' : GrownUnder root tree' tree'') :
    GrownUnder root tree tree'' := by
  intro loc
  rcases h loc with hsame | ⟨hfree, hnew, hroot⟩
  · rcases h' loc with hsame' | ⟨hfree', hnew', hroot'⟩
    · exact Or.inl (hsame'.trans hsame)
    · exact Or.inr ⟨hsame ▸ hfree', hnew', hroot'⟩
  · rcases h' loc with hsame' | ⟨hfree', -, -⟩
    · exact Or.inr ⟨hfree, hsame'.trans hnew, hroot⟩
    · rw [hnew] at hfree'
      cases hfree'

/-- A directory created below the root. -/
theorem grownUnder_add {n : String} (hdir : tree.node candidate = some .dir)
    (hfree : tree.node (candidate ++ [n]) = none) (hroot : root <+: candidate) :
    GrownUnder root tree (tree.add candidate n .dir) := by
  intro loc
  rw [FileTree.node_add hdir hfree]
  by_cases hloc : loc = candidate ++ [n]
  · subst hloc
    rw [if_pos rfl]
    exact Or.inr ⟨hfree, rfl, hroot.trans (List.prefix_append _ _)⟩
  · rw [if_neg hloc]
    exact Or.inl rfl

/-- A name in a directory that passes the check is a directory under the root. -/
theorem ensureAuthorizedDirectory_ok {n : String} (hdir : tree.node candidate = some .dir)
    (h : ensureAuthorizedDirectory tree (.ofLoc (candidate ++ [n])) root requested = .ok ()) :
    tree.node (candidate ++ [n]) = some .dir ∧ root <+: candidate ++ [n] := by
  obtain ⟨_, hlink, h⟩ := bind_eq_ok.mp h
  have hreal : tree.Real (candidate ++ [n]) := by
    unfold ensureNotSymlinkOrReparse at hlink
    rw [FileTree.symlinkMetadata_name hdir] at hlink
    cases hnode : tree.node (candidate ++ [n]) with
    | none =>
      rw [hnode] at hlink
      cases hlink
    | some what =>
      rw [hnode] at hlink
      cases what with
      | dir => exact Or.inl hnode
      | file => exact Or.inr hnode
      | symlink target => cases hlink
  rw [FileTree.canonicalize_eq_ok.mpr (FileTree.resolve_ofLoc hreal)] at h
  by_cases hnot : ¬tree.isDir (.ofLoc (candidate ++ [n])) ∨ ¬root <+: candidate ++ [n]
  · dsimp only at h
    rw [if_pos hnot] at h
    cases h
  · rw [not_or, not_not, not_not] at hnot
    exact ⟨(FileTree.isDir_ofLoc hreal).mp hnot.1, hnot.2⟩

/-- The loop creates directories under the root alone, and its candidate stays one of
them. -/
theorem createChainLoop_grows (hdir : tree.node candidate = some .dir)
    (hroot : root <+: candidate) :
    GrownUnder root tree (createChainLoop root requested candidate missing tree).2 ∧
      ∀ final, (createChainLoop root requested candidate missing tree).1 = .ok final →
        (createChainLoop root requested candidate missing tree).2.node final = some .dir ∧
          root <+: final := by
  induction missing generalizing candidate tree with
  | nil =>
    refine ⟨.refl root tree, ?_⟩
    rintro final ⟨⟩
    exact ⟨hdir, hroot⟩
  | cons component rest ih =>
    have hstop (e : AppError) (tree' : FileTree String) (hgrown : GrownUnder root tree tree') :
        let r : Except AppError (List String) × FileTree String := (.error e, tree')
        GrownUnder root tree r.2 ∧ ∀ final, r.1 = .ok final →
          r.2.node final = some .dir ∧ root <+: final := by
      refine ⟨hgrown, ?_⟩
      rintro final ⟨⟩
    rw [createChainLoop]
    by_cases hexists : tree.exists_ (.ofLoc (candidate ++ [component])) = true
    · rw [if_pos hexists]
      cases hensure : ensureAuthorizedDirectory tree (.ofLoc (candidate ++ [component])) root
        requested with
      | error e => exact hstop e tree (.refl root tree)
      | ok _ =>
        obtain ⟨hdir', hroot'⟩ := ensureAuthorizedDirectory_ok hdir hensure
        exact ih hdir' hroot'
    · rw [if_neg hexists, FileTree.createDir_name hdir]
      cases hnode : tree.node (candidate ++ [component]) with
      | some what => exact hstop _ tree (.refl root tree)
      | none =>
        rw [Option.isSome_none, if_neg Bool.false_ne_true]
        by_cases hrefused : tree.refuses (candidate ++ [component]) = true
        · rw [if_pos hrefused]
          exact hstop _ tree (.refl root tree)
        · rw [if_neg hrefused]
          have hgrown := grownUnder_add hdir hnode hroot
          have hnew : (tree.add candidate component .dir).node (candidate ++ [component]) =
              some .dir := by
            rw [FileTree.node_add hdir hnode, if_pos rfl]
          dsimp only
          cases hensure : ensureAuthorizedDirectory (tree.add candidate component .dir)
            (.ofLoc (candidate ++ [component])) root requested with
          | error e => exact hstop e _ hgrown
          | ok _ =>
            obtain ⟨hrest, hfinal⟩ := ih hnew (hroot.trans (List.prefix_append _ _))
            exact ⟨hgrown.trans hrest, hfinal⟩

theorem canonicalAuthorizedRoot_ok {dir : String}
    (h : canonicalAuthorizedRoot tree dir = .ok root) :
    tree.canonicalize (StdPath.new dir).toPath = .ok root := by
  unfold canonicalAuthorizedRoot at h
  dsimp only at h
  split at h
  · cases h
  · cases hcanonical : tree.canonicalize (StdPath.new dir).toPath with
    | error e =>
      rw [hcanonical] at h
      cases h
    | ok canonical =>
      rw [hcanonical] at h
      dsimp only at h
      split at h
      · cases h
      · rw [Except.ok.inj h]

/-- Every root of the list is that of an entry of the configuration. -/
theorem mapM_authorizedRoot {dirs : List String} {roots : List (List String)}
    (h : dirs.mapM (canonicalAuthorizedRoot tree) = .ok roots) :
    ∀ root ∈ roots, AuthorizedRoot tree dirs root := by
  induction dirs generalizing roots with
  | nil =>
    obtain rfl := Except.ok.inj h
    intro root hroot
    cases hroot
  | cons dir dirs ih =>
    rw [List.mapM_cons] at h
    obtain ⟨first, hfirst, h⟩ := bind_eq_ok.mp h
    obtain ⟨rest, hrest, h⟩ := bind_eq_ok.mp h
    obtain rfl := Except.ok.inj h
    intro root hroot
    rcases List.mem_cons.mp hroot with rfl | hroot
    · exact ⟨dir, List.mem_cons_self, canonicalAuthorizedRoot_ok hfirst⟩
    · obtain ⟨dir', hdir', hcanonical⟩ := ih hrest root hroot
      exact ⟨dir', List.mem_cons_of_mem dir hdir', hcanonical⟩

/-- The ancestor to start from is a directory under an authorised root. -/
theorem authorizeAncestor_ok {ancestor : List String}
    (h : authorizeAncestor tree authorizedDirs requested = .ok (ancestor, missing, root)) :
    tree.node ancestor = some .dir ∧ root <+: ancestor ∧
      AuthorizedRoot tree authorizedDirs root := by
  unfold authorizeAncestor at h
  dsimp only at h
  split at h
  · cases h
  split at h
  · cases h
  split at h
  · cases h
  obtain ⟨roots, hroots, h⟩ := bind_eq_ok.mp h
  have hall : ∀ root ∈ roots, AuthorizedRoot tree authorizedDirs root := by
    unfold canonicalAuthorizedRoots at hroots
    split at hroots
    · cases hroots
    · exact mapM_authorizedRoot hroots
  cases hdeepest : deepestExistingAncestor tree (StdPath.new requested) with
  | none =>
    rw [hdeepest] at h
    cases h
  | some existing =>
    rw [hdeepest] at h
    obtain ⟨_, -, h⟩ := bind_eq_ok.mp h
    by_cases hisdir : ¬tree.isDir existing.toPath
    · rw [if_pos hisdir] at h
      cases h
    rw [if_neg hisdir] at h
    cases hcanonical : tree.canonicalize existing.toPath with
    | error e =>
      rw [hcanonical] at h
      cases h
    | ok canonical =>
      rw [hcanonical] at h
      dsimp only at h
      cases hfind : roots.find? fun root => decide (root <+: canonical) with
      | none =>
        rw [hfind] at h
        cases h
      | some found =>
        rw [hfind] at h
        obtain ⟨_, -, h⟩ := bind_eq_ok.mp h
        obtain ⟨rfl, hrest⟩ := Prod.mk.inj (Except.ok.inj h)
        obtain ⟨-, rfl⟩ := Prod.mk.inj hrest
        have hprefix := List.find?_some hfind
        refine ⟨?_, of_decide_eq_true hprefix, hall found (List.mem_of_find?_eq_some hfind)⟩
        rw [not_not] at hisdir
        exact FileTree.node_of_isDir hcanonical hisdir

/-- A refusal after directories were created under an authorised root. -/
theorem contained_error (e : AppError) (hauthorized : AuthorizedRoot tree authorizedDirs root)
    (hgrown : GrownUnder root tree tree') : Contained tree authorizedDirs (.error e) tree' where
  accepted := by
    rintro p ⟨⟩
  grown := by
    intro loc
    rcases hgrown loc with hsame | ⟨hfree, hnew, hroot⟩
    · exact Or.inl hsame
    · exact Or.inr ⟨hfree, hnew, root, hauthorized, hroot⟩

end Authorize

example : (authorizeDownloadDir (FileTree.empty.add [] "dl" .dir) ["/dl"] "/dl/a/b").1 =
    .ok "/dl/a/b" := by
  decide +kernel

end Tachyon
