import Tachyon.Core.SavePath
import Tachyon.Library.MissingDirs

/-!
# What a rejected save path leaves behind

`validate_save_path` creates the missing parents of a path before it compares anything with
the expected directory. A path that leads out of that directory is rejected, and the
directories on its way stay.
-/

namespace Tachyon

open FileTree

/-- The tree with the missing directories on the way to the parent. -/
def withParents (tree : FileTree String) (parent : StdPath) : FileTree String :=
  tree.withDirs (tree.missingDirs parent.toPath)

/-- With the missing directories, the parent is a directory in the base, and what already
stands at the file's name there, if anything, leads into the base too. -/
def EndsInside (tree : FileTree String) (finalPath parent : StdPath) (base : List String) : Prop :=
  ∃ canonicalParent fileName,
    (withParents tree parent).canonicalize parent.toPath = .ok canonicalParent ∧
    (withParents tree parent).isDir parent.toPath = true ∧ base <+: canonicalParent ∧
    finalPath.fileName = some fileName ∧
    ∀ loc, (withParents tree parent).canonicalize (.ofLoc (canonicalParent ++ [fileName])) =
      .ok loc → base <+: loc

/-- A directory outside the base is missing on the way to the parent, and the path does not
come back into the base. -/
def LeavesTrace (tree : FileTree String) (finalPath expectedBase : StdPath) : Prop :=
  ∃ base parent, tree.canonicalize expectedBase.toPath = .ok base ∧
    finalPath.parent = some parent ∧
    (∃ made ∈ tree.missingDirs parent.toPath, ¬base <+: made.1 ++ [made.2]) ∧
    ¬EndsInside tree finalPath parent base

example : danglingTree.missingDirs (StdPath.new "/dl/a/../../out/b").toPath =
    [(["dl"], "a"), (["out"], "b")] := by
  decide +kernel

section SavePathTrace

variable {tree tree' : FileTree String} {finalPath expectedBase parent : StdPath}
  {base p : List String}

/-- The preparation leaves the parent's missing directories behind. -/
theorem prepareParent_tree : (prepareParent tree parent).2 = withParents tree parent := by
  unfold prepareParent withParents
  cases hexists : tree.exists_ parent.toPath with
  | true =>
    rw [missingDirs_of_exists hexists]
    rfl
  | false => exact createDirAll_tree

/-- Where something is missing on the way, the preparation succeeds when the parent is a
directory then. -/
theorem prepareParent_eq_ok (hmissing : tree.missingDirs parent.toPath ≠ []) :
    (prepareParent tree parent).1 = .ok () ↔
      (withParents tree parent).isDir parent.toPath = true := by
  have hexists : tree.exists_ parent.toPath = false := by
    rw [Bool.eq_false_iff]
    exact fun h => hmissing (missingDirs_of_exists h)
  have hempty : parent.toPath.isEmpty = false := by
    rw [Bool.eq_false_iff]
    intro h
    refine hmissing ?_
    have hcomponents : parent.toPath.components = [] := by
      unfold Route.isEmpty at h
      simp at h
      exact h.2
    unfold missingDirs
    rw [hcomponents]
    rfl
  unfold prepareParent
  rw [hexists, Bool.not_false, if_pos rfl, createDirAll_eq_ok, isDir_iff, hempty]
  exact (and_iff_right rfl).symm

/-- The tree a call leaves behind. -/
theorem validateSavePath_tree (hbase : tree.canonicalize expectedBase.toPath = .ok base)
    (hparent : finalPath.parent = some parent) :
    (validateSavePath tree finalPath expectedBase).2 = withParents tree parent := by
  unfold validateSavePath
  rw [hbase, hparent]
  dsimp only
  rw [← prepareParent_tree]
  rcases prepareParent tree parent with ⟨created, tree₁⟩
  cases created with
  | error e => rfl
  | ok _ =>
    dsimp only
    cases tree₁.canonicalize parent.toPath with
    | error e => rfl
    | ok canonicalParent => rfl

/-- A name in the base that leads nowhere else is accepted. -/
theorem checkSavePath_isOk {canonicalParent : List String} {fileName : String}
    (hparent : base <+: canonicalParent)
    (hfile : ∀ loc, tree.canonicalize (.ofLoc (canonicalParent ++ [fileName])) = .ok loc →
      base <+: loc) : ∃ p, checkSavePath tree base canonicalParent (some fileName) = .ok p := by
  unfold checkSavePath
  rw [if_neg (not_not_intro hparent)]
  dsimp only
  cases hcanonical : tree.canonicalize (.ofLoc (canonicalParent ++ [fileName])) with
  | error e =>
    have hexists : tree.exists_ (.ofLoc (canonicalParent ++ [fileName])) = false := by
      rw [exists_, hcanonical]
      rfl
    rw [hexists, if_neg Bool.false_ne_true]
    exact ⟨_, rfl⟩
  | ok loc =>
    have hexists : tree.exists_ (.ofLoc (canonicalParent ++ [fileName])) = true := by
      rw [exists_, hcanonical]
      rfl
    rw [hexists, if_pos rfl]
    dsimp only
    rw [if_neg (not_not_intro (hfile loc hcanonical))]
    exact ⟨loc, rfl⟩

/-- Where something is missing on the way to the parent, the paths that end inside the base
are accepted. -/
theorem validateSavePath_isOk_iff (hbase : tree.canonicalize expectedBase.toPath = .ok base)
    (hparent : finalPath.parent = some parent)
    (hmissing : tree.missingDirs parent.toPath ≠ []) :
    (∃ p, (validateSavePath tree finalPath expectedBase).1 = .ok p) ↔
      EndsInside tree finalPath parent base := by
  have hprepared := prepareParent_eq_ok hmissing
  constructor
  · rintro ⟨p, hok⟩
    have hcall : validateSavePath tree finalPath expectedBase = (.ok p, withParents tree parent) :=
      Prod.ext hok (validateSavePath_tree hbase hparent)
    obtain ⟨base', parent', canonicalParent, hbase', hparent', hprepare, hcanonical, hcheck⟩ :=
      validateSavePath_eq_ok hcall
    obtain rfl := Except.ok.inj (hbase.symm.trans hbase')
    obtain rfl := Option.some.inj (hparent.symm.trans hparent')
    obtain ⟨hinside, fileName, hname, hresult⟩ := checkSavePath_eq_ok hcheck
    have hdir := hprepared.mp (by rw [hprepare])
    refine ⟨canonicalParent, fileName, hcanonical, hdir, hinside, hname, fun loc hloc => ?_⟩
    rcases hresult with ⟨hfound, hfinal⟩ | ⟨hfree, -⟩
    · obtain rfl := Except.ok.inj (hloc.symm.trans (canonicalize_eq_ok.mpr hfound))
      exact hfinal
    · rw [exists_, hloc] at hfree
      cases hfree
  · rintro ⟨canonicalParent, fileName, hcanonical, hdir, hinside, hname, hfile⟩
    obtain ⟨p, hcheck⟩ := checkSavePath_isOk hinside hfile
    have hprepare : prepareParent tree parent = (.ok (), withParents tree parent) :=
      Prod.ext (hprepared.mpr hdir) prepareParent_tree
    refine ⟨p, ?_⟩
    unfold validateSavePath
    rw [hbase, hparent]
    dsimp only
    rw [hprepare]
    dsimp only
    rw [hcanonical]
    dsimp only
    rw [hname]
    exact hcheck

end SavePathTrace

/-- A rejected path leaves everything outside the base as it was if and only if no directory
outside is missing on its way, or the path comes back into the base. -/
theorem validateSavePath_rejected_iff (tree : FileTree String) (finalPath expectedBase : StdPath) :
    (∀ e tree', validateSavePath tree finalPath expectedBase = (.error e, tree') →
      ∀ loc, (∀ base, tree.canonicalize expectedBase.toPath = .ok base → ¬base <+: loc) →
        tree'.node loc = tree.node loc) ↔
      ¬LeavesTrace tree finalPath expectedBase := by
  constructor
  · rintro hunchanged ⟨base, parent, hbase, hparent, ⟨made, hmade, houtside⟩, hends⟩
    have htree := validateSavePath_tree hbase hparent
    cases hresult : (validateSavePath tree finalPath expectedBase).1 with
    | ok p =>
      exact hends ((validateSavePath_isOk_iff hbase hparent (List.ne_nil_of_mem hmade)).mp
        ⟨p, hresult⟩)
    | error e =>
      have hsame := hunchanged e _ (Prod.ext hresult htree)
      refine houtside (unchanged_outside_iff.mp (fun loc hloc => ?_) made hmade)
      refine hsame loc fun base' hbase' => ?_
      obtain rfl := Except.ok.inj (hbase.symm.trans hbase')
      exact hloc
  · intro htrace e tree' hcall loc hloc
    cases hbase : tree.canonicalize expectedBase.toPath with
    | error e' =>
      unfold validateSavePath at hcall
      rw [hbase] at hcall
      rw [← (Prod.mk.inj hcall).2]
    | ok base =>
      cases hparent : finalPath.parent with
      | none =>
        unfold validateSavePath at hcall
        rw [hbase, hparent] at hcall
        rw [← (Prod.mk.inj hcall).2]
      | some parent =>
        have htree := validateSavePath_tree hbase hparent
        rw [hcall] at htree
        dsimp only at htree
        rw [htree]
        refine unchanged_outside_iff.mpr (fun made hmade => ?_) loc (hloc base hbase)
        by_contra houtside
        have hnot : ¬EndsInside tree finalPath parent base := by
          intro hends
          obtain ⟨p, hok⟩ := (validateSavePath_isOk_iff hbase hparent
            (List.ne_nil_of_mem hmade)).mpr hends
          rw [hcall] at hok
          cases hok
        exact htrace ⟨base, parent, hbase, hparent, ⟨made, hmade, houtside⟩, hnot⟩

/-- A path into a missing directory beside the download directory is rejected, and leaves the
directory behind. -/
theorem validateSavePath_leaves_directory :
    (validateSavePath danglingTree (.new "/out/new/x") (.new "/dl")).1 =
        .error (.config "父目录逃逸检测: \"/out/new\" 不在预期目录 \"/dl\" 内") ∧
      danglingTree.canonicalize (StdPath.new "/dl").toPath = .ok ["dl"] ∧
      ¬["dl"] <+: ["out", "new"] ∧ danglingTree.node ["out", "new"] = none ∧
      (validateSavePath danglingTree (.new "/out/new/x") (.new "/dl")).2.node ["out", "new"] =
        some .dir := by
  decide +kernel

end Tachyon
