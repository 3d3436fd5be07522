import Tachyon.Core.Error
import Tachyon.Core.Paths

/-!
# The check of a save path

`validate_save_path` compares canonical paths, but asks with `exists` whether the file is
there already, and a link that leads nowhere is not: opening the path then creates the file
the link names.
-/

namespace Tachyon

/-- The creation of a missing parent directory. -/
def prepareParent (tree : FileTree String) (parent : StdPath) :
    Except FileTree.Failure Unit × FileTree String :=
  if !tree.exists_ parent.toPath then tree.createDirAll parent.toPath else (.ok (), tree)

/-- What `validate_save_path` does with the canonical parent and the file name. -/
def checkSavePath (tree : FileTree String) (canonicalBase canonicalParent : List String)
    (fileName : Option String) : DownloadResult (List String) :=
  if ¬canonicalBase <+: canonicalParent then
    let parent := displayPath canonicalParent
    let base := displayPath canonicalBase
    .error (.config s!"父目录逃逸检测: \"{parent}\" 不在预期目录 \"{base}\" 内")
  else
    match fileName with
    | none => .error (.config "无效的文件路径: 无文件名")
    | some fileName =>
      let result := canonicalParent ++ [fileName]
      if tree.exists_ (.ofLoc result) then
        match tree.canonicalize (.ofLoc result) with
        | .error e =>
          let message := failureText e
          .error (.config s!"无法解析文件路径: {message}")
        | .ok canonicalFinal =>
          if ¬canonicalBase <+: canonicalFinal then
            let path := displayPath result
            let target := displayPath canonicalFinal
            let base := displayPath canonicalBase
            .error (.config
              s!"符号链接逃逸检测: \"{path}\" 实际指向 \"{target}\"，不在预期目录 \"{base}\" 内")
          else .ok canonicalFinal
      else .ok result

/-- `validate_save_path`, with the tree it leaves behind. -/
def validateSavePath (tree : FileTree String) (finalPath expectedBase : StdPath) :
    DownloadResult (List String) × FileTree String :=
  match tree.canonicalize expectedBase.toPath with
  | .error e =>
    let message := failureText e
    (.error (.config s!"下载目录不存在或无法访问: {message}"), tree)
  | .ok canonicalBase =>
    match finalPath.parent with
    | none => (.error (.config "无效的文件路径: 无父目录"), tree)
    | some parent =>
      match prepareParent tree parent with
      | (.error e, tree) => (.error (.io .other (failureText e)), tree)
      | (.ok (), tree) =>
        match tree.canonicalize parent.toPath with
        | .error e =>
          let message := failureText e
          (.error (.config s!"无法解析父目录: {message}"), tree)
        | .ok canonicalParent =>
          (checkSavePath tree canonicalBase canonicalParent finalPath.fileName, tree)

/-- Once the parent is there, the last component of the path is a link that leads to a free
name outside the base. -/
def LinkLeadsOut (tree : FileTree String) (finalPath : StdPath) (base : List String) : Prop :=
  ∃ parent fileName canonicalParent target dir n, finalPath.parent = some parent ∧
    finalPath.fileName = some fileName ∧
    (prepareParent tree parent).2.canonicalize parent.toPath = .ok canonicalParent ∧
    (prepareParent tree parent).2.node (canonicalParent ++ [fileName]) =
      some (.symlink target) ∧
    (prepareParent tree parent).2.resolve (.ofLoc (canonicalParent ++ [fileName])) =
      .missing dir n ∧
    (prepareParent tree parent).2.refuses (dir ++ [n]) = false ∧ ¬base <+: dir ++ [n]

section SavePath

variable {tree tree' : FileTree String} {base canonicalParent p : List String} {fileName : String}

/-- An accepted path: the canonical file where there is one, else the name in the parent. -/
theorem checkSavePath_eq_ok {name : Option String}
    (h : checkSavePath tree base canonicalParent name = .ok p) :
    base <+: canonicalParent ∧ ∃ fileName, name = some fileName ∧
      ((tree.resolve (.ofLoc (canonicalParent ++ [fileName])) = .found p ∧ base <+: p) ∨
        (tree.exists_ (.ofLoc (canonicalParent ++ [fileName])) = false ∧
          p = canonicalParent ++ [fileName])) := by
  unfold checkSavePath at h
  by_cases hparent : base <+: canonicalParent
  · rw [if_neg (fun hnot => hnot hparent)] at h
    refine ⟨hparent, ?_⟩
    cases name with
    | none => cases h
    | some fileName =>
      refine ⟨fileName, rfl, ?_⟩
      dsimp only at h
      cases hexists : tree.exists_ (.ofLoc (canonicalParent ++ [fileName])) with
      | false =>
        rw [hexists, if_neg Bool.false_ne_true] at h
        exact Or.inr ⟨rfl, (Except.ok.inj h).symm⟩
      | true =>
        rw [hexists, if_pos rfl] at h
        cases hcanonical : tree.canonicalize (.ofLoc (canonicalParent ++ [fileName])) with
        | error e =>
          rw [hcanonical] at h
          cases h
        | ok canonicalFinal =>
          rw [hcanonical] at h
          dsimp only at h
          by_cases hfinal : base <+: canonicalFinal
          · rw [if_neg (fun hnot => hnot hfinal)] at h
            obtain rfl := Except.ok.inj h
            exact Or.inl ⟨FileTree.canonicalize_eq_ok.mp hcanonical, hfinal⟩
          · rw [if_pos hfinal] at h
            cases h
  · rw [if_pos hparent] at h
    cases h

/-- What an accepted call went through. -/
theorem validateSavePath_eq_ok {finalPath expectedBase : StdPath}
    (h : validateSavePath tree finalPath expectedBase = (.ok p, tree')) :
    ∃ base parent canonicalParent, tree.canonicalize expectedBase.toPath = .ok base ∧
      finalPath.parent = some parent ∧ prepareParent tree parent = (.ok (), tree') ∧
      tree'.canonicalize parent.toPath = .ok canonicalParent ∧
      checkSavePath tree' base canonicalParent finalPath.fileName = .ok p := by
  unfold validateSavePath at h
  cases hbase : tree.canonicalize expectedBase.toPath with
  | error e =>
    rw [hbase] at h
    cases h
  | ok base =>
    rw [hbase] at h
    cases hparent : finalPath.parent with
    | none =>
      rw [hparent] at h
      cases h
    | some parent =>
      rw [hparent] at h
      dsimp only at h
      rcases hprepared : prepareParent tree parent with ⟨created, tree₁⟩
      rw [hprepared] at h
      cases created with
      | error e => cases h
      | ok _ =>
        dsimp only at h
        cases hcanonical : tree₁.canonicalize parent.toPath with
        | error e =>
          rw [hcanonical] at h
          cases h
        | ok canonicalParent =>
          rw [hcanonical] at h
          obtain ⟨hcheck, rfl⟩ := Prod.mk.inj h
          exact ⟨base, parent, canonicalParent, rfl, rfl, hprepared, hcanonical, hcheck⟩

/-- The file an accepted path opens lies in the base if and only if the path does not end in
a link that leads to a free name outside. -/
theorem validate_save_path_contained_iff {finalPath expectedBase : StdPath}
    (hok : validateSavePath tree finalPath expectedBase = (.ok p, tree'))
    (hbase : tree.canonicalize expectedBase.toPath = .ok base) :
    (∀ loc, tree'.openForWrite (.ofLoc p) = some loc → base <+: loc) ↔
      ¬LinkLeadsOut tree finalPath base := by
  obtain ⟨base', parent, canonicalParent, hbase', hparent, hprepared, hcanonical, hcheck⟩ :=
    validateSavePath_eq_ok hok
  obtain rfl : base = base' := Except.ok.inj (hbase.symm.trans hbase')
  obtain ⟨hinside, fileName, hname, hresult⟩ := checkSavePath_eq_ok hcheck
  have htree : (prepareParent tree parent).2 = tree' := by rw [hprepared]
  have hreal := FileTree.canonicalize_real hcanonical
  rcases hresult with ⟨hfound, hfinal⟩ | ⟨hmissing, rfl⟩
  · have hsound := tree'.resolve_sound (.ofLoc (canonicalParent ++ [fileName]))
    rw [hfound] at hsound
    constructor
    · rintro - ⟨parent₁, fileName₁, canonicalParent₁, target, dir, n, hparent₁, hname₁, hcanonical₁,
        -, hleads, -⟩
      obtain rfl := Option.some.inj (hparent.symm.trans hparent₁)
      obtain rfl := Option.some.inj (hname.symm.trans hname₁)
      rw [htree] at hcanonical₁ hleads
      obtain rfl := Except.ok.inj (hcanonical.symm.trans hcanonical₁)
      rw [hfound] at hleads
      cases hleads
    · intro _ loc hopen
      rcases FileTree.openForWrite_eq_some.mp hopen with ⟨hloc, -⟩ | ⟨dir, n, hloc, -⟩
      · rw [FileTree.resolve_ofLoc hsound] at hloc
        obtain rfl := FileTree.Reached.found.inj hloc
        exact hfinal
      · rw [FileTree.resolve_ofLoc hsound] at hloc
        cases hloc
  · constructor
    · rintro hcontained ⟨parent₁, fileName₁, canonicalParent₁, target, dir, n, hparent₁, hname₁,
        hcanonical₁, -, hleads, hfree, houtside⟩
      obtain rfl := Option.some.inj (hparent.symm.trans hparent₁)
      obtain rfl := Option.some.inj (hname.symm.trans hname₁)
      rw [htree] at hcanonical₁ hleads hfree
      obtain rfl := Except.ok.inj (hcanonical.symm.trans hcanonical₁)
      refine houtside (hcontained (dir ++ [n]) ?_)
      exact FileTree.openForWrite_eq_some.mpr (Or.inr ⟨dir, n, hleads, hfree, rfl⟩)
    · intro hnot loc hopen
      rcases FileTree.openForWrite_eq_some.mp hopen with ⟨hloc, -⟩ | ⟨dir, n, hleads, hfree, rfl⟩
      · rw [FileTree.exists_, FileTree.canonicalize_eq_ok.mpr hloc] at hmissing
        cases hmissing
      · rcases FileTree.resolve_missing hreal hleads with ⟨rfl, rfl⟩ | ⟨target, hlink⟩
        · exact hinside.trans (List.prefix_append _ _)
        · by_contra houtside
          refine hnot ⟨parent, fileName, canonicalParent, target, dir, n, hparent, hname, ?_⟩
          rw [htree]
          exact ⟨hcanonical, hlink, hleads, hfree, houtside⟩

end SavePath

/-- A download directory with a link to a file that is missing in another directory. -/
def danglingTree : FileTree String :=
  ((FileTree.empty.add [] "dl" .dir).add [] "out" .dir).add ["dl"] "innocent"
    (.symlink ⟨true, [.name "out", .name "x"]⟩)

/-- The link is accepted, and opening it creates the missing file outside. -/
theorem dangling_link_escapes :
    danglingTree.canonicalize (StdPath.new "/dl").toPath = .ok ["dl"] ∧
      (validateSavePath danglingTree (.new "/dl/innocent") (.new "/dl")).1 =
        .ok ["dl", "innocent"] ∧
      (validateSavePath danglingTree (.new "/dl/innocent") (.new "/dl")).2.openForWrite
        (.ofLoc ["dl", "innocent"]) = some ["out", "x"] ∧ ¬["dl"] <+: ["out", "x"] := by
  decide +kernel

/-- A new name in the directory is opened there. -/
theorem validate_save_path_contained_iff_new_file :
    (∀ loc, (validateSavePath danglingTree (.new "/dl/new") (.new "/dl")).2.openForWrite
        (.ofLoc ["dl", "new"]) = some loc → ["dl"] <+: loc) ↔
      ¬LinkLeadsOut danglingTree (.new "/dl/new") ["dl"] :=
  validate_save_path_contained_iff (Prod.ext (by decide +kernel) rfl) (by decide +kernel)

end Tachyon
