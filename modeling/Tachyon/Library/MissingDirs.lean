import Tachyon.Library.FileTree

/-!
# The directories missing on the way to a path

Creating a directory and those above it starts from the last component of a path, tries,
and goes up while something is not found. What it makes is what one walk from the front
finds missing: the free names it meets, up to the first that nothing can be made at.
-/

namespace FileTree

variable {Name : Type} [DecidableEq Name]

/-- The tree with directories at free names, one after the other. -/
def withDirs : FileTree Name → List (List Name × Name) → FileTree Name
  | tree, [] => tree
  | tree, (loc, n) :: rest => (tree.add loc n .dir).withDirs rest

theorem withDirs_append (tree : FileTree Name) (first rest : List (List Name × Name)) :
    tree.withDirs (first ++ rest) = (tree.withDirs first).withDirs rest := by
  induction first generalizing tree with
  | nil => rfl
  | cons made first ih => exact ih _

/-- The directories missing on the way, the first components of which lead to one: the
directory each is missing in, and its name. -/
def missingFrom (absolute : Bool) :
    FileTree Name → List (Step Name) → List (Step Name) → List (List Name × Name)
  | _, _, [] => []
  | tree, done, c :: todo =>
    if tree.isDir ⟨absolute, done ++ [c]⟩ then missingFrom absolute tree (done ++ [c]) todo
    else
      match tree.entry ⟨absolute, done ++ [c]⟩ with
      | .missing loc n =>
        if tree.refuses (loc ++ [n]) then []
        else (loc, n) :: missingFrom absolute (tree.add loc n .dir) (done ++ [c]) todo
      | _ => []

/-- The directories missing on the way to a path. -/
def missingDirs (tree : FileTree Name) (p : Route Name) : List (List Name × Name) :=
  missingFrom p.absolute tree [] p.components

/-- Where the components lead. -/
def follow (tree : FileTree Name) (absolute : Bool) (components : List (Step Name)) :
    Reached Name :=
  tree.walk tree.maxLinks (if absolute then [] else tree.cwd) components

/-- The components lead to a directory. -/
def Enters (tree : FileTree Name) (absolute : Bool) (components : List (Step Name)) : Prop :=
  ∃ loc, tree.follow absolute components = .found loc ∧ tree.node loc = some .dir

section Walk

variable {tree : FileTree Name} {loc loc' : List Name} {n : Name} {first rest : List (Step Name)}

/-! ### Walks in two parts -/

/-- What follows from a walk for the walk that goes on. -/
def GoesOn (tree : FileTree Name) (rest : List (Step Name)) : Reached Name → Reached Name → Prop
  | .found loc, reached => ∃ links, reached = tree.walk links loc rest
  | .missing _ _, reached => rest ≠ [] → reached = .failed .notFound
  | .failed e, reached => reached = .failed e

theorem walkFrom_append {next : List Name → List (Step Name) → Reached Name}
    (hrest : ∀ loc, ∃ links, tree.walkFrom next loc rest = tree.walk links loc rest)
    (hnext : ∀ loc todo, tree.GoesOn rest (next loc todo) (next loc (todo ++ rest)))
    (loc : List Name) (first : List (Step Name)) :
    tree.GoesOn rest (tree.walkFrom next loc first) (tree.walkFrom next loc (first ++ rest)) := by
  induction first generalizing loc with
  | nil => exact hrest loc
  | cons c first ih =>
    rw [List.cons_append]
    by_cases hdir : tree.node loc = some .dir
    · rw [walkFrom_cons c hdir, walkFrom_cons c hdir]
      cases c with
      | current => exact ih loc
      | parent => exact ih loc.dropLast
      | name n =>
        dsimp only
        cases tree.node (loc ++ [n]) with
        | none =>
          dsimp only
          cases first with
          | nil =>
            rw [List.isEmpty_nil, if_pos rfl]
            intro hne
            rw [List.nil_append, if_neg (by simpa using hne)]
          | cons c' first' => rfl
        | some what =>
          cases what with
          | dir => exact ih (loc ++ [n])
          | file => exact ih (loc ++ [n])
          | symlink target =>
            dsimp only
            by_cases hempty : target.isEmpty = true
            · rw [if_pos hempty, if_pos hempty]
              rfl
            · rw [if_neg hempty, if_neg hempty, ← List.append_assoc]
              exact hnext _ _
    · rw [walkFrom_stuck c hdir, walkFrom_stuck c hdir]
      rfl

/-- A walk of two parts goes on where the first part ends. -/
theorem walk_append (links : ℕ) (loc : List Name) (first rest : List (Step Name)) :
    tree.GoesOn rest (tree.walk links loc first) (tree.walk links loc (first ++ rest)) := by
  induction links generalizing loc first with
  | zero =>
    refine walkFrom_append (fun loc => ⟨0, rfl⟩) (fun _ _ => ?_) loc first
    rfl
  | succ links ih =>
    exact walkFrom_append (fun loc => ⟨links + 1, rfl⟩) ih loc first

theorem walk_stuck {links : ℕ} (c : Step Name) (hdir : tree.node loc ≠ some .dir) :
    tree.walk links loc (c :: rest) = .failed .notDirectory := by
  obtain ⟨next, hnext⟩ := @walk_cons _ tree loc _ links c rest
  rw [hnext, walkFrom_stuck c hdir]

end Walk

section Paths

variable {tree tree' : FileTree Name} {absolute : Bool} {loc : List Name} {n : Name}
  {first rest : List (Step Name)} {c : Step Name}

theorem follow_append (tree : FileTree Name) (absolute : Bool) (first rest : List (Step Name)) :
    tree.GoesOn rest (tree.follow absolute first) (tree.follow absolute (first ++ rest)) :=
  walk_append _ _ _ _

/-- What leads to a directory goes through directories. -/
theorem Enters.of_append (h : tree.Enters absolute (first ++ rest)) :
    tree.Enters absolute first := by
  obtain ⟨loc, hfollow, hdir⟩ := h
  cases rest with
  | nil =>
    rw [List.append_nil] at hfollow
    exact ⟨loc, hfollow, hdir⟩
  | cons c rest =>
    have hgoes := tree.follow_append absolute first (c :: rest)
    rw [hfollow] at hgoes
    cases hfirst : tree.follow absolute first with
    | found loc' =>
      rw [hfirst] at hgoes
      obtain ⟨links, hlinks⟩ := hgoes
      refine ⟨loc', hfirst, ?_⟩
      by_contra hnot
      rw [walk_stuck c hnot] at hlinks
      cases hlinks
    | missing dir n =>
      rw [hfirst] at hgoes
      cases hgoes (List.cons_ne_nil c rest)
    | failed e =>
      rw [hfirst] at hgoes
      cases hgoes

theorem resolve_concat :
    tree.resolve ⟨absolute, first ++ [c]⟩ = tree.follow absolute (first ++ [c]) := by
  unfold resolve
  rw [if_neg (by simp [Route.isEmpty])]
  rfl

theorem entry_concat : tree.entry ⟨absolute, first ++ [.name n]⟩ =
    match tree.follow absolute first with
    | .found loc =>
      if tree.node loc ≠ some .dir then .failed .notDirectory
      else if (tree.node (loc ++ [n])).isSome then .found (loc ++ [n]) else .missing loc n
    | .missing _ _ => .failed .notFound
    | .failed e => .failed e := by
  unfold entry
  simp only [List.getLast?_concat, List.dropLast_concat]
  rfl

theorem entry_dots (hc : ∀ n, c ≠ .name n) :
    tree.entry ⟨absolute, first ++ [c]⟩ = tree.follow absolute (first ++ [c]) := by
  unfold entry
  simp only [List.getLast?_concat]
  cases c with
  | name n => exact absurd rfl (hc n)
  | current => exact resolve_concat
  | parent => exact resolve_concat

/-- Where the components before the last one lead to no directory, the path leads nowhere. -/
theorem follow_of_not_enters (h : ¬tree.Enters absolute first) :
    ∃ e, tree.follow absolute (first ++ [c]) = .failed e ∧
      (e ≠ .notFound → tree.follow absolute first = .failed e ∨
        ∃ loc, tree.follow absolute first = .found loc) := by
  have hgoes := tree.follow_append absolute first [c]
  cases hfirst : tree.follow absolute first with
  | found loc =>
    have hdir : tree.node loc ≠ some .dir := fun hdir => h ⟨loc, hfirst, hdir⟩
    rw [hfirst] at hgoes
    obtain ⟨links, hlinks⟩ := hgoes
    rw [walk_stuck c hdir] at hlinks
    exact ⟨.notDirectory, hlinks, fun _ => Or.inr ⟨loc, rfl⟩⟩
  | missing dir m =>
    rw [hfirst] at hgoes
    exact ⟨.notFound, hgoes (List.cons_ne_nil c []), fun hne => absurd rfl hne⟩
  | failed e =>
    rw [hfirst] at hgoes
    exact ⟨e, hgoes, fun _ => Or.inl rfl⟩

/-- There the path itself leads nowhere either. -/
theorem entry_of_not_enters {e : Failure} (h : ¬tree.Enters absolute first)
    (hfollow : tree.follow absolute (first ++ [c]) = .failed e) :
    tree.entry ⟨absolute, first ++ [c]⟩ = .failed e := by
  cases c with
  | current =>
    rw [entry_dots fun n hn => by cases hn]
    exact hfollow
  | parent =>
    rw [entry_dots fun n hn => by cases hn]
    exact hfollow
  | name n =>
    have hgoes := tree.follow_append absolute first [.name n]
    rw [hfollow] at hgoes
    rw [entry_concat]
    cases hfirst : tree.follow absolute first with
    | found loc =>
      have hdir : tree.node loc ≠ some .dir := fun hdir => h ⟨loc, hfirst, hdir⟩
      rw [hfirst] at hgoes
      obtain ⟨links, hlinks⟩ := hgoes
      rw [walk_stuck _ hdir] at hlinks
      dsimp only
      rw [if_pos hdir, hlinks]
    | missing dir m =>
      rw [hfirst] at hgoes
      exact (hgoes (List.cons_ne_nil _ [])).symm
    | failed e' =>
      rw [hfirst] at hgoes
      exact hgoes.symm

/-- The last component, where the others lead to a directory: a free name is missing there,
and anything else is something. -/
theorem entry_of_follow (hfirst : tree.follow absolute first = .found loc)
    (hdir : tree.node loc = some .dir) :
    (∃ n, c = .name n ∧ tree.node (loc ++ [n]) = none ∧
      tree.entry ⟨absolute, first ++ [c]⟩ = .missing loc n ∧
      tree.follow absolute (first ++ [c]) = .missing loc n) ∨
    ∃ loc', tree.entry ⟨absolute, first ++ [c]⟩ = .found loc' := by
  have hgoes := tree.follow_append absolute first [c]
  rw [hfirst] at hgoes
  obtain ⟨links, hlinks⟩ := hgoes
  obtain ⟨next, hnext⟩ := @walk_cons _ tree loc _ links c []
  rw [hnext, walkFrom_cons c hdir] at hlinks
  cases c with
  | current =>
    rw [entry_dots fun n hn => by cases hn]
    exact Or.inr ⟨loc, hlinks⟩
  | parent =>
    rw [entry_dots fun n hn => by cases hn]
    exact Or.inr ⟨loc.dropLast, hlinks⟩
  | name n =>
    rw [entry_concat, hfirst]
    dsimp only at hlinks ⊢
    rw [if_neg (not_not_intro hdir)]
    cases hnode : tree.node (loc ++ [n]) with
    | none =>
      rw [hnode] at hlinks
      exact Or.inl ⟨n, rfl, hnode, rfl, hlinks⟩
    | some what => exact Or.inr ⟨_, rfl⟩

theorem isDir_iff {p : Route Name} :
    tree.isDir p = true ↔ p.isEmpty = false ∧ tree.Enters p.absolute p.components := by
  unfold isDir metadata
  by_cases hempty : p.isEmpty = true
  · have hresolve : tree.resolve p = .failed .notFound := if_pos hempty
    rw [hresolve, hempty]
    simp
  · have hresolve : tree.resolve p = tree.follow p.absolute p.components := if_neg hempty
    rw [hresolve, and_iff_right (Bool.eq_false_iff.mpr hempty)]
    unfold Enters
    cases tree.follow p.absolute p.components with
    | found loc =>
      cases hnode : tree.node loc with
      | none => simp [hnode]
      | some what => cases what <;> simp [hnode]
    | missing dir n => simp
    | failed e => simp

theorem isDir_concat : tree.isDir ⟨absolute, first ++ [c]⟩ = true ↔
    tree.Enters absolute (first ++ [c]) := by
  rw [isDir_iff]
  exact and_iff_right (by simp [Route.isEmpty])

/-- Everything that was there is still there. -/
structure Extends (tree' tree : FileTree Name) : Prop where
  node : ∀ loc what, tree.node loc = some what → tree'.node loc = some what
  cwd : tree'.cwd = tree.cwd
  maxLinks : tree'.maxLinks = tree.maxLinks

theorem add_extends (tree : FileTree Name) (loc : List Name) (n : Name) (what : Node Name) :
    (tree.add loc n what).Extends tree := by
  by_cases h : tree.node loc = some .dir ∧ tree.node (loc ++ [n]) = none
  · refine ⟨fun l what' hl => ?_, ?_, ?_⟩
    · rw [node_add h.1 h.2, if_neg]
      · exact hl
      · rintro rfl
        rw [h.2] at hl
        cases hl
    · unfold add
      rw [dif_pos h]
    · unfold add
      rw [dif_pos h]
  · unfold add
    rw [dif_neg h]
    exact ⟨fun _ _ hl => hl, rfl, rfl⟩

theorem withDirs_extends (tree : FileTree Name) (made : List (List Name × Name)) :
    (tree.withDirs made).Extends tree := by
  induction made generalizing tree with
  | nil => exact ⟨fun _ _ hl => hl, rfl, rfl⟩
  | cons first made ih =>
    have hadd := tree.add_extends first.1 first.2 .dir
    have hrest := ih (tree.add first.1 first.2 .dir)
    exact ⟨fun loc what hl => hrest.node loc what (hadd.node loc what hl),
      hrest.cwd.trans hadd.cwd, hrest.maxLinks.trans hadd.maxLinks⟩

theorem walkFrom_extends (h : tree'.Extends tree)
    {next next' : List Name → List (Step Name) → Reached Name}
    (hnext : ∀ loc todo l, next loc todo = .found l → next' loc todo = .found l)
    {todo : List (Step Name)} {l : List Name} (hwalk : tree.walkFrom next loc todo = .found l) :
    tree'.walkFrom next' loc todo = .found l := by
  induction todo generalizing loc with
  | nil => exact hwalk
  | cons c rest ih =>
    by_cases hdir : tree.node loc = some .dir
    · rw [walkFrom_cons c hdir] at hwalk
      rw [walkFrom_cons c (h.node _ _ hdir)]
      cases c with
      | current => exact ih hwalk
      | parent => exact ih hwalk
      | name n =>
        dsimp only at hwalk ⊢
        cases hnode : tree.node (loc ++ [n]) with
        | none =>
          rw [hnode] at hwalk
          dsimp only at hwalk
          split at hwalk <;> cases hwalk
        | some what =>
          rw [hnode] at hwalk
          rw [h.node _ _ hnode]
          cases what with
          | dir => exact ih hwalk
          | file => exact ih hwalk
          | symlink target =>
            dsimp only at hwalk ⊢
            by_cases hempty : target.isEmpty = true
            · rw [if_pos hempty] at hwalk
              cases hwalk
            · rw [if_neg hempty] at hwalk ⊢
              exact hnext _ _ _ hwalk
    · rw [walkFrom_stuck c hdir] at hwalk
      cases hwalk

theorem walk_extends (h : tree'.Extends tree) {links : ℕ} {todo : List (Step Name)}
    {l : List Name} (hwalk : tree.walk links loc todo = .found l) :
    tree'.walk links loc todo = .found l := by
  induction links generalizing loc todo l with
  | zero =>
    refine walkFrom_extends h (fun _ _ _ hfailed => ?_) hwalk
    cases hfailed
  | succ links ih => exact walkFrom_extends h (fun _ _ _ hnext => ih hnext) hwalk

/-- What led somewhere still leads there. -/
theorem Extends.follow (h : tree'.Extends tree)
    (hfollow : tree.follow absolute first = .found loc) :
    tree'.follow absolute first = .found loc := by
  unfold FileTree.follow at hfollow ⊢
  rw [h.cwd, h.maxLinks]
  exact walk_extends h hfollow

/-- A directory made where a path leads is entered by that path. -/
theorem enters_add (hfirst : tree.follow absolute first = .found loc)
    (hdir : tree.node loc = some .dir) (hfree : tree.node (loc ++ [n]) = none) :
    (tree.add loc n .dir).Enters absolute (first ++ [.name n]) := by
  have hextends := tree.add_extends loc n .dir
  have hgoes := (tree.add loc n .dir).follow_append absolute first [.name n]
  rw [hextends.follow hfirst] at hgoes
  obtain ⟨links, hlinks⟩ := hgoes
  obtain ⟨next, hnext⟩ := @walk_cons _ (tree.add loc n .dir) loc _ links (.name n) []
  have hnew : (tree.add loc n .dir).node (loc ++ [n]) = some .dir := by
    rw [node_add hdir hfree, if_pos rfl]
  rw [hnext, walkFrom_cons _ (hextends.node _ _ hdir)] at hlinks
  dsimp only at hlinks
  rw [hnew] at hlinks
  exact ⟨_, hlinks, hnew⟩

/-! ### The walk from the front -/

theorem enters_nil : tree.Enters absolute [] := by
  have hfollow : tree.follow absolute [] = .found (if absolute then [] else tree.cwd) := by
    unfold follow
    cases tree.maxLinks <;> rfl
  refine ⟨_, hfollow, ?_⟩
  by_cases h : absolute = true
  · rw [if_pos h]
    exact tree.root_dir
  · rw [if_neg h]
    exact tree.cwd_dir

theorem entry_missing (hfirst : tree.Enters absolute first)
    (h : tree.entry ⟨absolute, first ++ [c]⟩ = .missing loc n) :
    c = .name n ∧ tree.follow absolute first = .found loc ∧ tree.node loc = some .dir ∧
      tree.node (loc ++ [n]) = none := by
  obtain ⟨dir, hfollow, hdir⟩ := hfirst
  rcases entry_of_follow hfollow hdir with ⟨m, hc, hfree, hentry, -⟩ | ⟨loc', hentry⟩
  · rw [h] at hentry
    obtain ⟨rfl, rfl⟩ := Reached.missing.inj hentry
    exact ⟨hc, hfollow, hdir, hfree⟩
  · rw [h] at hentry
    cases hentry

theorem missingFrom_enters {todo : List (Step Name)} (h : tree.Enters absolute (first ++ [c])) :
    missingFrom absolute tree first (c :: todo) =
      missingFrom absolute tree (first ++ [c]) todo := by
  rw [missingFrom, if_pos (isDir_concat.mpr h)]

/-- The walk ends where no directory can be made. -/
theorem missingFrom_stop {todo : List (Step Name)} (h : ¬tree.Enters absolute (first ++ [c]))
    (hrefused : ∀ loc n, tree.entry ⟨absolute, first ++ [c]⟩ = .missing loc n →
      tree.refuses (loc ++ [n]) = true) : missingFrom absolute tree first (c :: todo) = [] := by
  rw [missingFrom, if_neg fun hdir => h (isDir_concat.mp hdir)]
  cases hentry : tree.entry ⟨absolute, first ++ [c]⟩ with
  | found loc => rfl
  | failed e => rfl
  | missing loc n =>
    dsimp only
    rw [if_pos (hrefused loc n hentry)]

theorem missingFrom_make {todo : List (Step Name)} (h : ¬tree.Enters absolute (first ++ [c]))
    (hentry : tree.entry ⟨absolute, first ++ [c]⟩ = .missing loc n)
    (hrefused : ¬tree.refuses (loc ++ [n]) = true) :
    missingFrom absolute tree first (c :: todo) =
      (loc, n) :: missingFrom absolute (tree.add loc n .dir) (first ++ [c]) todo := by
  rw [missingFrom, if_neg fun hdir => h (isDir_concat.mp hdir), hentry]
  dsimp only
  rw [if_neg hrefused]

/-- One component of the walk, from components that can be entered. -/
theorem missingFrom_cons (hfirst : tree.Enters absolute first) (c : Step Name) :
    (tree.Enters absolute (first ++ [c]) ∧ ∀ todo, missingFrom absolute tree first (c :: todo) =
      missingFrom absolute tree (first ++ [c]) todo) ∨
    (∃ loc n, tree.node loc = some .dir ∧ tree.node (loc ++ [n]) = none ∧
      (tree.add loc n .dir).Enters absolute (first ++ [c]) ∧
      ∀ todo, missingFrom absolute tree first (c :: todo) =
        (loc, n) :: missingFrom absolute (tree.add loc n .dir) (first ++ [c]) todo) ∨
    (¬tree.Enters absolute (first ++ [c]) ∧
      ∀ todo, missingFrom absolute tree first (c :: todo) = []) := by
  by_cases hdir : tree.Enters absolute (first ++ [c])
  · exact Or.inl ⟨hdir, fun _ => missingFrom_enters hdir⟩
  · by_cases hmake : ∃ loc n, tree.entry ⟨absolute, first ++ [c]⟩ = .missing loc n ∧
        ¬tree.refuses (loc ++ [n]) = true
    · obtain ⟨loc, n, hentry, hrefused⟩ := hmake
      obtain ⟨rfl, hfollow, hloc, hfree⟩ := entry_missing hfirst hentry
      exact Or.inr (Or.inl ⟨loc, n, hloc, hfree, enters_add hfollow hloc hfree,
        fun _ => missingFrom_make hdir hentry hrefused⟩)
    · refine Or.inr (Or.inr ⟨hdir, fun _ => missingFrom_stop hdir fun loc n hentry => ?_⟩)
      by_contra hrefused
      exact hmake ⟨loc, n, hentry, hrefused⟩

/-- The last component adds to what is missing if the others can be entered, and nothing if
they cannot. -/
theorem missingFrom_append (hfirst : tree.Enters absolute first) (todo : List (Step Name))
    (c : Step Name) :
    ((tree.withDirs (missingFrom absolute tree first todo)).Enters absolute (first ++ todo) →
      missingFrom absolute tree first (todo ++ [c]) =
        missingFrom absolute tree first todo ++
          missingFrom absolute (tree.withDirs (missingFrom absolute tree first todo))
            (first ++ todo) [c]) ∧
    (¬(tree.withDirs (missingFrom absolute tree first todo)).Enters absolute (first ++ todo) →
      missingFrom absolute tree first (todo ++ [c]) = missingFrom absolute tree first todo) := by
  induction todo generalizing tree first with
  | nil =>
    rw [List.append_nil]
    exact ⟨fun _ => rfl, fun hnot => absurd hfirst hnot⟩
  | cons c' todo ih =>
    rw [List.cons_append, List.append_cons]
    rcases missingFrom_cons hfirst c' with ⟨hdir, heq⟩ | ⟨loc, n, -, -, hdir, heq⟩ | ⟨hdir, heq⟩
    · rw [heq, heq]
      exact ih hdir
    · rw [heq, heq]
      obtain ⟨hgoes, hends⟩ := ih hdir
      exact ⟨fun henters => congrArg (List.cons _) (hgoes henters),
        fun hnot => congrArg (List.cons _) (hends hnot)⟩
    · rw [heq, heq]
      exact ⟨fun henters => absurd henters.of_append hdir, fun _ => rfl⟩

theorem missingFrom_found {loc : List Name}
    (h : tree.entry ⟨absolute, first ++ [c]⟩ = .found loc) :
    missingFrom absolute tree first [c] = [] := by
  by_cases henters : tree.Enters absolute (first ++ [c])
  · rw [missingFrom_enters henters]
    rfl
  · refine missingFrom_stop henters fun loc' n hentry => ?_
    rw [h] at hentry
    cases hentry

/-- Nothing is missing on the way to something, or where the way fails otherwise. -/
theorem missingFrom_eq_nil (hfollow : (∃ loc, tree.follow absolute first = .found loc) ∨
      ∃ e, e ≠ .notFound ∧ tree.follow absolute first = .failed e) :
    missingFrom absolute tree [] first = [] := by
  induction first using List.reverseRecOn with
  | nil => rfl
  | append_singleton first c ih =>
    obtain ⟨hgoes, hends⟩ := missingFrom_append (@enters_nil _ _ tree absolute) first c
    by_cases henters : tree.Enters absolute first
    · obtain ⟨loc, hfirst, hdir⟩ := henters
      have hnil := ih (Or.inl ⟨loc, hfirst⟩)
      rw [hnil] at hgoes
      rw [hgoes ⟨loc, hfirst, hdir⟩]
      rcases entry_of_follow hfirst hdir with ⟨n, -, -, -, hmissing⟩ | ⟨loc', hentry⟩
      · rw [hmissing] at hfollow
        rcases hfollow with ⟨_, hfound⟩ | ⟨_, -, hfailed⟩
        · cases hfound
        · cases hfailed
      · exact missingFrom_found hentry
    · obtain ⟨e, hfailed, hbefore⟩ := @follow_of_not_enters _ _ _ _ _ c henters
      rcases hfollow with ⟨loc, hfound⟩ | ⟨e', hne, hfailed'⟩
      · rw [hfailed] at hfound
        cases hfound
      · obtain rfl := Reached.failed.inj (hfailed.symm.trans hfailed')
        have hnil := ih ((hbefore hne).symm.imp id fun h => ⟨e, hne, h⟩)
        rw [hnil] at hends
        exact hends henters

/-! ### The creation from the back -/

/-- A failure to create a directory that is there is none. -/
def unlessDir (tree : FileTree Name) (p : Route Name) (e : Failure) : Except Failure Unit :=
  if tree.isDir p then .ok () else .error e

/-- The creation goes up where something is not found. -/
theorem createDirAllFrom_cons (c : Step Name) (above : List (Step Name)) :
    createDirAllFrom absolute (c :: above) tree =
      match tree.createDir ⟨absolute, above.reverse ++ [c]⟩ with
      | (.ok (), tree) => (.ok (), tree)
      | (.error .notFound, _) =>
        match createDirAllFrom absolute above tree with
        | (.error e, tree) => (.error e, tree)
        | (.ok (), tree) =>
          match tree.createDir ⟨absolute, above.reverse ++ [c]⟩ with
          | (.ok (), tree) => (.ok (), tree)
          | (.error e, _) => (tree.unlessDir ⟨absolute, above.reverse ++ [c]⟩ e, tree)
      | (.error e, _) => (tree.unlessDir ⟨absolute, above.reverse ++ [c]⟩ e, tree) := by
  rw [← List.reverse_cons]
  rfl

theorem createDirAllFrom_failed {above : List (Step Name)} {e : Failure} (hne : e ≠ .notFound)
    (h : tree.createDir ⟨absolute, above.reverse ++ [c]⟩ = (.error e, tree)) :
    createDirAllFrom absolute (c :: above) tree =
      (tree.unlessDir ⟨absolute, above.reverse ++ [c]⟩ e, tree) := by
  rw [createDirAllFrom_cons, h]
  cases e with
  | notFound => exact absurd rfl hne
  | notDirectory => rfl
  | tooManyLinks => rfl
  | alreadyExists => rfl
  | refused => rfl

theorem unlessDir_eq_ok {e : Failure} :
    tree.unlessDir ⟨absolute, first ++ [c]⟩ e = .ok () ↔ tree.Enters absolute (first ++ [c]) := by
  unfold unlessDir
  rw [← isDir_concat]
  by_cases h : tree.isDir ⟨absolute, first ++ [c]⟩ = true
  · rw [if_pos h]
    exact iff_of_true rfl h
  · rw [if_neg h]
    exact iff_of_false (fun h' => by cases h') h

/-- The last directory is made where the others can be entered. -/
theorem createDir_of_enters (hfirst : tree.Enters absolute first) (c : Step Name) :
    (∃ e, e ≠ .notFound ∧
      tree.createDir ⟨absolute, first ++ [c]⟩ = (.error e, tree) ∧
      missingFrom absolute tree first [c] = []) ∨
    (tree.createDir ⟨absolute, first ++ [c]⟩ =
        (.ok (), tree.withDirs (missingFrom absolute tree first [c])) ∧
      (tree.withDirs (missingFrom absolute tree first [c])).Enters absolute (first ++ [c])) := by
  obtain ⟨loc, hfollow, hdir⟩ := hfirst
  rcases @entry_of_follow _ _ _ _ _ _ c hfollow hdir with ⟨n, rfl, hfree, hentry, hmissing⟩ |
    ⟨loc', hentry⟩
  · have hnot : ¬tree.Enters absolute (first ++ [.name n]) := by
      rintro ⟨loc', hfound, -⟩
      rw [hmissing] at hfound
      cases hfound
    unfold createDir
    rw [hentry]
    dsimp only
    by_cases hrefused : tree.refuses (loc ++ [n]) = true
    · rw [if_pos hrefused]
      refine Or.inl ⟨.refused, by decide, rfl, missingFrom_stop hnot fun loc' n' hentry' => ?_⟩
      obtain ⟨rfl, rfl⟩ := Reached.missing.inj (hentry.symm.trans hentry')
      exact hrefused
    · rw [if_neg hrefused, missingFrom_make hnot hentry hrefused]
      exact Or.inr ⟨rfl, enters_add hfollow hdir hfree⟩
  · refine Or.inl ⟨.alreadyExists, by decide, ?_, missingFrom_found hentry⟩
    unfold createDir
    rw [hentry]

/-- Where the others cannot be entered, nothing is made. -/
theorem createDir_of_not_enters (hfirst : ¬tree.Enters absolute first) (c : Step Name) :
    ∃ e, tree.createDir ⟨absolute, first ++ [c]⟩ = (.error e, tree) ∧
      (e ≠ .notFound → missingFrom absolute tree [] (first ++ [c]) = []) := by
  obtain ⟨e, hfailed, -⟩ := @follow_of_not_enters _ _ _ _ _ c hfirst
  refine ⟨e, ?_, fun hne => missingFrom_eq_nil (Or.inr ⟨e, hne, hfailed⟩)⟩
  unfold createDir
  rw [entry_of_not_enters hfirst hfailed]

/-- The creation makes what the walk from the front finds missing, and succeeds when the path
can be entered then. -/
theorem createDirAllFrom_eq (components : List (Step Name)) :
    (createDirAllFrom absolute components.reverse tree).2 =
        tree.withDirs (missingFrom absolute tree [] components) ∧
      ((createDirAllFrom absolute components.reverse tree).1 = .ok () ↔
        (tree.withDirs (missingFrom absolute tree [] components)).Enters absolute components) := by
  induction components using List.reverseRecOn with
  | nil => exact ⟨rfl, iff_of_true rfl enters_nil⟩
  | append_singleton first c ih =>
    obtain ⟨hgoes, hends⟩ := missingFrom_append (@enters_nil _ _ tree absolute) first c
    rw [List.nil_append] at hgoes hends
    rw [List.reverse_concat]
    by_cases henters : tree.Enters absolute first
    · have hnil : missingFrom absolute tree [] first = [] := by
        obtain ⟨loc, hfollow, -⟩ := henters
        exact missingFrom_eq_nil (Or.inl ⟨loc, hfollow⟩)
      have hlast : missingFrom absolute tree [] (first ++ [c]) =
          missingFrom absolute tree first [c] := by
        rw [hnil] at hgoes
        exact hgoes henters
      rw [hlast]
      rcases createDir_of_enters henters c with ⟨e, hne, hcreate, hmissing⟩ | ⟨hcreate, hafter⟩
      · rw [createDirAllFrom_failed hne (by rwa [List.reverse_reverse]), List.reverse_reverse,
          hmissing]
        exact ⟨rfl, unlessDir_eq_ok⟩
      · rw [createDirAllFrom_cons, List.reverse_reverse, hcreate]
        exact ⟨rfl, iff_of_true rfl hafter⟩
    · obtain ⟨e, hcreate, hmissing⟩ := createDir_of_not_enters henters c
      by_cases hne : e = .notFound
      · subst hne
        rw [createDirAllFrom_cons, List.reverse_reverse, hcreate]
        dsimp only
        obtain ⟨htree, hok⟩ := ih
        rcases hup : createDirAllFrom absolute first.reverse tree with ⟨result, made⟩
        rw [hup] at htree hok
        dsimp only at htree hok
        subst htree
        cases result with
        | error e =>
          have hstop :
              ¬(tree.withDirs (missingFrom absolute tree [] first)).Enters absolute first :=
            fun h => by cases hok.mpr h
          rw [hends hstop]
          refine ⟨rfl, iff_of_false (fun h => ?_) fun h => hstop h.of_append⟩
          cases h
        | ok _ =>
          have hfirst := hok.mp rfl
          rw [hgoes hfirst, withDirs_append]
          dsimp only
          rcases createDir_of_enters hfirst c with ⟨e, -, hcreate', hmissing'⟩ | ⟨hcreate', hafter⟩
          · rw [hcreate', hmissing']
            exact ⟨rfl, unlessDir_eq_ok⟩
          · rw [hcreate']
            exact ⟨rfl, iff_of_true rfl hafter⟩
      · rw [createDirAllFrom_failed hne (by rwa [List.reverse_reverse]), List.reverse_reverse,
          hmissing hne]
        exact ⟨rfl, unlessDir_eq_ok⟩

/-- What is made on the way was free, and everything else is as it was. -/
theorem node_missingFrom (hfirst : tree.Enters absolute first) (todo : List (Step Name)) :
    (∀ made ∈ missingFrom absolute tree first todo, tree.node (made.1 ++ [made.2]) = none ∧
      (tree.withDirs (missingFrom absolute tree first todo)).node (made.1 ++ [made.2]) =
        some .dir) ∧
    ∀ loc, (∀ made ∈ missingFrom absolute tree first todo, loc ≠ made.1 ++ [made.2]) →
      (tree.withDirs (missingFrom absolute tree first todo)).node loc = tree.node loc := by
  induction todo generalizing tree first with
  | nil => exact ⟨fun made hmade => absurd hmade List.not_mem_nil, fun _ _ => rfl⟩
  | cons c todo ih =>
    rcases missingFrom_cons hfirst c with ⟨hdir, heq⟩ | ⟨dir, n, hloc, hfree, hdir, heq⟩ | ⟨-, heq⟩
    · rw [heq]
      exact ih hdir
    · rw [heq, withDirs]
      obtain ⟨hmade, hsame⟩ := ih hdir
      have hnode := @node_add _ tree dir n .dir _ hloc hfree
      constructor
      · intro made hmem
        rcases List.mem_cons.mp hmem with rfl | hmem
        · refine ⟨hfree, (withDirs_extends _ _).node _ _ ?_⟩
          rw [hnode, if_pos rfl]
        · obtain ⟨hbefore, hafter⟩ := hmade made hmem
          refine ⟨?_, hafter⟩
          by_contra hthere
          obtain ⟨what, hwhat⟩ := Option.ne_none_iff_exists'.mp hthere
          have hkept := (tree.add_extends dir n .dir).node _ _ hwhat
          rw [hbefore] at hkept
          cases hkept
      · intro loc hother
        rw [hsame loc fun made hmem => hother made (List.mem_cons_of_mem _ hmem), hnode,
          if_neg (hother (dir, n) List.mem_cons_self)]
    · rw [heq]
      exact ⟨fun made hmade => absurd hmade List.not_mem_nil, fun _ _ => rfl⟩

end Paths

/-! ### The creation of a path -/

section CreateAll

variable {tree : FileTree Name} {p : Route Name}

/-- The creation makes the directories missing on the way. -/
theorem createDirAll_tree : (tree.createDirAll p).2 = tree.withDirs (tree.missingDirs p) :=
  (createDirAllFrom_eq p.components).1

/-- It succeeds when the path can be entered then. -/
theorem createDirAll_eq_ok : (tree.createDirAll p).1 = .ok () ↔
    (tree.withDirs (tree.missingDirs p)).Enters p.absolute p.components :=
  (createDirAllFrom_eq p.components).2

/-- Nothing is missing on the way to something. -/
theorem missingDirs_of_exists (h : tree.exists_ p = true) : tree.missingDirs p = [] := by
  unfold exists_ at h
  cases hcanonical : tree.canonicalize p with
  | error e =>
    rw [hcanonical] at h
    cases h
  | ok loc =>
    have hresolve := canonicalize_eq_ok.mp hcanonical
    unfold resolve at hresolve
    by_cases hempty : p.isEmpty = true
    · rw [if_pos hempty] at hresolve
      cases hresolve
    · rw [if_neg hempty] at hresolve
      exact missingFrom_eq_nil (Or.inl ⟨loc, hresolve⟩)

/-- Something outside a set of locations is changed exactly when a directory is missing
there. -/
theorem unchanged_outside_iff {inside : List Name → Prop} :
    (∀ loc, ¬inside loc → (tree.withDirs (tree.missingDirs p)).node loc = tree.node loc) ↔
      ∀ made ∈ tree.missingDirs p, inside (made.1 ++ [made.2]) := by
  obtain ⟨hmade, hsame⟩ := node_missingFrom (@enters_nil _ _ tree p.absolute) p.components
  constructor
  · intro hunchanged made hmem
    by_contra houtside
    obtain ⟨hbefore, hafter⟩ := hmade made hmem
    have hnode := hunchanged _ houtside
    rw [hbefore] at hnode
    exact Option.some_ne_none _ (hafter.symm.trans hnode)
  · intro hinside loc houtside
    refine hsame loc fun made hmem heq => houtside ?_
    rw [heq]
    exact hinside made hmem

end CreateAll

end FileTree
