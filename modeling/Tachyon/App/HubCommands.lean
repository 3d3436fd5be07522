import Tachyon.App.Sniffer
import Tachyon.Core.Error
import Tachyon.Library.UrlSyntax

/-!
# Download URLs of the Hub

`get_hf_download_url` checks the texts of a request and writes them into a URL. The
checks look for dots and slashes in the raw text; what the URL means is decided by
the parser that reads it.
-/

namespace Tachyon

open UrlSyntax PercentEncoding Utf8

/-- `validate_repo_id`. -/
def validateRepoId (repoId : String) : Except AppError Unit :=
  if repoId.isEmpty || repoId.utf8ByteSize > 256 then
    .error (.config "repo_id 长度必须在 1~256 之间")
  else if hasText repoId ".." || repoId.toList.contains '\\' then
    .error (.config "repo_id 包含非法字符")
  else
    match repoId.toList.splitOnP (· == '/') with
    | [owner, repo] =>
      if owner.isEmpty || repo.isEmpty then .error (.config "repo_id 格式必须为 'owner/repo'")
      else .ok ()
    | _ => .error (.config "repo_id 格式必须为 'owner/repo'")

/-- `validate_revision`, where `isAlphanumeric` is `char::is_alphanumeric`. -/
def validateRevision (isAlphanumeric : Char → Bool) (rev : String) : Except AppError Unit :=
  if rev.isEmpty || rev.utf8ByteSize > 128 then
    .error (.config "revision 长度必须在 1~128 之间")
  else if !rev.toList.all fun c => isAlphanumeric c || c == '-' || c == '_' || c == '.' then
    .error (.config "revision 包含非法字符")
  else .ok ()

/-- `validate_file_path`. -/
def validateFilePath (path : String) : Except AppError Unit :=
  if path.isEmpty || path.utf8ByteSize > 1024 then
    .error (.config "file_path 长度必须在 1~1024 之间")
  else if hasText path ".." || path.toList.head? == some '/' || path.toList.head? == some '\\' then
    .error (.config "file_path 不允许路径遍历或绝对路径")
  else .ok ()

/-- `build_resolve_url`. -/
def buildResolveUrl (endpoint repoId revision filePath : String) : String :=
  s!"{endpoint}/{repoId}/resolve/{revision}/{filePath}"

/-- `get_hf_download_url`, on the endpoint of `HubApi::from_env`. -/
def getHfDownloadUrl (isAlphanumeric : Char → Bool) (endpoint repoId : String)
    (revision : Option String) (filePath : String) : Except AppError String := do
  validateRepoId repoId
  let rev := revision.getD "main"
  validateRevision isAlphanumeric rev
  validateFilePath filePath
  .ok (buildResolveUrl endpoint repoId rev filePath)

/-- `char::is_alphanumeric` on the ASCII characters. -/
def AsciiAlphanumeric (isAlphanumeric : Char → Bool) : Prop :=
  ∀ c : Char, c.toNat < 0x80 → isAlphanumeric c = c.isAlphanum

/-- The owner, the repository, `resolve`, the revision and the segments of the file's path. -/
def resolveSegments (repoId revision filePath : String) : List (List Char) :=
  repoId.toList.splitOnP (· == '/') ++
    "resolve".toList :: revision.toList :: filePath.toList.splitOnP (· == '/')

/-- A URL leads to the requested file: it is parsed to the origin's scheme and host, has no
query and no fragment, and its path decodes to the segments of the request. -/
def LeadsTo {Authority : Type} (parseAuthority : String → List Char → Option Authority)
    (origin : Origin) (repoId revision filePath url : String) : Prop :=
  ∃ authority record, parseAuthority origin.scheme origin.host = some authority ∧
    parse parseAuthority url = some record ∧
    record.scheme = origin.scheme ∧ record.authority = authority ∧
    record.query = none ∧ record.fragment = none ∧
    record.path.map decodedBytes = (resolveSegments repoId revision filePath).map encode

/-- A request with nothing in it that the parser reads otherwise than it is written. -/
structure PlainRequest (scheme repoId revision filePath : String) : Prop where
  marks : ∀ c ∈ repoId.toList ++ filePath.toList, c ≠ '?' ∧ c ≠ '#' ∧ isTabOrNewline c = false
  slashes : isSpecial scheme = true → '\\' ∉ filePath.toList
  ending : ∀ c ∈ filePath.toList.getLast?, isC0OrSpace c = false
  revision : revision ≠ "." ∧ revision ≠ ".."
  segments : ∀ s ∈ repoId.toList.splitOnP (· == '/') ++ filePath.toList.splitOnP (· == '/'),
    s ≠ ['.'] ∧ decodedBytes s = encode s
  drive : ∀ owner ∈ (repoId.toList.splitOnP (· == '/')).head?, fixDrive scheme owner = owner

/-- The characters of a text, tested one by one. -/
theorem forall_of_all {text : List Char}
    (h : text.all (fun c => c != '?' && (c != '#' && !isTabOrNewline c)) = true) :
    ∀ c ∈ text, c ≠ '?' ∧ c ≠ '#' ∧ isTabOrNewline c = false := by
  intro c hc
  simpa using List.all_eq_true.mp h c hc

/-! ### What the checks promise -/

section Checks

variable {isAlphanumeric : Char → Bool} {repoId revision filePath : String}

/-- A repository has a slash between two names, no backslash and no two dots in a row. -/
theorem validateRepoId_ok (h : validateRepoId repoId = .ok ()) :
    hasText repoId ".." = false ∧ '\\' ∉ repoId.toList := by
  unfold validateRepoId at h
  split at h
  · cases h
  · split at h
    · cases h
    · rename_i hchars
      rw [Bool.not_eq_true, Bool.or_eq_false_iff] at hchars
      exact ⟨hchars.1, by simpa using hchars.2⟩

/-- A revision has none of the characters the parser looks for but the dot. -/
theorem validateRevision_ok (hascii : AsciiAlphanumeric isAlphanumeric)
    (h : validateRevision isAlphanumeric revision = .ok ()) {c : Char} (hc : c ∈ revision.toList) :
    c ≠ '/' ∧ c ≠ '\\' ∧ c ≠ '?' ∧ c ≠ '#' ∧ c ≠ '%' ∧ isTabOrNewline c = false := by
  unfold validateRevision at h
  split at h
  · cases h
  · split at h
    · cases h
    · rename_i hchars
      rw [Bool.not_eq_true', Bool.not_eq_false, List.all_eq_true] at hchars
      have hallowed := hchars c hc
      have hnot : ∀ d : Char, d.toNat < 0x80 → (d.isAlphanum || d == '-' || d == '_' || d == '.') =
          false → c ≠ d := by
        rintro d hd hfalse rfl
        rw [hascii c hd, hfalse] at hallowed
        cases hallowed
      refine ⟨hnot _ (by decide) (by decide), hnot _ (by decide) (by decide),
        hnot _ (by decide) (by decide), hnot _ (by decide) (by decide),
        hnot _ (by decide) (by decide), ?_⟩
      unfold isTabOrNewline
      rw [Bool.or_eq_false_iff, Bool.or_eq_false_iff, beq_eq_false_iff_ne, beq_eq_false_iff_ne,
        beq_eq_false_iff_ne]
      exact ⟨⟨hnot _ (by decide) (by decide), hnot _ (by decide) (by decide)⟩,
        hnot _ (by decide) (by decide)⟩

/-- A file's path is not empty and has no two dots in a row. -/
theorem validateFilePath_ok (h : validateFilePath filePath = .ok ()) :
    filePath.toList ≠ [] ∧ hasText filePath ".." = false := by
  unfold validateFilePath at h
  split at h
  · cases h
  · rename_i hlength
    split at h
    · cases h
    · rename_i hchars
      rw [Bool.not_eq_true, Bool.or_eq_false_iff, Bool.or_eq_false_iff] at hchars
      rw [Bool.not_eq_true, Bool.or_eq_false_iff] at hlength
      refine ⟨?_, hchars.1.1⟩
      intro hnil
      simp [String.toList_eq_nil_iff.mp hnil] at hlength

/-- A text without two dots in a row has no segment of two dots. -/
theorem ne_dots_of_hasText {text : String} (h : hasText text ".." = false) {s : List Char}
    (hs : s ∈ text.toList.splitOnP (· == '/')) : s ≠ ['.', '.'] := by
  rintro rfl
  exact absurd (infix_of_mem_splitOnP hs) (of_decide_eq_false h)

end Checks

/-! ### The path of the URL -/

/-- What `build_resolve_url` writes after the endpoint and a slash. -/
def resolvePath (repoId revision filePath : String) : List Char :=
  repoId.toList ++ '/' :: ("resolve".toList ++ '/' :: (revision.toList ++ '/' :: filePath.toList))

theorem buildResolveUrl_eq (origin : List Char) (repoId revision filePath : String) :
    buildResolveUrl (String.ofList origin) repoId revision filePath =
      String.ofList (origin ++ '/' :: resolvePath repoId revision filePath) := by
  refine String.toList_inj.mp ?_
  simp [buildResolveUrl, resolvePath, toString]

section Path

variable {scheme repoId revision filePath : String}

theorem splitOnP_resolvePath (hrevision : '/' ∉ revision.toList) :
    (resolvePath repoId revision filePath).splitOnP (· == '/') =
      resolveSegments repoId revision filePath := by
  have hseparates (before after : List Char) : (before ++ '/' :: after).splitOnP (· == '/') =
      before.splitOnP (· == '/') ++ after.splitOnP (· == '/') :=
    List.splitOnP_append_cons before after rfl
  have hsingle : revision.toList.splitOnP (· == '/') = [revision.toList] := by
    refine List.splitOnP_eq_singleton fun c hc => beq_eq_false_iff_ne.mpr ?_
    rintro rfl
    exact hrevision hc
  unfold resolvePath resolveSegments
  rw [hseparates, hseparates, hseparates, hsingle]
  rfl

/-- The written path is plain exactly where the request is. -/
theorem plainPath_iff {isAlphanumeric : Char → Bool} (hascii : AsciiAlphanumeric isAlphanumeric)
    (hrepo : validateRepoId repoId = .ok ())
    (hrev : validateRevision isAlphanumeric revision = .ok ())
    (hpath : validateFilePath filePath = .ok ()) :
    PlainPath scheme (resolvePath repoId revision filePath) ↔
      PlainRequest scheme repoId revision filePath := by
  obtain ⟨hrepoDots, hrepoBack⟩ := validateRepoId_ok hrepo
  obtain ⟨hne, hpathDots⟩ := validateFilePath_ok hpath
  have hchars := fun c => @validateRevision_ok isAlphanumeric revision hascii hrev c
  have hsplit := @splitOnP_resolvePath repoId revision filePath fun hc => (hchars _ hc).1 rfl
  have hmem (c : Char) : c ∈ resolvePath repoId revision filePath ↔ c ∈ repoId.toList ∨
      c ∈ "/resolve/".toList ∨ c ∈ revision.toList ∨ c = '/' ∨ c ∈ filePath.toList := by
    simp [resolvePath, or_assoc]
  have hlast : (resolvePath repoId revision filePath).getLast? = filePath.toList.getLast? := by
    cases hfile : filePath.toList.getLast? with
    | none => exact absurd (List.getLast?_eq_none_iff.mp hfile) hne
    | some c => simp [resolvePath, List.getLast?_cons, hfile]
  have hhead : (resolveSegments repoId revision filePath).head? =
      (repoId.toList.splitOnP (· == '/')).head? := by
    unfold resolveSegments
    cases hpieces : repoId.toList.splitOnP (· == '/') with
    | nil => exact absurd hpieces (List.splitOnP_ne_nil _ _)
    | cons owner rest => rfl
  have hsegments (s : List Char) : s ∈ resolveSegments repoId revision filePath ↔
      s ∈ repoId.toList.splitOnP (· == '/') ++ filePath.toList.splitOnP (· == '/') ∨
        s = "resolve".toList ∨ s = revision.toList := by
    simp only [resolveSegments, List.mem_append, List.mem_cons]
    tauto
  constructor
  · intro h
    have hplain := h.segments
    have hdrive := h.drive
    rw [hsplit] at hplain hdrive
    refine ⟨fun c hc => ?_, fun hspecial hc => ?_, fun c hc => ?_, ?_, fun s hs => ?_, ?_⟩
    · refine h.marks c ((hmem c).mpr ?_)
      rcases List.mem_append.mp hc with hc | hc
      · exact Or.inl hc
      · exact Or.inr (Or.inr (Or.inr (Or.inr hc)))
    · have hslash := h.slashes '\\' ((hmem _).mpr (Or.inr (Or.inr (Or.inr (Or.inr hc)))))
        (by simp [isSlash, hspecial])
      revert hslash
      decide
    · exact h.ending c (hlast ▸ hc)
    · obtain ⟨hsingle, hdouble, -⟩ :=
        hplain revision.toList ((hsegments _).mpr (Or.inr (Or.inr rfl)))
      refine ⟨?_, ?_⟩
      · rintro rfl
        exact hsingle rfl
      · rintro rfl
        exact hdouble rfl
    · obtain ⟨hsingle, -, hdecoded⟩ := hplain s ((hsegments s).mpr (Or.inl hs))
      exact ⟨hsingle, hdecoded⟩
    · rw [← hhead]
      exact hdrive
  · intro h
    have hback : '\\' ∉ "/resolve/".toList := by decide
    have hwords : ∀ c ∈ "/resolve/".toList, c ≠ '?' ∧ c ≠ '#' ∧ isTabOrNewline c = false :=
      forall_of_all (by decide)
    refine ⟨fun c hc => ?_, fun c hc hslash => ?_, fun c hc => ?_, ?_, ?_⟩
    · rcases (hmem c).mp hc with hc | hc | hc | rfl | hc
      · exact h.marks c (List.mem_append_left _ hc)
      · exact hwords c hc
      · obtain ⟨-, -, hquery, hhash, -, htab⟩ := hchars c hc
        exact ⟨hquery, hhash, htab⟩
      · decide
      · exact h.marks c (List.mem_append_right _ hc)
    · by_contra hne
      have hspecial : isSpecial scheme = true ∧ c = '\\' := by
        simpa [isSlash, hne] using hslash
      obtain ⟨hspecial, rfl⟩ := hspecial
      rcases (hmem _).mp hc with hc | hc | hc | hc | hc
      · exact hrepoBack hc
      · exact hback hc
      · exact (hchars _ hc).2.1 rfl
      · exact hne hc
      · exact h.slashes hspecial hc
    · exact h.ending c (hlast ▸ hc)
    · rw [hsplit]
      intro s hs
      rcases (hsegments s).mp hs with hs | rfl | rfl
      · obtain ⟨hsingle, hdecoded⟩ := h.segments s hs
        refine ⟨hsingle, ?_, hdecoded⟩
        rcases List.mem_append.mp hs with hs | hs
        · exact ne_dots_of_hasText hrepoDots hs
        · exact ne_dots_of_hasText hpathDots hs
      · decide
      · refine ⟨fun heq => h.revision.1 (String.toList_inj.mp heq),
          fun heq => h.revision.2 (String.toList_inj.mp heq), ?_⟩
        exact decodedBytes_of_not_mem fun hc => (hchars _ hc).2.2.2.2.1 rfl
    · rw [hsplit, hhead]
      exact h.drive

end Path

/-- What `get_hf_download_url` accepts, and what it returns then. -/
theorem getHfDownloadUrl_ok {isAlphanumeric : Char → Bool} {endpoint repoId filePath url : String}
    {revision : Option String}
    (h : getHfDownloadUrl isAlphanumeric endpoint repoId revision filePath = .ok url) :
    validateRepoId repoId = .ok () ∧
      validateRevision isAlphanumeric (revision.getD "main") = .ok () ∧
      validateFilePath filePath = .ok () ∧
      url = buildResolveUrl endpoint repoId (revision.getD "main") filePath := by
  obtain ⟨_, hrepo, h⟩ := bind_eq_ok.mp h
  obtain ⟨_, hrev, h⟩ := bind_eq_ok.mp h
  obtain ⟨_, hpath, h⟩ := bind_eq_ok.mp h
  exact ⟨hrepo, hrev, hpath, (Except.ok.inj h).symm⟩

/-- An accepted request is given a URL that leads to the requested file exactly when nothing in
it is read otherwise than it is written. -/
theorem hub_url_leadsTo_iff {Authority : Type}
    (parseAuthority : String → List Char → Option Authority) (isAlphanumeric : Char → Bool)
    (hascii : AsciiAlphanumeric isAlphanumeric) (origin : Origin) (authority : Authority)
    (hhost : parseAuthority origin.scheme origin.host = some authority)
    (repoId : String) (revision : Option String) (filePath url : String)
    (hurl : getHfDownloadUrl isAlphanumeric (String.ofList origin.text) repoId revision filePath =
      .ok url) :
    LeadsTo parseAuthority origin repoId (revision.getD "main") filePath url ↔
      PlainRequest origin.scheme repoId (revision.getD "main") filePath := by
  obtain ⟨hrepo, hrev, hpath, rfl⟩ := getHfDownloadUrl_ok hurl
  have hchars := fun c => @validateRevision_ok isAlphanumeric (revision.getD "main") hascii hrev c
  have hsplit := @splitOnP_resolvePath repoId (revision.getD "main") filePath
    fun hc => (hchars _ hc).1 rfl
  rw [← plainPath_iff hascii hrepo hrev hpath, ← reads_iff_plain, hsplit]
  unfold LeadsTo
  rw [buildResolveUrl_eq, parse_origin, hhost]
  constructor
  · rintro ⟨_, record, -, hrecord, -, -, hquery, hfragment, hdecoded⟩
    obtain rfl := Option.some.inj hrecord
    exact ⟨hquery, hfragment, hdecoded⟩
  · rintro ⟨hquery, hfragment, hdecoded⟩
    exact ⟨authority, _, rfl, rfl, rfl, rfl, hquery, hfragment, hdecoded⟩

/-- The endpoint `https://huggingface.co`. -/
def hubOrigin : Origin where
  name := "https".toList
  host := "huggingface.co".toList
  name_alpha := by decide
  name_chars := List.all_eq_true.mp (by decide)
  host_ne_nil := by decide
  host_chars := List.all_eq_true.mp (by decide)
  host_drive := by decide

theorem hub_url_leadsTo_iff_plain : LeadsTo (fun _ host => some host) hubOrigin "owner/repo" "main"
    "dir/model 1.bin" "https://huggingface.co/owner/repo/resolve/main/dir/model 1.bin" := by
  refine (hub_url_leadsTo_iff (fun _ host => some host) Char.isAlphanum (fun _ _ => rfl) hubOrigin
    "huggingface.co".toList rfl "owner/repo" none "dir/model 1.bin" _ ?_).mpr ?_
  · decide +kernel
  · refine ⟨forall_of_all (by decide), by decide +kernel, fun c hc => ?_, by decide,
      by decide +kernel, by decide +kernel⟩
    have hlast : "dir/model 1.bin".toList.getLast? = some 'n' := by decide
    obtain rfl := Option.some.inj (hlast.symm.trans hc)
    rfl

/-- Escaped dots up to the host, and the path of a file in another repository. -/
def escapingPath : String := "%2e%2e/%2E%2e/%2e%2E/%2e%2e/other/repo/resolve/main/x"

/-- Escaped dots lead out of the repository and into another one. -/
theorem hub_url_escapes :
    ∃ url, getHfDownloadUrl Char.isAlphanum (String.ofList hubOrigin.text) "owner/repo" none
        escapingPath = .ok url ∧
      (parse (fun _ host => some host) url).map (fun record => record.path.map String.ofList) =
        some ["other", "repo", "resolve", "main", "x"] ∧
      ¬LeadsTo (fun _ host => some host) hubOrigin "owner/repo" "main" escapingPath url := by
  have hparsed : (parse (fun _ host => some host)
      (buildResolveUrl "https://huggingface.co" "owner/repo" "main" escapingPath)).map
        (fun record => record.path.map String.ofList) =
      some ["other", "repo", "resolve", "main", "x"] := by
    decide +kernel
  have hsegments : (resolveSegments "owner/repo" "main" escapingPath).length = 13 := by
    decide +kernel
  refine ⟨buildResolveUrl "https://huggingface.co" "owner/repo" "main" escapingPath,
    by decide +kernel, hparsed, ?_⟩
  rintro ⟨authority, record, -, hrecord, -, -, -, -, hpath⟩
  have hlength := congrArg List.length hpath
  rw [hrecord] at hparsed
  have hfive := congrArg List.length (Option.some.inj hparsed)
  rw [List.length_map] at hfive
  rw [List.length_map, List.length_map, hfive, hsegments] at hlength
  cases hlength

end Tachyon
