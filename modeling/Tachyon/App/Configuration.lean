import Tachyon.App.ActiveCap
import Tachyon.App.DownloadDir
import Tachyon.App.RejectedCreation
import Tachyon.App.Sniffer
import Tachyon.Core.Config

/-!
# The configuration of a running application

`update_config` checks a configuration before it takes the lock, so that others may be stored
between the check and the write, and `create_task` reads the configuration twice, with awaits in
between. All that is ever stored has passed the checks, and so has what the downloads are given.
-/

namespace Tachyon

open EventRuns

/-! ### The checks of the command -/

/-- The check of one entry of `authorized_dirs` in `validate_config`. -/
def validateAuthorizedDir (tree : FileTree String) (dir : String) : Except AppError Unit :=
  let path := StdPath.new dir
  if dir.isEmpty then .error (.config "authorized_dirs 不能为空路径")
  else if ¬path.absolute then .error (.config s!"authorized_dirs 必须是绝对路径: {dir}")
  else if ¬tree.exists_ path.toPath then .error (.config s!"authorized_dirs 路径不存在: {dir}")
  else
    match tree.canonicalize path.toPath with
    | .error _ => .error (.config s!"authorized_dirs 路径无法解析: {dir}")
    | .ok canonical =>
      if ¬tree.isDir (.ofLoc canonical) then
        .error (.config s!"authorized_dirs 必须是目录: {dir}")
      else if isForbiddenAuthorizedRoot canonical then
        .error (.config s!"authorized_dirs 不允许包含系统根目录: {dir}")
      else .ok ()

/-- A header's name is one of those only the client sets, its case aside. -/
def isReservedHeader (key : String) : Bool :=
  ["authorization", "cookie", "proxy-authorization"].contains
    (String.ofList (key.toList.map lowerAscii))

/-- `str::contains` of a carriage return or a newline. -/
def breaksLine (text : String) : Bool := text.toList.contains '\r' || text.toList.contains '\n'

/-- The check of one header in `validate_config`. -/
def validateHeader (header : String × String) : Except AppError Unit :=
  let key := header.1
  if isReservedHeader key then .error (.config s!"headers 不允许设置敏感头: {key}")
  else if breaksLine key then .error (.config s!"headers 键不能包含换行符(CR/LF): {key}")
  else if breaksLine header.2 then .error (.config s!"headers 值不能包含换行符(CR/LF): {key}")
  else .ok ()

/-- `validate_config` -/
def validateConfig (tree : FileTree String) (config : AppConfig) : Except AppError Unit := do
  config.validate.mapError fun
    | .config message => .config message
    | other => .core other
  config.download.authorizedDirs.forM (validateAuthorizedDir tree)
  config.download.headers.forM validateHeader

/-- `build_download_config` -/
def buildDownloadConfig (config : AppConfig) (downloadDir : String) : DownloadSettings :=
  { config.download with downloadDir := downloadDir }

/-- The directory of `DownloadConfig::default`. -/
def defaultDownloadDir (home : Option String) (tempDir : String) : String :=
  match home with
  | some home => joinPath home "Downloads"
  | none => joinPath tempDir "tachyon-downloads"

/-! ### The application and its configuration -/

/-- An application with its configuration and the file system. `updates` are the calls of
`update_config` that have made their checks, `requests` those of `create_task` that have read the
configuration, `downloads` the configurations the tasks were spawned with. -/
structure ConfiguredApp where
  app : AppState
  config : AppConfig
  tree : FileTree String
  updates : List AppConfig
  requests : List (String × CreateRequest)
  downloads : String → Option DownloadSettings

/-- A process that starts, on what an earlier one left. -/
def ConfiguredApp.start (store : String → Option TaskSnapshot) (tree : FileTree String)
    (home : Option String) (tempDir : String) : ConfiguredApp where
  app := .new store
  config := .default (defaultDownloadDir home tempDir)
  tree := tree
  updates := []
  requests := []
  downloads := fun _ => none

/-- The steps of the application, as far as the configuration has a part in them. -/
inductive ConfigEvent where
  /-- `update_config`, up to its lock. -/
  | update (config : AppConfig)
  /-- A call of `update_config` writes the configuration. -/
  | store (call : ℕ)
  /-- `create_task` reads the configuration and authorises its directory. -/
  | request (id : String) (url : Except String Url) (mirrorUrls : List (Except String Url))
    (downloadDir : Option String) (createdAt : String)
  /-- A `create_task` inserts its task. -/
  | insert (call : ℕ)
  /-- A `create_task` reads the configuration again, for its task. -/
  | configure (id : String)
  /-- Any other step of the application. -/
  | app (e : AppEvent)
  /-- The file system changes. -/
  | disk (tree : FileTree String)
  /-- The process ends and starts again. -/
  | restart (home : Option String) (tempDir : String)

/-- The events of the application that do not read the configuration. -/
def AppEvent.unconfigured : AppEvent → Bool
  | .create _ _ => false
  | .creation _ (.configure _) => false
  | _ => true

namespace ConfiguredApp

/-- What `create_task` is called with, and what it reads. -/
def createRequest (s : ConfiguredApp) (url : Except String Url)
    (mirrorUrls : List (Except String Url)) (downloadDir : Option String) (createdAt : String) :
    CreateRequest where
  url := url
  mirrorUrls := mirrorUrls
  downloadDir := (authorizeDownloadDir s.tree s.config.download.authorizedDirs
    (downloadDir.getD s.config.download.downloadDir)).1
  maxTasks := s.config.maxConcurrentTasks
  createdAt := createdAt

/-- One step, `none` where it cannot happen or is refused. -/
def step (text : Ipv6Addr → String) (s : ConfiguredApp) : ConfigEvent → Option ConfiguredApp
  | .update config => do
    (validateConfig s.tree config).toOption
    some { s with updates := s.updates ++ [config] }
  | .store call => do
    let config ← s.updates[call]?
    some { s with
      config := config
      updates := s.updates.eraseIdx call }
  | .request id url mirrorUrls downloadDir createdAt => do
    let request := s.createRequest url mirrorUrls downloadDir createdAt
    let _ ← (request.validate text).toOption
    some { s with
      tree := (authorizeDownloadDir s.tree s.config.download.authorizedDirs
        (downloadDir.getD s.config.download.downloadDir)).2
      requests := s.requests ++ [(id, request)] }
  | .insert call => do
    let (id, request) ← s.requests[call]?
    let app ← s.app.step text .copied (.create id request)
    some { s with
      app := app
      requests := s.requests.eraseIdx call }
  | .configure id => do
    let fragments := s.config.download.maxConcurrentFragments
    let creation ← s.app.creations id
    let app ← s.app.step text .copied (.creation id (.configure fragments))
    some { s with
      app := app
      downloads := if fragments = 0 then s.downloads
        else Function.update s.downloads id
          (some (buildDownloadConfig s.config creation.downloadDir)) }
  | .app e => do
    guard (e.unconfigured = true)
    let app ← s.app.step text .copied e
    some { s with app := app }
  | .disk tree => some { s with tree := tree }
  | .restart home tempDir => some (start s.app.store s.tree home tempDir)

end ConfiguredApp

/-! ### What the checks let pass -/

/-- A header that may be set: no name of its client's own, and on one line. -/
structure HeaderAllowed (header : String × String) : Prop where
  free : isReservedHeader header.1 = false
  key : breaksLine header.1 = false
  value : breaksLine header.2 = false

/-- What every stored configuration is: in range, with headers that may be set. -/
structure AppConfig.Sound (config : AppConfig) : Prop where
  inRange : config.InRange
  headers : ∀ header ∈ config.download.headers, HeaderAllowed header

section Checks

variable {tree : FileTree String}

theorem forM_eq_ok {ε α : Type} {f : α → Except ε Unit} {xs : List α} :
    xs.forM f = .ok () ↔ ∀ x ∈ xs, f x = .ok () := by
  induction xs with
  | nil => exact iff_of_true rfl (by simp)
  | cons x xs ih =>
    have hcons : (x :: xs).forM f = f x >>= fun _ => xs.forM f := rfl
    rw [hcons, then_eq_ok, ih, List.forall_mem_cons]

theorem validateHeader_eq_ok {header : String × String} :
    validateHeader header = .ok () ↔ HeaderAllowed header := by
  unfold validateHeader
  dsimp only
  split
  case isTrue hfree => exact iff_of_false (by simp) fun h => by simp [h.free] at hfree
  case isFalse hfree =>
    split
    case isTrue hkey => exact iff_of_false (by simp) fun h => by simp [h.key] at hkey
    case isFalse hkey =>
      split
      case isTrue hvalue => exact iff_of_false (by simp) fun h => by simp [h.value] at hvalue
      case isFalse hvalue =>
        exact iff_of_true rfl ⟨Bool.eq_false_of_not_eq_true hfree,
          Bool.eq_false_of_not_eq_true hkey, Bool.eq_false_of_not_eq_true hvalue⟩

/-- The command accepts an entry exactly where `create_task` finds a root for it. -/
theorem validateAuthorizedDir_eq_ok {dir : String} : validateAuthorizedDir tree dir = .ok () ↔
    ∃ root, canonicalAuthorizedRoot tree dir = .ok root := by
  unfold validateAuthorizedDir canonicalAuthorizedRoot
  dsimp only
  by_cases hempty : dir.isEmpty = true
  · simp [hempty]
  · by_cases habsolute : (StdPath.new dir).absolute = true
    · by_cases hexists : tree.exists_ (StdPath.new dir).toPath = true
      · cases hcanonical : tree.canonicalize (StdPath.new dir).toPath with
        | error e => simp [hempty, habsolute, hexists]
        | ok canonical =>
          by_cases hdir : tree.isDir (.ofLoc canonical) = true
          · by_cases hforbidden : isForbiddenAuthorizedRoot canonical = true
            · simp [hempty, habsolute, hexists, hdir, hforbidden]
            · simp [hempty, habsolute, hexists, hdir, hforbidden]
          · simp [hempty, habsolute, hexists, hdir]
      · simp [hempty, habsolute, hexists]
    · simp [hempty, habsolute]

theorem exists_mapM_ok {ε α γ : Type} {f : α → Except ε γ} {xs : List α} :
    (∃ ys, xs.mapM f = .ok ys) ↔ ∀ x ∈ xs, ∃ y, f x = .ok y := by
  induction xs with
  | nil => exact iff_of_true ⟨[], rfl⟩ (by simp)
  | cons x xs ih =>
    rw [List.forall_mem_cons, ← ih]
    constructor
    · rintro ⟨ys, h⟩
      rw [List.mapM_cons] at h
      obtain ⟨y, hy, h⟩ := bind_eq_ok.mp h
      obtain ⟨rest, hrest, -⟩ := bind_eq_ok.mp h
      exact ⟨⟨y, hy⟩, rest, hrest⟩
    · rintro ⟨⟨y, hy⟩, rest, hrest⟩
      exact ⟨y :: rest, by rw [List.mapM_cons, hy, hrest]; rfl⟩

theorem mapError_eq_ok {ε ε' : Type} {x : Except ε Unit} {f : ε → ε'} :
    x.mapError f = .ok () ↔ x = .ok () := by
  cases x <;> simp [Except.mapError]

/-- The command accepts the sound configurations whose directories all have a root. -/
theorem validateConfig_eq_ok {config : AppConfig} : validateConfig tree config = .ok () ↔
    config.Sound ∧ ∃ roots, canonicalAuthorizedRoots tree config.download.authorizedDirs =
      .ok roots := by
  have hroots (hdirs : config.download.authorizedDirs ≠ []) :
      (∃ roots, canonicalAuthorizedRoots tree config.download.authorizedDirs = .ok roots) ↔
        ∀ dir ∈ config.download.authorizedDirs, validateAuthorizedDir tree dir = .ok () := by
    unfold canonicalAuthorizedRoots
    rw [if_neg (by simpa using hdirs)]
    simp only [validateAuthorizedDir_eq_ok]
    exact exists_mapM_ok
  simp only [validateConfig, then_eq_ok, mapError_eq_ok, AppConfig.validate_eq_ok, forM_eq_ok,
    validateHeader_eq_ok]
  constructor
  · rintro ⟨hrange, hdirs, hheaders⟩
    exact ⟨⟨hrange, hheaders⟩, (hroots hrange.download.authorizedDirs).mpr hdirs⟩
  · rintro ⟨⟨hrange, hheaders⟩, hdirs⟩
    exact ⟨hrange, (hroots hrange.download.authorizedDirs).mp hdirs, hheaders⟩

theorem joinPath_ne_empty {dir name : String} (hname : name ≠ "") : joinPath dir name ≠ "" := by
  unfold joinPath
  split
  · exact hname
  · split <;> simp [hname]

theorem defaultDownloadDir_ne_empty {home : Option String} {tempDir : String} :
    defaultDownloadDir home tempDir ≠ "" := by
  cases home with
  | some home => exact joinPath_ne_empty (by decide)
  | none => exact joinPath_ne_empty (by decide)

theorem AppConfig.sound_default {downloadDir : String} (hdir : downloadDir ≠ "") :
    (AppConfig.default downloadDir).Sound where
  inRange := AppConfig.inRange_default hdir
  headers := fun _ h => absurd h List.not_mem_nil

/-- A directory that is authorised has a name. -/
theorem authorizeDownloadDir_ne_empty {dirs : List String} {requested : String} :
    (authorizeDownloadDir tree dirs requested).1 ≠ .ok "" := by
  unfold authorizeDownloadDir
  split
  · simp
  · split
    · simp
    · split
      · simp
      · split
        · simp
        · simp [displayPath]

end Checks

/-! ### What every state keeps -/

namespace AppState

/-- A call of `create_task` keeps the directory it was given. -/
theorem creationStep_downloadDir {s s' : AppState} {id : String} {creation : Creation}
    {e : CreationEvent} (h : s.creationStep id creation e = some s') {later : Creation}
    (hlater : s'.creations id = some later) : later.downloadDir = creation.downloadDir := by
  have hself (c : Option Creation) (hs : s'.creations = Function.update s.creations id c)
      (hc : ∀ c' ∈ c, c'.downloadDir = creation.downloadDir) :
      later.downloadDir = creation.downloadDir := by
    rw [hs, Function.update_self] at hlater
    exact hc later hlater
  have hkeeps (phase : CreationPhase) :
      ∀ c' ∈ some { creation with phase := phase }, c'.downloadDir = creation.downloadDir := by
    rintro _ ⟨⟩
    rfl
  cases e with
  | copy =>
    obtain ⟨phase, -, -, rfl⟩ := creationStep_copy h
    exact hself _ rfl (hkeeps phase)
  | save now saved =>
    obtain ⟨task, store, -, rfl⟩ := creationStep_save h
    exact hself _ rfl (hkeeps _)
  | configure maxConcurrentFragments =>
    obtain ⟨-, ⟨-, rfl⟩ | ⟨-, rfl⟩⟩ := creationStep_configure h
    · exact hself none rfl (by simp)
    · exact hself _ rfl (hkeeps _)
  | clone =>
    obtain ⟨-, rfl⟩ := creationStep_clone h
    exact hself _ rfl (hkeeps _)
  | register =>
    obtain ⟨-, rfl⟩ := creationStep_register h
    exact hself _ rfl (hkeeps _)
  | start =>
    obtain ⟨-, rfl⟩ := creationStep_start h
    exact hself none rfl (by simp)

/-- The directory of a call of `create_task` is the one of its request. -/
theorem step_downloadDir {text : Ipv6Addr → String} {s s' : AppState} {e : AppEvent}
    (h : s.step text .copied e = some s') {id : String} {creation : Creation}
    (hcreation : s'.creations id = some creation) :
    (∃ earlier, s.creations id = some earlier ∧ creation.downloadDir = earlier.downloadDir) ∨
      ∃ request, e = .create id request ∧ request.validate text = .ok creation.downloadDir := by
  by_cases hnew : ∃ request, e = .create id request
  · obtain ⟨request, rfl⟩ := hnew
    obtain ⟨-, downloadDir, hvalid, -, -, rfl⟩ := step_create h
    obtain rfl := Option.some.inj ((Function.update_self id _ s.creations).symm.trans hcreation)
    exact Or.inr ⟨request, rfl, hvalid⟩
  left
  by_cases hown : ∃ e', e = .creation id e'
  · obtain ⟨e', rfl⟩ := hown
    obtain ⟨earlier, hearlier, h⟩ := step_creation h
    exact ⟨earlier, hearlier, creationStep_downloadDir h hcreation⟩
  · have hlife : s.lifeStep text (.app e) = some s' := h
    rcases creations_step (fun e' he => hown ⟨e', LifeEvent.app.inj he⟩)
      (fun request he => hnew ⟨request, LifeEvent.app.inj he⟩) hlife with hnone | hsame
    · rw [hnone] at hcreation
      cases hcreation
    · exact ⟨creation, hsame ▸ hcreation, rfl⟩

end AppState

namespace ConfiguredApp

/-- What every state keeps: what is stored, or may be yet, has passed the checks, and a task's
directory has a name from the request on. -/
structure Sound (s : ConfiguredApp) : Prop where
  config : s.config.Sound
  updates : ∀ config ∈ s.updates, config.Sound
  requests : ∀ call ∈ s.requests, call.2.maxTasks ≤ 100 ∧ call.2.downloadDir ≠ .ok ""
  creations : ∀ id creation, s.app.creations id = some creation → creation.downloadDir ≠ ""
  downloads : ∀ id settings, s.downloads id = some settings →
    settings.InRange ∧ ∀ header ∈ settings.headers, HeaderAllowed header

section Steps

variable {text : Ipv6Addr → String} {s s' : ConfiguredApp}

theorem sound_start {store : String → Option TaskSnapshot} {tree : FileTree String}
    {home : Option String} {tempDir : String} : (start store tree home tempDir).Sound where
  config := AppConfig.sound_default defaultDownloadDir_ne_empty
  updates := fun _ h => absurd h List.not_mem_nil
  requests := fun _ h => absurd h List.not_mem_nil
  creations := fun _ _ h => absurd h (Option.some_ne_none _).symm
  downloads := fun _ _ h => absurd h (Option.some_ne_none _).symm

/-- A task's configuration is the one in force, with the directory of its own. -/
theorem buildDownloadConfig_inRange {config : AppConfig} {downloadDir : String}
    (h : config.Sound) (hdir : downloadDir ≠ "") :
    (buildDownloadConfig config downloadDir).InRange ∧
      ∀ header ∈ (buildDownloadConfig config downloadDir).headers, HeaderAllowed header :=
  ⟨{ h.inRange.download with downloadDir := hdir }, h.headers⟩

/-- The steps of the application that do not read the configuration. -/
theorem Sound.advance (h : s.Sound) {app : AppState} {e : AppEvent}
    (hstep : s.app.step text .copied e = some app)
    (hnew : ∀ id request, e = .create id request → request.downloadDir ≠ .ok "") :
    ∀ id creation, app.creations id = some creation → creation.downloadDir ≠ "" := by
  intro id creation hcreation
  rcases AppState.step_downloadDir hstep hcreation with ⟨earlier, hearlier, hdir⟩ |
    ⟨request, he, hvalid⟩
  · rw [hdir]
    exact h.creations id earlier hearlier
  · rintro hempty
    obtain ⟨_, -, hvalid⟩ := bind_eq_ok.mp hvalid
    obtain ⟨_, -, hdir⟩ := bind_eq_ok.mp hvalid
    exact hnew id request he (hempty ▸ hdir)

theorem Sound.step (h : s.Sound) {e : ConfigEvent} (hstep : s.step text e = some s') :
    s'.Sound := by
  cases e with
  | update config =>
    obtain ⟨_, hvalid, hstep⟩ := Option.bind_eq_some_iff.mp hstep
    obtain rfl := Option.some.inj hstep
    obtain ⟨hsound, -⟩ := validateConfig_eq_ok.mp (AppState.toOption_eq_some.mp hvalid)
    refine { h with updates := fun config' hmem => ?_ }
    rcases List.mem_append.mp hmem with hold | hnew
    · exact h.updates config' hold
    · rwa [List.mem_singleton.mp hnew]
  | store call =>
    obtain ⟨config, hcall, hstep⟩ := Option.bind_eq_some_iff.mp hstep
    obtain rfl := Option.some.inj hstep
    exact { h with
      config := h.updates config (List.mem_of_getElem? hcall)
      updates := fun config' hmem => h.updates config' (List.mem_of_mem_eraseIdx hmem) }
  | request id url mirrorUrls downloadDir createdAt =>
    obtain ⟨dir, hvalid, hstep⟩ := Option.bind_eq_some_iff.mp hstep
    obtain rfl := Option.some.inj hstep
    refine { h with requests := fun call hmem => ?_ }
    rcases List.mem_append.mp hmem with hold | hnew
    · exact h.requests call hold
    · rw [List.mem_singleton.mp hnew]
      exact ⟨h.config.inRange.tasks.2, authorizeDownloadDir_ne_empty⟩
  | insert call =>
    obtain ⟨⟨id, request⟩, hcall, hstep⟩ := Option.bind_eq_some_iff.mp hstep
    obtain ⟨app, happ, hstep⟩ := Option.bind_eq_some_iff.mp hstep
    obtain rfl := Option.some.inj hstep
    have hrequest := (h.requests _ (List.mem_of_getElem? hcall)).2
    refine { h with
      requests := fun call hmem => h.requests call (List.mem_of_mem_eraseIdx hmem)
      creations := h.advance happ ?_ }
    rintro _ _ ⟨⟩
    exact hrequest
  | configure id =>
    obtain ⟨creation, hcreation, hstep⟩ := Option.bind_eq_some_iff.mp hstep
    obtain ⟨app, happ, hstep⟩ := Option.bind_eq_some_iff.mp hstep
    obtain rfl := Option.some.inj hstep
    refine { h with
      creations := h.advance happ (by rintro _ _ ⟨⟩)
      downloads := fun j settings hj => ?_ }
    dsimp only at hj
    split at hj
    · exact h.downloads j settings hj
    · by_cases hid : j = id
      · subst hid
        obtain rfl := Option.some.inj ((Function.update_self j _ s.downloads).symm.trans hj)
        exact buildDownloadConfig_inRange h.config (h.creations j creation hcreation)
      · rw [Function.update_of_ne hid] at hj
        exact h.downloads j settings hj
  | app e =>
    obtain ⟨hother, hstep⟩ := guard_bind_eq_some.mp hstep
    obtain ⟨app, happ, hstep⟩ := Option.bind_eq_some_iff.mp hstep
    obtain rfl := Option.some.inj hstep
    refine { h with creations := h.advance happ ?_ }
    rintro _ _ rfl
    cases hother
  | disk tree =>
    obtain rfl := Option.some.inj hstep
    exact { h with }
  | restart home tempDir =>
    obtain rfl := Option.some.inj hstep
    exact sound_start

/-- What the application can rely on in a state. -/
structure Promises (text : Ipv6Addr → String) (s : ConfiguredApp) : Prop where
  /-- The configuration in force is sound. -/
  config : s.config.Sound
  /-- So is the one of every download. -/
  downloads : ∀ id settings, s.downloads id = some settings →
    settings.InRange ∧ ∀ header ∈ settings.headers, HeaderAllowed header
  /-- A call of `create_task` that has inserted its task does not take it out again, and spawns it
  with the configuration in force and the directory that was authorised. -/
  configures : ∀ id s', s.step text (.configure id) = some s' → s'.app.tasks = s.app.tasks ∧
    ∃ creation, s.app.creations id = some creation ∧
      s'.downloads id = some (buildDownloadConfig s.config creation.downloadDir)
  /-- No insertion goes beyond a hundred active tasks. -/
  inserts : ∀ call s', s.step text (.insert call) = some s' → s'.app.tasks.activeCount ≤ 100
  /-- What `get_config` gives is accepted again exactly where downloads can be authorised. -/
  resubmits : validateConfig s.tree s.config = .ok () ↔
    ∃ roots, canonicalAuthorizedRoots s.tree s.config.download.authorizedDirs = .ok roots

theorem Sound.promises (h : s.Sound) : s.Promises text where
  config := h.config
  downloads := h.downloads
  configures := by
    intro id s' hstep
    obtain ⟨creation, hcreation, hstep⟩ := Option.bind_eq_some_iff.mp hstep
    obtain ⟨app, happ, hstep⟩ := Option.bind_eq_some_iff.mp hstep
    obtain rfl := Option.some.inj hstep
    have hfragments : s.config.download.maxConcurrentFragments ≠ 0 := by
      have := h.config.inRange.download.fragments.1
      omega
    obtain ⟨creation', hcreation', happ⟩ := AppState.step_creation happ
    obtain ⟨-, ⟨hzero, -⟩ | ⟨-, rfl⟩⟩ := AppState.creationStep_configure happ
    · exact absurd hzero hfragments
    · refine ⟨rfl, creation, hcreation, ?_⟩
      dsimp only
      rw [if_neg hfragments, Function.update_self]
  inserts := by
    intro call s' hstep
    obtain ⟨⟨id, request⟩, hcall, hstep⟩ := Option.bind_eq_some_iff.mp hstep
    obtain ⟨app, happ, hstep⟩ := Option.bind_eq_some_iff.mp hstep
    obtain rfl := Option.some.inj hstep
    have hmax : request.maxTasks ≤ 100 := (h.requests _ (List.mem_of_getElem? hcall)).1
    obtain ⟨-, downloadDir, -, -, hcount, rfl⟩ := AppState.step_create happ
    have hcard := AppState.card_activeIds_insert_le s.app.tasks id (request.task text id)
    rw [Tasks.card_activeIds, Tasks.card_activeIds] at hcard
    dsimp only
    omega
  resubmits := by
    rw [validateConfig_eq_ok]
    exact and_iff_right h.config

end Steps

/-- Over all lives of the application, however calls interleave and whatever happens to the file
system, the configuration in force and those of the downloads are sound. -/
theorem configuration_sound (text : Ipv6Addr → String) (store : String → Option TaskSnapshot)
    (tree : FileTree String) (home : Option String) (tempDir : String)
    (events : List ConfigEvent) :
    EachState (step text) (Promises text) (start store tree home tempDir) events := by
  have hsteps : EachStep (step text) (fun _ _ => True) (start store tree home tempDir) events :=
    .of_forall fun _ _ => trivial
  exact (hsteps.eachState (fun s e s' h _ hstep => h.step hstep) sound_start).imp
    fun s h => h.promises

end ConfiguredApp

end Tachyon
