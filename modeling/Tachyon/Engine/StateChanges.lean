import Tachyon.Engine.OutputFile
import Tachyon.Library.EventRuns

/-!
# The states of a run

`run` assigns `self.state` in the middle of its steps and, after an error, at its end. A run is
followed here through every assignment, for whatever its awaits answer; `try_transition` says which
changes are legal.
-/

namespace Tachyon

open Resumption EventRuns

/-- How `execute_fragmented_download` ends. -/
inductive FragmentedEnd where
  | completed (fragments : List FragmentRecord)
  /-- A check, a record or the sync fails. -/
  | stopped (e : DownloadError)
  /-- A fragment task fails or panics. -/
  | failed (e : DownloadError)

def FragmentedEnd.result : FragmentedEnd → DownloadResult (List FragmentRecord)
  | .completed fragments => .ok fragments
  | .stopped e | .failed e => .error e

/-- The state it leaves. -/
def FragmentedEnd.state : FragmentedEnd → DownloadState
  | .completed _ => .completed
  | .stopped _ => .downloading
  | .failed _ => .failed

/-- What the awaits of a run answer. A step that is ready at once can still lose its race. -/
structure RunScript where
  probe : Raced FileMetadata
  savePath : DownloadResult String
  opened : DownloadResult Unit
  checked : DownloadResult Unit
  allocated : Raced Unit
  full : DownloadResult (List FragmentRecord)
  fragmented : FragmentedEnd
  /-- The cancellation wins before `verify` is polled. -/
  cancelledBeforeVerify : Bool
  /-- The blake3 hash of a part of the file. -/
  hash : ℕ → ℕ → Raced String

/-- `self.state` in a run, and its assignments so far, each with the state before it. -/
structure RunState where
  state : DownloadState
  changes : List (DownloadState × DownloadState)

def RunState.assign (r : RunState) (state : DownloadState) : RunState :=
  ⟨state, r.changes ++ [(r.state, state)]⟩

/-- How a run ends without success. -/
inductive RunExit where
  | error (e : DownloadError)
  | panic

/-- A step of a run that can assign the state and can fail. -/
abbrev RunM (α : Type) := EStateM RunExit RunState α

namespace StateChanges

variable {α : Type}

/-- `self.state = state`. -/
def assign (state : DownloadState) : RunM Unit := modify fun r => r.assign state

/-- `?` on a result at hand. -/
def ofResult : DownloadResult α → RunM α
  | .ok a => pure a
  | .error e => throw (.error e)

/-- The arm of a lost race. -/
def cancelledArm : RunM α := do
  assign .cancelled
  throw (.error .cancelled)

/-- The arms of a `select!` against `wait_for_cancel`. -/
def ofRaced : Raced α → RunM α
  | .finished result => ofResult result
  | .cancelled => cancelledArm

/-- `ok_or_else(..)?`. -/
def ofOption (x : Option α) (e : DownloadError) : RunM α := ofResult (x.elim (.error e) .ok)

/-- A race with a step that is ready at once. -/
def readyRace (x : Raced α) : RunM Unit :=
  match x with
  | .finished _ => pure ()
  | .cancelled => cancelledArm

section Steps

variable (script : RunScript) (t : DownloadTask)

/-- `probe`, in its race. -/
def probe : RunM DownloadTask :=
  match t.metadata with
  | some _ => do
    readyRace script.probe
    pure t
  | none => do
    let metadata ← ofRaced script.probe
    pure { t with metadata := some metadata }

/-- `init_storage`. -/
def initStorage : RunM DownloadTask :=
  if t.storage.isSome then pure t
  else do
    let _ ← ofOption t.metadata (.config "必须先调用 probe() 获取文件元数据")
    let path ← ofResult script.savePath
    ofResult script.opened
    pure { t with storage := some path }

/-- `plan`. -/
def plan : RunM DownloadTask :=
  match t.plan with
  | some result => ofResult result
  | none => throw .panic

/-- `prepare_storage`, in its race. -/
def prepareStorage : RunM Unit := do
  let metadata ← ofOption t.metadata (.config "必须先调用 probe() 获取文件元数据")
  let _ ← ofOption t.storage (.config "存储未初始化")
  if (metadata.fileSize.getD 0).toNat > 0 then ofRaced script.allocated
  else readyRace script.allocated

/-- `run_inner` before `execute`. -/
def prepare : RunM DownloadTask := do
  let t ← probe script t
  let t ← initStorage script t
  ofResult script.checked
  let t ← plan t
  prepareStorage script t
  pure t

/-- `execute_full_download`. -/
def executeFullDownload : RunM DownloadTask := do
  let fragments ← ofResult script.full
  assign .completed
  pure { t with fragments := fragments, state := .completed }

/-- `execute_fragmented_download`. -/
def executeFragmentedDownload : RunM DownloadTask :=
  match script.fragmented with
  | .completed fragments => do
    assign .completed
    pure { t with fragments := fragments, state := .completed }
  | .stopped e => throw (.error e)
  | .failed e => do
    assign .failed
    throw (.error e)

/-- `execute`. -/
def execute : RunM DownloadTask := do
  assign .downloading
  let metadata ← ofOption t.metadata (.config "必须先调用 probe()")
  if metadata.fileSize = some 0 then do
    assign .completed
    pure { t with state := .completed }
  else if !metadata.supportsRange || t.fragments.length ≤ 1 then executeFullDownload script t
  else executeFragmentedDownload script t

/-- The loop of `verify`; it returns whether some fragment had an expected hash. -/
def verifyLoop : List FragmentRecord → RunM Bool
  | [] => pure false
  | frag :: rest =>
    match frag.info.hash with
    | none => verifyLoop rest
    | some expected => do
      let computed ← ofRaced (script.hash frag.info.start frag.info.size)
      if computed ≠ expected then do
        assign .failed
        throw (.error (.checksumMismatch expected computed))
      else do
        let _ ← verifyLoop rest
        pure true

/-- `verify`, in its race. -/
def verify : RunM Unit :=
  if script.cancelledBeforeVerify then cancelledArm
  else if !t.config.verifyChecksum then pure ()
  else do
    assign .verifying
    let _ ← ofOption t.storage (.config "存储未初始化")
    let hasExpectedHash ← verifyLoop script t.fragments
    if !hasExpectedHash then do
      assign .failed
      throw (.error .noExpectedChecksum)
    else pure ()

/-- `run_inner` from `execute` on. -/
def download : RunM DownloadTask := do
  let t ← execute script t
  verify script t
  assign .completed
  pure { t with state := .completed }

/-- `run_inner`. -/
def runInner : RunM DownloadTask := do
  let t ← prepare script t
  download script t

/-- The state `apply_terminal_error` aims for. -/
def terminalTarget (e : DownloadError) (state : DownloadState) : DownloadState :=
  if e = .cancelled ∨ state = .cancelled then .cancelled else .failed

/-- `apply_terminal_error`. -/
def applyTerminalError (e : DownloadError) : RunM Unit := do
  let state := (← get).state
  let target := terminalTarget e state
  match state.tryTransition target with
  | .ok newState => assign newState
  | .error _ => assign target

/-- `DownloadTask::run`. -/
def run : RunM Unit :=
  tryCatch (discard (runInner script t)) fun exit => do
    match exit with
    | .error e => applyTerminalError e
    | .panic => pure ()
    throw exit

end Steps

/-! ### What a run assigns -/

/-- The state in which a step leaves the run. -/
def stateAfter : EStateM.Result RunExit RunState α → RunState
  | .ok _ r | .error _ r => r

/-- The step assigns nothing, but for the arm of a lost race. -/
def Quiet (p : RunM α) : Prop :=
  ∀ r, (∀ a r', p r = .ok a r' → r' = r) ∧
    ∀ exit r', p r = .error exit r' →
      r' = r ∨ exit = .error .cancelled ∧ r' = r.assign .cancelled

/-- The step adds to the assignments. -/
def Extends (p : RunM α) : Prop := ∀ r, r.changes <+: (stateAfter (p r)).changes

section Rules

variable {γ : Type} {p : RunM α} {f : α → RunM γ}

theorem bind_of_ok {a : α} {r r' : RunState} (h : p r = .ok a r') : (p >>= f) r = f a r' := by
  simp only [Bind.bind, EStateM.bind, h]

theorem bind_of_error {exit : RunExit} {r r' : RunState} (h : p r = .error exit r') :
    (p >>= f) r = .error exit r' := by
  simp only [Bind.bind, EStateM.bind, h]

theorem Quiet.pure (a : α) : Quiet (pure a : RunM α) := by
  intro r
  refine ⟨fun b r' h => ?_, fun exit r' h => ?_⟩
  · cases h
    rfl
  · cases h

theorem Quiet.throw (exit : RunExit) : Quiet (throw exit : RunM α) := by
  intro r
  refine ⟨fun b r' h => ?_, fun exit' r' h => ?_⟩
  · cases h
  · cases h
    exact .inl rfl

theorem Quiet.bind (hp : Quiet p) (hf : ∀ a, Quiet (f a)) : Quiet (p >>= f) := by
  intro r
  cases hpr : p r with
  | ok a r' =>
    obtain rfl := (hp r).1 a r' hpr
    rw [bind_of_ok hpr]
    exact hf a r'
  | error exit r' =>
    rw [bind_of_error hpr]
    refine ⟨fun b r'' h => ?_, fun exit' r'' h => ?_⟩
    · cases h
    · cases h
      exact (hp r).2 exit r' hpr

theorem Quiet.ofResult (x : DownloadResult α) : Quiet (ofResult x) := by
  cases x with
  | ok a => exact .pure a
  | error e => exact .throw _

theorem Quiet.cancelledArm : Quiet (cancelledArm : RunM α) := by
  intro r
  refine ⟨fun b r' h => ?_, fun exit' r' h => ?_⟩
  · cases h
  · cases h
    exact .inr ⟨rfl, rfl⟩

theorem Quiet.ofRaced (x : Raced α) : Quiet (ofRaced x) := by
  cases x with
  | finished result => exact .ofResult result
  | cancelled => exact .cancelledArm

theorem Quiet.readyRace (x : Raced α) : Quiet (readyRace x) := by
  cases x with
  | finished result => exact .pure ()
  | cancelled => exact .cancelledArm

theorem Extends.bind (hp : Extends p) (hf : ∀ a, Extends (f a)) : Extends (p >>= f) := by
  intro r
  have hfirst := hp r
  cases hpr : p r with
  | ok a r' =>
    rw [hpr] at hfirst
    rw [bind_of_ok hpr]
    exact hfirst.trans (hf a r')
  | error exit r' =>
    rw [hpr] at hfirst
    rwa [bind_of_error hpr]

theorem Extends.assign (state : DownloadState) : Extends (assign state) :=
  fun r => List.prefix_append r.changes _

theorem Quiet.extends (h : Quiet p) : Extends p := by
  intro r
  cases hpr : p r with
  | ok a r' =>
    obtain rfl := (h r).1 a r' hpr
    exact List.prefix_rfl
  | error exit r' =>
    obtain rfl | ⟨-, rfl⟩ := (h r).2 exit r' hpr
    · exact List.prefix_rfl
    · exact List.prefix_append r.changes _

end Rules

section Steps

variable (script : RunScript) (t : DownloadTask)

theorem quiet_ofOption (x : Option α) (e : DownloadError) : Quiet (ofOption x e) := .ofResult _

theorem quiet_probe : Quiet (probe script t) := by
  unfold probe
  split
  · exact .bind (.readyRace _) fun _ => .pure _
  · exact .bind (.ofRaced _) fun _ => .pure _

theorem quiet_initStorage : Quiet (initStorage script t) := by
  unfold initStorage
  split
  · exact .pure _
  · exact .bind (quiet_ofOption _ _) fun _ => .bind (.ofResult _) fun _ =>
      .bind (.ofResult _) fun _ => .pure _

theorem quiet_plan : Quiet (plan t) := by
  unfold plan
  split
  · exact .ofResult _
  · exact .throw _

theorem quiet_prepareStorage : Quiet (prepareStorage script t) := by
  refine .bind (quiet_ofOption _ _) fun metadata => .bind (quiet_ofOption _ _) fun _ => ?_
  split
  · exact .ofRaced _
  · exact .readyRace _

/-- Before `execute` nothing but a lost race assigns the state. -/
theorem quiet_prepare : Quiet (prepare script t) :=
  .bind (quiet_probe script t) fun t => .bind (quiet_initStorage script t) fun t =>
    .bind (.ofResult _) fun _ => .bind (quiet_plan t) fun t =>
      .bind (quiet_prepareStorage script t) fun _ => .pure _

theorem extends_verifyLoop (fragments : List FragmentRecord) :
    Extends (verifyLoop script fragments) := by
  induction fragments with
  | nil => exact (Quiet.pure _).extends
  | cons frag rest ih =>
    unfold verifyLoop
    split
    · exact ih
    · refine .bind (Quiet.ofRaced _).extends fun computed => ?_
      split
      · exact .bind (.assign _) fun _ => (Quiet.throw _).extends
      · exact .bind ih fun _ => (Quiet.pure _).extends

theorem extends_verify : Extends (verify script t) := by
  unfold verify
  split
  · exact Quiet.cancelledArm.extends
  · split
    · exact (Quiet.pure _).extends
    · refine .bind (.assign _) fun _ => .bind (quiet_ofOption _ _).extends fun _ =>
        .bind (extends_verifyLoop _ _) fun hasExpectedHash => ?_
      split
      · exact .bind (.assign _) fun _ => (Quiet.throw _).extends
      · exact (Quiet.pure _).extends

/-- What `execute` does once the state is Downloading. -/
theorem execute_eq : ∃ rest, execute script t = (assign .downloading >>= fun _ => rest) ∧
    Extends rest := by
  refine ⟨_, rfl, .bind (quiet_ofOption _ _).extends fun metadata => ?_⟩
  split
  · exact .bind (.assign _) fun _ => (Quiet.pure _).extends
  · split
    · exact .bind (Quiet.ofResult _).extends fun _ => .bind (.assign _) fun _ =>
        (Quiet.pure _).extends
    · unfold executeFragmentedDownload
      split
      · exact .bind (.assign _) fun _ => (Quiet.pure _).extends
      · exact (Quiet.throw _).extends
      · exact .bind (.assign _) fun _ => (Quiet.throw _).extends

/-- The first assignment from `execute` on is that of Downloading. -/
theorem download_downloading (r : RunState) :
    (r.state, .downloading) ∈ (stateAfter (download script t r)).changes := by
  obtain ⟨rest, hexecute, hrest⟩ := execute_eq script t
  have hextends : Extends (rest >>= fun t => verify script t >>= fun _ =>
      assign .completed >>= fun _ => Pure.pure { t with state := DownloadState.completed }) :=
    .bind hrest fun t => .bind (extends_verify script t) fun _ => .bind (.assign _) fun _ =>
      (Quiet.pure _).extends
  have hdownload : download script t r =
      (rest >>= fun t => verify script t >>= fun _ =>
        assign .completed >>= fun _ => Pure.pure { t with state := DownloadState.completed })
        (r.assign .downloading) := by
    unfold download
    rw [hexecute]
    rfl
  rw [hdownload]
  exact (hextends (r.assign .downloading)).subset (by simp [RunState.assign])

theorem applyTerminalError_eq (e : DownloadError) (r : RunState) :
    applyTerminalError e r = .ok () (r.assign (terminalTarget e r.state)) := by
  change (match r.state.tryTransition (terminalTarget e r.state) with
    | .ok newState => assign newState
    | .error _ => assign (terminalTarget e r.state) : RunM Unit) r = _
  unfold DownloadState.tryTransition
  split <;> rfl

theorem run_of_ok {r r' : RunState} {t' : DownloadTask} (h : runInner script t r = .ok t' r') :
    run script t r = .ok () r' := by
  have hdiscard : discard (runInner script t) r = .ok () r' := by
    simp only [discard, Functor.discard, Functor.mapConst, EStateM.map, Function.comp, h]
  simp only [run, tryCatch, tryCatchThe, MonadExceptOf.tryCatch, EStateM.tryCatch, hdiscard]

theorem discard_of_error {exit : RunExit} {r r' : RunState}
    (h : runInner script t r = .error exit r') :
    discard (runInner script t) r = .error exit r' := by
  simp only [discard, Functor.discard, Functor.mapConst, EStateM.map, Function.comp, h]

/-- A run that ends with an error ends in the state `apply_terminal_error` aims for. -/
theorem run_of_error {r r' : RunState} {e : DownloadError}
    (h : runInner script t r = .error (.error e) r') :
    run script t r = .error (.error e) (r'.assign (terminalTarget e r'.state)) := by
  have hhandled : (applyTerminalError e >>= fun _ => (throw (.error e) : RunM Unit)) r' =
      .error (.error e) (r'.assign (terminalTarget e r'.state)) := by
    rw [bind_of_ok (applyTerminalError_eq e r')]
    rfl
  simp only [run, tryCatch, tryCatchThe, MonadExceptOf.tryCatch, EStateM.tryCatch,
    discard_of_error script t h]
  exact hhandled

theorem run_of_panic {r r' : RunState} (h : runInner script t r = .error .panic r') :
    run script t r = .error .panic r' := by
  simp only [run, tryCatch, tryCatchThe, MonadExceptOf.tryCatch, EStateM.tryCatch,
    discard_of_error script t h]
  rfl

theorem bind_eq_ok {γ : Type} {p : RunM α} {f : α → RunM γ} {c : γ} {r r' : RunState}
    (h : (p >>= f) r = .ok c r') : ∃ a r₁, p r = .ok a r₁ ∧ f a r₁ = .ok c r' := by
  cases hp : p r with
  | ok a r₁ =>
    rw [bind_of_ok hp] at h
    exact ⟨a, r₁, rfl, h⟩
  | error exit r₁ =>
    rw [bind_of_error hp] at h
    cases h

/-- A successful run ends in Completed. -/
theorem runInner_completed {r r' : RunState} {t' : DownloadTask}
    (h : runInner script t r = .ok t' r') : r'.state = .completed := by
  obtain ⟨t₁, r₁, -, hdownload⟩ := bind_eq_ok h
  obtain ⟨t₂, r₂, -, hverify⟩ := bind_eq_ok hdownload
  obtain ⟨-, r₃, -, hlast⟩ := bind_eq_ok hverify
  cases hlast
  rfl

end Steps

end StateChanges

/-! ### Against the requests of a task -/

/-- The answers a script gives to the requests of a task. -/
def RunScript.handles (script : RunScript) : (r : TaskRequest) → Unit → TaskAnswer r → Unit → Prop
  | .probe, _, x, _ => x = script.probe
  | .validateSavePath _ _, _, x, _ => x = script.savePath
  | .openStorage _ _, _, x, _ => x = script.opened
  | .checkCancelled, _, x, _ => x = script.checked
  | .allocate _, _, x, _ => x = script.allocated
  | .skipAllocate, _, x, _ | .verified, _, x, _ => x = .finished (.ok ())
  | .executeFull _ _ _ _ _, _, x, _ => x = script.full
  | .executeFragmented _ _ _ _ _ _, _, x, _ => x = script.fragmented.result
  | .hashRange start size, _, x, _ => script.hash start size = .finished x
  | .panic, _, x, _ => x.elim

namespace StateChanges

section Requests

variable {script : RunScript} {t t' : DownloadTask} {r r' : RunState}

theorem ofResult_eq_ok {x : DownloadResult α} {a : α} (h : ofResult x r = .ok a r') :
    x = .ok a := by
  cases x with
  | ok b =>
    cases h
    rfl
  | error e => cases h

theorem ofRaced_eq_ok {x : Raced α} {a : α} (h : ofRaced x r = .ok a r') :
    x = .finished (.ok a) := by
  cases x with
  | finished result => rw [ofResult_eq_ok h]
  | cancelled => cases h

theorem ofOption_eq_ok {x : Option α} {e : DownloadError} {a : α}
    (h : ofOption x e r = .ok a r') : x = some a := by
  cases x with
  | some b =>
    cases h
    rfl
  | none => cases h

theorem yields_probe (h : probe script t r = .ok t' r') :
    Yields script.handles t.probe () (.ok t') () := by
  unfold probe at h
  unfold DownloadTask.probe
  cases hcached : t.metadata with
  | some metadata =>
    simp only [hcached] at h
    obtain ⟨-, r₁, -, hlast⟩ := bind_eq_ok h
    cases hlast
    exact yields_pure.mpr ⟨rfl, rfl⟩
  | none =>
    simp only [hcached] at h
    obtain ⟨metadata, r₁, hprobe, hlast⟩ := bind_eq_ok h
    cases hlast
    refine yields_bind.mpr ⟨_, (), yields_request.mpr rfl, yields_bind.mpr ⟨metadata, (), ?_, ?_⟩⟩
    · exact yields_fromRaced.mpr ⟨ofRaced_eq_ok hprobe, rfl⟩
    · exact yields_pure.mpr ⟨rfl, rfl⟩

theorem yields_initStorage (h : initStorage script t r = .ok t' r') :
    Yields script.handles t.initStorage () (.ok t') () := by
  unfold initStorage at h
  unfold DownloadTask.initStorage
  split at h
  case isTrue hready =>
    cases h
    rw [if_pos hready]
    exact yields_pure.mpr ⟨rfl, rfl⟩
  case isFalse hready =>
    obtain ⟨metadata, r₁, hmetadata, h⟩ := bind_eq_ok h
    obtain ⟨path, r₂, hpath, h⟩ := bind_eq_ok h
    obtain ⟨opened, r₃, hopened, hlast⟩ := bind_eq_ok h
    cases hlast
    rw [if_neg hready]
    refine yields_bind.mpr ⟨metadata, (), yields_orThrow.mpr ⟨ofOption_eq_ok hmetadata, rfl⟩, ?_⟩
    refine yields_bind.mpr ⟨_, (), yields_request.mpr rfl, yields_bind.mpr ⟨path, (), ?_, ?_⟩⟩
    · exact yields_fromResult.mpr ⟨ofResult_eq_ok hpath, rfl⟩
    · refine yields_bind.mpr ⟨_, (), yields_request.mpr rfl, yields_bind.mpr ⟨(), (), ?_, ?_⟩⟩
      · exact yields_fromResult.mpr ⟨ofResult_eq_ok hopened, rfl⟩
      · exact yields_pure.mpr ⟨rfl, rfl⟩

theorem yields_plan (h : plan t r = .ok t' r') :
    Yields script.handles (orPanic t.plan >>= fromResult) () (.ok t') () := by
  unfold plan at h
  cases hplan : t.plan with
  | some result =>
    rw [hplan] at h
    exact yields_bind.mpr ⟨result, (), yields_pure.mpr ⟨rfl, rfl⟩,
      yields_fromResult.mpr ⟨ofResult_eq_ok h, rfl⟩⟩
  | none =>
    rw [hplan] at h
    cases h

theorem yields_prepareStorage {a : Unit} (h : prepareStorage script t r = .ok a r') :
    Yields script.handles t.prepareStorage () (.ok ()) () := by
  obtain ⟨metadata, r₁, hmetadata, h⟩ := bind_eq_ok h
  obtain ⟨path, r₂, hpath, h⟩ := bind_eq_ok h
  unfold DownloadTask.prepareStorage
  refine yields_bind.mpr ⟨metadata, (), yields_orThrow.mpr ⟨ofOption_eq_ok hmetadata, rfl⟩, ?_⟩
  refine yields_bind.mpr ⟨path, (), yields_orThrow.mpr ⟨ofOption_eq_ok hpath, rfl⟩, ?_⟩
  split at h
  case isTrue hsize =>
    rw [if_pos hsize]
    exact yields_bind.mpr ⟨_, (), yields_request.mpr rfl,
      yields_fromRaced.mpr ⟨ofRaced_eq_ok h, rfl⟩⟩
  case isFalse hsize =>
    rw [if_neg hsize]
    exact yields_bind.mpr ⟨.finished (.ok ()), (), yields_request.mpr rfl,
      yields_fromRaced.mpr ⟨rfl, rfl⟩⟩

theorem yields_execute (h : execute script t r = .ok t' r') :
    Yields script.handles t.execute () (.ok t') () := by
  obtain ⟨-, r₁, -, h⟩ := bind_eq_ok h
  obtain ⟨metadata, r₂, hmetadata, h⟩ := bind_eq_ok h
  unfold DownloadTask.execute
  refine yields_bind.mpr ⟨metadata, (), yields_orThrow.mpr ⟨ofOption_eq_ok hmetadata, rfl⟩, ?_⟩
  split at h
  case isTrue hempty =>
    obtain ⟨-, r₃, -, hlast⟩ := bind_eq_ok h
    cases hlast
    rw [if_pos hempty]
    exact yields_pure.mpr ⟨rfl, rfl⟩
  case isFalse hempty =>
    rw [if_neg hempty]
    split at h
    case isTrue hfull =>
      obtain ⟨fragments, r₃, hfragments, h⟩ := bind_eq_ok h
      obtain ⟨-, r₄, -, hlast⟩ := bind_eq_ok h
      cases hlast
      rw [if_pos hfull]
      refine yields_bind.mpr ⟨_, (), yields_request.mpr rfl,
        yields_bind.mpr ⟨fragments, (), ?_, yields_pure.mpr ⟨rfl, rfl⟩⟩⟩
      exact yields_fromResult.mpr ⟨ofResult_eq_ok hfragments, rfl⟩
    case isFalse hfull =>
      rw [if_neg hfull]
      unfold executeFragmentedDownload at h
      cases hended : script.fragmented with
      | completed fragments =>
        rw [hended] at h
        obtain ⟨-, r₃, -, hlast⟩ := bind_eq_ok h
        cases hlast
        refine yields_bind.mpr ⟨.ok fragments, (), yields_request.mpr ?_,
          yields_bind.mpr ⟨fragments, (), yields_fromResult.mpr ⟨rfl, rfl⟩,
            yields_pure.mpr ⟨rfl, rfl⟩⟩⟩
        simp only [RunScript.handles, hended, FragmentedEnd.result]
      | stopped e =>
        rw [hended] at h
        cases h
      | failed e =>
        rw [hended] at h
        cases h

theorem yields_verifyLoop {fragments : List FragmentRecord} {found : Bool}
    (h : verifyLoop script fragments r = .ok found r') :
    Yields script.handles (Tachyon.verifyLoop fragments) () (.ok found) () := by
  induction fragments generalizing r found with
  | nil =>
    cases h
    exact yields_pure.mpr ⟨rfl, rfl⟩
  | cons frag rest ih =>
    unfold verifyLoop at h
    unfold Tachyon.verifyLoop
    cases hhash : frag.info.hash with
    | none =>
      simp only [hhash] at h
      exact ih h
    | some expected =>
      simp only [hhash] at h
      obtain ⟨computed, r₁, hcomputed, h⟩ := bind_eq_ok h
      refine yields_bind.mpr ⟨_, (), yields_request.mpr (ofRaced_eq_ok hcomputed),
        yields_bind.mpr ⟨computed, (), yields_fromResult.mpr ⟨rfl, rfl⟩, ?_⟩⟩
      split at h
      case isTrue => cases h
      case isFalse hmatch =>
        obtain ⟨found', r₂, hrest, hlast⟩ := bind_eq_ok h
        cases hlast
        rw [if_neg hmatch]
        exact yields_bind.mpr ⟨found', (), ih hrest, yields_pure.mpr ⟨rfl, rfl⟩⟩

theorem yields_verify {a : Unit} (h : verify script t r = .ok a r') :
    Yields script.handles t.verify () (.ok ()) () := by
  unfold verify at h
  unfold DownloadTask.verify
  split at h
  case isTrue => cases h
  case isFalse =>
    split at h
    case isTrue hoff =>
      rw [if_pos hoff]
      exact yields_pure.mpr ⟨rfl, rfl⟩
    case isFalse hoff =>
      obtain ⟨-, r₁, -, h⟩ := bind_eq_ok h
      obtain ⟨path, r₂, hpath, h⟩ := bind_eq_ok h
      obtain ⟨found, r₃, hfound, h⟩ := bind_eq_ok h
      rw [if_neg hoff]
      refine yields_bind.mpr ⟨path, (), yields_orThrow.mpr ⟨ofOption_eq_ok hpath, rfl⟩,
        yields_bind.mpr ⟨found, (), yields_verifyLoop hfound, ?_⟩⟩
      split at h
      case isTrue => cases h
      case isFalse hsome =>
        rw [if_neg hsome]
        exact yields_pure.mpr ⟨rfl, rfl⟩

/-- A scripted run that succeeds is a run of the task whose requests the script answers. -/
theorem yields_runInner (h : runInner script t r = .ok t' r') :
    Yields script.handles t.runInner () (.ok t') () := by
  obtain ⟨t₅, r₅, hprepare, hdownload⟩ := bind_eq_ok h
  obtain ⟨t₁, r₁, hprobe, h⟩ := bind_eq_ok hprepare
  obtain ⟨t₂, r₂, hstorage, h⟩ := bind_eq_ok h
  obtain ⟨checked, r₃, hchecked, h⟩ := bind_eq_ok h
  obtain ⟨t₄, r₄, hplan, h⟩ := bind_eq_ok h
  obtain ⟨a, r₆, hallocated, hlast⟩ := bind_eq_ok h
  cases hlast
  obtain ⟨t₇, r₇, hexecute, h⟩ := bind_eq_ok hdownload
  obtain ⟨b, r₈, hverify, h⟩ := bind_eq_ok h
  obtain ⟨-, r₉, -, hlast⟩ := bind_eq_ok h
  cases hlast
  obtain ⟨planned, w, hpanic, hplanned⟩ := yields_bind.mp (yields_plan hplan)
  unfold DownloadTask.runInner
  refine yields_bind.mpr ⟨t₁, (), yields_probe hprobe, yields_bind.mpr ⟨t₂, (),
    yields_initStorage hstorage, yields_bind.mpr ⟨_, (), yields_request.mpr rfl, ?_⟩⟩⟩
  refine yields_bind.mpr ⟨(), (), yields_fromResult.mpr ⟨ofResult_eq_ok hchecked, rfl⟩, ?_⟩
  refine yields_bind.mpr ⟨planned, w, hpanic, yields_bind.mpr ⟨t₅, (), hplanned, ?_⟩⟩
  refine yields_bind.mpr ⟨(), (), yields_prepareStorage hallocated, yields_bind.mpr ⟨t₇, (),
    yields_execute hexecute, yields_bind.mpr ⟨(), (), yields_verify hverify, ?_⟩⟩⟩
  exact yields_bind.mpr ⟨.finished (.ok ()), (), yields_request.mpr rfl, yields_bind.mpr
    ⟨(), (), yields_fromRaced.mpr ⟨rfl, rfl⟩, yields_pure.mpr ⟨rfl, rfl⟩⟩⟩

/-- A run that is Downloading is afterwards what its fragmented download ended in. -/
theorem executeFragmentedDownload_state (hstate : r.state = .downloading) :
    (stateAfter (executeFragmentedDownload script t r)).state = script.fragmented.state := by
  unfold executeFragmentedDownload
  cases script.fragmented with
  | completed fragments => rfl
  | stopped e => exact hstate
  | failed e => rfl

end Requests

end StateChanges

/-- A fragmented download that goes on is Downloading, one that has succeeded is Completed, and one
that has failed is Failed or still Downloading. -/
def Fragmented.StateFits {specs : List FragmentSpec} (s : Fragmented specs) : Prop :=
  match s.outcome with
  | none => s.state = .downloading
  | some (.ok ()) => s.state = .completed
  | some (.error _) => s.state = .downloading ∨ s.state = .failed

theorem Fragmented.StateFits.step {env : Environment} {specs : List FragmentSpec}
    {s s' : Fragmented specs} (h : s.StateFits) (hstep : FragmentedStep env s s') :
    s'.StateFits := by
  cases hstep with
  | task => exact h
  | panicked hrunning => exact .inr rfl
  | sync hrunning hall =>
    rename_i result
    rw [StateFits, hrunning] at h
    cases result with
    | ok => exact rfl
    | error e => exact .inl h
  | join hrunning hlive hjoin =>
    rw [StateFits, hrunning] at h
    unfold Fragmented.join at hjoin
    split at hjoin
    · cases hjoin
    · cases hjoin
      exact .inr rfl
    · obtain ⟨frag, -, hjoin⟩ := Option.bind_eq_some_iff.mp hjoin
      split at hjoin
      · cases hjoin
        exact .inl h
      · cases hjoin
        rw [StateFits]
        simp only [hrunning]
        exact h

theorem startFragmented_stateFits {maxConcurrentFragments maxRetries : ℕ}
    {host : DownloadResult String} {url : String} {storage : Option Bytes}
    {fragments : List FragmentRecord} {s₀ : Fragmented (fragmentSpecs fragments)}
    (h : startFragmented maxConcurrentFragments maxRetries host url storage fragments = .ok s₀) :
    s₀.StateFits := by
  unfold startFragmented at h
  split at h
  · cases h
  · obtain ⟨file, -, h⟩ := Tachyon.bind_eq_ok.mp h
    obtain ⟨name, -, h⟩ := Tachyon.bind_eq_ok.mp h
    obtain ⟨started, -, h⟩ := Tachyon.bind_eq_ok.mp h
    cases h
    exact rfl

/-- A fragmented download that has ended ends as the script of a run can say. -/
theorem exists_fragmentedEnd {env : Environment} {maxConcurrentFragments maxRetries : ℕ}
    {host : DownloadResult String} {url : String} {storage : Option Bytes}
    {fragments : List FragmentRecord} {s₀ s : Fragmented (fragmentSpecs fragments)}
    {x : DownloadResult (List FragmentRecord)}
    (hstart : startFragmented maxConcurrentFragments maxRetries host url storage fragments = .ok s₀)
    (hrun : Relation.ReflTransGen (FragmentedStep env) s₀ s)
    (hend : s.outcome = some (x.map fun _ => ())) :
    ∃ ended : FragmentedEnd, ended.result = x ∧ ended.state = s.state := by
  have hfits : s.StateFits := by
    clear hend
    induction hrun with
    | refl => exact startFragmented_stateFits hstart
    | tail _ hstep ih => exact ih.step hstep
  rw [Fragmented.StateFits, hend] at hfits
  cases x with
  | ok fragments => exact ⟨.completed fragments, rfl, hfits.symm⟩
  | error e =>
    obtain hstate | hstate := hfits
    · exact ⟨.stopped e, rfl, hstate.symm⟩
    · exact ⟨.failed e, rfl, hstate.symm⟩

/-- The changes are legal, and those after the first leave no terminal state. -/
structure Disciplined (changes : List (DownloadState × DownloadState)) : Prop where
  legal : ∀ c ∈ changes, c.1 = c.2 ∨ c.1.tryTransition c.2 = .ok c.2
  final : ∀ c ∈ changes.tail, c.1.isTerminal = true → c.1 = c.2

theorem DownloadState.tryTransition_ok {state next : DownloadState} :
    state.tryTransition next = .ok next ↔ state.mayBecome next = true := by
  unfold tryTransition
  split <;> simp [*]

/-- The states between the calls of `run`. -/
def Settled (s : DownloadState) : Prop :=
  s = .pending ∨ s = .completed ∨ s = .failed ∨ s = .cancelled

namespace RunScript

open StateChanges

variable (script : RunScript) (t : DownloadTask) (s : DownloadState)

/-- The changes of state in a run. -/
def changes : List (DownloadState × DownloadState) := (stateAfter (run script t ⟨s, []⟩)).changes

/-- The run panics in `plan`, or it fails before `execute` and the state is already the one it is to
end in: Cancelled, or Failed with an error that is not the cancellation. -/
def FailsEarly : Prop :=
  match prepare script t ⟨s, []⟩ with
  | .ok _ _ => False
  | .error .panic _ => True
  | .error (.error e) _ => s = .cancelled ∨ s = .failed ∧ e ≠ .cancelled

variable {script t s}

/-- The changes of a run that comes to `execute` are not legal. -/
theorem not_disciplined_of_prepared {t' : DownloadTask} {r : RunState} (hs : Settled s)
    (h : prepare script t ⟨s, []⟩ = .ok t' r) : ¬Disciplined (script.changes t s) := by
  obtain rfl := (quiet_prepare script t _).1 t' r h
  have hdownload := download_downloading script t' ⟨s, []⟩
  have hinner : runInner script t ⟨s, []⟩ = download script t' ⟨s, []⟩ := bind_of_ok h
  have hmem : (s, .downloading) ∈ script.changes t s := by
    unfold changes
    cases hend : download script t' ⟨s, []⟩ with
    | ok t'' r =>
      rw [run_of_ok script t (hinner.trans hend)]
      rwa [hend] at hdownload
    | error exit r =>
      rw [hend] at hdownload
      cases exit with
      | error e =>
        rw [run_of_error script t (hinner.trans hend)]
        exact List.mem_append_left _ hdownload
      | panic => rwa [run_of_panic script t (hinner.trans hend)]
  intro hdisciplined
  have hlegal := hdisciplined.legal _ hmem
  rw [DownloadState.tryTransition_ok] at hlegal
  obtain rfl | rfl | rfl | rfl := hs <;> simp [DownloadState.mayBecome] at hlegal

/-- A run from a settled state is disciplined if and only if it fails early. -/
theorem disciplined_iff (hs : Settled s) :
    Disciplined (script.changes t s) ↔ script.FailsEarly t s := by
  unfold FailsEarly
  cases hprepare : prepare script t ⟨s, []⟩ with
  | ok t' r => exact iff_of_false (not_disciplined_of_prepared hs hprepare) id
  | error exit r =>
    have hinner : runInner script t ⟨s, []⟩ = .error exit r := bind_of_error hprepare
    have hquiet := (quiet_prepare script t _).2 exit r hprepare
    cases exit with
    | panic =>
      obtain rfl | ⟨hexit, -⟩ := hquiet
      · refine iff_of_true ?_ trivial
        rw [changes, run_of_panic script t hinner]
        exact ⟨by simp [stateAfter], by simp [stateAfter]⟩
      · cases hexit
    | error e =>
      have hchanges : script.changes t s = r.changes ++ [(r.state, terminalTarget e r.state)] := by
        rw [changes, run_of_error script t hinner]
        rfl
      obtain rfl | ⟨hexit, rfl⟩ := hquiet
      · have hlegal : Disciplined [(s, terminalTarget e s)] ↔
            s = terminalTarget e s ∨ s.mayBecome (terminalTarget e s) = true := by
          rw [← DownloadState.tryTransition_ok]
          exact ⟨fun h => h.legal _ List.mem_cons_self, fun h => ⟨by simpa using h, by simp⟩⟩
        rw [hchanges, List.nil_append, hlegal, terminalTarget]
        by_cases he : e = .cancelled
        · obtain rfl | rfl | rfl | rfl := hs <;> simp [he, DownloadState.mayBecome]
        · obtain rfl | rfl | rfl | rfl := hs <;> simp [he, DownloadState.mayBecome]
      · obtain rfl : e = .cancelled := by injection hexit
        have hlegal : Disciplined [(s, .cancelled), (.cancelled, .cancelled)] ↔
            s = .cancelled ∨ s.mayBecome .cancelled = true := by
          rw [← DownloadState.tryTransition_ok]
          exact ⟨fun h => h.legal _ List.mem_cons_self, fun h => ⟨by simpa using h, by simp⟩⟩
        rw [hchanges]
        change Disciplined [(s, .cancelled), (.cancelled, .cancelled)] ↔ _
        rw [hlegal]
        obtain rfl | rfl | rfl | rfl := hs <;> simp [DownloadState.mayBecome]

end RunScript

/-- The state after a call of `run` on the task, whose other fields are as the call finds them.
After a panic the task is gone. -/
def callStep (s : DownloadState) (call : DownloadTask × RunScript) : Option DownloadState :=
  match StateChanges.run call.2 call.1 ⟨s, []⟩ with
  | .error .panic _ => none
  | result => some (StateChanges.stateAfter result).state

/-- A call that returns leaves a settled state. -/
theorem callStep_settled {s s' : DownloadState} {call : DownloadTask × RunScript}
    (h : callStep s call = some s') : Settled s' := by
  unfold callStep at h
  cases hinner : StateChanges.runInner call.2 call.1 ⟨s, []⟩ with
  | ok t' r =>
    rw [StateChanges.run_of_ok _ _ hinner] at h
    obtain rfl := Option.some.inj h
    exact .inr (.inl (StateChanges.runInner_completed _ _ hinner))
  | error exit r =>
    cases exit with
    | error e =>
      rw [StateChanges.run_of_error _ _ hinner] at h
      obtain rfl := Option.some.inj h
      simp only [StateChanges.stateAfter, RunState.assign, StateChanges.terminalTarget]
      split
      · exact .inr (.inr (.inr rfl))
      · exact .inr (.inr (.inl rfl))
    | panic =>
      rw [StateChanges.run_of_panic _ _ hinner] at h
      cases h

/-- In each of the calls of `run` on a new task, the changes of state are disciplined if and only if
the call fails early. -/
theorem state_disciplined_iff (calls : List (DownloadTask × RunScript)) :
    EachStep callStep (fun s call => Disciplined (call.2.changes call.1 s) ↔
      call.2.FailsEarly call.1 s) .pending calls := by
  have hsteps : EachStep callStep (fun _ _ => True) .pending calls :=
    .of_forall fun _ _ => trivial
  exact hsteps.imp (fun s call s' hs _ hcall =>
    ⟨RunScript.disciplined_iff hs, callStep_settled hcall⟩) (.inl rfl)

/-- Every await of a download of one byte succeeds. -/
def oneByteScript : RunScript where
  probe := .finished (.ok oneByteMetadata)
  savePath := .ok "dir/file"
  opened := .ok ()
  checked := .ok ()
  allocated := .finished (.ok ())
  full := .ok [oneByteRecord]
  fragmented := .completed []
  cancelledBeforeVerify := false
  hash := fun _ _ => .finished (.ok "")

/-- With checksums on, the first run of a task is never connecting, and verifies after it has
completed. -/
theorem undisciplined_run :
    oneByteScript.changes { oneByteTask with config := .default "dir" } .pending =
        [(.pending, .downloading), (.downloading, .completed), (.completed, .verifying),
          (.verifying, .failed), (.failed, .failed)] ∧
      ¬Disciplined
        (oneByteScript.changes { oneByteTask with config := .default "dir" } .pending) := by
  have hchanges : oneByteScript.changes { oneByteTask with config := .default "dir" } .pending =
      [(.pending, .downloading), (.downloading, .completed), (.completed, .verifying),
        (.verifying, .failed), (.failed, .failed)] := by
    rfl
  refine ⟨hchanges, fun h => ?_⟩
  rw [hchanges] at h
  simpa using h.final (.completed, .verifying) (by simp) rfl

end Tachyon
