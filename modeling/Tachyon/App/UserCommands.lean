import Tachyon.App.Commands

/-!
# Commands of the user against `task_fn`

`task_fn` checks for a cancellation in some places and overwrites the status in others.
The history of a run says whether what a command returned Ok for was respected; this
module says exactly which steps do not respect it.
-/

namespace Tachyon

open EventRuns

/-- A `pause_task` has returned Ok and no `resume_task` was called since. -/
def pausedByUser (id : String) : List Record → Bool
  | [] => false
  | .returned .pause j :: earlier => j == id || pausedByUser id earlier
  | .called .resume j :: earlier => j != id && pausedByUser id earlier
  | _ :: earlier => pausedByUser id earlier

/-- What `task_fn` wrote respects the commands before it: after a cancellation only Cancelled,
and after a pause not the status Downloading. -/
def Record.Allowed (earlier : List Record) : Record → Prop
  | .entry id status =>
    (.returned .cancel id ∈ earlier → status = .cancelled) ∧
      (pausedByUser id earlier = true → status ≠ .downloading)
  | .snapshot id status | .event id status => .returned .cancel id ∈ earlier → status = .cancelled
  | _ => True

/-- Everything in the history respects the commands before it. -/
def UserWins : List Record → Prop
  | [] => True
  | record :: earlier => record.Allowed earlier ∧ UserWins earlier

/-- A record of something that `task_fn` wrote. -/
def Record.written : Record → Bool
  | .entry _ _ | .snapshot _ _ | .event _ _ => true
  | _ => false

namespace AppState

/-- `cancel_task` has returned Ok for the task. -/
def Cancelled (s : AppState) (id : String) : Prop := .returned .cancel id ∈ s.history

/-- A step takes a branch that overrides a command of the user. -/
inductive Overrides (s : AppState) (id : String) : RunEvent → Prop where
  /-- An early failure writes Failed. -/
  | failed {task : TaskInfo} (hcancelled : s.Cancelled id)
      (htask : (s.copies id).lookup id = some task) : s.Overrides id .fail
  | probeFailed {task : TaskInfo} {error : DownloadError} (hcancelled : s.Cancelled id)
      (htask : (s.copies id).lookup id = some task) (herror : error ≠ .cancelled) :
      s.Overrides id (.probe (.error error))
  /-- The status becomes Downloading after a cancellation or a pause. -/
  | marked {task : TaskInfo}
      (huser : s.Cancelled id ∨ pausedByUser id s.history = true)
      (htask : (s.copies id).lookup id = some task) : s.Overrides id .mark
  /-- The snapshot with the metadata has an older status. -/
  | metadata {r : TaskRun} {metadata : FileMetadata} {task : TaskInfo} {now : String}
      (hcancelled : s.Cancelled id) (hrun : s.runs id = some r)
      (hphase : r.phase = .copied metadata task) (hstatus : task.status ≠ .cancelled) :
      s.Overrides id (.saveMetadata now true)
  /-- The final status is written over one that is not Cancelled. -/
  | finished {task : TaskInfo} {result : DownloadResult Unit} (hcancelled : s.Cancelled id)
      (htask : (s.copies id).lookup id = some task) (hstatus : task.status ≠ .cancelled) :
      s.Overrides id (.finish result)
  /-- A checkpoint saves the status it has loaded. -/
  | checkpoint {r : TaskRun} {reader : ChunkReader} {loaded : TaskSnapshot}
      (hcancelled : s.Cancelled id) (hrun : s.runs id = some r) (hreader : r.reader = some reader)
      (hphase : reader.phase = .saving loaded) (hstatus : loaded.status ≠ .cancelled) :
      s.Overrides id (.checkpointSave true)
  /-- The monitor or the end of `task_fn` broadcasts a status that is not Cancelled. -/
  | broadcast {task : TaskInfo} (hcancelled : s.Cancelled id)
      (htask : (s.copies id).lookup id = some task) (hstatus : task.status ≠ .cancelled) :
      s.Overrides id .broadcast
  | report {task : TaskInfo} (hcancelled : s.Cancelled id)
      (htask : (s.copies id).lookup id = some task) (hstatus : task.status ≠ .cancelled) :
      s.Overrides id .report
  /-- The last persist saves a status that is not Cancelled. -/
  | persist {r : TaskRun} {task : TaskInfo} {existing : Option TaskSnapshot}
      {now downloadDir : String} (hcancelled : s.Cancelled id) (hrun : s.runs id = some r)
      (hphase : r.phase = .persisting (.saving task existing))
      (hstatus : task.status ≠ .cancelled) :
      s.Overrides id (.persist (.save now downloadDir true))

/-- A step respects the user: it is no step of a `task_fn` that overrides a command. -/
def Respects (s : AppState) : AppEvent → Prop
  | .run id e => ¬s.Overrides id e
  | _ => True

section Step

variable {s s' : AppState} {id : String} {earlier records : List Record} {record : Record}
  {x : Effect} {r : TaskRun} {e : RunEvent}

/-- What was written does not change what the user has asked for. -/
theorem allowed_append (hrecords : ∀ record ∈ records, record.written = true) :
    record.Allowed (records ++ earlier) ↔ record.Allowed earlier := by
  have hreturned {id : String} :
      Record.returned .cancel id ∈ records ++ earlier ↔ Record.returned .cancel id ∈ earlier := by
    refine ⟨fun h => ?_, List.mem_append_right _⟩
    rcases List.mem_append.mp h with h | h
    · cases hrecords _ h
    · exact h
  have hpaused {id : String} : pausedByUser id (records ++ earlier) = pausedByUser id earlier := by
    clear hreturned
    induction records with
    | nil => rfl
    | cons record records ih =>
      have hwritten := hrecords record List.mem_cons_self
      have hrest := ih fun other hmem => hrecords other (List.mem_cons_of_mem _ hmem)
      cases record with
      | entry | snapshot | event => exact hrest
      | accepted | recovered | called | returned => cases hwritten
  cases record with
  | entry id status => simp only [Record.Allowed, hreturned, hpaused]
  | snapshot | event => simp only [Record.Allowed, hreturned]
  | accepted | recovered | called | returned => exact Iff.rfl

theorem userWins_append (hrecords : ∀ record ∈ records, record.written = true) :
    UserWins (records ++ earlier) ↔
      (∀ record ∈ records, record.Allowed earlier) ∧ UserWins earlier := by
  induction records with
  | nil => simp
  | cons record records ih =>
    have hrest : ∀ other ∈ records, other.written = true := fun other hmem =>
      hrecords other (List.mem_cons_of_mem _ hmem)
    rw [List.cons_append, UserWins, ih hrest, allowed_append hrest, List.forall_mem_cons, and_assoc]

theorem records_written (hrecord : record ∈ x.records id) : record.written = true := by
  simp only [Effect.records, List.mem_append, Option.mem_toList, Option.map_eq_some_iff] at hrecord
  obtain (⟨status, -, rfl⟩ | ⟨snapshot, -, rfl⟩) | ⟨progress, -, rfl⟩ := hrecord
  · rfl
  · rfl
  · rfl

theorem records_setting {run : TaskRun} {entry : Option TaskInfo} :
    (Effect.setting run entry).records id =
      (entry.map fun task => Record.entry id task.status).toList := by
  cases entry <;> rfl

/-- A step that writes nothing respects the user. -/
theorem allowed_of_nil (hrecords : x.records id = []) :
    ∀ record ∈ x.records id, record.Allowed s.history := by
  rw [hrecords]
  exact fun _ h => absurd h List.not_mem_nil

/-- What a status write records is allowed. -/
theorem allowed_setting_iff {run : TaskRun} {entry : Option TaskInfo} :
    (∀ record ∈ (Effect.setting run entry).records id, record.Allowed s.history) ↔
      ∀ task ∈ entry, (s.Cancelled id → task.status = .cancelled) ∧
        (pausedByUser id s.history = true → task.status ≠ .downloading) := by
  rw [records_setting]
  cases entry with
  | none => simp
  | some task => simp [Record.Allowed, Cancelled]

/-- A failure before the run respects the user unless it writes over a cancellation. -/
theorem failing_allowed_iff : (∀ record ∈ (r.failing ((s.copies id).lookup id)).records id,
      record.Allowed s.history) ↔
    ¬(s.Cancelled id ∧ ∃ task, (s.copies id).lookup id = some task) := by
  refine allowed_setting_iff.trans ?_
  cases (s.copies id).lookup id with
  | none => simp
  | some task => simp [TaskInfo.updateStatus]

/-- A saved snapshot respects the user unless its status is not Cancelled after a
cancellation. -/
theorem save_allowed_iff {run : TaskRun} {saved : Bool} {snapshot : TaskSnapshot} :
    (∀ record ∈ Effect.records { run := run, save := if saved then some snapshot else none } id,
      record.Allowed s.history) ↔
    ¬(s.Cancelled id ∧ saved = true ∧ snapshot.status ≠ .cancelled) := by
  cases saved with
  | false => simp [Effect.records]
  | true => simp [Effect.records, Record.Allowed, Cancelled]

/-- An event on the task's entry respects the user unless it says another status after a
cancellation. -/
theorem event_allowed_iff {run : TaskRun} {event : Option ProgressEvent}
    (hevent : (event.bind fun event => event id).map TaskProgress.status =
      ((s.copies id).lookup id).map TaskInfo.status) :
    (∀ record ∈ Effect.records { run := run, event := event } id, record.Allowed s.history) ↔
    ¬(s.Cancelled id ∧ ∃ task, (s.copies id).lookup id = some task ∧ task.status ≠ .cancelled) := by
  have hrecords : Effect.records { run := run, event := event } id =
      (((s.copies id).lookup id).map fun task => Record.event id task.status).toList := by
    have h := congrArg (Option.map (Record.event id)) hevent
    rw [Option.map_map, Option.map_map] at h
    exact congrArg Option.toList h
  rw [hrecords]
  cases (s.copies id).lookup id with
  | none => simp
  | some task => simp [Record.Allowed, Cancelled]

/-- The final status of a run is Completed or Failed. -/
theorem terminal_status {task : TaskInfo} {metadata : Option FileMetadata}
    {result : DownloadResult Unit} (hstatus : task.status ≠ .cancelled) :
    (task.terminal metadata result).status = .completed ∨
      (task.terminal metadata result).status = .failed := by
  cases result with
  | ok =>
    dsimp only [TaskInfo.terminal]
    rw [if_neg hstatus]
    exact Or.inl rfl
  | error e =>
    dsimp only [TaskInfo.terminal]
    rw [if_neg hstatus]
    exact Or.inr rfl

theorem broadcast_status {entry : Option TaskInfo} {speed downloaded : ℕ} :
    ((entry.map fun task => Function.update (fun _ => none) id
        (some { task.report id with speed := speed, downloaded := downloaded })).bind
      fun event : ProgressEvent => event id).map TaskProgress.status =
        entry.map TaskInfo.status := by
  cases entry with
  | none => rfl
  | some task => simp [TaskInfo.report]

/-- The status Downloading respects the user unless it is written after a cancellation or a
pause. -/
theorem marking_allowed_iff {run : TaskRun} :
    (∀ record ∈ (Effect.setting run
        (((s.copies id).lookup id).map fun task => task.updateStatus .downloading)).records id,
      record.Allowed s.history) ↔
    ¬((s.Cancelled id ∨ pausedByUser id s.history = true) ∧
      ∃ task, (s.copies id).lookup id = some task) := by
  refine allowed_setting_iff.trans ⟨?_, fun h task' htask' => ?_⟩
  · rintro hallowed ⟨huser, task, htask⟩
    obtain ⟨hcancel, hpause⟩ := hallowed _ (Option.map_eq_some_iff.mpr ⟨task, htask, rfl⟩)
    rcases huser with huser | huser
    · cases hcancel huser
    · exact hpause huser rfl
  · obtain ⟨task, htask, rfl⟩ := Option.map_eq_some_iff.mp htask'
    exact ⟨fun hcancelled => absurd ⟨Or.inl hcancelled, task, htask⟩ h,
      fun hpaused => absurd ⟨Or.inr hpaused, task, htask⟩ h⟩

/-- The final status respects the user unless a cancellation has not reached the entry. -/
theorem ending_allowed_iff {run : TaskRun} {metadata : Option FileMetadata}
    {result : DownloadResult Unit} :
    (∀ record ∈ (Effect.setting run
        ((((s.copies id).lookup id).filter fun task => task.status ≠ .cancelled).map
          fun task => task.terminal metadata result)).records id, record.Allowed s.history) ↔
    ¬(s.Cancelled id ∧ ∃ task, (s.copies id).lookup id = some task ∧ task.status ≠ .cancelled) := by
  refine allowed_setting_iff.trans ⟨?_, fun h task' htask' => ?_⟩
  · rintro hallowed ⟨hcancelled, task, htask, hstatus⟩
    obtain ⟨hcancel, -⟩ := hallowed _ (Option.map_eq_some_iff.mpr
      ⟨task, Option.filter_eq_some_iff.mpr ⟨htask, decide_eq_true hstatus⟩, rfl⟩)
    have hterminal := hcancel hcancelled
    rcases terminal_status hstatus with h | h
    · rw [h] at hterminal
      cases hterminal
    · rw [h] at hterminal
      cases hterminal
  · obtain ⟨task, htask, rfl⟩ := Option.map_eq_some_iff.mp htask'
    obtain ⟨htask, hstatus⟩ := Option.filter_eq_some_iff.mp htask
    have hstatus := of_decide_eq_true hstatus
    refine ⟨fun hcancelled => absurd ⟨hcancelled, task, htask, hstatus⟩ h, fun _ => ?_⟩
    rcases terminal_status hstatus with h | h
    · rw [h]
      nofun
    · rw [h]
      nofun

/-- What a step of a run writes is allowed exactly when it takes no overriding branch. -/
theorem records_allowed_iff (hr : s.runs id = some r)
    (hx : r.step id (s.copies id) (s.store id) (s.controls id) e = some x) :
    (∀ record ∈ x.records id, record.Allowed s.history) ↔ ¬s.Overrides id e := by
  have hquiet (hrecords : x.records id = []) (h : ¬s.Overrides id e) :
      (∀ record ∈ x.records id, record.Allowed s.history) ↔ ¬s.Overrides id e :=
    iff_of_true (allowed_of_nil hrecords) h
  cases e with
  | fail =>
    obtain ⟨-, rfl⟩ := TaskRun.step_fail hx
    refine failing_allowed_iff.trans (not_congr ⟨?_, fun h => ?_⟩)
    · rintro ⟨hcancelled, task, htask⟩
      exact .failed hcancelled htask
    · cases h with
      | failed hcancelled htask => exact ⟨hcancelled, _, htask⟩
  | check =>
    obtain ⟨-, ⟨rfl, -⟩ | ⟨rfl, -⟩⟩ := TaskRun.step_check hx
    · exact hquiet rfl (by rintro ⟨⟩)
    · exact hquiet rfl (by rintro ⟨⟩)
  | mark =>
    obtain ⟨-, rfl⟩ := TaskRun.step_mark hx
    refine marking_allowed_iff.trans (not_congr ⟨?_, fun h => ?_⟩)
    · rintro ⟨huser, task, htask⟩
      exact .marked huser htask
    · cases h with
      | marked huser htask => exact ⟨huser, _, htask⟩
  | inject =>
    obtain ⟨-, rfl⟩ := TaskRun.step_inject hx
    exact hquiet rfl (by rintro ⟨⟩)
  | checkControl =>
    obtain ⟨rfl, -⟩ | ⟨-, rfl⟩ | ⟨metadata, totalFrags, -, rfl⟩ := TaskRun.step_checkControl hx
    · exact hquiet rfl (by rintro ⟨⟩)
    · exact hquiet rfl (by rintro ⟨⟩)
    · exact hquiet rfl (by rintro ⟨⟩)
  | probe result =>
    obtain ⟨-, ⟨metadata, rfl, rfl⟩ | ⟨rfl, rfl⟩ | ⟨error, rfl, herror, rfl⟩⟩ :=
      TaskRun.step_probe hx
    · exact hquiet rfl (by rintro ⟨⟩)
    · refine hquiet rfl fun h => ?_
      cases h with
      | probeFailed _ _ herror => exact herror rfl
    · refine failing_allowed_iff.trans (not_congr ⟨?_, fun h => ?_⟩)
      · rintro ⟨hcancelled, task, htask⟩
        exact .probeFailed hcancelled htask herror
      · cases h with
        | probeFailed hcancelled htask => exact ⟨hcancelled, _, htask⟩
  | size =>
    obtain ⟨metadata, -, rfl⟩ := TaskRun.step_size hx
    exact hquiet rfl (by rintro ⟨⟩)
  | copy =>
    obtain ⟨metadata, -, ⟨task, -, rfl⟩ | ⟨-, rfl⟩⟩ := TaskRun.step_copy hx
    · exact hquiet rfl (by rintro ⟨⟩)
    · exact hquiet rfl (by rintro ⟨⟩)
  | saveMetadata now saved =>
    obtain ⟨metadata, task, hphase, rfl⟩ := TaskRun.step_saveMetadata hx
    refine save_allowed_iff.trans (not_congr ⟨?_, fun h => ?_⟩)
    · rintro ⟨hcancelled, rfl, hstatus⟩
      exact .metadata hcancelled hr hphase hstatus
    · cases h with
      | metadata hcancelled hrun hphase' hstatus =>
        obtain rfl := Option.some.inj (hr.symm.trans hrun)
        obtain ⟨-, rfl⟩ := RunPhase.copied.inj (hphase.symm.trans hphase')
        exact ⟨hcancelled, rfl, hstatus⟩
  | finish result =>
    obtain ⟨metadata, ended, hphase, rfl, rfl⟩ := TaskRun.step_finish hx
    refine ending_allowed_iff.trans (not_congr ⟨?_, fun h => ?_⟩)
    · rintro ⟨hcancelled, task, htask, hstatus⟩
      exact .finished hcancelled htask hstatus
    · cases h with
      | finished hcancelled htask hstatus => exact ⟨hcancelled, _, htask, hstatus⟩
  | notify =>
    obtain ⟨terminal, control, -, rfl⟩ := TaskRun.step_notify hx
    exact hquiet rfl (by rintro ⟨⟩)
  | join =>
    obtain ⟨-, rfl⟩ := TaskRun.step_join hx
    exact hquiet rfl (by rintro ⟨⟩)
  | cleanup =>
    obtain ⟨-, rfl⟩ | ⟨-, rfl⟩ := TaskRun.step_cleanup hx
    · exact hquiet rfl (by rintro ⟨⟩)
    · exact hquiet rfl (by rintro ⟨⟩)
  | report =>
    obtain ⟨-, rfl⟩ := TaskRun.step_report hx
    refine (event_allowed_iff (Option.map_map ..)).trans (not_congr ⟨?_, fun h => ?_⟩)
    · rintro ⟨hcancelled, task, htask, hstatus⟩
      exact .report hcancelled htask hstatus
    · cases h with
      | report hcancelled htask hstatus => exact ⟨hcancelled, _, htask, hstatus⟩
  | persist e =>
    obtain ⟨phase, next, save, hphase, hstep, rfl⟩ := TaskRun.step_persist hx
    obtain ⟨rfl, hevent⟩ | ⟨task, existing, now, downloadDir, saved, rfl, rfl, -, rfl⟩ :=
      PersistPhase.step_eq_some hstep
    · refine hquiet rfl fun h => ?_
      cases h with
      | persist => exact hevent _ _ _ rfl
    · refine save_allowed_iff.trans (not_congr ⟨?_, fun h => ?_⟩)
      · rintro ⟨hcancelled, rfl, hstatus⟩
        rw [persistedSnapshot_status] at hstatus
        exact .persist hcancelled hr hphase hstatus
      · cases h with
        | persist hcancelled hrun hphase' hstatus =>
          obtain rfl := Option.some.inj (hr.symm.trans hrun)
          obtain ⟨rfl, rfl⟩ := PersistPhase.saving.inj
            (RunPhase.persisting.inj (hphase.symm.trans hphase'))
          rw [persistedSnapshot_status]
          exact ⟨hcancelled, rfl, hstatus⟩
  | receive progress =>
    obtain ⟨reader, -, rfl⟩ := TaskRun.step_receive hx
    exact hquiet rfl (by rintro ⟨⟩)
  | checkpointLoad readable =>
    obtain ⟨reader, phase, -, rfl⟩ := TaskRun.step_checkpointLoad hx
    exact hquiet rfl (by rintro ⟨⟩)
  | checkpointSave saved =>
    obtain ⟨reader, loaded, hreader, hphase, rfl⟩ := TaskRun.step_checkpointSave hx
    refine save_allowed_iff.trans (not_congr ⟨?_, fun h => ?_⟩)
    · rintro ⟨hcancelled, rfl, hstatus⟩
      exact .checkpoint hcancelled hr hreader hphase hstatus
    · cases h with
      | checkpoint hcancelled hrun hreader' hphase' hstatus =>
        obtain rfl := Option.some.inj (hr.symm.trans hrun)
        obtain rfl := Option.some.inj (hreader.symm.trans hreader')
        obtain rfl := ReaderPhase.saving.inj (hphase.symm.trans hphase')
        exact ⟨hcancelled, rfl, hstatus⟩
  | readerDone =>
    obtain ⟨reader, -, rfl⟩ := TaskRun.step_readerDone hx
    exact hquiet rfl (by rintro ⟨⟩)
  | controlChanged =>
    obtain ⟨monitor, monitor', -, ⟨-, rfl⟩ | ⟨-, -, rfl⟩⟩ := TaskRun.step_controlChanged hx
    · exact hquiet rfl (by rintro ⟨⟩)
    · exact hquiet rfl (by rintro ⟨⟩)
  | measure =>
    obtain ⟨monitor, monitor', -, rfl⟩ := TaskRun.step_measure hx
    exact hquiet rfl (by rintro ⟨⟩)
  | showSpeed elapsed =>
    obtain ⟨monitor, monitor', downloaded, status, -, -, rfl⟩ := TaskRun.step_showSpeed hx
    exact hquiet rfl (by rintro ⟨⟩)
  | broadcast =>
    obtain ⟨monitor, monitor', speed, downloaded, -, -, rfl⟩ := TaskRun.step_broadcast hx
    refine (event_allowed_iff broadcast_status).trans (not_congr ⟨?_, fun h => ?_⟩)
    · rintro ⟨hcancelled, task, htask, hstatus⟩
      exact .broadcast hcancelled htask hstatus
    · cases h with
      | broadcast hcancelled htask hstatus => exact ⟨hcancelled, _, htask, hstatus⟩

theorem history_command {text : Ipv6Addr → String} {e : AppEvent}
    (hrun : ∀ id e', e ≠ .run id e') (h : s.step text .copied e = some s') :
    UserWins s'.history ↔ UserWins s.history := by
  cases e with
  | create id request =>
    obtain ⟨-, downloadDir, -, -, -, rfl⟩ := step_create h
    exact and_iff_right trivial
  | creation id e =>
    obtain ⟨creation, -, h⟩ := step_creation h
    rw [creationStep_history h]
  | command c id =>
    obtain ⟨task, task', -, -, rfl⟩ := command_eq_ok (step_command h)
    exact and_iff_right trivial
  | persist call e =>
    obtain ⟨c, store, calls, returned, -, rfl | rfl, rfl⟩ := step_persist h
    · exact Iff.rfl
    · exact and_iff_right trivial
  | delete id =>
    obtain ⟨task, -, -, rfl⟩ := step_delete h
    exact Iff.rfl
  | recover found =>
    obtain rfl := Option.some.inj h
    dsimp only
    induction s.recoverable found with
    | nil => exact Iff.rfl
    | cons snapshot snapshots ih => exact (and_iff_right trivial).trans ih
  | run id e => exact absurd rfl (hrun id e)

/-- A step keeps the commands respected exactly when it respects them. -/
theorem userWins_step_iff {text : Ipv6Addr → String} {e : AppEvent} (hs : UserWins s.history)
    (h : s.step text .copied e = some s') : UserWins s'.history ↔ s.Respects e := by
  cases e with
  | run id e =>
    obtain ⟨r, x, hr, hx, rfl⟩ := step_run h
    refine (userWins_append fun record hrecord => records_written hrecord).trans ?_
    rw [and_iff_left hs]
    exact records_allowed_iff hr hx
  | _ => exact iff_of_true ((history_command (by rintro _ _ ⟨⟩) h).mpr hs) trivial

end Step

/-- In every state of a run, nothing that a `task_fn` has written overrides a command of the
user that returned Ok before. -/
theorem user_wins_iff (text : Ipv6Addr → String) (store : String → Option TaskSnapshot)
    (es : List AppEvent) :
    EachState (step text .copied) (fun s => UserWins s.history) (AppState.new store) es ↔
      EachStep (step text .copied) Respects (AppState.new store) es := by
  have hstep (s : AppState) (e : AppEvent) (s' : AppState) (_ : True) (_ : True)
      (hs : UserWins s.history) (h : s.step text .copied e = some s') :
      True ∧ (UserWins s'.history ↔ s.Respects e) := ⟨trivial, userWins_step_iff hs h⟩
  exact eachState_iff_eachStep hstep (fun _ _ => trivial) trivial trivial

/-- A command on the first task, with the whole of its persist. -/
def commanded (c : Command) : List AppEvent :=
  [.command c "task-1", .persist 0 .copy, .persist 0 (.load true),
    .persist 0 (.save "2026-05-29T00:01:00Z" "/downloads" true)]

/-- The first task's `task_fn` up to its call of `run`. -/
def probedRun : List AppEvent :=
  [.run "task-1" .check, .run "task-1" .mark, .run "task-1" .inject, .run "task-1" .checkControl,
    .run "task-1" (.probe (.ok ⟨"model.bin", some 1000, none, true, none, none⟩)),
    .run "task-1" .size, .run "task-1" .copy,
    .run "task-1" (.saveMetadata "2026-05-29T00:00:30Z" true), .run "task-1" .checkControl]

/-- A task cancelled while `run` is under way ends as Failed, and one paused before `task_fn`
sets its status is set to Downloading. -/
theorem user_overridden :
    ¬EachState (step (fun _ => "") .copied) (fun s => UserWins s.history)
      (AppState.new fun _ => none)
      (created "task-1" "example.com" ++ probedRun ++ commanded .cancel ++
        [.run "task-1" (.finish (.error .cancelled))]) ∧
    ¬EachState (step (fun _ => "") .copied) (fun s => UserWins s.history)
      (AppState.new fun _ => none)
      (created "task-1" "example.com" ++ [.run "task-1" .check] ++ commanded .pause ++
        [.run "task-1" .mark]) := by
  constructor
  · intro hstates
    have hrun : (run (step (fun _ => "") .copied) (AppState.new fun _ => none)
        (created "task-1" "example.com" ++ probedRun ++ commanded .cancel ++
          [.run "task-1" (.finish (.error .cancelled))])).map (fun s => s.history) =
        some [.entry "task-1" .failed, .returned .cancel "task-1", .called .cancel "task-1",
          .snapshot "task-1" .downloading, .entry "task-1" .downloading, .accepted "task-1"] := by
      decide +kernel
    obtain ⟨s, hs, hhistory⟩ := Option.map_eq_some_iff.mp hrun
    have hwins := hstates.last hs
    rw [hhistory] at hwins
    cases hwins.1.1 List.mem_cons_self
  · intro hstates
    have hrun : (run (step (fun _ => "") .copied) (AppState.new fun _ => none)
        (created "task-1" "example.com" ++ [.run "task-1" .check] ++ commanded .pause ++
          [.run "task-1" .mark])).map (fun s => s.history) =
        some [.entry "task-1" .downloading, .returned .pause "task-1", .called .pause "task-1",
          .accepted "task-1"] := by
      decide +kernel
    obtain ⟨s, hs, hhistory⟩ := Option.map_eq_some_iff.mp hrun
    have hwins := hstates.last hs
    rw [hhistory] at hwins
    exact hwins.1.2 rfl rfl

end AppState

end Tachyon
