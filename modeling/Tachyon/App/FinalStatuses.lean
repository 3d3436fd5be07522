import Tachyon.App.Commands

/-!
# Final statuses

That a task has ended Completed or Failed stands in the map of its own `task_fn` only, from its
last write of a status on, and no event of another task says it.
-/

namespace Tachyon

open EventRuns

/-- Completed or Failed. -/
def DownloadState.hasEnded : DownloadState → Bool
  | .completed | .failed => true
  | _ => false

/-- How far a `task_fn` is. -/
inductive Stage where
  | unfinished
  /-- The final status is written, the last event not yet sent. -/
  | ending
  /-- After the last event or an early return. -/
  | past
  deriving DecidableEq

def RunPhase.stage : RunPhase → Stage
  | .finished _ | .notified | .joined | .cleaned => .ending
  | .persisting _ | .exiting | .returned => .past
  | _ => .unfinished

/-- A step that fails the task before its download. -/
def RunEvent.failsEarly : RunEvent → Bool
  | .fail => true
  | .probe (.error .cancelled) => false
  | .probe (.error _) => true
  | _ => false

/-- What the other steps of a run do to the status of the task and to the progress channel. -/
inductive TaskRun.Turn (r : TaskRun) (id : String) (tasks : Tasks) (x : Effect) : Prop where
  | silent (hstatus : x.status = none) (hevent : x.event = none)
      (hentry : ∀ task', x.entry = some task' →
        ∃ task, tasks.lookup id = some task ∧ task'.status = task.status)
      (hstage : x.run.phase.stage = r.phase.stage ∨
        (r.phase.stage = .unfinished ∧ x.run.phase.stage = .past))
  | marked (run : TaskRun) (hr : r.phase.stage = .unfinished)
      (hrun : run.phase.stage = .unfinished)
      (hx : x = .setting run ((tasks.lookup id).map fun task => task.updateStatus .downloading))
  | finished (run : TaskRun) (ended : Option TaskInfo) (hr : r.phase.stage = .unfinished)
      (hrun : run.phase.stage = .ending) (hx : x = .setting run ended)
  | reported (run : TaskRun) (hr : r.phase.stage = .ending) (hrun : run.phase.stage = .past)
      (hx : x = {
        run := run
        event := some fun id => (tasks.lookup id).map fun task => task.report id })
  | broadcast (run : TaskRun) (speed downloaded : ℕ) (hr : r.monitor.isSome = true)
      (hrun : run.phase = r.phase) (hx : x = {
        run := run
        event := (tasks.lookup id).map fun task => Function.update (fun _ => none) id
          (some { task.report id with speed := speed, downloaded := downloaded }) })

section Step

variable {r : TaskRun} {id : String} {tasks : Tasks} {stored : Option TaskSnapshot}
  {registered : Bool} {e : RunEvent} {x : Effect}

/-- A step that writes nothing and sends nothing. -/
theorem TaskRun.Turn.idle (hstatus : x.status = none) (hevent : x.event = none)
    (hentry : x.entry = none)
    (hstage : x.run.phase.stage = r.phase.stage ∨
      (r.phase.stage = .unfinished ∧ x.run.phase.stage = .past)) : r.Turn id tasks x :=
  .silent hstatus hevent (fun _ h => absurd (hentry.symm.trans h) nofun) hstage

/-- A step that writes the entry and keeps its status. -/
theorem TaskRun.Turn.writes {f : TaskInfo → TaskInfo} (hstatus : x.status = none)
    (hevent : x.event = none) (hentry : x.entry = (tasks.lookup id).map f)
    (hf : ∀ task, (f task).status = task.status)
    (hstage : x.run.phase.stage = r.phase.stage) : r.Turn id tasks x := by
  refine .silent hstatus hevent (fun task' h => ?_) (Or.inl hstage)
  obtain ⟨task, htask, rfl⟩ := Option.map_eq_some_iff.mp (hentry.symm.trans h)
  exact ⟨task, htask, hf task⟩

theorem TaskRun.step_failsEarly (h : r.step id tasks stored registered e = some x)
    (he : e.failsEarly = true) :
    r.phase.stage = .unfinished ∧ x = r.failing (tasks.lookup id) := by
  cases e with
  | fail =>
    obtain ⟨hphase | hphase, rfl⟩ := TaskRun.step_fail h
    · exact ⟨by rw [hphase]; rfl, rfl⟩
    · exact ⟨by rw [hphase]; rfl, rfl⟩
  | probe result =>
    obtain ⟨hphase, ⟨metadata, rfl, rfl⟩ | ⟨rfl, rfl⟩ | ⟨error, rfl, -, rfl⟩⟩ :=
      TaskRun.step_probe h
    · cases he
    · cases he
    · exact ⟨by rw [hphase]; rfl, rfl⟩
  | _ => cases he

theorem TaskRun.step_turn (h : r.step id tasks stored registered e = some x)
    (he : e.failsEarly = false) : r.Turn id tasks x := by
  have hstage {before : RunPhase} {after : Stage} (hphase : r.phase = before)
      (hbefore : before.stage = after) : r.phase.stage = after := hphase ▸ hbefore
  cases e with
  | fail => cases he
  | check =>
    obtain ⟨hphase, ⟨rfl, -⟩ | ⟨rfl, -⟩⟩ := TaskRun.step_check h
    · exact .idle rfl rfl rfl (Or.inr ⟨hstage hphase rfl, rfl⟩)
    · exact .idle rfl rfl rfl (Or.inl (hstage hphase rfl).symm)
  | mark =>
    obtain ⟨hphase, rfl⟩ := TaskRun.step_mark h
    exact .marked _ (hstage hphase rfl) rfl rfl
  | inject =>
    obtain ⟨hphase, rfl⟩ := TaskRun.step_inject h
    exact .idle rfl rfl rfl (Or.inl (hstage hphase rfl).symm)
  | checkControl =>
    obtain ⟨rfl, hphase | ⟨metadata, hphase⟩⟩ | ⟨hphase, rfl⟩ |
      ⟨metadata, totalFrags, hphase, rfl⟩ := TaskRun.step_checkControl h
    · exact .idle rfl rfl rfl (Or.inr ⟨hstage hphase rfl, rfl⟩)
    · exact .idle rfl rfl rfl (Or.inr ⟨hstage hphase rfl, rfl⟩)
    · exact .idle rfl rfl rfl (Or.inl (hstage hphase rfl).symm)
    · exact .idle rfl rfl rfl (Or.inl (hstage hphase rfl).symm)
  | probe result =>
    obtain ⟨hphase, ⟨metadata, rfl, rfl⟩ | ⟨rfl, rfl⟩ | ⟨error, rfl, herror, rfl⟩⟩ :=
      TaskRun.step_probe h
    · exact .idle rfl rfl rfl (Or.inl (hstage hphase rfl).symm)
    · exact .idle rfl rfl rfl (Or.inr ⟨hstage hphase rfl, rfl⟩)
    · cases error with
      | cancelled => exact absurd rfl herror
      | _ => cases he
  | size =>
    obtain ⟨metadata, hphase, rfl⟩ := TaskRun.step_size h
    exact .writes rfl rfl rfl (fun _ => rfl) (hstage hphase rfl).symm
  | copy =>
    obtain ⟨metadata, hphase, ⟨task, -, rfl⟩ | ⟨-, rfl⟩⟩ := TaskRun.step_copy h
    · exact .idle rfl rfl rfl (Or.inl (hstage hphase rfl).symm)
    · exact .idle rfl rfl rfl (Or.inl (hstage hphase rfl).symm)
  | saveMetadata now saved =>
    obtain ⟨metadata, task, hphase, rfl⟩ := TaskRun.step_saveMetadata h
    exact .idle rfl rfl rfl (Or.inl (hstage hphase rfl).symm)
  | finish result =>
    obtain ⟨metadata, ended, hphase, -, rfl⟩ := TaskRun.step_finish h
    exact .finished _ ended (hstage hphase rfl) rfl rfl
  | notify =>
    obtain ⟨terminal, control, hphase, rfl⟩ := TaskRun.step_notify h
    exact .idle rfl rfl rfl (Or.inl (hstage hphase rfl).symm)
  | join =>
    obtain ⟨hphase, rfl⟩ := TaskRun.step_join h
    exact .idle rfl rfl rfl (Or.inl (hstage hphase rfl).symm)
  | cleanup =>
    obtain ⟨hphase, rfl⟩ | ⟨hphase, rfl⟩ := TaskRun.step_cleanup h
    · exact .idle rfl rfl rfl (Or.inl (hstage hphase rfl).symm)
    · exact .idle rfl rfl rfl (Or.inl (hstage hphase rfl).symm)
  | report =>
    obtain ⟨hphase, rfl⟩ := TaskRun.step_report h
    exact .reported _ (hstage hphase rfl) rfl rfl
  | persist e =>
    obtain ⟨phase, next, save, hphase, -, rfl⟩ := TaskRun.step_persist h
    refine .idle rfl rfl rfl (Or.inl (Eq.trans ?_ (hstage hphase rfl).symm))
    cases next with
    | none => rfl
    | some phase => rfl
  | receive progress =>
    obtain ⟨reader, -, rfl⟩ := TaskRun.step_receive h
    exact .writes rfl rfl rfl (fun _ => rfl) rfl
  | checkpointLoad readable =>
    obtain ⟨reader, phase, -, rfl⟩ := TaskRun.step_checkpointLoad h
    exact .idle rfl rfl rfl (Or.inl rfl)
  | checkpointSave saved =>
    obtain ⟨reader, loaded, -, -, rfl⟩ := TaskRun.step_checkpointSave h
    exact .idle rfl rfl rfl (Or.inl rfl)
  | readerDone =>
    obtain ⟨reader, -, rfl⟩ := TaskRun.step_readerDone h
    exact .idle rfl rfl rfl (Or.inl rfl)
  | controlChanged =>
    obtain ⟨monitor, monitor', -, ⟨-, rfl⟩ | ⟨-, -, rfl⟩⟩ := TaskRun.step_controlChanged h
    · exact .idle rfl rfl rfl (Or.inl rfl)
    · exact .writes rfl rfl rfl (fun _ => rfl) rfl
  | measure =>
    obtain ⟨monitor, monitor', -, rfl⟩ := TaskRun.step_measure h
    exact .idle rfl rfl rfl (Or.inl rfl)
  | showSpeed elapsed =>
    obtain ⟨monitor, monitor', downloaded, status, -, -, rfl⟩ := TaskRun.step_showSpeed h
    exact .writes rfl rfl rfl (fun _ => rfl) rfl
  | broadcast =>
    obtain ⟨monitor, monitor', speed, downloaded, hmonitor, -, rfl⟩ := TaskRun.step_broadcast h
    exact .broadcast { r with monitor := some monitor' } speed downloaded
      (Option.isSome_of_eq_some hmonitor) rfl rfl

/-- What an event of a run shows of a task stands in its map. -/
theorem TaskRun.Turn.event_status (h : r.Turn id tasks x) {event : ProgressEvent}
    {j : String} {shown : TaskProgress} (hevent : x.event = some event)
    (hshown : event j = some shown) :
    ∃ task, tasks.lookup j = some task ∧ shown.status = task.status := by
  cases h with
  | silent _ hnone => exact absurd (hnone.symm.trans hevent) nofun
  | marked run _ _ hx =>
    subst hx
    cases hevent
  | finished run ended _ _ hx =>
    subst hx
    cases hevent
  | reported run _ _ hx =>
    subst hx
    obtain rfl := Option.some.inj hevent
    obtain ⟨task, htask, rfl⟩ := Option.map_eq_some_iff.mp hshown
    exact ⟨task, htask, rfl⟩
  | broadcast run speed downloaded _ _ hx =>
    subst hx
    obtain ⟨task, htask, rfl⟩ := Option.map_eq_some_iff.mp hevent
    obtain ⟨rfl, hshown⟩ | ⟨-, hshown⟩ := AppState.update_eq_some.mp hshown
    · obtain rfl := Option.some.inj hshown
      exact ⟨task, htask, rfl⟩
    · cases hshown

theorem TaskRun.start_stage (r : TaskRun) : r.start.phase.stage = r.phase.stage := by
  unfold TaskRun.start
  split
  · rename_i hphase
    rw [hphase]
    rfl
  · rfl

/-- The status a command sets is not one of an ended task. -/
theorem Command.apply_hasEnded {c : Command} {task task' : TaskInfo}
    (h : c.apply task = some task') : task'.status.hasEnded = false := by
  cases c with
  | pause | resume | cancel =>
    simp only [Command.apply] at h
    split at h
    · cases h <;> rfl
    · cases h <;> rfl

end Step

namespace AppState

/-- How far the `task_fn` of a task is, which may not have begun. -/
def stage (s : AppState) (id : String) : Stage :=
  ((s.runs id).map fun r => r.phase.stage).getD .unfinished

/-- The `task_fn` has written that the task ended so. -/
def Ended (s : AppState) (id : String) (status : DownloadState) : Prop :=
  status.hasEnded = true ∧ .entry id status ∈ s.history

/-- Where it stands that a task has ended. -/
structure FinalStatuses (s : AppState) : Prop where
  managed : ∀ id task, s.tasks.lookup id = some task → task.status.hasEnded = false
  /-- The map of a `task_fn` says so of no other task. -/
  foreign : ∀ id j task, j ≠ id → (s.copies id).lookup j = some task →
    task.status.hasEnded = false
  own : ∀ id task, (s.copies id).lookup id = some task → task.status.hasEnded = true →
    .entry id task.status ∈ s.history
  unfinished : ∀ id status, s.stage id = .unfinished → ¬s.Ended id status
  ending : ∀ id status, s.stage id = .ending → s.Ended id status →
    ∃ task, (s.copies id).lookup id = some task ∧ task.status = status
  progress : ∀ id shown, s.progress id = some shown → shown.status.hasEnded = true →
    .entry id shown.status ∈ s.history
  creating : ∀ id creation, s.creations id = some creation → creation.phase ≠ .registered →
    s.runs id = none
  accepted : ∀ id r, s.runs id = some r → .accepted id ∈ s.history

/-- A step in which no `task_fn` writes or sends a status. -/
structure Still (s s' : AppState) : Prop where
  progress : s'.progress = s.progress
  stage : ∀ id, s'.stage id = s.stage id
  entries : ∀ id status, .entry id status ∈ s'.history ↔ .entry id status ∈ s.history

section Step

variable {text : Ipv6Addr → String} {s s' : AppState} {id : String} {e : AppEvent}

theorem finalStatuses_new (store : String → Option TaskSnapshot) :
    (AppState.new store).FinalStatuses where
  managed _ _ h := absurd h (Option.some_ne_none _).symm
  foreign _ _ _ _ h := absurd h (Option.some_ne_none _).symm
  own _ _ h := absurd h (Option.some_ne_none _).symm
  unfinished _ _ _ h := absurd h.2 List.not_mem_nil
  ending _ _ h := absurd (show Stage.unfinished = .ending from h) nofun
  progress _ _ h := absurd h (Option.some_ne_none _).symm
  creating _ _ h := absurd h (Option.some_ne_none _).symm
  accepted _ _ h := absurd h (Option.some_ne_none _).symm

theorem Still.ended {status : DownloadState} (h : s.Still s') :
    s'.Ended id status ↔ s.Ended id status := and_congr_right fun _ => h.entries id status

/-- A step without a status written or sent, which clones the managed map at most for a
`task_fn` to come. -/
theorem FinalStatuses.still (hs : s.FinalStatuses) (hprogress : s'.progress = s.progress)
    (hstage : ∀ id, s'.stage id = s.stage id)
    (hentries : ∀ id status, .entry id status ∈ s'.history ↔ .entry id status ∈ s.history)
    (hmanaged : ∀ id task, s'.tasks.lookup id = some task → task.status.hasEnded = false)
    (hcopies : ∀ id, s'.copies id = s.copies id ∨ (s.runs id = none ∧ s'.copies id = s.tasks))
    (hcreating : ∀ id creation, s'.creations id = some creation →
      creation.phase ≠ .registered → s'.runs id = none)
    (haccepted : ∀ id r, s'.runs id = some r → .accepted id ∈ s'.history) :
    s.Still s' ∧ s'.FinalStatuses where
  left := ⟨hprogress, hstage, hentries⟩
  right.managed := hmanaged
  right.foreign id j task hne hlookup := by
    obtain hsame | ⟨-, hclone⟩ := hcopies id
    · exact hs.foreign id j task hne (hsame ▸ hlookup)
    · exact hs.managed j task (hclone ▸ hlookup)
  right.own id task hlookup hended := by
    obtain hsame | ⟨-, hclone⟩ := hcopies id
    · exact (hentries id task.status).mpr (hs.own id task (hsame ▸ hlookup) hended)
    · rw [hs.managed id task (hclone ▸ hlookup)] at hended
      cases hended
  right.unfinished id status hunfinished hended := by
    rw [hstage id] at hunfinished
    exact hs.unfinished id status hunfinished ⟨hended.1, (hentries id status).mp hended.2⟩
  right.ending id status hending hended := by
    rw [hstage id] at hending
    obtain hsame | ⟨hnone, -⟩ := hcopies id
    · rw [hsame]
      exact hs.ending id status hending ⟨hended.1, (hentries id status).mp hended.2⟩
    · rw [AppState.stage, hnone] at hending
      cases hending
  right.progress id shown hshown hended := by
    rw [hprogress] at hshown
    exact (hentries id shown.status).mpr (hs.progress id shown hshown hended)
  right.creating := hcreating
  right.accepted := haccepted

/-- A recovered task has not ended. -/
theorem recovered_hasEnded {tasks : Tasks} {snapshots : List TaskSnapshot} {task : TaskInfo}
    (hsnapshots : ∀ snapshot ∈ snapshots, snapshot.recoverable = true)
    (htasks : ∀ id task, tasks.lookup id = some task → task.status.hasEnded = false)
    (h : (insertRecovered tasks snapshots).lookup id = some task) :
    task.status.hasEnded = false := by
  induction snapshots generalizing tasks with
  | nil => exact htasks id task h
  | cons snapshot snapshots ih =>
    refine ih (fun other hother => hsnapshots other (List.mem_cons_of_mem _ hother)) ?_ h
    intro j task hlookup
    by_cases hj : j = snapshot.id
    · subst hj
      rw [Finmap.lookup_insert] at hlookup
      obtain rfl := Option.some.inj hlookup
      have hrecoverable := hsnapshots snapshot List.mem_cons_self
      simp only [TaskSnapshot.recoverable, Bool.or_eq_true, decide_eq_true_eq] at hrecoverable
      obtain hstatus | hstatus := hrecoverable
      · simp [snapshotToTaskInfo, hstatus, normalizeRecoveredStatus, DownloadState.hasEnded]
      · simp [snapshotToTaskInfo, hstatus, normalizeRecoveredStatus, DownloadState.hasEnded]
    · rw [Finmap.lookup_insert_of_ne _ hj] at hlookup
      exact htasks j task hlookup

/-- The runs are the same, one of them with its channel or its start signal changed. -/
theorem stage_mapRun {f : TaskRun → TaskRun} (hf : ∀ r, (f r).phase.stage = r.phase.stage)
    (hruns : s'.runs = Function.update s.runs id ((s.runs id).map f)) (j : String) :
    s'.stage j = s.stage j := by
  unfold stage
  rw [hruns]
  by_cases hj : j = id
  · subst hj
    rw [Function.update_self, Option.map_map]
    cases s.runs j with
    | none => rfl
    | some r => exact hf r
  · rw [Function.update_of_ne hj]

/-- The steps of a creation. -/
theorem FinalStatuses.creation (hs : s.FinalStatuses) (hwf : s.WellFormed) {creation : Creation}
    {e : CreationEvent} (hcreation : s.creations id = some creation)
    (h : s.creationStep id creation e = some s') : s.Still s' ∧ s'.FinalStatuses := by
  have hentries (i : String) (status : DownloadState) :
      .entry i status ∈ s'.history ↔ .entry i status ∈ s.history := by
    rw [creationStep_history h]
  -- before its registration a task has no run
  have hgoes {phase : CreationPhase} {next : Option Creation} (hphase : creation.phase = phase)
      (hne : phase ≠ .registered) (i : String) (c : Creation)
      (hc : Function.update s.creations id next i = some c) (hbefore : c.phase ≠ .registered) :
      s.runs i = none := by
    obtain ⟨rfl, -⟩ | ⟨-, hc⟩ := update_eq_some.mp hc
    · exact hs.creating i creation hcreation (hphase ▸ hne)
    · exact hs.creating i c hc hbefore
  cases e with
  | copy =>
    obtain ⟨phase, hphase, -, rfl⟩ := creationStep_copy h
    exact hs.still rfl (fun _ => rfl) hentries hs.managed (fun _ => Or.inl rfl)
      (hgoes hphase nofun) hs.accepted
  | save now saved =>
    obtain ⟨task, store, hphase, rfl⟩ := creationStep_save h
    exact hs.still rfl (fun _ => rfl) hentries hs.managed (fun _ => Or.inl rfl)
      (hgoes hphase nofun) hs.accepted
  | configure maxConcurrentFragments =>
    obtain ⟨hphase, ⟨-, rfl⟩ | ⟨-, rfl⟩⟩ := creationStep_configure h
    · refine hs.still rfl (fun _ => rfl) hentries (fun i task hlookup => ?_)
        (fun _ => Or.inl rfl) (hgoes hphase nofun) hs.accepted
      by_cases hi : i = id
      · subst hi
        exact absurd ((Finmap.lookup_erase i s.tasks).symm.trans hlookup) nofun
      · exact hs.managed i task ((Finmap.lookup_erase_ne hi).symm.trans hlookup)
    · exact hs.still rfl (fun _ => rfl) hentries hs.managed (fun _ => Or.inl rfl)
        (hgoes hphase nofun) hs.accepted
  | clone =>
    obtain ⟨hphase, rfl⟩ := creationStep_clone h
    refine hs.still rfl (fun _ => rfl) hentries hs.managed (fun i => ?_)
      (hgoes hphase nofun) hs.accepted
    by_cases hi : i = id
    · subst hi
      have hnone := hs.creating i creation hcreation (by rw [hphase]; nofun)
      exact Or.inr ⟨hnone, Function.update_self ..⟩
    · exact Or.inl (Function.update_of_ne hi _ _)
  | register =>
    obtain ⟨hphase, rfl⟩ := creationStep_register h
    have hnone : s.runs id = none := hs.creating id creation hcreation (by rw [hphase]; nofun)
    refine hs.still rfl (fun j => ?_) hentries hs.managed (fun _ => Or.inl rfl)
      (fun i c hc hbefore => ?_) fun i r hr => ?_
    · unfold stage
      by_cases hj : j = id
      · subst hj
        dsimp only
        rw [Function.update_self, hnone]
        rfl
      · dsimp only
        rw [Function.update_of_ne hj]
    · obtain ⟨-, hc⟩ | ⟨hi, hc⟩ := update_eq_some.mp hc
      · cases hc
        exact absurd rfl hbefore
      · exact (Function.update_of_ne hi _ _).trans (hs.creating i c hc hbefore)
    · obtain ⟨rfl, -⟩ | ⟨-, hr⟩ := update_eq_some.mp hr
      · exact hwf.accepted i creation hcreation
      · exact hs.accepted i r hr
  | start =>
    obtain ⟨-, rfl⟩ := creationStep_start h
    refine hs.still rfl (stage_mapRun TaskRun.start_stage rfl) hentries hs.managed
      (fun _ => Or.inl rfl) (fun i c hc hbefore => ?_) fun i r hr => ?_
    · obtain ⟨-, hc⟩ | ⟨hi, hc⟩ := update_eq_some.mp hc
      · cases hc
      · exact (Function.update_of_ne hi _ _).trans (hs.creating i c hc hbefore)
    · obtain ⟨rfl, hr⟩ | ⟨-, hr⟩ := update_eq_some.mp hr
      · obtain ⟨r', hr', -⟩ := Option.map_eq_some_iff.mp hr
        exact hs.accepted i r' hr'
      · exact hs.accepted i r hr

/-- No `task_fn` writes or sends a status in a step of the application that is not its own. -/
theorem FinalStatuses.other (hs : s.FinalStatuses) (hwf : s.WellFormed)
    (hrun : ∀ id e', e ≠ .run id e') (h : s.step text .copied e = some s') :
    s.Still s' ∧ s'.FinalStatuses := by
  cases e with
  | create id request =>
    obtain ⟨⟨-, -, hunused⟩, downloadDir, -, -, -, rfl⟩ := step_create h
    refine hs.still rfl (fun _ => rfl) (fun _ _ => by simp) (fun i task hlookup => ?_)
      (fun _ => Or.inl rfl) (fun i c hc hbefore => ?_)
      fun i r hr => List.mem_cons_of_mem _ (hs.accepted i r hr)
    · by_cases hi : i = id
      · subst hi
        obtain rfl := Option.some.inj ((Finmap.lookup_insert s.tasks).symm.trans hlookup)
        rfl
      · exact hs.managed i task ((Finmap.lookup_insert_of_ne _ hi).symm.trans hlookup)
    · obtain ⟨rfl, -⟩ | ⟨-, hc⟩ := update_eq_some.mp hc
      · by_contra hsome
        obtain ⟨r, hr⟩ := Option.ne_none_iff_exists'.mp hsome
        exact hunused (hs.accepted i r hr)
      · exact hs.creating i c hc hbefore
  | creation id e =>
    obtain ⟨creation, hcreation, h⟩ := step_creation h
    exact hs.creation hwf hcreation h
  | command c id =>
    obtain ⟨task, task', -, happly, rfl⟩ := command_eq_ok (step_command h)
    have hruns : (if s.controls id then Function.update s.runs id ((s.runs id).map fun r =>
          { r with control := r.control.send c.sent }) else s.runs) =
        Function.update s.runs id ((s.runs id).map fun r =>
          if s.controls id then { r with control := r.control.send c.sent } else r) := by
      split
      · rfl
      · rw [Option.map_id', Function.update_eq_self]
    rw [hruns]
    refine hs.still rfl (stage_mapRun (fun r => ?_) rfl) (fun _ _ => by simp)
      (fun i task hlookup => ?_) (fun _ => Or.inl rfl) (fun i creation hc hbefore => ?_)
      fun i r hr => ?_
    · split
      · rfl
      · rfl
    · by_cases hi : i = id
      · subst hi
        obtain rfl := Option.some.inj ((Finmap.lookup_insert s.tasks).symm.trans hlookup)
        exact Command.apply_hasEnded happly
      · exact hs.managed i task ((Finmap.lookup_insert_of_ne _ hi).symm.trans hlookup)
    · have hnone := hs.creating i creation hc hbefore
      by_cases hi : i = id
      · subst hi
        exact (Function.update_self ..).trans (by rw [hnone]; rfl)
      · exact (Function.update_of_ne hi _ _).trans hnone
    · obtain ⟨rfl, hr⟩ | ⟨-, hr⟩ := update_eq_some.mp hr
      · obtain ⟨r', hr', -⟩ := Option.map_eq_some_iff.mp hr
        exact List.mem_cons_of_mem _ (hs.accepted i r' hr')
      · exact List.mem_cons_of_mem _ (hs.accepted i r hr)
  | persist call e =>
    obtain ⟨c, store, calls, returned, -, hreturned, rfl⟩ := step_persist h
    have hentries (i : String) (status : DownloadState) :
        .entry i status ∈ returned ++ s.history ↔ .entry i status ∈ s.history := by
      obtain rfl | rfl := hreturned
      · simp
      · simp
    exact hs.still rfl (fun _ => rfl) hentries hs.managed (fun _ => Or.inl rfl) hs.creating
      fun i r hr => List.mem_append_right _ (hs.accepted i r hr)
  | delete id =>
    obtain ⟨task, -, -, rfl⟩ := step_delete h
    refine hs.still rfl (fun _ => rfl) (fun _ _ => Iff.rfl) (fun i task hlookup => ?_)
      (fun _ => Or.inl rfl) hs.creating hs.accepted
    by_cases hi : i = id
    · subst hi
      exact absurd ((Finmap.lookup_erase i s.tasks).symm.trans hlookup) nofun
    · exact hs.managed i task ((Finmap.lookup_erase_ne hi).symm.trans hlookup)
  | recover found =>
    obtain rfl := Option.some.inj h
    refine hs.still rfl (fun _ => rfl) (fun _ _ => by simp) (fun i task hlookup => ?_)
      (fun _ => Or.inl rfl) hs.creating
      fun i r hr => List.mem_append_right _ (hs.accepted i r hr)
    exact recovered_hasEnded (fun snapshot hmem => (List.mem_filter.mp hmem).2) hs.managed hlookup
  | run id e => exact absurd rfl (hrun id e)

theorem entry_mem_records {x : Effect} {j : String} {status : DownloadState} :
    .entry j status ∈ x.records id ↔ j = id ∧ x.status = some status := by
  simp only [Effect.records, List.mem_append, Option.mem_toList, Option.map_eq_some_iff,
    Record.entry.injEq, reduceCtorEq, and_false, exists_false, or_false]
  constructor
  · rintro ⟨status, hstatus, rfl, rfl⟩
    exact ⟨rfl, hstatus⟩
  · rintro ⟨rfl, hstatus⟩
    exact ⟨status, hstatus, rfl, rfl⟩

theorem entry_mem_perform {x : Effect} {j : String} {status : DownloadState} :
    .entry j status ∈ (s.perform .copied id x).history ↔
      (j = id ∧ x.status = some status) ∨ .entry j status ∈ s.history :=
  List.mem_append.trans (or_congr_left entry_mem_records)

theorem copies_perform_of_ne {x : Effect} {i : String} (hi : i ≠ id) :
    (s.perform .copied id x).copies i = s.copies i := by
  cases hentry : x.entry with
  | none => simp only [perform, save, hentry]
  | some task => simp only [perform, save, hentry, Function.update_of_ne hi]

/-- A `task_fn` writes the entry of its task at most. -/
theorem lookup_perform {x : Effect} :
    ((s.perform .copied id x).copies id).lookup id = x.entry.or ((s.copies id).lookup id) := by
  cases hentry : x.entry with
  | none => simp only [perform, save, hentry, Option.none_or]
  | some task => simp only [perform, save, hentry, Function.update_self, Finmap.lookup_insert,
      Option.some_or]

theorem lookup_perform_of_ne {x : Effect} {j : String} (hj : j ≠ id) :
    ((s.perform .copied id x).copies id).lookup j = (s.copies id).lookup j := by
  cases hentry : x.entry with
  | none => simp only [perform, save, hentry]
  | some task => simp only [perform, save, hentry, Function.update_self,
      Finmap.lookup_insert_of_ne _ hj]

theorem stage_perform {x : Effect} :
    (s.perform .copied id x).stage = Function.update s.stage id x.run.phase.stage := by
  funext j
  unfold stage
  by_cases hj : j = id
  · subst hj
    simp only [perform, save, Function.update_self, Option.map_some, Option.getD_some]
  · simp only [perform, save, Function.update_of_ne hj]

/-- What a step of a run leaves to prove: of its own task, and of the event it sends. -/
theorem FinalStatuses.perform (hs : s.FinalStatuses) {r : TaskRun} {x : Effect}
    (hr : s.runs id = some r)
    (hown : ∀ task, x.entry.or ((s.copies id).lookup id) = some task →
      task.status.hasEnded = true → x.status = some task.status ∨ .entry id task.status ∈ s.history)
    (hunfinished : x.run.phase.stage = .unfinished → r.phase.stage = .unfinished ∧
      ∀ status, x.status = some status → status.hasEnded = false)
    (hending : x.run.phase.stage = .ending → ∀ status, status.hasEnded = true →
      x.status = some status ∨ .entry id status ∈ s.history →
      ∃ task, x.entry.or ((s.copies id).lookup id) = some task ∧ task.status = status)
    (hevent : ∀ event j shown, x.event = some event → event j = some shown →
      ∃ task, (s.copies id).lookup j = some task ∧ shown.status = task.status) :
    (s.perform .copied id x).FinalStatuses where
  managed := hs.managed
  foreign i j task hne hlookup := by
    by_cases hi : i = id
    · subst hi
      exact hs.foreign i j task hne ((lookup_perform_of_ne hne).symm.trans hlookup)
    · rw [copies_perform_of_ne hi] at hlookup
      exact hs.foreign i j task hne hlookup
  own i task hlookup hended := by
    rw [entry_mem_perform]
    by_cases hi : i = id
    · subst hi
      exact (hown task (lookup_perform.symm.trans hlookup) hended).imp_left fun h => ⟨rfl, h⟩
    · rw [copies_perform_of_ne hi] at hlookup
      exact Or.inr (hs.own i task hlookup hended)
  unfinished i status hstage hended := by
    obtain ⟨hended, hentry⟩ := hended
    rw [entry_mem_perform] at hentry
    by_cases hi : i = id
    · subst hi
      rw [stage_perform, Function.update_self] at hstage
      obtain ⟨hbefore, hnot⟩ := hunfinished hstage
      obtain ⟨-, hstatus⟩ | hentry := hentry
      · rw [hnot status hstatus] at hended
        cases hended
      · exact hs.unfinished i status (by rw [stage, hr]; exact hbefore) ⟨hended, hentry⟩
    · rw [stage_perform, Function.update_of_ne hi] at hstage
      exact hs.unfinished i status hstage ⟨hended, hentry.resolve_left fun h => hi h.1⟩
  ending i status hstage hended := by
    obtain ⟨hended, hentry⟩ := hended
    rw [entry_mem_perform] at hentry
    by_cases hi : i = id
    · subst hi
      rw [stage_perform, Function.update_self] at hstage
      rw [lookup_perform]
      exact hending hstage status hended (hentry.imp_left And.right)
    · rw [stage_perform, Function.update_of_ne hi] at hstage
      rw [copies_perform_of_ne hi]
      exact hs.ending i status hstage ⟨hended, hentry.resolve_left fun h => hi h.1⟩
  progress j shown hshown hended := by
    refine entry_mem_perform.mpr (Or.inr ?_)
    cases hsent : x.event with
    | none =>
      simp only [AppState.perform, save, hsent, Option.getD_none] at hshown
      exact hs.progress j shown hshown hended
    | some event =>
      simp only [AppState.perform, save, hsent, Option.getD_some] at hshown
      obtain ⟨task, htask, hstatus⟩ := hevent event j shown hsent hshown
      rw [hstatus] at hended ⊢
      by_cases hj : j = id
      · subst hj
        exact hs.own j task htask hended
      · rw [hs.foreign id j task hj htask] at hended
        cases hended
  creating i creation hcreation hphase := by
    have hnone := hs.creating i creation hcreation hphase
    refine (Function.update_of_ne ?_ _ _).trans hnone
    rintro rfl
    exact absurd (hnone.symm.trans hr) nofun
  accepted i r' hr' := by
    refine List.mem_append_right _ ?_
    obtain ⟨rfl, -⟩ | ⟨-, hr'⟩ := update_eq_some.mp hr'
    · exact hs.accepted i r hr
    · exact hs.accepted i r' hr'

/-- A step that sets the status of the entry, where there is one. -/
theorem FinalStatuses.setting (hs : s.FinalStatuses) {r run : TaskRun} {entry : Option TaskInfo}
    (hr : s.runs id = some r) (hbefore : r.phase.stage = .unfinished)
    (hafter : run.phase.stage = .unfinished →
      ∀ task, entry = some task → task.status.hasEnded = false) :
    (s.perform .copied id (.setting run entry)).FinalStatuses := by
  have hnot (status : DownloadState) (hended : status.hasEnded = true) :
      .entry id status ∉ s.history := fun hentry =>
    hs.unfinished id status (by rw [stage, hr]; exact hbefore) ⟨hended, hentry⟩
  refine hs.perform hr (fun task htask hended => ?_) (fun hstage => ⟨hbefore, ?_⟩)
    (fun hstage status hended h => ?_) fun _ _ _ hevent => absurd hevent nofun
  · cases entry with
    | none => exact absurd (hs.own id task htask hended) (hnot _ hended)
    | some task' =>
      obtain rfl := Option.some.inj htask
      exact Or.inl rfl
  · intro status hstatus
    obtain ⟨task, hentry, rfl⟩ := Option.map_eq_some_iff.mp hstatus
    exact hafter hstage task hentry
  · obtain ⟨task, hentry, rfl⟩ := Option.map_eq_some_iff.mp (h.resolve_right (hnot status hended))
    exact ⟨task, by simp [Effect.setting, hentry], rfl⟩

/-- A step that keeps the status of the entry. -/
theorem FinalStatuses.keeping (hs : s.FinalStatuses) {r : TaskRun} {x : Effect}
    (hr : s.runs id = some r) (hstatus : x.status = none)
    (hentry : ∀ task', x.entry = some task' →
      ∃ task, (s.copies id).lookup id = some task ∧ task'.status = task.status)
    (hstage : x.run.phase.stage = r.phase.stage ∨ x.run.phase.stage = .past)
    (hevent : ∀ event j shown, x.event = some event → event j = some shown →
      ∃ task, (s.copies id).lookup j = some task ∧ shown.status = task.status) :
    (s.perform .copied id x).FinalStatuses := by
  have hstage {stage : Stage} (h : x.run.phase.stage = stage) (hne : stage ≠ .past) :
      r.phase.stage = stage :=
    (hstage.resolve_right fun hpast => hne (h.symm.trans hpast)).symm.trans h
  refine hs.perform hr (fun task htask hended => Or.inr ?_)
    (fun h => ⟨hstage h nofun, fun status h => absurd (hstatus.symm.trans h) nofun⟩)
    (fun hending status hended h => ?_) hevent
  · cases hx : x.entry with
    | none => exact hs.own id task (by rwa [hx, Option.none_or] at htask) hended
    | some task' =>
      obtain ⟨old, hold, hsame⟩ := hentry task' hx
      rw [hx] at htask
      obtain rfl := Option.some.inj htask
      rw [hsame] at hended ⊢
      exact hs.own id old hold hended
  · have hrecorded := h.resolve_left fun h => absurd (hstatus.symm.trans h) nofun
    obtain ⟨old, hold, rfl⟩ := hs.ending id status
      (by rw [stage, hr]; exact hstage hending nofun) ⟨hended, hrecorded⟩
    cases hx : x.entry with
    | none => exact ⟨old, hold, rfl⟩
    | some task' =>
      obtain ⟨old', hold', hsame⟩ := hentry task' hx
      obtain rfl := Option.some.inj (hold.symm.trans hold')
      exact ⟨task', rfl, hsame⟩

theorem FinalStatuses.run (hs : s.FinalStatuses) {r : TaskRun} {e : RunEvent} {x : Effect}
    (hr : s.runs id = some r)
    (hx : r.step id (s.copies id) (s.store id) (s.controls id) e = some x) :
    (s.perform .copied id x).FinalStatuses := by
  by_cases he : e.failsEarly = true
  · obtain ⟨hbefore, rfl⟩ := TaskRun.step_failsEarly hx he
    exact hs.setting hr hbefore nofun
  · have hturn := TaskRun.step_turn hx (by simpa using he)
    have hsent (event : ProgressEvent) (j : String) (shown : TaskProgress)
        (hevent : x.event = some event) (hshown : event j = some shown) :=
      hturn.event_status hevent hshown
    cases hturn with
    | silent hstatus _ hentry hstage =>
      exact hs.keeping hr hstatus hentry (hstage.imp_right And.right) hsent
    | marked run hbefore _ hx =>
      subst hx
      refine hs.setting hr hbefore fun _ task htask => ?_
      obtain ⟨task, -, rfl⟩ := Option.map_eq_some_iff.mp htask
      rfl
    | finished run ended hbefore hafter hx =>
      subst hx
      exact hs.setting hr hbefore fun hunfinished =>
        absurd (hafter.symm.trans hunfinished) nofun
    | reported run _ hafter hx =>
      subst hx
      exact hs.keeping hr rfl nofun (Or.inr hafter) hsent
    | broadcast run speed downloaded _ hphase hx =>
      subst hx
      exact hs.keeping hr rfl nofun (Or.inl (congrArg RunPhase.stage hphase)) hsent

theorem FinalStatuses.step (hs : s.FinalStatuses) (hwf : s.WellFormed)
    (h : s.step text .copied e = some s') :
    s'.FinalStatuses ∧
      ∀ id status, .entry id status ∈ s.history → .entry id status ∈ s'.history := by
  cases e with
  | run id e =>
    obtain ⟨r, x, hr, hx, rfl⟩ := step_run h
    exact ⟨hs.run hr hx, fun j status hentry => entry_mem_perform.mpr (Or.inr hentry)⟩
  | _ =>
    obtain ⟨hstill, hs'⟩ := hs.other hwf (by rintro _ _ ⟨⟩) h
    exact ⟨hs', fun j status => (hstill.entries j status).mpr⟩

end Step

end AppState

end Tachyon
