import Tachyon.App.ActiveCap

/-!
# A cancellation stays on the control channel

Commands of the user may be called in any order and at any time, and `task_fn` sends its final
status on the same channel. While `task_fn` is under way, nothing replaces a Cancelled there:
the entry says Cancelled too, and neither `pause_task` nor `resume_task` accepts that.
-/

namespace Tachyon

open EventRuns

/-- A run that is under way after a step was so before it, and its download has not ended. -/
theorem TaskRun.underway_before {r : TaskRun} {id : String} {tasks : Tasks}
    {stored : Option TaskSnapshot} {registered : Bool} {e : RunEvent} {x : Effect}
    (h : r.step id tasks stored registered e = some x) (hx : x.run.phase.underway = true) :
    r.phase.underway = true ∧ ¬r.Ends (tasks.lookup id) e := by
  cases e with
  | fail =>
    obtain ⟨-, rfl⟩ := TaskRun.step_fail h
    cases hx
  | finish result =>
    obtain ⟨metadata, ended, -, -, rfl⟩ := TaskRun.step_finish h
    cases hx
  | check =>
    obtain ⟨hphase, ⟨rfl, -⟩ | ⟨rfl, hrunning⟩⟩ := TaskRun.step_check h
    · cases hx
    · exact ⟨by rw [hphase]; rfl, hrunning⟩
  | checkControl =>
    dsimp only [TaskRun.step, TaskRun.fnStep] at h
    split at h
    · rename_i hphase
      split at h
      · obtain rfl := Option.some.inj h
        cases hx
      · exact ⟨by rw [hphase]; rfl, ‹_›⟩
    · rename_i metadata hphase
      split at h
      · obtain rfl := Option.some.inj h
        cases hx
      · exact ⟨by rw [hphase]; rfl, ‹_›⟩
    · cases h
  | probe result =>
    obtain ⟨hphase, ⟨metadata, rfl, rfl⟩ | ⟨rfl, rfl⟩ | ⟨error, rfl, -, rfl⟩⟩ :=
      TaskRun.step_probe h
    · exact ⟨by rw [hphase]; rfl, fun hends => hends⟩
    · cases hx
    · cases hx
  | mark =>
    obtain ⟨hphase, rfl⟩ := TaskRun.step_mark h
    exact ⟨by rw [hphase]; rfl, fun hends => hends⟩
  | inject =>
    obtain ⟨hphase, rfl⟩ := TaskRun.step_inject h
    exact ⟨by rw [hphase]; rfl, fun hends => hends⟩
  | size =>
    obtain ⟨metadata, hphase, rfl⟩ := TaskRun.step_size h
    exact ⟨by rw [hphase]; rfl, fun hends => hends⟩
  | copy =>
    obtain ⟨metadata, hphase, -⟩ := TaskRun.step_copy h
    exact ⟨by rw [hphase]; rfl, fun hends => hends⟩
  | saveMetadata now saved =>
    obtain ⟨metadata, task, hphase, rfl⟩ := TaskRun.step_saveMetadata h
    exact ⟨by rw [hphase]; rfl, fun hends => hends⟩
  | notify =>
    obtain ⟨terminal, control, -, rfl⟩ := TaskRun.step_notify h
    cases hx
  | join =>
    obtain ⟨-, rfl⟩ := TaskRun.step_join h
    cases hx
  | cleanup =>
    obtain ⟨-, rfl⟩ | ⟨-, rfl⟩ := TaskRun.step_cleanup h
    · cases hx
    · cases hx
  | report =>
    obtain ⟨-, rfl⟩ := TaskRun.step_report h
    cases hx
  | persist e =>
    obtain ⟨phase, next, save, -, -, rfl⟩ := TaskRun.step_persist h
    cases next <;> cases hx
  | receive progress =>
    obtain ⟨reader, -, rfl⟩ := TaskRun.step_receive h
    exact ⟨hx, fun hends => hends⟩
  | checkpointLoad readable =>
    obtain ⟨reader, phase, -, rfl⟩ := TaskRun.step_checkpointLoad h
    exact ⟨hx, fun hends => hends⟩
  | checkpointSave saved =>
    obtain ⟨reader, loaded, -, -, rfl⟩ := TaskRun.step_checkpointSave h
    exact ⟨hx, fun hends => hends⟩
  | readerDone =>
    obtain ⟨reader, -, rfl⟩ := TaskRun.step_readerDone h
    exact ⟨hx, fun hends => hends⟩
  | controlChanged =>
    obtain ⟨monitor, monitor', -, ⟨-, rfl⟩ | ⟨-, -, rfl⟩⟩ := TaskRun.step_controlChanged h
    · exact ⟨hx, fun hends => hends⟩
    · exact ⟨hx, fun hends => hends⟩
  | measure =>
    obtain ⟨monitor, monitor', -, rfl⟩ := TaskRun.step_measure h
    exact ⟨hx, fun hends => hends⟩
  | showSpeed elapsed =>
    obtain ⟨monitor, monitor', downloaded, status, -, -, rfl⟩ := TaskRun.step_showSpeed h
    exact ⟨hx, fun hends => hends⟩
  | broadcast =>
    obtain ⟨monitor, monitor', speed, downloaded, -, -, rfl⟩ := TaskRun.step_broadcast h
    exact ⟨hx, fun hends => hends⟩

theorem TaskRun.start_same (r : TaskRun) :
    r.start.control = r.control ∧ r.start.phase.underway = r.phase.underway := by
  unfold TaskRun.start
  split
  · rename_i hphase
    exact ⟨rfl, by rw [hphase]; rfl⟩
  · exact ⟨rfl, rfl⟩

namespace AppState

/-- Recovery runs before any `task_fn`, when the application starts. -/
def RecoversFirst (s : AppState) : AppEvent → Prop
  | .recover _ => ∀ id, s.runs id = none
  | _ => True

/-- A task has one `task_fn` at most, and what is cancelled for a `task_fn` under way is
cancelled in the map. -/
structure CancelHeld (s : AppState) : Prop where
  accepted : ∀ id r, s.runs id = some r → .accepted id ∈ s.history
  creating : ∀ id creation, s.creations id = some creation → creation.phase ≠ .registered →
    s.runs id = none
  held : ∀ id r, s.runs id = some r → r.phase.underway = true → r.control.value = .cancelled →
    ∀ task ∈ s.tasks.lookup id, task.status = .cancelled

theorem cancelHeld_new (store : String → Option TaskSnapshot) : (AppState.new store).CancelHeld where
  accepted _ _ h := absurd h (Option.some_ne_none _).symm
  creating _ _ h := absurd h (Option.some_ne_none _).symm
  held _ _ h := absurd h (Option.some_ne_none _).symm

section Step

variable {text : Ipv6Addr → String} {s s' : AppState} {id : String} {e : AppEvent}

/-- A cancelled task accepts no other command. -/
theorem apply_cancelled {c : Command} {task : TaskInfo} (h : task.status = .cancelled) :
    c.apply task = none := by
  cases c <;> simp [Command.apply, h]

/-- The steps of a creation up to its registration. -/
theorem CancelHeld.creating_step (hs : s.CancelHeld) {creation : Creation}
    (hcreation : s.creations id = some creation) (hphase : creation.phase ≠ .registered)
    (hcreations : (∃ creation', s'.creations = Function.update s.creations id (some creation')) ∨
      s'.creations = Function.update s.creations id none)
    (hruns : s'.runs = s.runs) (hhistory : s'.history = s.history)
    (htasks : ∀ j task, s'.tasks.lookup j = some task → s.tasks.lookup j = some task) :
    s'.CancelHeld := by
  have hnone := hs.creating id creation hcreation hphase
  refine ⟨?_, fun j c hj hne => ?_, fun j r hj hunderway hcancelled task htask => ?_⟩
  · rw [hruns, hhistory]
    exact hs.accepted
  · rw [hruns]
    by_cases hid : j = id
    · subst hid
      exact hnone
    · rcases hcreations with ⟨_, hc⟩ | hc <;> rw [hc, Function.update_of_ne hid] at hj <;>
        exact hs.creating j c hj hne
  · rw [hruns] at hj
    exact hs.held j r hj hunderway hcancelled task (htasks j task htask)

theorem CancelHeld.creation (hs : s.CancelHeld) (hwf : s.WellFormed) {e : CreationEvent}
    (h : s.step text .copied (.creation id e) = some s') : s'.CancelHeld := by
  obtain ⟨creation, hcreation, h⟩ := step_creation h
  cases e with
  | copy =>
    obtain ⟨phase, hphase, -, rfl⟩ := creationStep_copy h
    exact hs.creating_step hcreation (by rw [hphase]; exact CreationPhase.noConfusion)
      (.inl ⟨_, rfl⟩) rfl rfl fun _ _ htask => htask
  | save now saved =>
    obtain ⟨task, store, hphase, rfl⟩ := creationStep_save h
    exact hs.creating_step hcreation (by rw [hphase]; exact CreationPhase.noConfusion)
      (.inl ⟨_, rfl⟩) rfl rfl fun _ _ htask => htask
  | configure maxConcurrentFragments =>
    obtain ⟨hphase, ⟨-, rfl⟩ | ⟨-, rfl⟩⟩ := creationStep_configure h
    · refine hs.creating_step hcreation
        (by rw [hphase]; exact CreationPhase.noConfusion) (.inr rfl) rfl rfl fun j task htask => ?_
      by_cases hid : j = id
      · subst hid
        dsimp only at htask
        rw [Finmap.lookup_erase] at htask
        cases htask
      · exact (Finmap.lookup_erase_ne hid).symm.trans htask
    · exact hs.creating_step hcreation (by rw [hphase]; exact CreationPhase.noConfusion)
        (.inl ⟨_, rfl⟩) rfl rfl fun _ _ htask => htask
  | clone =>
    obtain ⟨hphase, rfl⟩ := creationStep_clone h
    exact hs.creating_step hcreation (by rw [hphase]; exact CreationPhase.noConfusion)
      (.inl ⟨_, rfl⟩) rfl rfl fun _ _ htask => htask
  | register =>
    obtain ⟨-, rfl⟩ := creationStep_register h
    refine ⟨fun j r hj => ?_, fun j c hj hne => ?_, fun j r hj hunderway hcancelled => ?_⟩
    · obtain ⟨rfl, -⟩ | ⟨-, hj⟩ := update_eq_some.mp hj
      · exact hwf.accepted j creation hcreation
      · exact hs.accepted j r hj
    · obtain ⟨rfl, hc⟩ | ⟨hid, hj⟩ := update_eq_some.mp hj
      · obtain rfl := Option.some.inj hc
        exact absurd rfl hne
      · exact (Function.update_of_ne hid ..).trans (hs.creating j c hj hne)
    · obtain ⟨rfl, hr⟩ | ⟨-, hj⟩ := update_eq_some.mp hj
      · obtain rfl := Option.some.inj hr
        cases hcancelled
      · exact hs.held j r hj hunderway hcancelled
  | start =>
    obtain ⟨hphase, rfl⟩ := creationStep_start h
    refine ⟨fun j r hj => ?_, fun j c hj hne => ?_, fun j r hj hunderway hcancelled => ?_⟩
    · obtain ⟨rfl, hr⟩ | ⟨-, hj⟩ := update_eq_some.mp hj
      · obtain ⟨r₀, hr₀, -⟩ := Option.map_eq_some_iff.mp hr
        exact hs.accepted j r₀ hr₀
      · exact hs.accepted j r hj
    · obtain ⟨-, hc⟩ | ⟨hid, hj⟩ := update_eq_some.mp hj
      · cases hc
      · exact (Function.update_of_ne hid ..).trans (hs.creating j c hj hne)
    · obtain ⟨rfl, hr⟩ | ⟨-, hj⟩ := update_eq_some.mp hj
      · obtain ⟨r₀, hr₀, rfl⟩ := Option.map_eq_some_iff.mp hr
        obtain ⟨hcontrol, hsame⟩ := r₀.start_same
        exact hs.held j r₀ hr₀ (hsame.symm.trans hunderway) (hcontrol ▸ hcancelled)
      · exact hs.held j r hj hunderway hcancelled

theorem CancelHeld.command (hs : s.CancelHeld) {c : Command}
    (h : s.step text .copied (.command c id) = some s') : s'.CancelHeld := by
  obtain ⟨task, task', htask, happly, rfl⟩ := command_eq_ok (step_command h)
  have hruns (j : String) (r : TaskRun) (hj : (if s.controls id = true then
        Function.update s.runs id ((s.runs id).map fun r =>
          { r with control := r.control.send c.sent })
      else s.runs) j = some r) : ∃ r₀, s.runs j = some r₀ ∧ r₀.phase = r.phase ∧
        (r₀.control = r.control ∨ j = id ∧ r.control.value = c.sent) := by
    split at hj
    · obtain ⟨rfl, hr⟩ | ⟨-, hj⟩ := update_eq_some.mp hj
      · obtain ⟨r₀, hr₀, rfl⟩ := Option.map_eq_some_iff.mp hr
        exact ⟨r₀, hr₀, rfl, .inr ⟨rfl, rfl⟩⟩
      · exact ⟨r, hj, rfl, .inl rfl⟩
    · exact ⟨r, hj, rfl, .inl rfl⟩
  refine ⟨fun j r hj => ?_, fun j creation hj hne => ?_,
    fun j r hj hunderway hcancelled task₁ htask₁ => ?_⟩
  · obtain ⟨r₀, hr₀, -⟩ := hruns j r hj
    exact List.mem_cons_of_mem _ (hs.accepted j r₀ hr₀)
  · rw [Option.eq_none_iff_forall_not_mem]
    intro r hr
    obtain ⟨r₀, hr₀, -⟩ := hruns j r hr
    rw [hs.creating j creation hj hne] at hr₀
    cases hr₀
  · obtain ⟨r₀, hr₀, hphase, hcontrol⟩ := hruns j r hj
    by_cases hid : j = id
    · subst hid
      rw [Option.mem_def, Finmap.lookup_insert] at htask₁
      obtain rfl := Option.some.inj htask₁
      rcases hcontrol with hcontrol | ⟨-, hsent⟩
      · have hbefore := hs.held j r₀ hr₀ (hphase ▸ hunderway) (hcontrol ▸ hcancelled) task htask
        rw [apply_cancelled hbefore] at happly
        cases happly
      · rw [hsent] at hcancelled
        cases c with
        | pause => cases hcancelled
        | resume => cases hcancelled
        | cancel =>
          simp only [Command.apply] at happly
          split at happly
          · cases happly
          · exact Option.some.inj happly ▸ rfl
    · rw [Option.mem_def, Finmap.lookup_insert_of_ne _ hid] at htask₁
      have hsame := hcontrol.resolve_right fun h => hid h.1
      exact hs.held j r₀ hr₀ (hphase ▸ hunderway) (hsame ▸ hcancelled) task₁ htask₁

/-- Every step keeps the cancellations. -/
theorem CancelHeld.step (hs : s.CancelHeld) (hwf : s.WellFormed) (hfirst : s.RecoversFirst e)
    (h : s.step text .copied e = some s') : s'.CancelHeld := by
  cases e with
  | create id request =>
    obtain ⟨⟨-, -, hunused⟩, downloadDir, -, -, -, rfl⟩ := step_create h
    have hnone : s.runs id = none := by
      rw [Option.eq_none_iff_forall_not_mem]
      exact fun r hr => hunused (hs.accepted id r hr)
    refine ⟨fun j r hj => List.mem_cons_of_mem _ (hs.accepted j r hj), fun j c hj hne => ?_,
      fun j r hj hunderway hcancelled task htask => ?_⟩
    · obtain ⟨rfl, -⟩ | ⟨-, hj⟩ := update_eq_some.mp hj
      · exact hnone
      · exact hs.creating j c hj hne
    · have hid : j ≠ id := by
        rintro rfl
        rw [hnone] at hj
        cases hj
      exact hs.held j r hj hunderway hcancelled task
        ((Finmap.lookup_insert_of_ne _ hid).symm.trans htask)
  | creation id e => exact hs.creation hwf h
  | command c id => exact hs.command h
  | persist call e =>
    obtain ⟨c, store, calls, returned, -, -, rfl⟩ := step_persist h
    exact ⟨fun j r hj => List.mem_append_right _ (hs.accepted j r hj), hs.creating, hs.held⟩
  | delete id =>
    obtain ⟨task₀, -, -, rfl⟩ := step_delete h
    refine ⟨hs.accepted, hs.creating, fun j r hj hunderway hcancelled task htask => ?_⟩
    by_cases hid : j = id
    · subst hid
      rw [Option.mem_def, Finmap.lookup_erase] at htask
      cases htask
    · exact hs.held j r hj hunderway hcancelled task ((Finmap.lookup_erase_ne hid).symm.trans htask)
  | recover found =>
    obtain rfl := Option.some.inj h
    have hnone {j : String} {r : TaskRun} (hj : s.runs j = some r) : False := by
      rw [hfirst j] at hj
      cases hj
    exact ⟨fun j r hj => (hnone hj).elim, hs.creating, fun j r hj => (hnone hj).elim⟩
  | run id e =>
    obtain ⟨r, x, hr, hx, rfl⟩ := step_run h
    refine ⟨fun j r' hj => ?_, fun j c hj hne => ?_, fun j r' hj hunderway hcancelled => ?_⟩
    · obtain ⟨rfl, -⟩ | ⟨-, hj⟩ := update_eq_some.mp hj
      · exact List.mem_append_right _ (hs.accepted j r hr)
      · exact List.mem_append_right _ (hs.accepted j r' hj)
    · have hnone := hs.creating j c hj hne
      have hid : j ≠ id := by
        rintro rfl
        rw [hnone] at hr
        cases hr
      exact (Function.update_of_ne hid ..).trans hnone
    · obtain ⟨rfl, hr'⟩ | ⟨-, hj⟩ := update_eq_some.mp hj
      · obtain rfl := Option.some.inj hr'
        obtain ⟨hbefore, hends⟩ := TaskRun.underway_before hx hunderway
        obtain ⟨-, hcontrol⟩ := TaskRun.step_underway hx hbefore hends
        exact hs.held j r hr hbefore (hcontrol ▸ hcancelled)
      · exact hs.held j r' hj hunderway hcancelled

/-- A `task_fn` that has been told Cancelled, while it is under way. -/
def ToldCancelled (id : String) (s : AppState) : Prop :=
  ∃ r, s.runs id = some r ∧ (r.phase.underway = true → r.control.value = .cancelled)

theorem ToldCancelled.step (htold : s.ToldCancelled id) (hs : s.CancelHeld)
    (hfirst : s.RecoversFirst e) (h : s.step text .copied e = some s') : s'.ToldCancelled id := by
  obtain ⟨r, hr, hcancelled⟩ := htold
  cases e with
  | create j request =>
    obtain ⟨-, downloadDir, -, -, -, rfl⟩ := step_create h
    exact ⟨r, hr, hcancelled⟩
  | creation j e =>
    obtain ⟨creation, hcreation, h⟩ := step_creation h
    by_cases hid : id = j
    · subst hid
      have hregistered : creation.phase = .registered := by
        by_contra hne
        rw [hs.creating id creation hcreation hne] at hr
        cases hr
      cases e with
      | start =>
        obtain ⟨-, rfl⟩ := creationStep_start h
        obtain ⟨hcontrol, hsame⟩ := r.start_same
        refine ⟨r.start, (Function.update_self ..).trans (by rw [hr]; rfl), ?_⟩
        rw [hcontrol, hsame]
        exact hcancelled
      | copy =>
        obtain ⟨phase, hphase, -⟩ := creationStep_copy h
        exact absurd (hphase.symm.trans hregistered) CreationPhase.noConfusion
      | save now saved =>
        obtain ⟨task, store, hphase, -⟩ := creationStep_save h
        exact absurd (hphase.symm.trans hregistered) CreationPhase.noConfusion
      | configure maxConcurrentFragments =>
        exact absurd ((creationStep_configure h).1.symm.trans hregistered) CreationPhase.noConfusion
      | clone =>
        exact absurd ((creationStep_clone h).1.symm.trans hregistered) CreationPhase.noConfusion
      | register =>
        exact absurd ((creationStep_register h).1.symm.trans hregistered) CreationPhase.noConfusion
    · exact ⟨r, ((creationStep_frame h).2 id hid).runs.trans hr, hcancelled⟩
  | command c j =>
    obtain ⟨task, task', htask, happly, rfl⟩ := command_eq_ok (step_command h)
    by_cases hid : id = j
    · subst hid
      dsimp only [ToldCancelled]
      split
      · refine ⟨_, (Function.update_self ..).trans (by rw [hr]; rfl), fun hunderway => ?_⟩
        have hbefore := hs.held id r hr hunderway (hcancelled hunderway) task htask
        rw [apply_cancelled hbefore] at happly
        cases happly
      · exact ⟨r, hr, hcancelled⟩
    · refine ⟨r, ?_, hcancelled⟩
      dsimp only
      split
      · exact (Function.update_of_ne hid ..).trans hr
      · exact hr
  | persist call e =>
    obtain ⟨c, store, calls, returned, -, -, rfl⟩ := step_persist h
    exact ⟨r, hr, hcancelled⟩
  | delete j =>
    obtain ⟨task₀, -, -, rfl⟩ := step_delete h
    exact ⟨r, hr, hcancelled⟩
  | recover found =>
    have hnone := hfirst id
    rw [hr] at hnone
    cases hnone
  | run j e =>
    obtain ⟨r₀, x, hr₀, hx, rfl⟩ := step_run h
    by_cases hid : id = j
    · subst hid
      obtain rfl := Option.some.inj (hr.symm.trans hr₀)
      refine ⟨x.run, Function.update_self .., fun hunderway => ?_⟩
      obtain ⟨hbefore, hends⟩ := TaskRun.underway_before hx hunderway
      rw [(TaskRun.step_underway hx hbefore hends).2]
      exact hcancelled hbefore
    · exact ⟨r, (Function.update_of_ne hid ..).trans hr, hcancelled⟩

end Step

/-- A cancellation is never taken back: once the control channel of a task says Cancelled, no
later command, in any interleaving, makes it say anything else while its `task_fn` is under
way. -/
theorem cancelled_while_underway {text : Ipv6Addr → String} {store : String → Option TaskSnapshot}
    {es later : List AppEvent} {s s' : AppState} {id : String} {r r' : TaskRun}
    (hfirst : EachStep (step text .copied) RecoversFirst (AppState.new store) (es ++ later))
    (hrun : run (step text .copied) (AppState.new store) es = some s)
    (hr : s.runs id = some r) (hcancelled : r.control.value = .cancelled)
    (hlater : run (step text .copied) s later = some s') (hr' : s'.runs id = some r')
    (hunderway : r'.phase.underway = true) : r'.control.value = .cancelled := by
  obtain ⟨hbefore, hafter⟩ := hfirst.append hrun
  have hstep (s : AppState) (e : AppEvent) (s' : AppState) (hs : s.WellFormed ∧ s.CancelHeld)
      (he : s.RecoversFirst e) (h : s.step text .copied e = some s') :
      s'.WellFormed ∧ s'.CancelHeld := ⟨hs.1.step h, hs.2.step hs.1 he h⟩
  have hinv := run_invariant hstep ⟨wellFormed_new store, cancelHeld_new store⟩ hbefore hrun
  have htold (s : AppState) (e : AppEvent) (s' : AppState)
      (hs : (s.WellFormed ∧ s.CancelHeld) ∧ s.ToldCancelled id) (he : s.RecoversFirst e)
      (h : s.step text .copied e = some s') :
      (s'.WellFormed ∧ s'.CancelHeld) ∧ s'.ToldCancelled id :=
    ⟨hstep s e s' hs.1 he h, hs.2.step hs.1.2 he h⟩
  have hlast := run_invariant htold ⟨hinv, r, hr, fun _ => hcancelled⟩ hafter hlater
  obtain ⟨r₁, hr₁, hvalue⟩ := hlast.2
  obtain rfl := Option.some.inj (hr'.symm.trans hr₁)
  exact hvalue hunderway

/-- A task is cancelled while it downloads, and then deleted. -/
theorem cancelled_while_underway_deleted : ∃ s' r',
    run (step (fun _ => "") .copied) (AppState.new fun _ => none)
      (created "task-1" "example.com" ++ [.run "task-1" .check, .command .cancel "task-1"] ++
        [.delete "task-1", .run "task-1" .mark]) = some s' ∧
    s'.runs "task-1" = some r' ∧ r'.phase.underway = true ∧ r'.control.value = .cancelled := by
  have hfacts : ((run (step (fun _ => "") .copied) (AppState.new fun _ => none)
      (created "task-1" "example.com" ++ [.run "task-1" .check, .command .cancel "task-1"])).any
        fun s => (s.runs "task-1").any (fun r => decide (r.control.value = .cancelled)) &&
          (run (step (fun _ => "") .copied) s [.delete "task-1", .run "task-1" .mark]).any
            fun s' => (s'.runs "task-1").any fun r => r.phase.underway) = true := by
    decide +kernel
  obtain ⟨s, hs, hfacts⟩ := (Option.any_eq_true _ _).mp hfacts
  obtain ⟨hcancelled, hlater⟩ := Bool.and_eq_true_iff.mp hfacts
  obtain ⟨r, hr, hcancelled⟩ := (Option.any_eq_true _ _).mp hcancelled
  obtain ⟨s', hs', hlater⟩ := (Option.any_eq_true _ _).mp hlater
  obtain ⟨r', hr', hunderway⟩ := (Option.any_eq_true _ _).mp hlater
  have hall : run (step (fun _ => "") .copied) (AppState.new fun _ => none)
      (created "task-1" "example.com" ++ [.run "task-1" .check, .command .cancel "task-1"] ++
        [.delete "task-1", .run "task-1" .mark]) = some s' := by
    rw [run_append, hs]
    exact hs'
  refine ⟨s', r', hall, hr', hunderway, cancelled_while_underway (.of_mem fun e he s => ?_) hs hr
    (of_decide_eq_true hcancelled) hs' hr' hunderway⟩
  simp only [created, List.cons_append, List.nil_append, List.mem_cons, List.not_mem_nil,
    or_false] at he
  rcases he with rfl | rfl | rfl | rfl | rfl | rfl | rfl | rfl | rfl | rfl | rfl <;> trivial

end AppState

end Tachyon
