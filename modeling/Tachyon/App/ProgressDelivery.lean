import Tachyon.App.FinalStatuses

/-!
# Who learns that a task has ended

The progress channel is a watch channel and keeps the last event only. A task says once that it
has ended, in the last event of its `task_fn`, and no event of another task repeats it: the map
of all tasks that is sent is the clone its `task_fn` works on.
-/

namespace Tachyon

open EventRuns

/-- The receive loop of `subscribe_progress`. `since` is the application when it began; the code
does not keep it. -/
structure Subscriber where
  since : AppState
  /-- An event was sent that the loop has not taken. -/
  changed : Bool
  /-- The events emitted, oldest first. -/
  emitted : List ProgressEvent

/-- The application with a subscriber, once there is one. -/
structure Watched where
  app : AppState
  subscriber : Option Subscriber

/-- The steps of the application and of the receive loop. -/
inductive WatchEvent where
  | app (e : AppEvent)
  /-- `subscribe_progress`. -/
  | subscribe
  /-- `changed` returns, and the loop emits what `borrow_and_update` gives. -/
  | receive

/-- The event that a step sends on the progress channel. -/
def AppState.sent (s : AppState) : AppEvent → Option ProgressEvent
  | .run id e => do
    let r ← s.runs id
    let x ← r.step id (s.copies id) (s.store id) (s.controls id) e
    x.event
  | _ => none

/-- The event says that the task has the status. -/
def Shows (event : ProgressEvent) (id : String) (status : DownloadState) : Prop :=
  (event id).map TaskProgress.status = some status

/-- The subscriber has emitted the status of the task, or does with the next event it takes. -/
def Subscriber.Learns (sub : Subscriber) (progress : ProgressEvent) (id : String)
    (status : DownloadState) : Prop :=
  (∃ event ∈ sub.emitted, Shows event id status) ∨
    (sub.changed = true ∧ Shows progress id status)

namespace Watched

/-- Before the first step, without a subscriber. -/
def new (store : String → Option TaskSnapshot) : Watched := ⟨AppState.new store, none⟩

def step (text : Ipv6Addr → String) (s : Watched) : WatchEvent → Option Watched
  | .app e => do
    let app ← s.app.step text .copied e
    some {
      app := app
      subscriber := s.subscriber.map fun sub =>
        { sub with changed := sub.changed || (s.app.sent e).isSome } }
  | .subscribe =>
    match s.subscriber with
    | none =>
      let event : ProgressEvent := fun id => (s.app.tasks.lookup id).map fun task => task.report id
      some { s with subscriber := some ⟨s.app, false, [event]⟩ }
    | some _ => none
  | .receive =>
    match s.subscriber with
    | none => none
    | some sub =>
      if sub.changed then some { s with
        subscriber := some { sub with
          changed := false
          emitted := sub.emitted ++ [s.app.progress] } }
      else none

/-- The task has ended so since the subscriber began, and its `task_fn` has sent its last event
or has returned early. -/
structure Awaited (s : Watched) (sub : Subscriber) (id : String) (status : DownloadState) :
    Prop where
  ended : s.app.Ended id status
  since : ∀ status, ¬sub.since.Ended id status
  past : s.app.stage id = .past

/-- The subscriber learns of every task that it has ended Completed or Failed. -/
def Delivered (s : Watched) : Prop :=
  ∀ sub, s.subscriber = some sub → ∀ id status, s.Awaited sub id status →
    sub.Learns s.app.progress id status

/-- A step loses the final status of a task. -/
inductive Loses (s : Watched) : WatchEvent → Prop where
  /-- A task that fails before its download sends no event. -/
  | failed {sub : Subscriber} {id : String} {e : RunEvent} {task : TaskInfo}
      (hsub : s.subscriber = some sub) (he : e.failsEarly = true)
      (htask : (s.app.copies id).lookup id = some task) : s.Loses (.app (.run id e))
  /-- The last event of a task is overwritten before the subscriber has taken it. -/
  | overwritten {sub : Subscriber} {e : AppEvent} {event : ProgressEvent} {id : String}
      {status : DownloadState} (hsub : s.subscriber = some sub)
      (hsent : s.app.sent e = some event) (hawaited : s.Awaited sub id status)
      (hnot : ∀ event ∈ sub.emitted, ¬Shows event id status) : s.Loses (.app e)

/-- What every reachable state keeps. -/
structure Sound (s : Watched) : Prop where
  app : s.app.FinalStatuses
  wellFormed : s.app.WellFormed
  emitted : ∀ sub, s.subscriber = some sub → ∀ event ∈ sub.emitted, ∀ id status,
    Shows event id status → status.hasEnded = true → .entry id status ∈ s.app.history
  since : ∀ sub, s.subscriber = some sub → ∀ id status, sub.since.Ended id status →
    s.app.Ended id status

theorem sound_new (store : String → Option TaskSnapshot) : (new store).Sound where
  app := AppState.finalStatuses_new store
  wellFormed := AppState.wellFormed_new store
  emitted _ h := absurd h (Option.some_ne_none _).symm
  since _ h := absurd h (Option.some_ne_none _).symm

section Step

variable {text : Ipv6Addr → String} {s s' : Watched} {id : String} {sub : Subscriber}
  {status : DownloadState}

theorem shows_iff {event : ProgressEvent} :
    Shows event id status ↔ ∃ shown, event id = some shown ∧ shown.status = status :=
  Option.map_eq_some_iff

/-- The progress channel says that a task has ended only when it has. -/
theorem Sound.progress (hs : s.Sound) (h : Shows s.app.progress id status)
    (hended : status.hasEnded = true) : .entry id status ∈ s.app.history := by
  obtain ⟨shown, hshown, rfl⟩ := shows_iff.mp h
  exact hs.app.progress id shown hshown hended

theorem step_app {e : AppEvent} (h : s.step text (.app e) = some s') :
    s.app.step text .copied e = some s'.app ∧ s'.subscriber = s.subscriber.map fun sub =>
      { sub with changed := sub.changed || (s.app.sent e).isSome } := by
  obtain ⟨app, happ, h⟩ := Option.bind_eq_some_iff.mp h
  obtain rfl := Option.some.inj h
  exact ⟨happ, rfl⟩

theorem step_subscribe (h : s.step text .subscribe = some s') :
    s.subscriber = none ∧ s' = { s with subscriber := some ⟨s.app, false,
      [fun id => (s.app.tasks.lookup id).map fun task => task.report id]⟩ } := by
  dsimp only [step] at h
  split at h
  · exact ⟨‹_›, (Option.some.inj h).symm⟩
  · cases h

theorem step_receive (h : s.step text .receive = some s') :
    ∃ sub, s.subscriber = some sub ∧ sub.changed = true ∧ s' = { s with
      subscriber := some { sub with
        changed := false
        emitted := sub.emitted ++ [s.app.progress] } } := by
  dsimp only [step] at h
  split at h
  · cases h
  · rename_i sub hsub
    split at h
    · exact ⟨sub, hsub, ‹_›, (Option.some.inj h).symm⟩
    · cases h

theorem Sound.step {e : WatchEvent} (hs : s.Sound) (h : s.step text e = some s') : s'.Sound := by
  cases e with
  | app e =>
    obtain ⟨happ, hsub'⟩ := step_app h
    obtain ⟨hstatuses, hgrows⟩ := hs.app.step hs.wellFormed happ
    have hsub {sub'} (h : s'.subscriber = some sub') : ∃ sub, s.subscriber = some sub ∧
        sub'.emitted = sub.emitted ∧ sub'.since = sub.since := by
      obtain ⟨sub, hsub, rfl⟩ := Option.map_eq_some_iff.mp (hsub'.symm.trans h)
      exact ⟨sub, hsub, rfl, rfl⟩
    refine ⟨hstatuses, hs.wellFormed.step happ,
      fun sub' h event hevent id status hshows hended => ?_, fun sub' h id status hended => ?_⟩
    · obtain ⟨sub, hsub, hemitted, -⟩ := hsub h
      rw [hemitted] at hevent
      exact hgrows id status (hs.emitted sub hsub event hevent id status hshows hended)
    · obtain ⟨sub, hsub, -, hsince⟩ := hsub h
      rw [hsince] at hended
      obtain ⟨hended, hentry⟩ := hs.since sub hsub id status hended
      exact ⟨hended, hgrows id status hentry⟩
  | subscribe =>
    obtain ⟨-, rfl⟩ := step_subscribe h
    refine ⟨hs.app, hs.wellFormed, fun sub' h event hevent id status hshows hended => ?_,
      fun sub' h id status hended => ?_⟩
    · obtain rfl := Option.some.inj h
      obtain rfl := List.mem_singleton.mp hevent
      obtain ⟨shown, hshown, rfl⟩ := shows_iff.mp hshows
      obtain ⟨task, htask, rfl⟩ := Option.map_eq_some_iff.mp hshown
      exact absurd ((hs.app.managed id task htask).symm.trans hended) Bool.false_ne_true
    · obtain rfl := Option.some.inj h
      exact hended
  | receive =>
    obtain ⟨sub, hsub, -, rfl⟩ := step_receive h
    refine ⟨hs.app, hs.wellFormed, fun sub' h event hevent id status hshows hended => ?_,
      fun sub' h => ?_⟩
    · obtain rfl := Option.some.inj h
      obtain hevent | hevent := List.mem_append.mp hevent
      · exact hs.emitted sub hsub event hevent id status hshows hended
      · obtain rfl := List.mem_singleton.mp hevent
        exact hs.progress hshows hended
    · obtain rfl := Option.some.inj h
      exact hs.since sub hsub

/-- A step without an event keeps what the subscriber learns, where no `task_fn` gets to its end
in it with a final status. -/
theorem Delivered.silent {e : AppEvent} (hd : s.Delivered) (h : s.step text (.app e) = some s')
    (hsent : s.app.sent e = none) (hprogress : s'.app.progress = s.app.progress)
    (hawaited : ∀ id status sub, s.subscriber = some sub → s'.Awaited sub id status →
      s.Awaited sub id status) : s'.Delivered := by
  obtain ⟨-, hsub'⟩ := step_app h
  rintro sub' h' id status ⟨hended, hsince, hpast⟩
  obtain ⟨sub, hsub, rfl⟩ := Option.map_eq_some_iff.mp (hsub'.symm.trans h')
  have hlearns := hd sub hsub id status (hawaited id status sub hsub ⟨hended, hsince, hpast⟩)
  rw [hprogress]
  simpa [Subscriber.Learns, hsent] using hlearns

/-- Without an early failure and without an event a step loses nothing. -/
theorem not_loses_of_silent {e : AppEvent} (hfails : ∀ id e', e = .run id e' →
      e'.failsEarly = true → (s.app.copies id).lookup id = none)
    (hsent : s.app.sent e = none) : ¬s.Loses (.app e) := by
  intro hloses
  cases hloses with
  | failed _ he htask => exact absurd (htask.symm.trans (hfails _ _ rfl he)) (Option.some_ne_none _)
  | overwritten _ hsent' => exact absurd (hsent.symm.trans hsent') (Option.some_ne_none _).symm

section Run

variable {r : TaskRun} {e : RunEvent} {x : Effect}

theorem sent_run (hr : s.app.runs id = some r)
    (hx : r.step id (s.app.copies id) (s.app.store id) (s.app.controls id) e = some x) :
    s.app.sent (.run id e) = x.event := by
  simp only [AppState.sent, hr, hx, Option.bind_eq_bind, Option.bind_some]

/-- Of another task nothing changes. -/
theorem awaited_of_ne (happ : s'.app = s.app.perform .copied id x) {j : String} (hj : j ≠ id) :
    s'.Awaited sub j status ↔ s.Awaited sub j status := by
  have hentry : s'.app.Ended j status ↔ s.app.Ended j status := by
    rw [happ]
    exact and_congr_right fun _ => AppState.entry_mem_perform.trans
      (or_iff_right fun h => hj h.1)
  have hstage : s'.app.stage j = s.app.stage j := by
    rw [happ, AppState.stage_perform, Function.update_of_ne hj]
  constructor
  · rintro ⟨hended, hsince, hpast⟩
    exact ⟨hentry.mp hended, hsince, hstage ▸ hpast⟩
  · rintro ⟨hended, hsince, hpast⟩
    exact ⟨hentry.mpr hended, hsince, hstage.symm ▸ hpast⟩

/-- What is awaited of the task itself after a step of its `task_fn`. -/
theorem Awaited.own (happ : s'.app = s.app.perform .copied id x)
    (h : s'.Awaited sub id status) : x.run.phase.stage = .past ∧
      (x.status = some status ∨ s.app.Ended id status) := by
  obtain ⟨hended, -, hpast⟩ := h
  rw [happ] at hended hpast
  rw [AppState.stage_perform, Function.update_self] at hpast
  refine ⟨hpast, (AppState.entry_mem_perform.mp hended.2).imp And.right fun h => ⟨hended.1, h⟩⟩

/-- A step of a `task_fn` that sends nothing. -/
theorem Delivered.run_silent (hd : s.Delivered) (h : s.step text (.app (.run id e)) = some s')
    (hr : s.app.runs id = some r)
    (hx : r.step id (s.app.copies id) (s.app.store id) (s.app.controls id) e = some x)
    (happ : s'.app = s.app.perform .copied id x) (hevent : x.event = none)
    (hown : x.run.phase.stage = .past → ∀ status, x.status = some status ∨ s.app.Ended id status →
      r.phase.stage = .past ∧ s.app.Ended id status) : s'.Delivered := by
  have hprogress : s'.app.progress = s.app.progress := by
    rw [happ]
    simp only [AppState.perform, AppState.save, hevent, Option.getD_none]
  refine hd.silent h ((sent_run hr hx).trans hevent) hprogress fun j status sub hsub hawaited => ?_
  by_cases hj : j = id
  · subst hj
    obtain ⟨hpast, hstatus⟩ := hawaited.own happ
    obtain ⟨hbefore, hended⟩ := hown hpast status hstatus
    exact ⟨hended, hawaited.since, by rw [AppState.stage, hr]; exact hbefore⟩
  · exact (awaited_of_ne happ hj).mp hawaited

/-- A step of a `task_fn` that sends an event. Of the other tasks it says nothing final. -/
theorem delivered_sent_iff (hs : s.Sound)
    (h : s.step text (.app (.run id e)) = some s') (hr : s.app.runs id = some r)
    (hx : r.step id (s.app.copies id) (s.app.store id) (s.app.controls id) e = some x)
    (happ : s'.app = s.app.perform .copied id x) {event : ProgressEvent}
    (hevent : x.event = some event) (hfails : e.failsEarly = false)
    (hbefore : r.phase.stage ≠ .past)
    (hown : ∀ status, x.run.phase.stage = .past → x.status = some status ∨ s.app.Ended id status →
      Shows event id status) :
    s'.Delivered ↔ ¬s.Loses (.app (.run id e)) := by
  obtain ⟨-, hsub'⟩ := step_app h
  have hsent := (sent_run hr hx).trans hevent
  have hprogress : s'.app.progress = event := by
    rw [happ]
    simp only [AppState.perform, AppState.save, hevent, Option.getD_some]
  constructor
  · intro hd' hloses
    cases hloses with
    | failed _ he => exact absurd (hfails.symm.trans he) Bool.false_ne_true
    | @overwritten sub _ _ j status hsub _ hawaited hnot =>
      have hj : j ≠ id := by
        rintro rfl
        have hpast := hawaited.past
        rw [AppState.stage, hr] at hpast
        exact hbefore hpast
      have hsub' := hsub'.trans (congrArg (Option.map _) hsub)
      obtain ⟨event', hmem, hshows⟩ | ⟨-, hshows⟩ :=
        hd' _ hsub' j status ((awaited_of_ne happ hj).mpr
          ⟨hawaited.ended, hawaited.since, hawaited.past⟩)
      · exact hnot event' hmem hshows
      · rw [hprogress] at hshows
        obtain ⟨shown, hshown, rfl⟩ := shows_iff.mp hshows
        obtain ⟨task, htask, hstatus⟩ :=
          (TaskRun.step_turn hx hfails).event_status hevent hshown
        have hended := hawaited.ended.1
        rw [hstatus, hs.app.foreign id j task hj htask] at hended
        cases hended
  · intro hkeeps sub' h' j status hawaited
    obtain ⟨sub, hsub, rfl⟩ := Option.map_eq_some_iff.mp (hsub'.symm.trans h')
    by_cases hj : j = id
    · subst hj
      obtain ⟨hpast, hstatus⟩ := hawaited.own happ
      refine Or.inr ⟨by simp [hsent], ?_⟩
      rw [hprogress]
      exact hown status hpast hstatus
    · have hawaited : s.Awaited sub j status :=
        (awaited_of_ne happ hj).mp ⟨hawaited.ended, hawaited.since, hawaited.past⟩
      by_contra hnot
      refine hkeeps (.overwritten hsub hsent hawaited fun event' hmem hshows => hnot ?_)
      exact Or.inl ⟨event', hmem, hshows⟩

/-- The final status of a task that fails early is lost to a subscriber. -/
theorem delivered_failing_iff (hs : s.Sound) (hd : s.Delivered)
    (h : s.step text (.app (.run id e)) = some s') (hr : s.app.runs id = some r)
    (hx : r.step id (s.app.copies id) (s.app.store id) (s.app.controls id) e = some x)
    (happ : s'.app = s.app.perform .copied id x) (he : e.failsEarly = true) :
    s'.Delivered ↔ ¬s.Loses (.app (.run id e)) := by
  obtain ⟨hbefore, hfailing⟩ := TaskRun.step_failsEarly hx he
  have hevent : x.event = none := by
    rw [hfailing]
    rfl
  have hunended (status : DownloadState) : ¬s.app.Ended id status :=
    hs.app.unfinished id status (by rw [AppState.stage, hr]; exact hbefore)
  cases htask : (s.app.copies id).lookup id with
  | none =>
    refine iff_of_true (hd.run_silent h hr hx happ hevent fun _ status hstatus => ?_) ?_
    · rw [hfailing, htask] at hstatus
      exact absurd (hstatus.resolve_left (Option.some_ne_none _).symm) (hunended status)
    · refine not_loses_of_silent (fun j e' heq _ => ?_) ((sent_run hr hx).trans hevent)
      cases heq
      exact htask
  | some task =>
    obtain ⟨-, hsub'⟩ := step_app h
    cases hsub : s.subscriber with
    | none =>
      rw [hsub, Option.map_none] at hsub'
      refine iff_of_true (fun sub' h' => ?_) fun hloses => ?_
      · exact absurd (hsub'.symm.trans h') (Option.some_ne_none _).symm
      cases hloses with
      | failed hsome => exact absurd (hsub.symm.trans hsome) (Option.some_ne_none _).symm
      | overwritten hsome => exact absurd (hsub.symm.trans hsome) (Option.some_ne_none _).symm
    | some sub =>
      refine iff_of_false (fun hd' => ?_) (not_not.mpr (.failed hsub he htask))
      have hended : s'.app.Ended id .failed := by
        rw [happ]
        refine ⟨rfl, AppState.entry_mem_perform.mpr (Or.inl ⟨rfl, ?_⟩)⟩
        rw [hfailing, htask]
        rfl
      have hpast : s'.app.stage id = .past := by
        rw [happ, AppState.stage_perform, Function.update_self, hfailing]
        rfl
      have hprogress : s'.app.progress = s.app.progress := by
        rw [happ]
        simp only [AppState.perform, AppState.save, hevent, Option.getD_none]
      rw [hsub, Option.map_some] at hsub'
      have hsince (status : DownloadState) : ¬sub.since.Ended id status := fun hsince =>
        hunended status (hs.since sub hsub id status hsince)
      -- nothing has said so before
      obtain ⟨event, hmem, hshows⟩ | ⟨-, hshows⟩ := hd' _ hsub' id .failed ⟨hended, hsince, hpast⟩
      · exact hunended .failed ⟨rfl, hs.emitted sub hsub event hmem id .failed hshows rfl⟩
      · rw [hprogress] at hshows
        exact hunended .failed ⟨rfl, hs.progress hshows rfl⟩

theorem delivered_run_iff (hs : s.Sound) (hd : s.Delivered)
    (h : s.step text (.app (.run id e)) = some s') :
    s'.Delivered ↔ ¬s.Loses (.app (.run id e)) := by
  obtain ⟨happ, -⟩ := step_app h
  obtain ⟨r, x, hr, hx, happ⟩ := AppState.step_run happ
  change r.step id (s.app.copies id) _ _ e = some x at hx
  have hstage : s.app.stage id = r.phase.stage := by
    rw [AppState.stage, hr]
    rfl
  by_cases he : e.failsEarly = true
  · exact delivered_failing_iff hs hd h hr hx happ he
  have he : e.failsEarly = false := by simpa using he
  have hsilent (hevent : x.event = none) (hown : x.run.phase.stage = .past →
      ∀ status, x.status = some status ∨ s.app.Ended id status →
        r.phase.stage = .past ∧ s.app.Ended id status) :
      s'.Delivered ↔ ¬s.Loses (.app (.run id e)) := by
    refine iff_of_true (hd.run_silent h hr hx happ hevent hown)
      (not_loses_of_silent (fun j e' heq hfails => ?_) ((sent_run hr hx).trans hevent))
    cases heq
    exact absurd (he.symm.trans hfails) Bool.false_ne_true
  cases TaskRun.step_turn hx he with
  | silent hstatus hevent _ hmoves =>
    refine hsilent hevent fun hpast status h => ?_
    have hended := h.resolve_left fun h =>
      absurd (hstatus.symm.trans h) (Option.some_ne_none _).symm
    obtain hsame | ⟨hunfinished, -⟩ := hmoves
    · exact ⟨hsame.symm.trans hpast, hended⟩
    · exact absurd hended (hs.app.unfinished id status (hstage.trans hunfinished))
  | marked run _ hrun hx' =>
    subst hx'
    exact hsilent rfl fun hpast => absurd (hrun.symm.trans hpast) (by decide)
  | finished run ended _ hrun hx' =>
    subst hx'
    exact hsilent rfl fun hpast => absurd (hrun.symm.trans hpast) (by decide)
  | reported run hending _ hx' =>
    subst hx'
    refine delivered_sent_iff hs h hr hx happ rfl he (by rw [hending]; decide)
      fun status _ hstatus => ?_
    have hended := hstatus.resolve_left (Option.some_ne_none _).symm
    obtain ⟨task, htask, rfl⟩ := hs.app.ending id status (hstage.trans hending) hended
    exact shows_iff.mpr ⟨task.report id, by rw [htask]; rfl, rfl⟩
  | broadcast run speed downloaded hmonitor hphase hx' =>
    -- a run with a monitor has not ended
    have hbefore : r.phase.stage ≠ .past := by
      have hmonitored := hs.wellFormed.joined id r hr hmonitor
      intro hpast
      cases hr' : r.phase <;> rw [hr'] at hmonitored hpast <;> cases hmonitored <;> cases hpast
    have hafter : x.run.phase.stage = r.phase.stage := by
      rw [hx']
      exact congrArg RunPhase.stage hphase
    cases htask : (s.app.copies id).lookup id with
    | none =>
      rw [htask] at hx'
      refine hsilent (by rw [hx']; rfl) fun hpast => ?_
      exact absurd (hafter.symm.trans hpast) hbefore
    | some task =>
      rw [htask] at hx'
      refine delivered_sent_iff hs h hr hx happ (by rw [hx']; rfl) he hbefore
        fun status hpast => ?_
      exact absurd (hafter.symm.trans hpast) hbefore

end Run

/-- A step keeps the subscriber informed exactly when it loses no final status. -/
theorem delivered_step_iff {e : WatchEvent} (hs : s.Sound) (hd : s.Delivered)
    (h : s.step text e = some s') : s'.Delivered ↔ ¬s.Loses e := by
  cases e with
  | app e =>
    cases e with
    | run id e => exact delivered_run_iff hs hd h
    | _ =>
      obtain ⟨happ, -⟩ := step_app h
      obtain ⟨hstill, -⟩ := hs.app.other hs.wellFormed (by rintro _ _ ⟨⟩) happ
      refine iff_of_true (hd.silent h rfl hstill.progress fun id status sub _ hawaited => ?_)
        (not_loses_of_silent (by rintro _ _ ⟨⟩) rfl)
      obtain ⟨⟨hended, hentry⟩, hsince, hpast⟩ := hawaited
      exact ⟨⟨hended, (hstill.entries id status).mp hentry⟩, hsince,
        (hstill.stage id).symm.trans hpast⟩
  | subscribe =>
    obtain ⟨-, rfl⟩ := step_subscribe h
    refine iff_of_true (fun sub hsub id status hawaited => ?_) (by rintro ⟨⟩)
    obtain rfl := Option.some.inj hsub
    exact absurd hawaited.ended (hawaited.since status)
  | receive =>
    obtain ⟨sub, hsub, hchanged, rfl⟩ := step_receive h
    refine iff_of_true (fun sub' hsub' id status hawaited => ?_) (by rintro ⟨⟩)
    obtain rfl := Option.some.inj hsub'
    obtain ⟨event, hmem, hshows⟩ | ⟨-, hshows⟩ :=
      hd sub hsub id status ⟨hawaited.ended, hawaited.since, hawaited.past⟩
    · exact Or.inl ⟨event, List.mem_append_left _ hmem, hshows⟩
    · exact Or.inl ⟨_, List.mem_append_right _ (List.mem_singleton_self _), hshows⟩

end Step

/-- In every state of a run the subscriber learns of every task that has ended since it began,
exactly when no step of the run loses a final status. -/
theorem progress_delivered_iff (text : Ipv6Addr → String) (store : String → Option TaskSnapshot)
    (es : List WatchEvent) :
    EachState (step text) Delivered (new store) es ↔
      EachStep (step text) (fun s e => ¬s.Loses e) (new store) es := by
  have hstep (s : Watched) (e : WatchEvent) (s' : Watched) (_ : True) (hs : s.Sound)
      (hd : s.Delivered) (h : s.step text e = some s') :
      s'.Sound ∧ (s'.Delivered ↔ ¬s.Loses e) := ⟨hs.step h, delivered_step_iff hs hd h⟩
  exact eachState_iff_eachStep hstep (fun _ _ => trivial) (sound_new store)
    fun sub hsub => absurd hsub (Option.some_ne_none _).symm

/-- A `task_fn` that downloads its file, up to its last event. -/
def downloadedRun (id : String) : List AppEvent :=
  [.run id .check, .run id .mark, .run id .inject, .run id .checkControl,
    .run id (.probe (.ok ⟨"model.bin", some 1000, none, true, none, none⟩)),
    .run id .size, .run id .copy, .run id (.saveMetadata "2026-05-29T00:00:30Z" true),
    .run id .checkControl, .run id (.finish (.ok ())), .run id .notify, .run id .join,
    .run id .cleanup]

/-- Two tasks end one after the other while the subscriber sleeps. -/
def bothEnd : List WatchEvent :=
  let ended : List AppEvent :=
    AppState.created "a" "example.com" ++ AppState.created "b" "example.org" ++
      downloadedRun "a" ++ downloadedRun "b" ++ [.run "a" .report, .run "b" .report]
  .subscribe :: ended.map .app ++ [.receive]

/-- A task whose `DownloadTask` cannot be made. -/
def failsAtOnce : List WatchEvent :=
  let failed : List AppEvent :=
    AppState.created "a" "example.com" ++ [.run "a" .check, .run "a" .mark, .run "a" .fail]
  .subscribe :: failed.map .app

/-- The subscriber has taken every event, and none says that the task has ended so. -/
def missed (id : String) (status : DownloadState) (s : Watched) : Bool :=
  s.app.stage id == .past && s.app.history.contains (.entry id status) &&
    s.subscriber.any fun sub => !sub.changed && sub.since.history.isEmpty &&
      sub.emitted.all fun event => (event id).map TaskProgress.status != some status

theorem not_delivered_of_missed {s : Watched} {id : String} {status : DownloadState}
    (hended : status.hasEnded = true) (h : missed id status s = true) : ¬s.Delivered := by
  simp only [missed, Bool.and_eq_true, beq_iff_eq, List.contains_iff_mem, Option.any_eq_true,
    Bool.not_eq_true', List.isEmpty_iff, List.all_eq_true, bne_iff_ne] at h
  obtain ⟨⟨hpast, hentry⟩, sub, hsub, ⟨hchanged, hsince⟩, hnot⟩ := h
  intro hd
  have hnew (status : DownloadState) : ¬sub.since.Ended id status := by
    rintro ⟨-, hmem⟩
    rw [hsince] at hmem
    cases hmem
  obtain ⟨event, hmem, hshows⟩ | ⟨hpending, -⟩ :=
    hd sub hsub id status ⟨⟨hended, hentry⟩, hnew, hpast⟩
  · exact hnot event hmem hshows
  · rw [hchanged] at hpending
    cases hpending

/-- The Completed of the first task and the Failed of a task that cannot start reach nobody. -/
theorem final_status_missed :
    ¬EachState (step fun _ => "") Delivered (new fun _ => none) bothEnd ∧
      ¬EachState (step fun _ => "") Delivered (new fun _ => none) failsAtOnce := by
  constructor
  · have hrun : ((run (step fun _ => "") (new fun _ => none) bothEnd).any
        (missed "a" .completed)) = true := by
      decide +kernel
    obtain ⟨s, hs, hmissed⟩ := (Option.any_eq_true _ _).mp hrun
    exact fun hstates => not_delivered_of_missed rfl hmissed (hstates.last hs)
  · have hrun : ((run (step fun _ => "") (new fun _ => none) failsAtOnce).any
        (missed "a" .failed)) = true := by
      decide +kernel
    obtain ⟨s, hs, hmissed⟩ := (Option.any_eq_true _ _).mp hrun
    exact fun hstates => not_delivered_of_missed rfl hmissed (hstates.last hs)

end Watched

end Tachyon
