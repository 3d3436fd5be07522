import Tachyon.App.Commands

/-!
# One map of tasks

`create_task_inner` builds a second `AppState` for each `task_fn`: its channels, handles
and store are shared, but its `tasks` map is a clone. The application behaves as one with
a single map exactly as long as nothing is written while a clone is in use.
-/

namespace Tachyon

open EventRuns

namespace AppState

/-- A clone of the map is in use for a task: by its `create_task` call, or by its run. -/
def Holds (s : AppState) (id : String) : Prop :=
  (∃ creation, s.creations id = some creation ∧ creation.phase = .cloned) ∨
    ∃ r, s.runs id = some r ∧ r.Live

/-- Whoever uses a clone sees what the commands see, and the commands see what it wrote. -/
def Coherent (s : AppState) : Prop := ∀ id, s.Holds id → s.copies id = s.tasks

/-- A step changes the managed map while a clone is in use, or changes a clone. -/
inductive Splits (s : AppState) : AppEvent → Prop where
  | create {id : String} {request : CreateRequest} (hheld : ∃ j, s.Holds j) :
      s.Splits (.create id request)
  | remove {id : String} {task : TaskInfo} (hheld : ∃ j, s.Holds j)
      (htask : s.tasks.lookup id = some task) : s.Splits (.creation id (.configure 0))
  | command {c : Command} {id : String} (hheld : ∃ j, s.Holds j) : s.Splits (.command c id)
  | delete {id : String} (hheld : ∃ j, s.Holds j) : s.Splits (.delete id)
  | recover {found : List String} (hheld : ∃ j, s.Holds j)
      (hchanged : insertRecovered s.tasks (s.recoverable found) ≠ s.tasks) :
      s.Splits (.recover found)
  | run {id : String} {e : RunEvent} {r : TaskRun} {task task' : TaskInfo}
      (hrun : s.runs id = some r) (htask : (s.copies id).lookup id = some task)
      (hwrites : r.Writes task e task') (hchanged : task' ≠ task) : s.Splits (.run id e)

section Step

variable {text : Ipv6Addr → String} {s s' : AppState} {id : String} {e : AppEvent}

/-! ### What keeps the maps together -/

theorem holds_congr (hcreations : ∀ j, (∃ c, s'.creations j = some c ∧ c.phase = .cloned) ↔
      ∃ c, s.creations j = some c ∧ c.phase = .cloned)
    (hruns : ∀ j, (∃ r, s'.runs j = some r ∧ r.Live) ↔ ∃ r, s.runs j = some r ∧ r.Live)
    (j : String) : s'.Holds j ↔ s.Holds j := or_congr (hcreations j) (hruns j)

/-- A call before or after the use of its clone moves on. -/
theorem cloned_update {x : Option Creation}
    (hbefore : ∀ c ∈ s.creations id, c.phase ≠ .cloned) (hafter : ∀ c ∈ x, c.phase ≠ .cloned)
    (j : String) : (∃ c, Function.update s.creations id x j = some c ∧ c.phase = .cloned) ↔
      ∃ c, s.creations j = some c ∧ c.phase = .cloned := by
  by_cases h : j = id
  · subst h
    rw [Function.update_self]
    constructor
    · rintro ⟨c, hc, hphase⟩
      exact absurd hphase (hafter c hc)
    · rintro ⟨c, hc, hphase⟩
      exact absurd hphase (hbefore c hc)
  · rw [Function.update_of_ne h]

/-- A run is changed without ending or beginning. -/
theorem live_update {f : TaskRun → TaskRun} (hf : ∀ r, (f r).Live ↔ r.Live) (j : String) :
    (∃ r, Function.update s.runs id ((s.runs id).map f) j = some r ∧ r.Live) ↔
      ∃ r, s.runs j = some r ∧ r.Live := by
  by_cases h : j = id
  · subst h
    rw [Function.update_self]
    cases s.runs j with
    | none => exact Iff.rfl
    | some r =>
      constructor
      · rintro ⟨r', hr', hlive⟩
        obtain rfl := Option.some.inj hr'
        exact ⟨r, rfl, (hf r).mp hlive⟩
      · rintro ⟨r', hr', hlive⟩
        obtain rfl := Option.some.inj hr'
        exact ⟨f r, rfl, (hf r).mpr hlive⟩
  · rw [Function.update_of_ne h]

/-- Where the clones in use stay the same, the maps stay together exactly when the managed
one stays as it is. -/
theorem Coherent.congr (hs : s.Coherent) (hcopies : s'.copies = s.copies)
    (hholds : ∀ j, s'.Holds j ↔ s.Holds j) :
    s'.Coherent ↔ ((∃ j, s.Holds j) → s'.tasks = s.tasks) := by
  constructor
  · rintro hs' ⟨j, hj⟩
    have h := hs' j ((hholds j).mpr hj)
    rw [hcopies, hs j hj] at h
    exact h.symm
  · intro htasks j hj
    have hj' := (hholds j).mp hj
    rw [hcopies, hs j hj']
    exact (htasks ⟨j, hj'⟩).symm

theorem insert_eq_self {tasks : Tasks} {task : TaskInfo} :
    tasks.insert id task = tasks ↔ tasks.lookup id = some task := by
  constructor
  · intro h
    rw [← h]
    exact Finmap.lookup_insert tasks
  · intro h
    refine Finmap.ext_lookup fun j => ?_
    by_cases hj : j = id
    · subst hj
      rw [Finmap.lookup_insert, h]
    · exact Finmap.lookup_insert_of_ne tasks hj

theorem erase_eq_self {tasks : Tasks} : tasks.erase id = tasks ↔ tasks.lookup id = none := by
  constructor
  · intro h
    rw [← h]
    exact Finmap.lookup_erase id tasks
  · intro h
    refine Finmap.ext_lookup fun j => ?_
    by_cases hj : j = id
    · subst hj
      rw [Finmap.lookup_erase, h]
    · exact Finmap.lookup_erase_ne hj

/-- A command that succeeds changes the status. -/
theorem command_status {c : Command} {task task' : TaskInfo} (h : c.apply task = some task') :
    task'.status ≠ task.status := by
  cases c with
  | pause =>
    dsimp only [Command.apply] at h
    split at h
    · rename_i hstatus
      obtain rfl := Option.some.inj h
      rintro heq
      dsimp only at heq
      rw [← heq] at hstatus
      rcases hstatus with hstatus | hstatus
      · cases hstatus
      · cases hstatus
    · cases h
  | resume =>
    dsimp only [Command.apply] at h
    split at h
    · rename_i hstatus
      obtain rfl := Option.some.inj h
      rw [hstatus]
      nofun
    · cases h
  | cancel =>
    dsimp only [Command.apply] at h
    split at h
    · cases h
    · rename_i hstatus
      obtain rfl := Option.some.inj h
      exact fun heq => hstatus (Or.inr heq.symm)

/-- A step of a run keeps the maps together exactly when it leaves the entry it writes as it
was. -/
theorem Coherent.run_iff (hs : s.Coherent) (hwf : s.WellFormed) {r : TaskRun} {e : RunEvent}
    {x : Effect} (hr : s.runs id = some r)
    (hx : r.step id (s.copies id) (s.store id) (s.controls id) e = some x) :
    (s.perform .copied id x).Coherent ↔
      ∀ task ∈ x.entry, (s.copies id).lookup id = some task := by
  have hjoined := hwf.joined id r hr
  have hheld : s.Holds id := Or.inr ⟨r, hr, (TaskRun.step_moves hjoined hx).live⟩
  constructor
  · intro hs' task hentry
    have hentry : x.entry = some task := hentry
    have hlive := TaskRun.step_live_of_entry hjoined hx hentry
    have h := hs' id (Or.inr ⟨x.run, Function.update_self .., hlive⟩)
    dsimp only [perform, save] at h
    rw [hentry] at h
    dsimp only at h
    rw [Function.update_self, ← hs id hheld] at h
    exact insert_eq_self.mp h
  · intro hentry j hj
    have hcopies : (s.perform .copied id x).copies = s.copies := by
      dsimp only [perform, save]
      cases hx' : x.entry with
      | none => rfl
      | some task =>
        dsimp only
        rw [insert_eq_self.mpr (hentry task hx'), Function.update_eq_self]
    rw [hcopies]
    by_cases hid : j = id
    · subst hid
      exact hs j hheld
    · refine hs j (hj.imp (fun h => h) ?_)
      rintro ⟨r', hr', hlive⟩
      exact ⟨r', (Function.update_of_ne hid _ _).symm.trans hr', hlive⟩

theorem cloned_of_creation {creation : Creation} {phase : CreationPhase}
    (hcreation : s.creations id = some creation) (hphase : creation.phase = phase)
    (hne : phase ≠ .cloned) : ∀ c ∈ s.creations id, c.phase ≠ .cloned := by
  intro c hc
  obtain rfl := Option.some.inj (hcreation.symm.trans hc)
  rw [hphase]
  exact hne

/-- A step keeps the maps together exactly when it does not split them. -/
theorem Coherent.step_iff (hs : s.Coherent) (hwf : s.WellFormed)
    (h : s.step text .copied e = some s') : s'.Coherent ↔ ¬s.Splits e := by
  have hsame (hcopies : s'.copies = s.copies) (htasks : s'.tasks = s.tasks)
      (hholds : ∀ j, s'.Holds j ↔ s.Holds j) (hsplits : ¬s.Splits e) :
      s'.Coherent ↔ ¬s.Splits e :=
    iff_of_true ((hs.congr hcopies hholds).mpr fun _ => htasks) hsplits
  cases e with
  | create id request =>
    obtain ⟨⟨hnone, -, hunused⟩, downloadDir, -, -, -, rfl⟩ := step_create h
    have hfresh : ∀ c ∈ s.creations id, c.phase ≠ .cloned := fun c hc =>
      absurd (hwf.accepted id c hc) hunused
    refine Iff.trans (hs.congr rfl (holds_congr (cloned_update hfresh ?_) fun _ => Iff.rfl)) ?_
    · rintro c ⟨⟩
      nofun
    constructor
    · intro htasks hsplits
      cases hsplits with
      | create hheld =>
        have hlookup := insert_eq_self.mp (htasks hheld)
        rw [hnone] at hlookup
        cases hlookup
    · exact fun hsplits hheld => absurd (.create hheld) hsplits
  | creation id e =>
    obtain ⟨creation, hcreation, h⟩ := step_creation h
    cases e with
    | copy =>
      obtain ⟨phase, hphase, hnext, rfl⟩ := creationStep_copy h
      refine hsame rfl rfl (holds_congr (cloned_update
        (cloned_of_creation hcreation hphase nofun) ?_) fun _ => Iff.rfl) (by rintro ⟨⟩)
      rintro c ⟨⟩
      obtain ⟨task, rfl⟩ | rfl := hnext
      · nofun
      · nofun
    | save now saved =>
      obtain ⟨task, store, hphase, rfl⟩ := creationStep_save h
      exact hsame rfl rfl (holds_congr (cloned_update
        (cloned_of_creation hcreation hphase nofun) (by rintro c ⟨⟩; nofun)) fun _ => Iff.rfl)
        (by rintro ⟨⟩)
    | configure maxConcurrentFragments =>
      obtain ⟨hphase, ⟨rfl, rfl⟩ | ⟨hne, rfl⟩⟩ := creationStep_configure h
      · refine Iff.trans (hs.congr rfl (holds_congr (cloned_update
          (cloned_of_creation hcreation hphase nofun) (by rintro c ⟨⟩)) fun _ => Iff.rfl)) ?_
        constructor
        · intro htasks hsplits
          cases hsplits with
          | remove hheld htask =>
            have hlookup := erase_eq_self.mp (htasks hheld)
            rw [htask] at hlookup
            cases hlookup
        · intro hsplits hheld
          refine erase_eq_self.mpr ?_
          cases htask : s.tasks.lookup id with
          | none => rfl
          | some task => exact absurd (.remove hheld htask) hsplits
      · refine hsame rfl rfl (holds_congr (cloned_update
          (cloned_of_creation hcreation hphase nofun) (by rintro c ⟨⟩; nofun)) fun _ => Iff.rfl) ?_
        intro hsplits
        cases hsplits with
        | remove => exact hne rfl
    | clone =>
      obtain ⟨-, rfl⟩ := creationStep_clone h
      refine iff_of_true (fun j hj => ?_) (by rintro ⟨⟩)
      by_cases hid : j = id
      · subst hid
        exact Function.update_self ..
      · refine (Function.update_of_ne hid _ _).trans (hs j (hj.imp_left ?_))
        rintro ⟨c, hc, hphase⟩
        exact ⟨c, (Function.update_of_ne hid _ _).symm.trans hc, hphase⟩
    | register =>
      obtain ⟨hphase, rfl⟩ := creationStep_register h
      refine iff_of_true (fun j hj => ?_) (by rintro ⟨⟩)
      by_cases hid : j = id
      · subst hid
        exact hs j (Or.inl ⟨creation, hcreation, hphase⟩)
      · refine hs j (hj.imp ?_ ?_)
        · rintro ⟨c, hc, hphase⟩
          exact ⟨c, (Function.update_of_ne hid _ _).symm.trans hc, hphase⟩
        · rintro ⟨r, hr, hlive⟩
          exact ⟨r, (Function.update_of_ne hid _ _).symm.trans hr, hlive⟩
    | start =>
      obtain ⟨hphase, rfl⟩ := creationStep_start h
      exact hsame rfl rfl (holds_congr (cloned_update
        (cloned_of_creation hcreation hphase nofun) (by rintro c ⟨⟩))
        (live_update fun r => TaskRun.start_live)) (by rintro ⟨⟩)
  | command c id =>
    obtain ⟨task, task', htask, happly, rfl⟩ := command_eq_ok (step_command h)
    have hruns (j : String) : (∃ r, (if s.controls id then
        Function.update s.runs id ((s.runs id).map fun r =>
          { r with control := r.control.send c.sent }) else s.runs) j = some r ∧ r.Live) ↔
        ∃ r, s.runs j = some r ∧ r.Live := by
      split
      · refine live_update ?_ j
        exact fun _ => Iff.rfl
      · exact Iff.rfl
    refine Iff.trans (hs.congr rfl (holds_congr (fun _ => Iff.rfl) hruns)) ?_
    constructor
    · intro htasks hsplits
      cases hsplits with
      | command hheld =>
        have hlookup := insert_eq_self.mp (htasks hheld)
        obtain rfl := Option.some.inj (htask.symm.trans hlookup)
        exact command_status happly rfl
    · exact fun hsplits hheld => absurd (.command hheld) hsplits
  | persist call e =>
    obtain ⟨c, store, calls, returned, -, -, rfl⟩ := step_persist h
    exact hsame rfl rfl (fun _ => Iff.rfl) (by rintro ⟨⟩)
  | delete id =>
    obtain ⟨task, htask, -, rfl⟩ := step_delete h
    refine Iff.trans (hs.congr rfl fun _ => Iff.rfl) ?_
    constructor
    · intro htasks hsplits
      cases hsplits with
      | delete hheld =>
        have hlookup := erase_eq_self.mp (htasks hheld)
        rw [htask] at hlookup
        cases hlookup
    · exact fun hsplits hheld => absurd (.delete hheld) hsplits
  | recover found =>
    obtain rfl := Option.some.inj h
    refine Iff.trans (hs.congr rfl fun _ => Iff.rfl) ?_
    constructor
    · intro htasks hsplits
      cases hsplits with
      | recover hheld hchanged => exact hchanged (htasks hheld)
    · exact fun hsplits hheld => by_contra fun hchanged => hsplits (.recover hheld hchanged)
  | run id e =>
    obtain ⟨r, x, hr, hx, rfl⟩ := step_run h
    rw [hs.run_iff hwf hr hx]
    constructor
    · intro hentry hsplits
      cases hsplits with
      | run hrun htask hwrites hchanged =>
        obtain rfl := Option.some.inj (hr.symm.trans hrun)
        have hsame := hentry _ ((TaskRun.step_entry hx).mpr ⟨_, htask, hwrites⟩)
        exact hchanged (Option.some.inj (hsame.symm.trans htask))
    · intro hsplits task' hentry
      obtain ⟨task, htask, hwrites⟩ := (TaskRun.step_entry hx).mp hentry
      by_contra hne
      refine hsplits (.run hr htask hwrites fun heq => hne ?_)
      rw [heq]
      exact htask

/-! ### The application with one map -/

/-- The state with other clones. -/
def withCopies (s : AppState) (copies : String → Tasks) : AppState := { s with copies := copies }

variable {copies : String → Tasks}

theorem create_withCopies {request : CreateRequest} (h : s.create text id request = .ok s') :
    (s.withCopies copies).create text id request = .ok (s'.withCopies copies) := by
  obtain ⟨downloadDir, hvalid, h⟩ := bind_eq_ok.mp h
  refine bind_eq_ok.mpr ⟨downloadDir, hvalid, ?_⟩
  dsimp only at h
  by_cases hurl : s.tasks.hasUrl (request.task text id).url = true
  · rw [if_pos hurl] at h
    cases h
  · rw [if_neg hurl] at h
    refine (if_neg hurl).trans ?_
    by_cases hfull : s.tasks.activeCount ≥ request.maxTasks
    · rw [if_pos hfull] at h
      cases h
    · rw [if_neg hfull] at h
      obtain rfl := Except.ok.inj h
      exact if_neg hfull

theorem command_withCopies {c : Command} :
    (s.withCopies copies).command c id = (s.command c id).map fun s' => s'.withCopies copies := by
  unfold command
  dsimp only [withCopies]
  cases s.tasks.lookup id with
  | none => rfl
  | some task =>
    dsimp only
    cases c.apply task with
    | none => rfl
    | some task' => rfl

theorem delete_withCopies :
    (s.withCopies copies).delete id = (s.delete id).map fun s' => s'.withCopies copies := by
  unfold delete
  dsimp only [withCopies]
  cases s.tasks.lookup id with
  | none => rfl
  | some task =>
    dsimp only
    cases task.status <;> rfl

/-- The creation steps do the same whatever the clones hold. -/
theorem creationStep_withCopies {creation : Creation} {e : CreationEvent}
    (h : s.creationStep id creation e = some s') : ∃ copies',
      (s.withCopies copies).creationStep id creation e = some (s'.withCopies copies') := by
  cases e with
  | copy =>
    dsimp only [creationStep] at h ⊢
    split at h
    · obtain rfl := Option.some.inj h
      exact ⟨copies, rfl⟩
    · cases h
  | save now saved =>
    dsimp only [creationStep] at h ⊢
    split at h
    · obtain rfl := Option.some.inj h
      exact ⟨copies, rfl⟩
    · cases h
  | configure maxConcurrentFragments =>
    dsimp only [creationStep] at h ⊢
    split at h
    · split at h
      · obtain rfl := Option.some.inj h
        exact ⟨copies, if_pos ‹_›⟩
      · obtain rfl := Option.some.inj h
        exact ⟨copies, if_neg ‹_›⟩
    · cases h
  | clone =>
    dsimp only [creationStep] at h ⊢
    split at h
    · obtain rfl := Option.some.inj h
      exact ⟨Function.update copies id s.tasks, rfl⟩
    · cases h
  | register =>
    dsimp only [creationStep] at h ⊢
    split at h
    · obtain rfl := Option.some.inj h
      exact ⟨copies, rfl⟩
    · cases h
  | start =>
    dsimp only [creationStep] at h ⊢
    split at h
    · obtain rfl := Option.some.inj h
      exact ⟨copies, rfl⟩
    · cases h

theorem persistStep_withCopies {call : ℕ} {e : PersistEvent}
    (h : s.persistStep call e = some s') :
    (s.withCopies copies).persistStep call e = some (s'.withCopies copies) := by
  obtain ⟨c, hc, h⟩ := Option.bind_eq_some_iff.mp h
  obtain ⟨⟨next, snapshot⟩, hstep, h⟩ := Option.bind_eq_some_iff.mp h
  refine Option.bind_eq_some_iff.mpr ⟨c, hc, Option.bind_eq_some_iff.mpr ⟨_, hstep, ?_⟩⟩
  cases next with
  | none =>
    obtain rfl := Option.some.inj h
    rfl
  | some phase =>
    obtain rfl := Option.some.inj h
    rfl

/-- The application with one map can follow a step that does not split the maps. -/
theorem Coherent.follow (hs : s.Coherent) (hwf : s.WellFormed) (hsplits : ¬s.Splits e)
    (h : s.step text .copied e = some s') : ∃ copies',
      (s.withCopies copies).step text .managed e = some (s'.withCopies copies') := by
  cases e with
  | create id request =>
    obtain ⟨hunused, hcreate⟩ := guard_bind_eq_some.mp h
    exact ⟨copies, guard_bind_eq_some.mpr ⟨hunused,
      toOption_eq_some.mpr (create_withCopies (toOption_eq_some.mp hcreate))⟩⟩
  | creation id e =>
    obtain ⟨creation, hcreation, h⟩ := step_creation h
    obtain ⟨copies', h'⟩ : ∃ copies',
        (s.withCopies copies).creationStep id creation e = some (s'.withCopies copies') :=
      creationStep_withCopies h
    exact ⟨copies', Option.bind_eq_some_iff.mpr ⟨creation, hcreation, h'⟩⟩
  | command c id =>
    refine ⟨copies, toOption_eq_some.mpr ?_⟩
    rw [command_withCopies, step_command h]
    rfl
  | persist call e => exact ⟨copies, persistStep_withCopies h⟩
  | delete id =>
    refine ⟨copies, toOption_eq_some.mpr ?_⟩
    rw [delete_withCopies, toOption_eq_some.mp h]
    rfl
  | recover found =>
    obtain rfl := Option.some.inj h
    exact ⟨copies, rfl⟩
  | run id e =>
    obtain ⟨r, x, hr, hx, rfl⟩ := step_run h
    have hheld : s.Holds id := Or.inr ⟨r, hr, (TaskRun.step_moves (hwf.joined id r hr) hx).live⟩
    have hkept := (hs.run_iff hwf hr hx).mp ((hs.step_iff hwf h).mpr hsplits)
    refine ⟨copies, Option.bind_eq_some_iff.mpr ⟨r, hr, Option.bind_eq_some_iff.mpr ⟨x, ?_, ?_⟩⟩⟩
    · dsimp only [view] at hx
      rw [hs id hheld] at hx
      exact hx
    · rw [hs id hheld] at hkept
      dsimp only [perform, save, withCopies]
      cases hx' : x.entry with
      | none => rfl
      | some task =>
        dsimp only
        rw [insert_eq_self.mpr (hkept task hx')]

end Step

/-! ### Runs -/

/-- In every state of the run, what a `task_fn` has written is what the commands see and the
other way round, and the run is one of the application with a single map. -/
def RefinesSingleMap (text : Ipv6Addr → String) (s : AppState) (es : List AppEvent) : Prop :=
  EachState (step text .copied) Coherent s es ∧
    ∀ s', run (step text .copied) s es = some s' →
      ∃ copies, run (step text .managed) s es = some (s'.withCopies copies)

theorem coherent_new (store : String → Option TaskSnapshot) : (AppState.new store).Coherent := by
  rintro j (⟨c, hc, -⟩ | ⟨r, hr, -⟩)
  · cases hc
  · cases hr

/-- A run is one of the application with a single map exactly when none of its steps changes
the managed map while a clone is in use, or a clone. -/
theorem refines_single_map_iff (text : Ipv6Addr → String) (store : String → Option TaskSnapshot)
    (es : List AppEvent) : (AppState.new store).RefinesSingleMap text es ↔
      EachStep (step text .copied) (fun s e => ¬s.Splits e) (AppState.new store) es := by
  have hstep (s : AppState) (e : AppEvent) (s' : AppState) (_ : True) (hwf : s.WellFormed)
      (hs : s.Coherent) (h : s.step text .copied e = some s') :
      s'.WellFormed ∧ (s'.Coherent ↔ ¬s.Splits e) := ⟨hwf.step h, hs.step_iff hwf h⟩
  have hiff : EachState (step text .copied) Coherent (AppState.new store) es ↔
      EachStep (step text .copied) (fun s e => ¬s.Splits e) (AppState.new store) es :=
    eachState_iff_eachStep hstep (fun _ _ => trivial) (wellFormed_new store) (coherent_new store)
  refine ⟨fun h => hiff.mp h.1, fun h => ⟨hiff.mpr h, fun s' hrun => ?_⟩⟩
  have hfollow (s t : AppState) (e : AppEvent) (s' : AppState)
      (hs : s.WellFormed ∧ s.Coherent) (ht : ∃ copies, t = s.withCopies copies)
      (hsplits : ¬s.Splits e) (h : s.step text .copied e = some s') :
      (s'.WellFormed ∧ s'.Coherent) ∧
        ∃ t', t.step text .managed e = some t' ∧ ∃ copies, t' = s'.withCopies copies := by
    obtain ⟨hwf, hcoherent⟩ := hs
    obtain ⟨copies, rfl⟩ := ht
    obtain ⟨copies', h'⟩ : ∃ copies',
        (s.withCopies copies).step text .managed e = some (s'.withCopies copies') :=
      hcoherent.follow hwf hsplits h
    exact ⟨⟨hwf.step h, (hcoherent.step_iff hwf h).mpr hsplits⟩, _, h', copies', rfl⟩
  obtain ⟨t', ht', copies, rfl⟩ := run_follows hfollow
    ⟨wellFormed_new store, coherent_new store⟩ ⟨_, rfl⟩ h hrun
  exact ⟨copies, ht'⟩

/-- The first status that a `task_fn` writes stays in its clone: the commands see the task
as Pending. -/
theorem downloading_not_seen : ¬(AppState.new fun _ => none).RefinesSingleMap (fun _ => "")
    (created "task-1" "example.com" ++ [.run "task-1" .check, .run "task-1" .mark]) := by
  rintro ⟨hstates, -⟩
  have hrun : ((run (step (fun _ => "") .copied) (AppState.new fun _ => none)
      (created "task-1" "example.com" ++ [.run "task-1" .check, .run "task-1" .mark])).any
        fun s => (s.runs "task-1").any fun r => r.isMarked &&
          (s.tasks.lookup "task-1").map TaskInfo.status = some .pending &&
          ((s.copies "task-1").lookup "task-1").map TaskInfo.status =
            some .downloading) = true := by
    decide +kernel
  obtain ⟨s, hs, hseen⟩ := (Option.any_eq_true _ _).mp hrun
  obtain ⟨r, hr, hseen⟩ := (Option.any_eq_true _ _).mp hseen
  simp only [Bool.and_eq_true, decide_eq_true_eq] at hseen
  obtain ⟨⟨hphase, hmanaged⟩, hcopied⟩ := hseen
  have hlive : r.Live := Or.inl fun h => by
    unfold TaskRun.isMarked at hphase
    rw [h] at hphase
    cases hphase
  rw [(hstates.last hs) "task-1" (Or.inr ⟨r, hr, hlive⟩), hmanaged] at hcopied
  cases hcopied

end AppState

end Tachyon
