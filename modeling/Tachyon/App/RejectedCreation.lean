import Tachyon.App.DuplicateUrls
import Tachyon.App.RunnerInvariant

/-!
# Rejected creations

`create_task_inner` returns an error at its checks, or after the insertion when the
configuration allows no fragments. There it takes the entry out of the map again, but the
snapshot it has saved in between stays in the store.
-/

namespace Tachyon

open EventRuns

namespace AppState

/-- The maps and the store have nothing of the task. -/
structure Gone (s : AppState) (id : String) : Prop where
  tasks : s.tasks.lookup id = none
  controls : s.controls id = false
  handles : s.handles id = false
  store : s.store id = none

/-- The step saves a snapshot of the task: its `create_task`, the persist of a command on it,
or its `task_fn`. -/
def Stores (s : AppState) (id : String) : LifeEvent → Prop
  | .app (.creation j (.save _ saved)) => j = id ∧ saved = true
  | .app (.persist call (.save _ _ saved)) =>
    saved = true ∧ ∃ c, s.calls[call]? = some c ∧ c.id = id
  | .app (.run j e) => j = id ∧ ∃ r x, s.runs id = some r ∧
    r.step id (s.copies id) (s.store id) (s.controls id) e = some x ∧ x.save.isSome
  | _ => False

/-- The event in which `create_task_inner` finds that no fragments are allowed. -/
def rejection (id : String) : LifeEvent := .app (.creation id (.configure 0))

/-- Every record is of the task it is kept for. -/
abbrev Identified (s : AppState) : Prop := s.Keeps fun _ _ => True

section Step

variable {text : Ipv6Addr → String} {s s' : AppState} {id : String} {e : LifeEvent}

theorem Identified.step (hs : s.Identified) (h : s.lifeStep text e = some s') : s'.Identified := by
  cases e with
  | app e => exact Keeps.step hs (fun _ _ _ _ _ => trivial) h
  | restart =>
    obtain rfl := Option.some.inj h
    exact keeps_new hs.store

theorem identified_new {store : String → Option TaskSnapshot}
    (hstore : ∀ j snapshot, store j = some snapshot → snapshot.id = j) :
    (AppState.new store).Identified :=
  keeps_new fun j snapshot h => ⟨hstore j snapshot h, trivial⟩

/-! ### What is saved -/

theorem save_store {snapshot : Option TaskSnapshot} : (s.save snapshot).store id = none ↔
    s.store id = none ∧ ∀ saved ∈ snapshot, saved.id ≠ id := by
  cases snapshot with
  | none => exact (and_iff_left fun saved h => by cases h).symm
  | some saved =>
    have hupdate : (s.save (some saved)).store =
        Function.update s.store saved.id (some saved) := rfl
    rw [hupdate]
    by_cases hid : id = saved.id
    · subst hid
      rw [Function.update_self]
      exact iff_of_false (Option.some_ne_none _) fun h => h.2 saved rfl rfl
    · rw [Function.update_of_ne hid]
      refine (and_iff_left ?_).symm
      rintro _ ⟨⟩ hsaved
      exact hid hsaved.symm

/-- A `create_task` saves a snapshot of its own task. -/
theorem creation_store (hs : s.Identified) {j : String} {e : CreationEvent}
    (h : s.step text .copied (.creation j e) = some s') :
    s'.store id = none ↔ s.store id = none ∧ ¬s.Stores id (.app (.creation j e)) := by
  obtain ⟨creation, hcreation, h⟩ := step_creation h
  cases e with
  | save now saved =>
    have hphase := hs.creations j creation hcreation
    dsimp only [creationStep] at h
    split at h
    · rename_i task hcopied
      rw [hcopied] at hphase
      obtain rfl := Option.some.inj h
      rw [save_store]
      refine and_congr_right fun _ => ?_
      cases saved with
      | false => exact iff_of_true (fun saved h => by cases h) fun h => by cases h.2
      | true =>
        constructor
        · rintro hother ⟨rfl, -⟩
          exact hother _ rfl hphase.1
        · rintro hother _ ⟨⟩ hid
          exact hother ⟨hphase.1.symm.trans hid, rfl⟩
    · cases h
  | copy | configure | clone | register | start =>
    rw [creationStep_store (by simp) h]
    exact (and_iff_left not_false).symm

/-- A persist saves a snapshot of the task of its command. -/
theorem persist_store (hs : s.Identified) {call : ℕ} {e : PersistEvent}
    (h : s.step text .copied (.persist call e) = some s') :
    s'.store id = none ↔ s.store id = none ∧ ¬s.Stores id (.app (.persist call e)) := by
  obtain ⟨c, hc, h⟩ := Option.bind_eq_some_iff.mp h
  obtain ⟨⟨next, snapshot⟩, hphase, h⟩ := Option.bind_eq_some_iff.mp h
  have hsaves : s'.store id = none ↔
      s.store id = none ∧ ∀ saved ∈ snapshot, saved.id ≠ id := by
    cases next with
    | some phase =>
      obtain rfl := Option.some.inj h
      exact save_store
    | none =>
      obtain rfl := Option.some.inj h
      exact save_store
  rw [hsaves]
  refine and_congr_right fun _ => ?_
  have hcall := hs.calls c (List.mem_of_getElem? hc)
  rcases PersistPhase.step_eq_some hphase with ⟨rfl, hother⟩ |
    ⟨task, existing, now, downloadDir, saved, hsaving, rfl, -, rfl⟩
  · refine iff_of_true (fun saved h => by cases h) fun hstores => ?_
    cases e with
    | copy => exact hstores
    | load readable => exact hstores
    | save now downloadDir saved => exact hother now downloadDir saved rfl
  · rw [hsaving] at hcall
    have htask : task.Keeps (fun _ _ => True) c.id := hcall
    have hid : ∀ now, (persistedSnapshot now downloadDir task existing none).id = c.id :=
      fun now => (htask.persisted now downloadDir existing none).1
    cases saved with
    | false => exact iff_of_true (fun saved h => by cases h) fun h => by cases h.1
    | true =>
      constructor
      · rintro hother ⟨-, c', hc', hcid⟩
        obtain rfl := Option.some.inj (hc.symm.trans hc')
        exact hother _ rfl ((hid now).trans hcid)
      · rintro hother _ ⟨⟩ hsaved
        exact hother ⟨rfl, c, hc, (hid now).symm.trans hsaved⟩

/-- A `task_fn` saves snapshots of its own task. -/
theorem run_store (hs : s.Identified) {j : String} {e : RunEvent}
    (h : s.step text .copied (.run j e) = some s') :
    s'.store id = none ↔ s.store id = none ∧ ¬s.Stores id (.app (.run j e)) := by
  obtain ⟨r, x, hr, hx, rfl⟩ := step_run h
  have hkeeps := TaskRun.step_keeps (hs.runs j r hr) (hs.copies j) (hs.store j) hx
  unfold perform
  rw [save_store]
  refine and_congr_right fun _ => ?_
  constructor
  · rintro hother ⟨rfl, r', x', hr', hx', hsaves⟩
    obtain rfl := Option.some.inj (hr.symm.trans hr')
    obtain rfl := Option.some.inj (hx.symm.trans hx')
    obtain ⟨saved, hsaved⟩ := Option.isSome_iff_exists.mp hsaves
    exact hother saved hsaved (hkeeps.save saved hsaved).1
  · rintro hother saved hsaved rfl
    obtain ⟨hid, -⟩ := hkeeps.save saved hsaved
    subst hid
    exact hother ⟨rfl, r, x, hr, hx, Option.isSome_of_eq_some hsaved⟩

/-- The store has nothing of the task until a step saves a snapshot of it. -/
theorem store_step (hs : s.Identified) (h : s.lifeStep text e = some s') :
    s'.store id = none ↔ s.store id = none ∧ ¬s.Stores id e := by
  cases e with
  | restart =>
    obtain rfl := Option.some.inj h
    exact (and_iff_left not_false).symm
  | app e =>
    change s.step text .copied e = some s' at h
    cases e with
    | create j request =>
      obtain ⟨-, downloadDir, -, -, -, rfl⟩ := step_create h
      exact (and_iff_left not_false).symm
    | creation j e => exact creation_store hs h
    | command c j =>
      obtain ⟨task, task', -, -, rfl⟩ := command_eq_ok (step_command h)
      exact (and_iff_left not_false).symm
    | persist call e => exact persist_store hs h
    | delete j =>
      obtain ⟨task, -, -, rfl⟩ := step_delete h
      exact (and_iff_left not_false).symm
    | recover found =>
      obtain rfl := Option.some.inj h
      exact (and_iff_left not_false).symm
    | run j e => exact run_store hs h

/-! ### What stays gone -/

/-- No `task_fn` of the task has been registered. -/
structure Dormant (s : AppState) (id : String) : Prop where
  controls : s.controls id = false
  handles : s.handles id = false
  runs : s.runs id = none

/-- Only its own `create_task` registers a `task_fn` for a task. -/
theorem dormant_step (hs : s.Dormant id) (hregister : e ≠ .app (.creation id .register))
    (hstart : e ≠ .app (.creation id .start)) (h : s.lifeStep text e = some s') :
    s'.Dormant id := by
  cases e with
  | restart =>
    obtain rfl := Option.some.inj h
    exact ⟨rfl, rfl, rfl⟩
  | app e =>
    change s.step text .copied e = some s' at h
    cases e with
    | create j request =>
      obtain ⟨-, downloadDir, -, -, -, rfl⟩ := step_create h
      exact ⟨hs.controls, hs.handles, hs.runs⟩
    | creation j e =>
      obtain ⟨creation, -, h⟩ := step_creation h
      by_cases hj : id = j
      · subst hj
        have hregister' : e ≠ .register := fun he => hregister (by rw [he])
        have hstart' : e ≠ .start := fun he => hstart (by rw [he])
        obtain ⟨hcontrols, hhandles, hruns⟩ := creationStep_unregistered hregister' hstart' h
        exact ⟨(congrFun hcontrols id).trans hs.controls, (congrFun hhandles id).trans hs.handles,
          (congrFun hruns id).trans hs.runs⟩
      · have hsame := (creationStep_frame h).2 id hj
        exact ⟨hsame.controls.trans hs.controls, hsame.handles.trans hs.handles,
          hsame.runs.trans hs.runs⟩
    | command c j =>
      obtain ⟨task, task', -, -, rfl⟩ := command_eq_ok (step_command h)
      refine ⟨hs.controls, hs.handles, ?_⟩
      dsimp only
      split
      · by_cases hj : id = j
        · subst hj
          rw [Function.update_self, hs.runs]
          rfl
        · exact (Function.update_of_ne hj _ _).trans hs.runs
      · exact hs.runs
    | persist call e =>
      obtain ⟨c, store, calls, returned, -, -, rfl⟩ := step_persist h
      exact ⟨hs.controls, hs.handles, hs.runs⟩
    | delete j =>
      obtain ⟨task, -, -, rfl⟩ := step_delete h
      refine ⟨?_, ?_, hs.runs⟩
      · by_cases hj : id = j
        · subst hj
          exact Function.update_self ..
        · exact (Function.update_of_ne hj _ _).trans hs.controls
      · by_cases hj : id = j
        · subst hj
          exact Function.update_self ..
        · exact (Function.update_of_ne hj _ _).trans hs.handles
    | recover found =>
      obtain rfl := Option.some.inj h
      exact ⟨hs.controls, hs.handles, hs.runs⟩
    | run j e =>
      obtain ⟨r, x, hr, hx, rfl⟩ := step_run h
      have hj : id ≠ j := by
        rintro rfl
        rw [hs.runs] at hr
        cases hr
      refine ⟨?_, ?_, (Function.update_of_ne hj _ _).trans hs.runs⟩
      · dsimp only [perform, AppState.save]
        split
        · exact (Function.update_of_ne hj _ _).trans hs.controls
        · exact hs.controls
      · dsimp only [perform, AppState.save]
        split
        · exact (Function.update_of_ne hj _ _).trans hs.handles
        · exact hs.handles

/-- Neither a `create_task` nor a `task_fn` of the task is under way. -/
structure Idle (s : AppState) (id : String) : Prop where
  creations : s.creations id = none
  runs : s.runs id = none

/-- Only its own `create_task` moves the call on. -/
theorem creations_step (hown : ∀ e', e ≠ .app (.creation id e'))
    (hnew : ∀ request, e ≠ .app (.create id request)) (h : s.lifeStep text e = some s') :
    s'.creations id = none ∨ s'.creations id = s.creations id := by
  cases e with
  | restart =>
    obtain rfl := Option.some.inj h
    exact Or.inl rfl
  | app e =>
    change s.step text .copied e = some s' at h
    cases e with
    | create j request =>
      obtain ⟨-, downloadDir, -, -, -, rfl⟩ := step_create h
      have hj : id ≠ j := by
        rintro rfl
        exact hnew request rfl
      exact Or.inr (Function.update_of_ne hj _ _)
    | creation j e =>
      obtain ⟨creation, -, h⟩ := step_creation h
      have hj : id ≠ j := by
        rintro rfl
        exact hown e rfl
      exact Or.inr ((creationStep_frame h).2 id hj).creations
    | command c j =>
      obtain ⟨task, task', -, -, rfl⟩ := command_eq_ok (step_command h)
      exact Or.inr rfl
    | persist call e =>
      obtain ⟨c, store, calls, returned, -, -, rfl⟩ := step_persist h
      exact Or.inr rfl
    | delete j =>
      obtain ⟨task, -, -, rfl⟩ := step_delete h
      exact Or.inr rfl
    | recover found =>
      obtain rfl := Option.some.inj h
      exact Or.inr rfl
    | run j e =>
      obtain ⟨r, x, -, -, rfl⟩ := step_run h
      exact Or.inr rfl

theorem not_creation (hcreations : s.creations id = none) (h : s.lifeStep text e = some s')
    (e' : CreationEvent) : e ≠ .app (.creation id e') := by
  rintro rfl
  obtain ⟨creation, hcreation, -⟩ := @step_creation text .copied _ _ _ _ h
  rw [hcreations] at hcreation
  cases hcreation

/-- A task that is gone and idle comes back by a snapshot only. -/
theorem gone_step (hs : s.Identified) (hidle : s.Idle id) (hgone : s.Gone id)
    (hnew : ∀ request, e ≠ .app (.create id request)) (h : s.lifeStep text e = some s') :
    s'.Idle id ∧ (s'.Gone id ↔ ¬s.Stores id e) := by
  have hcreation := not_creation hidle.creations h
  have hdormant : s.Dormant id := ⟨hgone.controls, hgone.handles, hidle.runs⟩
  obtain ⟨hcontrols, hhandles, hruns⟩ := dormant_step hdormant (hcreation _) (hcreation _) h
  have hcreations : s'.creations id = none := by
    rcases creations_step hcreation hnew h with hnone | hsame
    · exact hnone
    · exact hsame.trans hidle.creations
  have hstore := @store_step text s s' id e hs h
  rw [and_iff_right hgone.store] at hstore
  suffices htasks : s'.tasks.lookup id = none by
    refine ⟨⟨hcreations, hruns⟩, fun h => hstore.mp h.store, fun h => ?_⟩
    exact ⟨htasks, hcontrols, hhandles, hstore.mpr h⟩
  cases e with
  | restart =>
    obtain rfl := Option.some.inj h
    exact Finmap.lookup_empty id
  | app e =>
    change s.step text .copied e = some s' at h
    cases e with
    | create j request =>
      obtain ⟨-, downloadDir, -, -, -, rfl⟩ := step_create h
      have hj : id ≠ j := by
        rintro rfl
        exact hnew request rfl
      exact (Finmap.lookup_insert_of_ne _ hj).trans hgone.tasks
    | creation j e =>
      obtain ⟨creation, -, h⟩ := step_creation h
      have hj : id ≠ j := by
        rintro rfl
        exact hcreation e rfl
      exact ((creationStep_frame h).2 id hj).tasks.trans hgone.tasks
    | command c j =>
      obtain ⟨task, task', htask, -, rfl⟩ := command_eq_ok (step_command h)
      have hj : id ≠ j := by
        rintro rfl
        rw [hgone.tasks] at htask
        cases htask
      exact (Finmap.lookup_insert_of_ne _ hj).trans hgone.tasks
    | persist call e =>
      obtain ⟨c, store, calls, returned, -, -, rfl⟩ := step_persist h
      exact hgone.tasks
    | delete j =>
      obtain ⟨task, htask, -, rfl⟩ := step_delete h
      have hj : id ≠ j := by
        rintro rfl
        rw [hgone.tasks] at htask
        cases htask
      exact (Finmap.lookup_erase_ne hj).trans hgone.tasks
    | recover found =>
      obtain rfl := Option.some.inj h
      by_contra hthere
      obtain ⟨task, htask⟩ := Option.ne_none_iff_exists'.mp hthere
      rcases lookup_insertRecovered htask with hbefore | ⟨snapshot, hmem, hid⟩
      · rw [hgone.tasks] at hbefore
        cases hbefore
      · obtain ⟨hfound, -⟩ := List.mem_filter.mp hmem
        obtain ⟨j, -, hj⟩ := List.mem_filterMap.mp hfound
        obtain ⟨hsame, -⟩ := hs.store j snapshot hj
        rw [← hsame, hid, hgone.store] at hj
        cases hj
    | run j e =>
      obtain ⟨r, x, -, -, rfl⟩ := step_run h
      exact hgone.tasks

/-! ### What is known of a task -/

/-- The task was accepted since the start, or is in the store. -/
def Known (s : AppState) (id : String) : Prop := .accepted id ∈ s.history ∨ s.store id ≠ none

/-- The task is gone, and nothing is under way for it. -/
structure Untouched (s : AppState) (id : String) : Prop where
  gone : s.Gone id
  idle : s.Idle id
  calls : ∀ c ∈ s.calls, c.id ≠ id

theorem untouched_new {store : String → Option TaskSnapshot} (hstore : store id = none) :
    (AppState.new store).Untouched id where
  gone := ⟨Finmap.lookup_empty id, rfl, rfl, hstore⟩
  idle := ⟨rfl, rfl⟩
  calls _ hc := absurd hc List.not_mem_nil

/-- What is accepted stays on record. -/
theorem accepted_step {e : AppEvent} (haccepted : .accepted id ∈ s.history)
    (h : s.step text .copied e = some s') : .accepted id ∈ s'.history := by
  cases e with
  | create j request =>
    obtain ⟨-, downloadDir, -, -, -, rfl⟩ := step_create h
    exact List.mem_cons_of_mem _ haccepted
  | creation j e =>
    obtain ⟨creation, -, h⟩ := step_creation h
    rw [creationStep_history h]
    exact haccepted
  | command c j =>
    obtain ⟨task, task', -, -, rfl⟩ := command_eq_ok (step_command h)
    exact List.mem_cons_of_mem _ haccepted
  | persist call e =>
    obtain ⟨c, store, calls, returned, -, -, rfl⟩ := step_persist h
    exact List.mem_append_right _ haccepted
  | delete j =>
    obtain ⟨task, -, -, rfl⟩ := step_delete h
    exact haccepted
  | recover found =>
    obtain rfl := Option.some.inj h
    exact List.mem_append_right _ haccepted
  | run j e =>
    obtain ⟨r, x, -, -, rfl⟩ := step_run h
    exact List.mem_append_right _ haccepted

/-- The calls of a task are begun by the commands on it. -/
theorem calls_step (h : s.lifeStep text e = some s') {call : Call} (hcall : call ∈ s'.calls) :
    (∃ before ∈ s.calls, before.id = call.id) ∨ ∃ c, e = .app (.command c call.id) := by
  cases e with
  | restart =>
    obtain rfl := Option.some.inj h
    exact absurd hcall List.not_mem_nil
  | app e =>
    change s.step text .copied e = some s' at h
    cases e with
    | create j request =>
      obtain ⟨-, downloadDir, -, -, -, rfl⟩ := step_create h
      exact Or.inl ⟨call, hcall, rfl⟩
    | creation j e =>
      obtain ⟨creation, -, h⟩ := step_creation h
      rw [(creationStep_frame h).1] at hcall
      exact Or.inl ⟨call, hcall, rfl⟩
    | command c j =>
      obtain ⟨task, task', -, -, rfl⟩ := command_eq_ok (step_command h)
      rcases List.mem_append.mp hcall with hcall | hcall
      · exact Or.inl ⟨call, hcall, rfl⟩
      · obtain rfl := List.mem_singleton.mp hcall
        exact Or.inr ⟨c, rfl⟩
    | persist i e =>
      obtain ⟨c, hc, h⟩ := Option.bind_eq_some_iff.mp h
      obtain ⟨⟨next, snapshot⟩, -, h⟩ := Option.bind_eq_some_iff.mp h
      cases next with
      | some phase =>
        obtain rfl := Option.some.inj h
        rcases List.mem_or_eq_of_mem_set hcall with hcall | rfl
        · exact Or.inl ⟨call, hcall, rfl⟩
        · exact Or.inl ⟨c, List.mem_of_getElem? hc, rfl⟩
      | none =>
        obtain rfl := Option.some.inj h
        exact Or.inl ⟨call, List.mem_of_mem_eraseIdx hcall, rfl⟩
    | delete j =>
      obtain ⟨task, -, -, rfl⟩ := step_delete h
      exact Or.inl ⟨call, hcall, rfl⟩
    | recover found =>
      obtain rfl := Option.some.inj h
      exact Or.inl ⟨call, hcall, rfl⟩
    | run j e =>
      obtain ⟨r, x, -, -, rfl⟩ := step_run h
      exact Or.inl ⟨call, hcall, rfl⟩

/-- Where nothing is under way for a task, no snapshot of it is saved. -/
theorem Untouched.not_stores (hid : s.Untouched id) (h : s.lifeStep text e = some s') :
    ¬s.Stores id e := by
  intro hstores
  cases e with
  | restart => exact hstores
  | app e =>
    cases e with
    | creation j e =>
      cases e with
      | save now saved =>
        obtain ⟨rfl, -⟩ := hstores
        exact not_creation hid.idle.creations h _ rfl
      | copy | configure | clone | register | start => exact hstores
    | persist call e =>
      cases e with
      | save now downloadDir saved =>
        obtain ⟨-, c, hc, hcid⟩ := hstores
        exact hid.calls c (List.mem_of_getElem? hc) hcid
      | copy | load => exact hstores
    | run j e =>
      obtain ⟨rfl, r, x, hr, -⟩ := hstores
      rw [hid.idle.runs] at hr
      cases hr
    | create | command | delete | recover => exact hstores

/-- A task is touched by its own `create_task` only. -/
theorem Untouched.step (hid : s.Untouched id) (hs : s.Identified)
    (hnew : ∀ request, e ≠ .app (.create id request)) (h : s.lifeStep text e = some s') :
    s'.Untouched id := by
  obtain ⟨hidle, hgone⟩ := gone_step hs hid.idle hid.gone hnew h
  refine ⟨hgone.mpr (hid.not_stores h), hidle, fun call hcall hcid => ?_⟩
  rcases calls_step h hcall with ⟨before, hbefore, hsame⟩ | ⟨c, rfl⟩
  · exact hid.calls before hbefore (hsame.trans hcid)
  · subst hcid
    obtain ⟨task, task', htask, -⟩ := command_eq_ok (@step_command text .copied _ _ _ _ h)
    rw [hid.gone.tasks] at htask
    cases htask

/-- What holds of a task in every reachable state: it is known or untouched, and its
`create_task` finds it dormant until it registers the `task_fn`. -/
structure Tracked (id : String) (s : AppState) : Prop where
  identified : s.Identified
  known : s.Known id ∨ s.Untouched id
  waiting : ∀ creation, s.creations id = some creation → creation.phase ≠ .registered →
    s.Dormant id

theorem tracked_new {store : String → Option TaskSnapshot} (id : String)
    (hstore : ∀ j snapshot, store j = some snapshot → snapshot.id = j) :
    (AppState.new store).Tracked id where
  identified := identified_new hstore
  known := by
    by_cases hid : store id = none
    · exact Or.inr (untouched_new hid)
    · exact Or.inl (Or.inr hid)
  waiting _ h := absurd h (Option.some_ne_none _).symm

theorem Tracked.untouched (hs : s.Tracked id) (hunused : s.Unused id) : s.Untouched id := by
  obtain ⟨-, hstore, haccepted⟩ := hunused
  rcases hs.known with (hknown | hknown) | huntouched
  · exact absurd hknown haccepted
  · exact absurd hstore hknown
  · exact huntouched

/-- A `create_task` that has not registered its `task_fn` has just inserted its task, or had not
registered it before either. -/
theorem creating_step (h : s.lifeStep text e = some s') {creation : Creation}
    (hcreation : s'.creations id = some creation) (hphase : creation.phase ≠ .registered) :
    (∃ request, e = .app (.create id request)) ∨
      (e ≠ .app (.creation id .register) ∧ e ≠ .app (.creation id .start) ∧
        ∃ before, s.creations id = some before ∧ before.phase ≠ .registered) := by
  by_cases hown : ∃ e', e = .app (.creation id e')
  · obtain ⟨e', rfl⟩ := hown
    obtain ⟨before, hbefore, h⟩ := @step_creation text .copied _ _ _ _ h
    suffices hrest : before.phase ≠ .registered ∧ e' ≠ .register ∧ e' ≠ .start by
      refine Or.inr ⟨?_, ?_, before, hbefore, hrest.1⟩
      · rintro ⟨⟩
        exact hrest.2.1 rfl
      · rintro ⟨⟩
        exact hrest.2.2 rfl
    cases e' with
    | copy =>
      obtain ⟨phase, haccepted, -⟩ := creationStep_copy h
      rw [haccepted]
      exact ⟨by simp, by simp, by simp⟩
    | save now saved =>
      obtain ⟨task, store, hcopied, -⟩ := creationStep_save h
      rw [hcopied]
      exact ⟨by simp, by simp, by simp⟩
    | configure maxConcurrentFragments =>
      obtain ⟨hstored, -⟩ := creationStep_configure h
      rw [hstored]
      exact ⟨by simp, by simp, by simp⟩
    | clone =>
      obtain ⟨hconfigured, -⟩ := creationStep_clone h
      rw [hconfigured]
      exact ⟨by simp, by simp, by simp⟩
    | register =>
      obtain ⟨-, rfl⟩ := creationStep_register h
      obtain ⟨-, hregistered⟩ | ⟨hne, -⟩ := update_eq_some.mp hcreation
      · rw [← Option.some.inj hregistered] at hphase
        exact absurd rfl hphase
      · exact absurd rfl hne
    | start =>
      obtain ⟨-, rfl⟩ := creationStep_start h
      obtain ⟨-, hnone⟩ | ⟨hne, -⟩ := update_eq_some.mp hcreation
      · cases hnone
      · exact absurd rfl hne
  · by_cases hnew : ∃ request, e = .app (.create id request)
    · exact Or.inl hnew
    · refine Or.inr ⟨fun he => hown ⟨_, he⟩, fun he => hown ⟨_, he⟩, creation, ?_, hphase⟩
      rcases creations_step (fun e' he => hown ⟨e', he⟩) (fun request he => hnew ⟨request, he⟩) h
        with hnone | hsame
      · rw [hnone] at hcreation
        cases hcreation
      · rw [← hsame]
        exact hcreation

theorem Tracked.step (hs : s.Tracked id) (h : s.lifeStep text e = some s') : s'.Tracked id where
  identified := hs.identified.step h
  known := by
    rcases hs.known with hknown | huntouched
    · cases e with
      | restart =>
        obtain rfl := Option.some.inj h
        by_cases hid : s.store id = none
        · exact Or.inr (untouched_new hid)
        · exact Or.inl (Or.inr hid)
      | app e =>
        rcases hknown with haccepted | hstored
        · exact Or.inl (Or.inl (accepted_step haccepted h))
        · exact Or.inl (Or.inr fun hnone => hstored ((store_step hs.identified h).mp hnone).1)
    · by_cases hnew : ∃ request, e = .app (.create id request)
      · obtain ⟨request, rfl⟩ := hnew
        obtain ⟨-, downloadDir, -, -, -, rfl⟩ := @step_create text .copied _ _ _ _ h
        exact Or.inl (Or.inl List.mem_cons_self)
      · refine Or.inr (huntouched.step hs.identified (fun request he => hnew ⟨request, he⟩) h)
  waiting creation hcreation hphase := by
    rcases creating_step h hcreation hphase with
      ⟨request, rfl⟩ | ⟨hregister, hstart, before, hb, hp⟩
    · obtain ⟨hunused, -⟩ := @step_create text .copied _ _ _ _ h
      have huntouched := hs.untouched hunused
      refine dormant_step ⟨huntouched.gone.controls, huntouched.gone.handles,
        huntouched.idle.runs⟩ ?_ ?_ h
      · rintro ⟨⟩
      · rintro ⟨⟩
    · exact dormant_step (hs.waiting before hb hp) hregister hstart h

end Step

section Runs

variable {text : Ipv6Addr → String} {s s' s₁ : AppState} {id : String} {events : List LifeEvent}

/-- In every reachable state a task is known or untouched. -/
theorem tracked_run {store : String → Option TaskSnapshot}
    (hstore : ∀ j snapshot, store j = some snapshot → snapshot.id = j)
    (hrun : run (lifeStep text) (AppState.new store) events = some s) : s.Tracked id := by
  have hstep (s : AppState) (e : LifeEvent) (s' : AppState) (hs : s.Tracked id) (_ : True)
      (h : s.lifeStep text e = some s') : s'.Tracked id := hs.step h
  exact run_invariant hstep (tracked_new id hstore) (EachStep.of_forall fun _ _ => trivial) hrun

/-- A run leaves nothing of a task in the store exactly when nothing was there and none of its
steps saves a snapshot of the task. -/
theorem store_run (hs : s.Identified) (hrun : run (lifeStep text) s events = some s') :
    s'.store id = none ↔ s.store id = none ∧
      EachStep (lifeStep text) (fun s e => ¬s.Stores id e) s events := by
  induction events generalizing s with
  | nil =>
    obtain rfl := Option.some.inj hrun
    exact (and_iff_left trivial).symm
  | cons e events ih =>
    obtain ⟨s₁, hs₁, hrun⟩ := run_cons.mp hrun
    rw [ih (hs.step hs₁) hrun, store_step hs hs₁, and_assoc]
    refine and_congr_right fun _ => ⟨?_, fun h => h s₁ hs₁⟩
    intro h s₂ hs₂
    obtain rfl := Option.some.inj (hs₁.symm.trans hs₂)
    exact h

/-- Where a task is gone and idle it stays gone exactly while no step saves a snapshot of it. -/
theorem gone_run (hs : s.Identified) (hidle : s.Idle id) (hgone : s.Gone id)
    (hnew : ∀ request, .app (.create id request) ∉ events) :
    EachState (lifeStep text) (fun s => s.Gone id) s events ↔
      EachStep (lifeStep text) (fun s e => ¬s.Stores id e) s events := by
  have hstep (s : AppState) (e : LifeEvent) (s' : AppState)
      (he : ∀ request, e ≠ .app (.create id request)) (hs : s.Identified ∧ s.Idle id)
      (hgone : s.Gone id) (h : s.lifeStep text e = some s') :
      (s'.Identified ∧ s'.Idle id) ∧ (s'.Gone id ↔ ¬s.Stores id e) := by
    obtain ⟨hidle', hiff⟩ := gone_step hs.1 hs.2 hgone he h
    exact ⟨⟨hs.1.step h, hidle'⟩, hiff⟩
  refine eachState_iff_eachStep hstep (fun e he request heq => ?_) ⟨hs, hidle⟩ hgone
  rw [heq] at he
  exact hnew request he

/-- A task that is untouched stays so until its `create_task`. -/
theorem untouched_run (hs : s.Identified) (hid : s.Untouched id)
    (hnew : ∀ request, .app (.create id request) ∉ events) :
    EachState (lifeStep text) (fun s => s.Gone id) s events := by
  have hother : EachStep (lifeStep text) (fun _ e => ∀ request, e ≠ .app (.create id request))
      s events := by
    refine .of_mem fun e he _ request heq => ?_
    rw [heq] at he
    exact hnew request he
  have hstep (s : AppState) (e : LifeEvent) (s' : AppState) (hs : s.Identified ∧ s.Untouched id)
      (he : ∀ request, e ≠ .app (.create id request)) (h : s.lifeStep text e = some s') :
      s'.Identified ∧ s'.Untouched id := ⟨hs.1.step h, hs.2.step hs.1 he h⟩
  exact (hother.eachState hstep ⟨hs, hid⟩).imp fun s hs => hs.2.gone

/-- Where the configuration allows no fragments, `create_task` takes the entry out again. -/
theorem rejection_step (hs : s.Tracked id) (h : s.lifeStep text (rejection id) = some s₁) :
    s₁.Idle id ∧ s₁.tasks.lookup id = none ∧ s₁.controls id = false ∧ s₁.handles id = false := by
  obtain ⟨creation, hcreation, h⟩ := @step_creation text .copied _ _ _ _ h
  obtain ⟨hphase, ⟨-, rfl⟩ | ⟨hne, -⟩⟩ := creationStep_configure h
  · have hdormant := hs.waiting creation hcreation (by rw [hphase]; simp)
    exact ⟨⟨Function.update_self .., hdormant.runs⟩, Finmap.lookup_erase .., hdormant.controls,
      hdormant.handles⟩
  · exact absurd rfl hne

end Runs

/-- A `create_task` up to the check of the configuration. -/
def creating (saved : Bool) : List LifeEvent :=
  [.app (.create "task-1" (exampleRequest "a.example")), .app (.creation "task-1" .copy),
    .app (.creation "task-1" (.save "2026-05-29T00:00:00Z" saved))]

/-- The user pauses the task, which is persisted. -/
def pausing : List LifeEvent :=
  [.app (.command .pause "task-1"), .app (.persist 0 .copy), .app (.persist 0 (.load true)),
    .app (.persist 0 (.save "2026-05-29T00:00:01Z" "/downloads" true))]

end AppState

end Tachyon
