import Tachyon.App.Checkpoints

/-!
# Lost updates of the task snapshot

A checkpoint and a status persist both load the snapshot, change their part of it and
save the whole. Nothing holds the two steps together, so a save may undo what was
saved since its load. This module says exactly when none does.
-/

namespace Tachyon

open EventRuns

/-- Of the status persists saved, the one that took its copy of the task last: its ticket
and status. -/
def latestPersist : List Save → Option (ℕ × DownloadState)
  | [] => none
  | save :: saves =>
    match save.writer, latestPersist saves with
    | .persist ticket, some (latest, status) =>
      if ticket < latest then some (latest, status) else some (ticket, save.snapshot.status)
    | .persist ticket, none => some (ticket, save.snapshot.status)
    | _, latest => latest

/-- The stored snapshot has the status of the last command to persist one, `status₀` before
there is any, and every index that a checkpoint has saved. -/
structure NoLostUpdate (status₀ : Option DownloadState) (s : System) : Prop where
  status : s.stored.map TaskSnapshot.status = ((latestPersist s.saves).map Prod.snd).or status₀
  indices : ∀ save ∈ s.saves, save.writer = .checkpoint →
    save.snapshot.completedFragments ⊆ s.indices

/-- The events of one run from the spawn of its chunk reader on. -/
def Event.sinceSpawn : Event → Bool
  | .start _ _ _ | .inject _ | .probe _ | .saveMetadata _ _ | .spawn | .restart _ => false
  | _ => true

/-- The snapshot the chunk reader has loaded for a checkpoint. -/
def System.checkpointLoaded (s : System) : Option TaskSnapshot :=
  s.reader.bind fun r =>
    match r.phase with
    | .saving loaded => some loaded
    | _ => none

/-- Ticket and status of the copy a call of `persist_task_snapshot` is about to save. -/
def Persist.copy : Persist → Option (ℕ × DownloadState)
  | .saving ticket task _ => some (ticket, task.status)
  | _ => none

/-- A checkpoint saves only while the stored status is the one it loaded. A status persist
saves only when its call has loaded every index checkpointed so far, and when no call that
took its copy later has already saved another status. -/
def System.UpdatesSafely (s : System) : Event → Prop
  | .checkpointSave saved => saved = true →
    ∀ loaded ∈ s.checkpointLoaded, s.stored.map TaskSnapshot.status = some loaded.status
  | .persistSave call _ _ saved => saved = true → ∀ p ∈ s.persists[call]?,
    (∀ loaded ∈ p.loadedIndices, ∀ save ∈ s.saves, save.writer = .checkpoint →
      save.snapshot.completedFragments ⊆ loaded) ∧
    ∀ copy ∈ p.copy, ∀ latest ∈ latestPersist s.saves, copy.1 < latest.1 → copy.2 = latest.2
  | _ => True

instance (s : System) : (e : Event) → Decidable (s.UpdatesSafely e)
  | .checkpointSave _ => inferInstanceAs (Decidable (_ → ∀ _ ∈ _, _))
  | .persistSave .. => inferInstanceAs (Decidable (_ → ∀ _ ∈ _, _ ∧ _))
  | .start .. | .inject _ | .probe _ | .saveMetadata .. | .spawn | .plan | .quit | .finish _
  | .close | .receive _ | .checkpointLoad _ | .readerDone | .command _ | .delete
  | .persistClone _ | .persistLoad .. | .restart _ => inferInstanceAs (Decidable True)

section Step

variable {s s' : System} {e : Event} {status₀ : Option DownloadState} {saves : List Save}

theorem latestPersist_checkpoint {snapshot : TaskSnapshot} :
    latestPersist (⟨.checkpoint, snapshot⟩ :: saves) = latestPersist saves := by
  simp [latestPersist]

/-- A persist saved now counts as the last unless one that took its copy later was saved. -/
theorem latestPersist_persist {ticket : ℕ} {snapshot : TaskSnapshot} :
    ((latestPersist (⟨.persist ticket, snapshot⟩ :: saves)).map Prod.snd).or status₀ =
        some snapshot.status ↔
      ∀ latest ∈ latestPersist saves, ticket < latest.1 → snapshot.status = latest.2 := by
  cases hlatest : latestPersist saves with
  | none => simp [latestPersist, hlatest]
  | some latest =>
    by_cases hlt : ticket < latest.1
    · simp [latestPersist, hlatest, hlt, eq_comm]
    · simp [latestPersist, hlatest, hlt]

/-- The checkpoints saved hold no index that the reader has not seen. -/
def CheckpointsSeen (s : System) : Prop :=
  ∀ r, s.reader = some r → ∀ save ∈ s.saves, save.writer = .checkpoint →
    save.snapshot.completedFragments ⊆ r.completed

theorem CheckpointsSeen.step (h : CheckpointsSeen s) (hsince : e.sinceSpawn = true)
    (hstep : s.step e = some s') : CheckpointsSeen s' := by
  intro r' hr' save hsave hwriter
  obtain ⟨rfl, -⟩ | ⟨r, hr, hseen⟩ := System.reader_completed hstep hr'
  · cases hsince
  by_cases hwrites : ∃ save, s.Writes e save
  · obtain ⟨new, hwrites⟩ := hwrites
    rw [(System.step_writes hstep hwrites).2] at hsave
    rcases List.mem_cons.mp hsave with rfl | hold
    · cases hwrites with
      | metadata => cases hwriter
      | checkpoint hreader =>
        obtain rfl := Option.some.inj (hr.symm.trans hreader)
        exact hseen
      | persist => cases hwriter
    · exact List.Subset.trans (h r hr save hold hwriter) hseen
  · rw [(System.step_quiet hstep (not_exists.mp hwrites)).2] at hsave
    exact List.Subset.trans (h r hr save hsave hwriter) hseen

/-- A save event that happens saves. -/
theorem System.updatesSafely_of_quiet (hstep : s.step e = some s')
    (hnone : ∀ save, ¬s.Writes e save) : s.UpdatesSafely e := by
  cases e with
  | checkpointSave saved =>
    rintro rfl
    obtain ⟨r, loaded, hr, hphase, -⟩ := System.step_checkpointSave hstep
    exact absurd (.checkpoint hr hphase) (hnone _)
  | persistSave call now downloadDir saved =>
    rintro rfl
    obtain ⟨ticket, task, existing, hcall, -⟩ := System.step_persistSave hstep
    exact absurd (.persist hcall) (hnone _)
  | _ => trivial

/-- A checkpoint loses no update exactly when the status it loaded is still the stored one. -/
theorem NoLostUpdate.checkpoint_iff (h : NoLostUpdate status₀ s) (hseen : CheckpointsSeen s)
    {r : ChunkReader} {loaded : TaskSnapshot} (hreader : s.reader = some r)
    (hphase : r.phase = .saving loaded) (hstep : s.step (.checkpointSave true) = some s') :
    NoLostUpdate status₀ s' ↔ s.UpdatesSafely (.checkpointSave true) := by
  have hwrites : s.Writes (.checkpointSave true) ⟨.checkpoint, r.checkpoint loaded⟩ :=
    .checkpoint hreader hphase
  have hindices := System.indices_of_writes hstep hwrites
  obtain ⟨hstored, hsaves⟩ := System.step_writes hstep hwrites
  have hloaded : s.checkpointLoaded = some loaded := by
    simp [System.checkpointLoaded, hreader, hphase]
  have hsafe : s.UpdatesSafely (.checkpointSave true) ↔
      s.stored.map TaskSnapshot.status = some loaded.status := by
    simp [System.UpdatesSafely, hloaded]
  rw [hsafe, h.status]
  constructor
  · intro h'
    have hstatus := h'.status
    rw [hstored, hsaves, latestPersist_checkpoint] at hstatus
    exact hstatus.symm
  · intro hstatus
    refine ⟨?_, fun save hsave hwriter => ?_⟩
    · rw [hstored, hsaves, latestPersist_checkpoint]
      exact hstatus.symm
    · rw [hindices]
      rw [hsaves] at hsave
      rcases List.mem_cons.mp hsave with rfl | hold
      · exact List.Subset.refl _
      · exact hseen r hreader save hold hwriter

/-- A status persist loses no update exactly when its call has loaded what was checkpointed
and no later copy was saved with another status. -/
theorem NoLostUpdate.persist_iff {call ticket : ℕ} {task : TaskInfo}
    {existing : Option TaskSnapshot} {now downloadDir : String}
    (hcall : s.persists[call]? = some (.saving ticket task existing))
    (hstep : s.step (.persistSave call now downloadDir true) = some s') :
    NoLostUpdate status₀ s' ↔ s.UpdatesSafely (.persistSave call now downloadDir true) := by
  have hwrites := @System.Writes.persist s call ticket task existing now downloadDir hcall
  have hindices := System.indices_of_writes hstep hwrites
  obtain ⟨hstored, hsaves⟩ := System.step_writes hstep hwrites
  have hsafe : s.UpdatesSafely (.persistSave call now downloadDir true) ↔
      (∀ save ∈ s.saves, save.writer = .checkpoint → save.snapshot.completedFragments ⊆
        (existing.map TaskSnapshot.completedFragments).getD []) ∧
      ∀ latest ∈ latestPersist s.saves, ticket < latest.1 → task.status = latest.2 := by
    simp [System.UpdatesSafely, hcall, Persist.loadedIndices, Persist.copy]
  have hstatus : s'.stored.map TaskSnapshot.status =
        ((latestPersist s'.saves).map Prod.snd).or status₀ ↔
      ∀ latest ∈ latestPersist s.saves, ticket < latest.1 → task.status = latest.2 := by
    have hlatest := @latestPersist_persist status₀ s.saves ticket
      (persistedSnapshot now downloadDir task existing none)
    rw [persistedSnapshot_status] at hlatest
    rw [hstored, hsaves, ← hlatest, Option.map_some, persistedSnapshot_status]
    exact eq_comm
  have hkept : (∀ save ∈ s'.saves, save.writer = .checkpoint →
        save.snapshot.completedFragments ⊆ s'.indices) ↔
      ∀ save ∈ s.saves, save.writer = .checkpoint → save.snapshot.completedFragments ⊆
        (existing.map TaskSnapshot.completedFragments).getD [] := by
    rw [hindices, hsaves, persistedSnapshot_completedFragments]
    simp
  rw [hsafe]
  constructor
  · intro h'
    exact ⟨hkept.mp h'.indices, hstatus.mp h'.status⟩
  · rintro ⟨hloaded, hlatest⟩
    exact ⟨hstatus.mpr hlatest, hkept.mpr hloaded⟩

/-- From a state without a lost update, a step loses none exactly when it is safe. -/
theorem NoLostUpdate.step_iff (h : NoLostUpdate status₀ s) (hseen : CheckpointsSeen s)
    (hsince : e.sinceSpawn = true) (hstep : s.step e = some s') :
    NoLostUpdate status₀ s' ↔ s.UpdatesSafely e := by
  by_cases hwrites : ∃ save, s.Writes e save
  · obtain ⟨save, hwrites⟩ := hwrites
    cases hwrites with
    | metadata => cases hsince
    | checkpoint hreader hphase => exact h.checkpoint_iff hseen hreader hphase hstep
    | persist hcall => exact NoLostUpdate.persist_iff hcall hstep
  · have hnone := not_exists.mp hwrites
    obtain ⟨hstored, hsaves⟩ := System.step_quiet hstep hnone
    have hsafe := System.updatesSafely_of_quiet hstep hnone
    refine ⟨fun _ => hsafe, fun _ => ⟨?_, ?_⟩⟩
    · rw [hstored, hsaves]
      exact h.status
    · rw [hsaves, System.indices_of_quiet hstep hnone]
      exact h.indices

/-- Where no update is lost, a cancelled, completed or failed task is not recovered. -/
theorem NoLostUpdate.not_recovered (h : NoLostUpdate status₀ s) {ticket : ℕ}
    {status : DownloadState} (hlatest : latestPersist s.saves = some (ticket, status))
    (hfinal : status = .cancelled ∨ status = .completed ∨ status = .failed)
    {readable : Bool}
    (hstep : s.step (.restart readable) = some s') : s'.tasks = none := by
  obtain rfl := Option.some.inj hstep
  have hstatus := h.status
  rw [hlatest] at hstatus
  cases readable with
  | false => rfl
  | true =>
    obtain ⟨snapshot, hstored, hsnapshot⟩ := Option.map_eq_some_iff.mp hstatus
    have hnot : snapshot.recoverable = false := by
      unfold TaskSnapshot.recoverable
      rcases hfinal with rfl | rfl | rfl <;> simp [hsnapshot]
    simp [System.load, hstored, hnot]

end Step

/-- In every interleaving of a run's checkpoints with status persists, from the spawn of the
chunk reader on: no update is lost in any state exactly when every step is safe. -/
theorem no_lost_update_iff {s : System} {events : List Event} (hfresh : s.saves = [])
    (hsince : ∀ e ∈ events, e.sinceSpawn = true) :
    EachState System.step (NoLostUpdate (s.stored.map TaskSnapshot.status)) s events ↔
      EachStep System.step System.UpdatesSafely s events := by
  have hseen : CheckpointsSeen s := by
    intro r _ save hsave
    rw [hfresh] at hsave
    cases hsave
  have hnone : NoLostUpdate (s.stored.map TaskSnapshot.status) s := by
    refine ⟨?_, fun save hsave => ?_⟩
    · rw [hfresh]
      rfl
    · rw [hfresh] at hsave
      cases hsave
  refine eachState_iff_eachStep (fun s₁ e s₂ he hseen h hstep => ?_) hsince hseen hnone
  exact ⟨hseen.step he hstep, h.step_iff hseen he hstep⟩

/-- A run of four fragments whose chunk reader has been spawned, observed from there on. -/
def spawned : System :=
  { (run System.step created (plannedRun 1048576 fourMiB)).get rfl with saves := [] }

/-- The status of a cancelled task is persisted. -/
def cancelPersisted : List Event :=
  [.command .cancel, .persistClone 0, .persistLoad 0 true, .persistSave 0 "now" "dir" true]

/-- A cancellation persisted between the two steps of a checkpoint is undone, and a restart
brings the task back; a checkpoint between the two steps of the persist is undone. -/
theorem cancel_lost_under_checkpoint :
    (∃ s s', run System.step spawned ([.receive ⟨0, true, 1048576⟩, .checkpointLoad true] ++
        cancelPersisted ++ [.checkpointSave true]) = some s ∧
      latestPersist s.saves = some (0, .cancelled) ∧
      s.stored.map TaskSnapshot.status = some .downloading ∧ s.step (.restart true) = some s' ∧
      s'.tasks.map TaskInfo.status = some .pending) ∧
    ∃ s, run System.step spawned (cancelPersisted.take 3 ++ checkpointed 0 ++
        cancelPersisted.drop 3) = some s ∧ s.indices = [] := by
  constructor
  · exact ⟨_, _, rfl, rfl, rfl, rfl, rfl⟩
  · exact ⟨_, rfl, rfl⟩

/-- A cancellation persisted after a checkpoint loses nothing. -/
theorem no_lost_update_cancelled_after :
    EachState System.step (NoLostUpdate (some .downloading)) spawned
      (checkpointed 0 ++ cancelPersisted) := by
  have hiff := @no_lost_update_iff spawned (checkpointed 0 ++ cancelPersisted) rfl (by decide)
  exact hiff.mpr (by decide)

end Tachyon
