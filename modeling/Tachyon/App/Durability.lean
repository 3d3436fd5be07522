import Tachyon.App.LostUpdates

/-!
# Checkpoints and durable bytes

The fragment tasks write, the chunk reader checkpoints what they report, and the storage
is synced once, after the last fragment. This module runs the download next to the
application and says what a stored index means for the file at every moment.
-/

namespace Tachyon

open EventRuns Resumption ByteFile

/-- A download under way, the application around it, and how many progress messages the
chunk reader has received. -/
structure Checkpointed (specs : List FragmentSpec) where
  download : Fragmented specs
  app : System
  received : ℕ

/-- One step of the download or of the application. -/
inductive CheckpointedStep {specs : List FragmentSpec} (env : Environment) :
    Checkpointed specs → Checkpointed specs → Prop where
  | download {c : Checkpointed specs} {download : Fragmented specs}
      (h : FragmentedStep env c.download download) :
      CheckpointedStep env c { c with download := download }
  /-- The chunk reader receives the next message of the channel. -/
  | receive {c : Checkpointed specs} {progress : FragmentProgress} {app : System}
      (hnext : c.download.world.sent[c.received]? = some progress)
      (h : c.app.step (.receive progress) = some app) :
      CheckpointedStep env c { c with app := app, received := c.received + 1 }
  | app {c : Checkpointed specs} {e : Event} {app : System} (hsince : e.sinceSpawn = true)
      (hother : ∀ progress, e ≠ .receive progress) (h : c.app.step e = some app) :
      CheckpointedStep env c { c with app := app }

/-- An index the application may store: it is stored, a status persist has loaded it, or the
chunk reader has seen it. -/
def System.Knows (s : System) (i : ℕ) : Prop :=
  i ∈ s.indices ∨ (∃ p ∈ s.persists, ∃ loaded ∈ p.loadedIndices, i ∈ loaded) ∨
    ∃ r, s.reader = some r ∧ i ∈ r.completed

/-- No write to the range is still to be synced. -/
def Durable (start end_ : ℕ) (w : World) : Prop :=
  ∀ write ∈ w.unsynced, write.1 + write.2 ≤ start ∨ end_ < write.1

section Knows

variable {s s' : System} {e : Event} {i : ℕ}

/-- The application learns of an index from a progress message alone. -/
theorem System.Knows.of_step (hstep : s.step e = some s') (hsince : e.sinceSpawn = true)
    (h : s'.Knows i) :
    s.Knows i ∨ ∃ progress, e = .receive progress ∧ progress.fragmentIndex = i ∧
      progress.completed = true := by
  rcases h with hstored | ⟨p, hp, loaded, hloaded, hi⟩ | ⟨r', hr', hi⟩
  · by_cases hwrites : ∃ save, s.Writes e save
    · obtain ⟨save, hwrites⟩ := hwrites
      rw [System.indices_of_writes hstep hwrites] at hstored
      cases hwrites with
      | metadata => cases hstored
      | checkpoint hreader => exact Or.inl (Or.inr (Or.inr ⟨_, hreader, hstored⟩))
      | persist hcall =>
        rw [persistedSnapshot_completedFragments] at hstored
        exact Or.inl (Or.inr (Or.inl ⟨_, List.mem_of_getElem? hcall, _, rfl, hstored⟩))
    · rw [System.indices_of_quiet hstep (not_exists.mp hwrites)] at hstored
      exact Or.inl (Or.inl hstored)
  · obtain hold | ⟨-, hle⟩ := System.step_persists hstep hp hloaded
    · exact Or.inl (Or.inr (Or.inl ⟨p, hold, loaded, hloaded, hi⟩))
    · exact Or.inl (Or.inl (hle hi))
  · obtain ⟨rfl, -⟩ | ⟨r, hr, hsame | ⟨progress, rfl, rfl⟩⟩ := System.step_reader hstep hr'
    · cases hsince
    · rw [hsame] at hi
      exact Or.inl (Or.inr (Or.inr ⟨r, hr, hi⟩))
    · by_cases hcompleted : progress.completed = true
      · simp only [ChunkReader.receive, hcompleted, if_true] at hi
        rcases mem_insertIndex.mp hi with heq | hold
        · exact Or.inr ⟨progress, rfl, heq.symm, hcompleted⟩
        · exact Or.inl (Or.inr (Or.inr ⟨r, hr, hold⟩))
      · simp only [ChunkReader.receive, hcompleted] at hi
        exact Or.inl (Or.inr (Or.inr ⟨r, hr, hi⟩))

end Knows

section Download

variable {env : Environment} {specs : List FragmentSpec} {fileSize : ℕ} {file₀ : Bytes}
  {s s' : Fragmented specs}

/-- The progress channel loses nothing it took. -/
theorem handles_sent {op : Request} {w w' : World} {x : Answer op}
    (h : Handles env op w x w') : w.sent ⊆ w'.sent := by
  have hwrite {offset : ℕ} {data : Bytes} {result : DownloadResult ℕ}
      (hw : Writes w offset data result w') : w.sent ⊆ w'.sent := by
    obtain ⟨k, -, -, rfl⟩ := hw
    exact List.Subset.refl _
  have hidle (hw : w' = w) : w.sent ⊆ w'.sent := by
    rw [hw]
    exact List.Subset.refl _
  cases op with
  | openRange start end_ =>
    match x with
    | .finished (.ok items) =>
      obtain ⟨-, rfl⟩ := h
      exact List.Subset.refl _
    | .finished (.error e) => exact hidle h
    | .interrupted control => exact hidle h
  | openFull =>
    match x with
    | .finished (.ok items) => exact hidle h.2
    | .finished (.error e) => exact hidle h
    | .interrupted control => exact hidle h
  | writeAt => exact hwrite h.2
  | writeAtRaced =>
    match x with
    | .finished result => exact hwrite h.2
    | .interrupted control =>
      obtain ⟨k, -, rfl⟩ := h
      exact List.Subset.refl _
  | sendProgress message =>
    obtain rfl := h
    cases x with
    | false => exact List.Subset.refl _
    | true => exact List.subset_append_left _ _
  | _ => exact hidle h

/-- A completion in the channel stays reported. -/
theorem completed_step {i : ℕ} (hstep : FragmentedStep env s s') (h : Completed i s.world) :
    Completed i s'.world := by
  cases hstep with
  | task htask =>
    cases htask with
    | call _ hx =>
      obtain ⟨message, hmessage, hcompletes⟩ := h
      exact ⟨message, handles_sent hx hmessage, hcompletes⟩
  | join _ _ hjoin =>
    obtain ⟨_, _, _, _, -, rfl⟩ | ⟨_, _, _, rfl⟩ := Fragmented.join_cases hjoin
    · exact h
    · exact h
  | panicked => exact h
  | sync =>
    rename_i result _ _
    cases result with
    | ok _ => exact h
    | error e => exact h

/-- Only fragments being downloaded are reported complete. -/
theorem reported_step (h : FragmentedInvariant env fileSize file₀ s) (hsep : Separated specs)
    (hstep : FragmentedStep env s s')
    (hreported : ∀ i, Completed i s.world → ∃ j : Fin specs.length, (specs.get j).index = i) (i : ℕ)
    (hcompleted : Completed i s'.world) : ∃ j : Fin specs.length, (specs.get j).index = i := by
  cases hstep with
  | task htask =>
    obtain ⟨⟨j, hguar⟩, -⟩ := pool_step_safe
      (fun i j w w' hij hguar => hsep.leftAlone hij hguar) h.safe htask
    by_cases hi : i = specs[j].index
    · exact ⟨j, hi.symm⟩
    · exact hreported i (hguar.completed i hi hcompleted)
  | join _ _ hjoin =>
    obtain ⟨_, _, _, _, -, rfl⟩ | ⟨_, _, _, rfl⟩ := Fragmented.join_cases hjoin
    · exact hreported i hcompleted
    · exact hreported i hcompleted
  | panicked => exact hreported i hcompleted
  | sync =>
    rename_i result _ _
    cases result with
    | ok _ => exact hreported i hcompleted
    | error e => exact hreported i hcompleted

/-- After a successful run nothing is left to sync. -/
theorem synced_step (h : FragmentedInvariant env fileSize file₀ s)
    (hstep : FragmentedStep env s s') (hok : s'.outcome = some (.ok ())) :
    s'.world.unsynced = [] := by
  cases hstep with
  | task htask =>
    cases htask with
    | call hi hx =>
      rename_i i op k x
      obtain ⟨result, hdone⟩ := h.joined i (h.all_joined hok i)
      rw [hdone] at hi
      cases hi
  | join hrunning _ hjoin =>
    obtain ⟨_, _, _, _, -, rfl⟩ | ⟨_, _, _, rfl⟩ := Fragmented.join_cases hjoin
    · rw [hrunning] at hok
      cases hok
    · cases hok
  | panicked => cases hok
  | sync =>
    rename_i result _ _
    cases result with
    | ok _ => rfl
    | error e => cases hok

end Download

section Run

variable {env : Environment} {specs : List FragmentSpec} {fileSize : ℕ} {file₀ : Bytes}
  {app₀ : System} {c c' : Checkpointed specs}

/-- What holds at every moment of a download from an application that was `app₀`: what the
application has learnt since is reported, and what is reported is a fragment's delivery. -/
structure CheckpointedInvariant (env : Environment) (fileSize : ℕ) (file₀ : Bytes)
    (app₀ : System) (c : Checkpointed specs) : Prop where
  download : FragmentedInvariant env fileSize file₀ c.download
  reported : ∀ i, Completed i c.download.world → ∃ j : Fin specs.length, (specs.get j).index = i
  synced : c.download.outcome = some (.ok ()) → c.download.world.unsynced = []
  learnt : ∀ i, c.app.Knows i → app₀.Knows i ∨ Completed i c.download.world

theorem CheckpointedInvariant.step (hsep : Separated specs)
    (hend : ∀ spec ∈ specs, spec.end_ < fileSize)
    (h : CheckpointedInvariant env fileSize file₀ app₀ c) (hstep : CheckpointedStep env c c') :
    CheckpointedInvariant env fileSize file₀ app₀ c' := by
  cases hstep with
  | download hdownload =>
    refine ⟨h.download.step hsep hend hdownload, reported_step h.download hsep hdownload h.reported,
      synced_step h.download hdownload, fun i hi => ?_⟩
    rcases h.learnt i hi with hknown | hcompleted
    · exact Or.inl hknown
    · exact Or.inr (completed_step hdownload hcompleted)
  | receive hnext happ =>
    refine ⟨h.download, h.reported, h.synced, fun i hi => ?_⟩
    obtain hknown | ⟨progress, he, hindex, hcompleted⟩ := System.Knows.of_step happ rfl hi
    · exact h.learnt i hknown
    · obtain rfl := Event.receive.inj he
      exact Or.inr ⟨_, List.mem_of_getElem? hnext, hindex, hcompleted⟩
  | app hsince hother happ =>
    refine ⟨h.download, h.reported, h.synced, fun i hi => ?_⟩
    obtain hknown | ⟨progress, he, -⟩ := System.Knows.of_step happ hsince hi
    · exact h.learnt i hknown
    · exact absurd he (hother progress)

theorem CheckpointedInvariant.run (hsep : Separated specs)
    (hend : ∀ spec ∈ specs, spec.end_ < fileSize)
    (h : CheckpointedInvariant env fileSize file₀ app₀ c)
    (hrun : Relation.ReflTransGen (CheckpointedStep env) c c') :
    CheckpointedInvariant env fileSize file₀ app₀ c' := by
  induction hrun with
  | refl => exact h
  | tail _ hstep ih => exact ih.step hsep hend hstep

/-- A reported index is one of a fragment whose bytes stand in the file. -/
theorem CheckpointedInvariant.delivered (h : CheckpointedInvariant env fileSize file₀ app₀ c)
    {i : ℕ} (hi : Completed i c.download.world) :
    ∃ spec ∈ specs, spec.index = i ∧ Delivered spec.start spec.end_ c.download.world := by
  obtain ⟨j, hj⟩ := h.reported i hi
  have hhonest := h.download.honest j
  exact ⟨specs.get j, List.get_mem specs j, hj, hhonest (hj ▸ hi)⟩

/-- At every moment of a download and of the application around it: an index the run has
stored is one of a fragment whose bytes stand in the file as its stream delivered them, and
once the run returned Ok no write is left to sync. -/
theorem checkpointed_bytes_written {t t' : DownloadTask} {file : Bytes}
    {s₀ : Fragmented (fragmentSpecs t'.fragments)}
    {c : Checkpointed (fragmentSpecs t'.fragments)} (hplan : t.plan = some (.ok t'))
    (hstart : startFragmented t'.config.maxConcurrentFragments t'.config.maxRetries t'.host t'.url
      (some file) t'.fragments = .ok s₀)
    (hrun : Relation.ReflTransGen (CheckpointedStep env) ⟨s₀, app₀, 0⟩ c) :
    (∀ i ∈ c.app.indices, app₀.Knows i ∨ ∃ spec ∈ fragmentSpecs t'.fragments,
      spec.index = i ∧ Delivered spec.start spec.end_ c.download.world) ∧
    (c.download.outcome = some (.ok ()) → ∀ start end_, Durable start end_ c.download.world) := by
  obtain ⟨hsep, fileSize, hend⟩ := DownloadTask.plan_separated hplan
  obtain ⟨file', -, hworld, houtcome, -⟩ := startFragmented_ok hstart
  have hinitial : CheckpointedInvariant env fileSize file app₀ ⟨s₀, app₀, 0⟩ := by
    refine ⟨startFragmented_invariant env fileSize hsep hstart, fun i hi => ?_, fun hok => ?_,
      fun i hi => Or.inl hi⟩
    · rw [hworld] at hi
      obtain ⟨message, hmessage, -⟩ := hi
      cases hmessage
    · rw [houtcome] at hok
      cases hok
  have hinv := hinitial.run hsep hend hrun
  constructor
  · intro i hi
    rcases hinv.learnt i (Or.inl hi) with hknown | hcompleted
    · exact Or.inl hknown
    · exact Or.inr (hinv.delivered hcompleted)
  · intro hok start end_ write hwrite
    rw [hinv.synced hok] at hwrite
    cases hwrite

/-- Steps of the download are steps of the whole. -/
theorem CheckpointedStep.download_run {download : Fragmented specs}
    (h : Relation.ReflTransGen (FragmentedStep env) c.download download) :
    Relation.ReflTransGen (CheckpointedStep env) c { c with download := download } := by
  refine h.lift (fun d => { c with download := d }) fun d d' hstep => ?_
  exact @CheckpointedStep.download specs env { c with download := d } d' hstep

end Run

/-- What the server says about a file of three bytes. -/
def threeBytes : FileMetadata := ⟨"file", some 3, none, true, none, none⟩

/-- The probed task of three bytes, to be cut in two. -/
def threeByteTask : DownloadTask := { suggestedTask 2 with metadata := some threeBytes }

/-- Its two fragments. -/
def threeByteRecords : List FragmentRecord := freshRecords 3 (cutInto 3 2)

/-- The first state of its download, into an empty file. -/
def threeByteStart : Fragmented (fragmentSpecs threeByteRecords) :=
  (startFragmented 16 3 (.ok "host") "url" (some []) threeByteRecords).toOption.get (by decide)

/-- The application when the download starts. -/
def threeByteApp : System := (run System.step created (plannedRun 2 threeBytes)).get rfl

/-- The download once its first fragment has run. -/
def threeByteFirst : Fragmented (fragmentSpecs threeByteRecords) :=
  threeByteStart.exec (reliable [10, 20, 30]) ⟨0, by decide⟩

/-- The first fragment runs and is checkpointed. -/
theorem threeByte_checkpointed :
    ∃ c, Relation.ReflTransGen (CheckpointedStep (.reliable [10, 20, 30]))
      ⟨threeByteStart, threeByteApp, 0⟩ c ∧ c.download = threeByteFirst ∧ c.app.indices = [0] := by
  have hdownload := Fragmented.exec_run (reliable_handles [10, 20, 30]) threeByteStart
    ⟨0, by decide⟩
  have hrun := @CheckpointedStep.download_run (.reliable [10, 20, 30]) _
    ⟨threeByteStart, threeByteApp, 0⟩ _ hdownload
  obtain ⟨app₁, app₂, app₃, h₁, h₂, h₃, hindices⟩ : ∃ app₁ app₂ app₃,
      threeByteApp.step (.receive ⟨0, true, 2⟩) = some app₁ ∧
      app₁.step (.checkpointLoad true) = some app₂ ∧
      app₂.step (.checkpointSave true) = some app₃ ∧ app₃.indices = [0] :=
    ⟨_, _, _, rfl, rfl, rfl, rfl⟩
  have hsent : threeByteFirst.world.sent[0]? = some ⟨0, true, 2⟩ := by decide
  have hreceived := hrun.tail (.receive hsent h₁)
  have hloaded := hreceived.tail (.app rfl (fun _ h => by cases h) h₂)
  exact ⟨_, hloaded.tail (.app rfl (fun _ h => by cases h) h₃), rfl, hindices⟩

/-- The first fragment is checkpointed while its write is still to be synced. -/
theorem checkpoint_before_sync :
    ∃ c, Relation.ReflTransGen (CheckpointedStep (.reliable [10, 20, 30]))
      ⟨threeByteStart, threeByteApp, 0⟩ c ∧ 0 ∈ c.app.indices ∧
      ¬Durable 0 1 c.download.world := by
  obtain ⟨c, hrun, hdownload, hindices⟩ := threeByte_checkpointed
  refine ⟨c, hrun, by rw [hindices]; exact List.mem_singleton_self 0, fun hdurable => ?_⟩
  have hunsynced : threeByteFirst.world.unsynced = [(0, 2)] := by decide
  rw [hdownload] at hdurable
  have hwrite := hdurable (0, 2) (by rw [hunsynced]; exact List.mem_singleton_self _)
  omega

/-- The checkpointed fragment is delivered, and after the sync all is durable. -/
theorem checkpointed_bytes_written_three_bytes :
    (∃ c : Checkpointed (fragmentSpecs threeByteRecords), c.app.indices = [0] ∧
      ∃ spec ∈ fragmentSpecs threeByteRecords, spec.index = 0 ∧
        Delivered spec.start spec.end_ c.download.world) ∧
    ∃ c : Checkpointed (fragmentSpecs threeByteRecords), c.download.outcome = some (.ok ()) ∧
      Durable 0 2 c.download.world := by
  have hplan : threeByteTask.plan =
      some (.ok { threeByteTask with fragments := threeByteRecords }) := rfl
  have hstart : startFragmented 16 3 (.ok "host") "url" (some []) threeByteRecords =
      .ok threeByteStart := rfl
  constructor
  · obtain ⟨c, hrun, -, hindices⟩ := threeByte_checkpointed
    obtain ⟨hwritten, -⟩ := checkpointed_bytes_written hplan hstart hrun
    refine ⟨c, hindices, ?_⟩
    rcases hwritten 0 (by rw [hindices]; exact List.mem_singleton_self 0) with hknown | hdelivered
    · rcases hknown with hstored | ⟨p, hp, -⟩ | ⟨r, hr, hi⟩
      · cases hstored
      · cases hp
      · obtain rfl := Option.some.inj hr
        cases hi
    · exact hdelivered
  · have hdrive : (threeByteStart.drive (reliable [10, 20, 30])
        [⟨0, by decide⟩, ⟨1, by decide⟩]).any
          (fun s => decide (s.outcome.isNone ∧ ∀ i, s.live i = false)) = true := by
      decide +kernel
    obtain ⟨s, hs, hjoined⟩ := (Option.any_eq_true _ _).mp hdrive
    obtain ⟨hrunning, hall⟩ := of_decide_eq_true hjoined
    have hrun := Fragmented.drive_run (reliable_handles [10, 20, 30]) hs
    have hend := hrun.tail
      (@FragmentedStep.sync _ _ _ (.ok ()) (Option.isNone_iff_eq_none.mp hrunning) hall)
    have hcheckpointed := @CheckpointedStep.download_run (.reliable [10, 20, 30]) _
      ⟨threeByteStart, threeByteApp, 0⟩ _ hend
    obtain ⟨-, hdurable⟩ := checkpointed_bytes_written hplan hstart hcheckpointed
    exact ⟨_, rfl, hdurable rfl 0 2⟩

end Tachyon
