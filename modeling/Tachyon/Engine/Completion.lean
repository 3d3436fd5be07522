import Tachyon.Engine.CalmFragmented
import Tachyon.Engine.OutputFile
import Tachyon.Engine.Resume

/-!
# Runs that complete

With a server that answers correctly, a storage that writes whole and nobody who pauses
or cancels, a run of `DownloadTask` comes to its end whatever the interleaving of its
fragments. With checksums off that end is success; a planned fragment has no expected
hash, so with checksums on it is not.
-/

namespace Tachyon

open Resumption

/-- `effective_concurrency`, the slots of the semaphore. -/
def effectiveConcurrency (recommended maxConcurrentFragments : ℕ) : ℕ :=
  max (min recommended maxConcurrentFragments) 1

theorem effectiveConcurrency_pos (recommended maxConcurrentFragments : ℕ) :
    0 < effectiveConcurrency recommended maxConcurrentFragments :=
  Nat.lt_of_lt_of_le Nat.one_pos (Nat.le_max_right _ _)

/-- The answers a task gets when nothing goes wrong, and what they leave at its save
path. -/
def CalmTask (platform : Platform) (env : Environment) (metadata : FileMetadata) (slots : ℕ) :
    (r : TaskRequest) → Option Bytes → TaskAnswer r → Option Bytes → Prop
  | .probe, file, x, file' => x = .finished (.ok metadata) ∧ file' = file
  | .validateSavePath _ _, file, x, file' => (∃ path, x = .ok path) ∧ file' = file
  | .openStorage _ _, file, x, file' => x = .ok () ∧ file' = some (file.getD [])
  | .checkCancelled, file, x, file' => x = .ok () ∧ file' = file
  | .allocate size, file, x, file' =>
    x = .finished (.ok ()) ∧ file' = file.map (platform.allocate · size)
  | .skipAllocate, file, x, file' => x = .finished (.ok ()) ∧ file' = file
  | .verified, file, x, file' => x = .finished (.ok ()) ∧ file' = file
  | .hashRange _ _, file, x, file' => (∃ hash, x = .ok hash) ∧ file' = file
  | .executeFull expectedSize maxFullStreamBytes host storageReady fragments, file, x, file' =>
    ∃ w, Yields (Calm env)
        (executeFullDownload expectedSize maxFullStreamBytes host storageReady fragments)
        (.initial (file.getD [])) x w ∧ file' = file.map fun _ => w.file
  | .executeFragmented maxConcurrentFragments maxRetries host url storageReady fragments,
      file, x, file' =>
    match startFragmented maxConcurrentFragments maxRetries host url
      (if storageReady then file else none) fragments with
    | .error e => x = .error e ∧ file' = file
    | .ok s₀ => ∃ s, Relation.ReflTransGen (CalmStep env slots) (s₀, ∅) s ∧
        s.1.outcome = some (x.map fun _ => ()) ∧
        (∀ records, x = .ok records → s.1.fragments = records) ∧ file' = some s.1.world.file
  | .panic, _, x, _ => x.elim

/-- In every run the request is answered: the downloads end, and there is no panic. The
other requests of `CalmTask` always have an answer. -/
def Answered (env : Environment) (slots : ℕ) : TaskRequest → Option Bytes → Prop
  | .executeFull expectedSize maxFullStreamBytes host storageReady fragments, _ =>
    (executeFullDownload expectedSize maxFullStreamBytes host storageReady fragments).run.Ends
      (Calm env) fun _ => True
  | .executeFragmented maxConcurrentFragments maxRetries host url storageReady fragments, file =>
    ∀ s₀, startFragmented maxConcurrentFragments maxRetries host url
        (if storageReady then file else none) fragments = .ok s₀ →
      Inevitable (CalmStep env slots) (fun s => s.1.outcome.isSome) (s₀, ∅)
  | .panic, _ => False
  | _, _ => True

/-- The request asks for bytes of the fragment. -/
def Touches (f : FragmentInfo) : Request → Prop
  | .openRange start end_ => start ≤ f.end_ ∧ f.start ≤ end_
  | .openFull => True
  | _ => False

/-- In no run is the server asked for bytes of the restored fragments. -/
def Spares (env : Environment) (restored : List FragmentInfo) :
    TaskRequest → Option Bytes → Prop
  | .executeFull expectedSize maxFullStreamBytes host storageReady fragments, _ =>
    (executeFullDownload expectedSize maxFullStreamBytes host storageReady fragments).run.AsksOnly
      fun op => ∀ f ∈ restored, ¬Touches f op
  | .executeFragmented maxConcurrentFragments maxRetries host url storageReady fragments, file =>
    ∀ s₀ s, startFragmented maxConcurrentFragments maxRetries host url
        (if storageReady then file else none) fragments = .ok s₀ →
      Relation.ReflTransGen (FragmentedStep env) s₀ s →
      ∀ i op k, s.threads i = .call op k → ∀ f ∈ restored, ¬Touches f op
  | _, _ => True

/-- What a task may count on, its file being its own and its requests being answered, and
what it owes: it asks for nothing that was restored. -/
def calmContract (env : Environment) (slots : ℕ) (restored : List FragmentInfo) :
    Contract TaskRequest (Option Bytes) where
  rely := Eq
  guar := fun _ _ => True
  issue := fun r file => Answered env slots r file ∧ Spares env restored r file
  rely_refl := fun _ => rfl
  rely_trans := Eq.trans

/-- Every run of the program comes to an end, and that end is a success in `post`. -/
def Completes (platform : Platform) (env : Environment) (metadata : FileMetadata) (slots : ℕ)
    (restored : List FragmentInfo) {α : Type} (p : TaskM α) (file : Option Bytes)
    (post : α → Option Bytes → Prop) : Prop :=
  Ensures (CalmTask platform env metadata slots) (calmContract env slots restored) p file post
    fun _ => False

/-- The storage takes whole writes, and the server describes the entity, and delivers it
and every range of it to the end. -/
structure WellServed (entity : Bytes) (metadata : FileMetadata) (env : Environment) : Prop
    extends Correct entity metadata env where
  takes : env.TakesWhole
  full_served : ∃ items, env.fulls items
  full_ends : ∀ items, env.fulls items → EndsCleanly items
  range_served : ∀ start end_, start ≤ end_ → end_ < entity.length →
    ∃ items, env.ranges start end_ items
  range_ends : ∀ start end_ items, env.ranges start end_ items → EndsCleanly items

/-- A reliable environment serves its entity well. -/
theorem reliable_wellServed {entity : Bytes} {metadata : FileMetadata}
    (hsize : ∀ size, metadata.fileSize = some size → size.toNat = entity.length) :
    WellServed entity metadata (.reliable entity) where
  toCorrect := reliable_correct hsize
  takes := fun _ _ => rfl
  full_served := ⟨_, rfl⟩
  full_ends := by
    rintro items rfl item hitem
    exact ⟨entity, List.mem_singleton.mp hitem⟩
  range_served := fun _ _ _ _ => ⟨_, rfl⟩
  range_ends := by
    rintro start end_ items rfl item hitem
    exact ⟨_, List.mem_singleton.mp hitem⟩

section Calm

variable {platform : Platform} {env : Environment} {metadata : FileMetadata} {slots : ℕ}
  {restored : List FragmentInfo} {α : Type} {file file' : Option Bytes}
  {post : α → Option Bytes → Prop}

/-- What a task is told when nothing goes wrong is something it may be told. -/
theorem CalmTask.handles {r : TaskRequest} {x : TaskAnswer r}
    (h : CalmTask platform env metadata slots r file x file') :
    TaskHandles platform env metadata r file x file' := by
  cases r with
  | probe =>
    obtain ⟨rfl, rfl⟩ := h
    exact ⟨rfl, fun m hm => by cases hm; rfl⟩
  | validateSavePath => exact h.2
  | openStorage =>
    obtain ⟨rfl, rfl⟩ := h
    rfl
  | checkCancelled => exact h.2
  | allocate =>
    obtain ⟨rfl, rfl⟩ := h
    rfl
  | skipAllocate => exact h.2
  | verified => exact h.2
  | hashRange => exact h.2
  | executeFull =>
    obtain ⟨w, hyields, rfl⟩ := h
    exact ⟨w, hyields.mono fun _ _ _ _ hx => hx.1, rfl⟩
  | executeFragmented maxConcurrentFragments maxRetries host url storageReady fragments =>
    dsimp only [CalmTask] at h
    dsimp only [TaskHandles]
    cases hstart : startFragmented maxConcurrentFragments maxRetries host url
      (if storageReady then file else none) fragments with
    | error e =>
      rw [hstart] at h
      exact h
    | ok s₀ =>
      rw [hstart] at h
      obtain ⟨s, hrun, houtcome, hrecords, rfl⟩ := h
      exact ⟨s.1, hrun.lift Prod.fst fun _ _ hstep => hstep.step, houtcome, hrecords, rfl⟩
  | panic => exact x.elim

theorem Completes.pure {a : α} (h : post a file) :
    Completes platform env metadata slots restored (pure a) file post :=
  Ensures.pure h fun _ _ hrely h => hrely ▸ h

theorem Completes.bind {γ : Type} {mid : γ → Option Bytes → Prop} {p : TaskM γ} {f : γ → TaskM α}
    (h : Completes platform env metadata slots restored p file mid)
    (hf : ∀ a file', mid a file' →
      Completes platform env metadata slots restored (f a) file' post) :
    Completes platform env metadata slots restored (p >>= f) file post :=
  Ensures.bind h (fun _ _ _ h => h) hf

theorem Completes.request_bind {r : TaskRequest} {f : TaskAnswer r → TaskM α}
    (hanswered : Answered env slots r file) (hspares : Spares env restored r file)
    (hf : ∀ x file', CalmTask platform env metadata slots r file x file' →
      Completes platform env metadata slots restored (f x) file' post) :
    Completes platform env metadata slots restored (request r >>= f) file post := by
  refine Ensures.request_bind fun file₁ hrely => ?_
  obtain rfl : file = file₁ := hrely
  exact ⟨⟨hanswered, hspares⟩, fun x file₂ hx => ⟨trivial, hf x file₂ hx⟩⟩

/-- What the task is left with after every run that returned Ok. -/
theorem Completes.and_yields {p : TaskM α} {Q : α → Option Bytes → Prop}
    (h : Completes platform env metadata slots restored p file post)
    (hQ : ∀ a file', Yields (CalmTask platform env metadata slots) p file (.ok a) file' →
      Q a file') :
    Completes platform env metadata slots restored p file fun a file' =>
      post a file' ∧ Q a file' := by
  have hand := Prog.Safe.and_returns (Q := fun r file' => ∀ a, r = .ok a → Q a file')
    (fun _ _ hrely => hrely) h ?_
  · refine hand.mono fun r file' hr => ⟨fun a ha => ⟨hr.1.1 a ha, hr.2 a ha⟩, hr.1.2⟩
  · rintro r file' hrun a rfl
    exact hQ a file' hrun

end Calm

/-! ### The planned records -/

/-- The fragments of a plan whose indices are listed. -/
def restoredFragments (done : List ℕ) (plan : List FragmentInfo) : List FragmentInfo :=
  plan.filter fun f => f.index ∈ done

section Plan

variable {t : DownloadTask} {metadata : FileMetadata} {plan : List FragmentInfo} {done : List ℕ}
  {maxRetries : ℕ}

/-- A planned fragment stands at its index. -/
theorem DownloadTask.plannedFragments_index (hplan : t.plannedFragments metadata = some plan)
    {j : ℕ} {f : FragmentInfo} (hf : plan[j]? = some f) : f.index = j := by
  rcases Nat.eq_zero_or_pos (metadata.fileSize.getD 0).toNat with hzero | hfile
  · rw [DownloadTask.plannedFragments_empty hzero] at hplan
    obtain rfl := Option.some.inj hplan
    cases hf
  · rw [DownloadTask.plannedFragments_eq hfile] at hplan
    obtain ⟨size, -, rfl⟩ := Option.map_eq_some_iff.mp hplan
    obtain ⟨hj, -⟩ := List.getElem?_eq_some_iff.mp hf
    rw [cutInto_length] at hj
    rw [cutInto_getElem? hj] at hf
    obtain rfl := Option.some.inj hf
    rfl

/-- Without ranges a plan has at most one fragment. -/
theorem DownloadTask.plannedFragments_length (hplan : t.plannedFragments metadata = some plan)
    (hrange : metadata.supportsRange = false) : plan.length ≤ 1 := by
  rcases Nat.eq_zero_or_pos (metadata.fileSize.getD 0).toNat with hzero | hfile
  · rw [DownloadTask.plannedFragments_empty hzero] at hplan
    obtain rfl := Option.some.inj hplan
    exact Nat.zero_le 1
  · have hcut : t.cutSize metadata = some (metadata.fileSize.getD 0).toNat := by
      simp [DownloadTask.cutSize, Tachyon.cutSize, hrange]
    rw [DownloadTask.plannedFragments_eq hfile, hcut] at hplan
    obtain rfl := Option.some.inj hplan
    rw [cutInto_self hfile, List.length_singleton]

/-- A record of a resumed plan is the plan's, Done where it was restored. -/
theorem resumedRecords_fresh {j : ℕ} {frag : FragmentRecord}
    (hfrag : (resumedRecords done (freshRecords maxRetries plan))[j]? = some frag) :
    ∃ f, plan[j]? = some f ∧ frag.info.spec = f.spec ∧ frag.info.index = f.index ∧
      frag.state = if j ∈ done then .done else .pending := by
  rw [resumedRecords_getElem?, freshRecords, List.getElem?_map, Option.map_map] at hfrag
  obtain ⟨f, hf, rfl⟩ := Option.map_eq_some_iff.mp hfrag
  refine ⟨f, hf, ?_⟩
  by_cases hj : j ∈ done
  · simp [hj, FragmentRecord.new, FragmentRecord.restore, FragmentInfo.spec]
  · simp [hj, FragmentRecord.new]

/-- What `plan` leaves behind can be executed. -/
theorem planned_resumedRecords (hplan : t.plannedFragments metadata = some plan) :
    Planned (resumedRecords done (freshRecords maxRetries plan)) where
  index_eq := by
    intro j frag hfrag
    obtain ⟨f, hf, -, hindex, -⟩ := resumedRecords_fresh hfrag
    exact hindex.trans (DownloadTask.plannedFragments_index hplan hf)
  fresh := by
    intro frag hfrag
    obtain ⟨j, hj⟩ := List.getElem?_of_mem hfrag
    obtain ⟨f, -, -, -, hstate⟩ := resumedRecords_fresh hj
    by_cases hdone : j ∈ done
    · rw [if_pos hdone] at hstate
      exact Or.inr hstate
    · rw [if_neg hdone] at hstate
      exact Or.inl hstate
  separated := (planFragments_separated hplan).1.sublist
    (fragmentSpecs_resumedRecords done maxRetries plan)

/-- A fragment that is downloaded shares no byte with a restored one. -/
theorem restored_untouched (hplan : t.plannedFragments metadata = some plan)
    {spec : FragmentSpec}
    (hspec : spec ∈ fragmentSpecs (resumedRecords done (freshRecords maxRetries plan)))
    {f : FragmentInfo} (hf : f ∈ restoredFragments done plan) {op : Request}
    (hop : AsksRange spec.start spec.end_ op) : ¬Touches f op := by
  obtain ⟨frag, hfrag, hpending, rfl⟩ := mem_fragmentSpecs.mp hspec
  obtain ⟨j, hj⟩ := List.getElem?_of_mem hfrag
  obtain ⟨g, hg, hgspec, -, hstate⟩ := resumedRecords_fresh hj
  obtain ⟨hfplan, hfdone⟩ := List.mem_filter.mp hf
  obtain ⟨i, hi⟩ := List.getElem?_of_mem hfplan
  have hindex := DownloadTask.plannedFragments_index hplan hi
  have hij : i ≠ j := by
    rintro rfl
    rw [if_pos (by rw [← hindex]; exact of_decide_eq_true hfdone), hpending] at hstate
    cases hstate
  obtain ⟨hsep, -, -⟩ := planFragments_separated hplan
  obtain ⟨hilt, higet⟩ := List.getElem?_eq_some_iff.mp hi
  obtain ⟨hjlt, hjget⟩ := List.getElem?_eq_some_iff.mp hg
  have hdisjoint := (@Separated.disjoint _ hsep ⟨i, by simpa using hilt⟩ ⟨j, by simpa using hjlt⟩
    (fun heq => hij (Fin.mk.inj heq))).2
  simp only [Fin.getElem_fin, List.getElem_map, higet, hjget, ← hgspec] at hdisjoint
  cases op with
  | openRange start end_ =>
    obtain ⟨rfl, rfl⟩ := hop
    rintro ⟨hstart, hend⟩
    simp only [FragmentInfo.spec] at hdisjoint hstart hend
    omega
  | openFull => exact hop.elim
  | _ => exact id

end Plan

/-! ### Executing a plan -/

section Execute

variable {platform : Platform} {env : Environment} {metadata : FileMetadata} {slots : ℕ}
  {entity : Bytes} {t : DownloadTask} {plan : List FragmentInfo} {done : List ℕ} {content : Bytes}
  {name : String}

/-- The streams a well-behaved server delivers for a range of the entity are accepted. -/
theorem WellServed.acceptable (h : WellServed entity metadata env) {start end_ : ℕ}
    {items : List Item} (hordered : start ≤ end_) (hend : end_ < entity.length)
    (hbound : entity.length < u64Bound) (hitems : env.ranges start end_ items) :
    Acceptable start end_ items := by
  have hclean := h.range_ends start end_ items hitems
  refine ⟨hordered, by omega, hclean, ?_⟩
  rw [h.ranges start end_ items hitems hclean, List.length_take, List.length_drop]
  omega

/-- What is left to download of a plan is served and accepted. -/
theorem WellServed.specs (h : WellServed entity metadata env)
    (hplan : t.plannedFragments metadata = some plan) {spec : FragmentSpec}
    (hspec : spec ∈ fragmentSpecs (resumedRecords done (freshRecords t.config.maxRetries plan))) :
    (∃ items, env.ranges spec.start spec.end_ items) ∧
      ∀ items, env.ranges spec.start spec.end_ items → Acceptable spec.start spec.end_ items := by
  obtain ⟨hsep, hend, -⟩ := planFragments_separated hplan
  have hmem := (fragmentSpecs_resumedRecords done t.config.maxRetries plan).subset hspec
  have hordered := hsep.range spec hmem
  have hinside := hend spec hmem
  cases hsize : metadata.fileSize with
  | none =>
    rw [hsize] at hinside
    exact absurd hinside (Nat.not_lt_zero _)
  | some size =>
    have hlength := h.size size hsize
    have hbound : size.toNat < u64Bound := size.toNat_lt
    rw [hsize, Option.getD_some] at hinside
    exact ⟨h.range_served _ _ hordered (by omega), fun items hitems =>
      h.acceptable hordered (by omega) (by omega) hitems⟩

/-- The records a full download starts from: at most one, and it was not restored. -/
theorem firstOpen_resumedRecords {maxRetries : ℕ} (hresume : plan.length = 1 → 0 ∉ done)
    (hshort : plan.length ≤ 1) :
    FirstOpen (resumedRecords done (freshRecords maxRetries plan)) := by
  intro frag hfrag
  rw [Option.mem_def, List.head?_eq_getElem?] at hfrag
  obtain ⟨f, hf, -, -, hstate⟩ := resumedRecords_fresh hfrag
  obtain ⟨hlt, -⟩ := List.getElem?_eq_some_iff.mp hf
  rw [if_neg (hresume (by omega))] at hstate
  exact Or.inl hstate

theorem restoredFragments_of_short (hplan : t.plannedFragments metadata = some plan)
    (hresume : plan.length = 1 → 0 ∉ done) (hshort : plan.length ≤ 1) :
    restoredFragments done plan = [] := by
  rw [restoredFragments, List.filter_eq_nil_iff]
  intro f hf
  obtain ⟨i, hi⟩ := List.getElem?_of_mem hf
  obtain ⟨hlt, -⟩ := List.getElem?_eq_some_iff.mp hi
  have hindex := DownloadTask.plannedFragments_index hplan hi
  have hzero : f.index = 0 := by omega
  rw [hzero, decide_eq_true_eq]
  exact hresume (by omega)

/-- A full download of a plan of at most one fragment, not restored, ends with every record
Done. -/
theorem executeFull_calm (hserved : WellServed entity metadata env)
    (hlimit : metadata.fileSize = none → entity.length ≤ t.config.maxFullStreamBytes.toNat)
    (hhost : t.host = .ok name) (hopen : FirstOpen t.fragments) (hshort : t.fragments.length ≤ 1) :
    Succeeds (Calm env) (executeFullDownload metadata.fileSize t.config.maxFullStreamBytes t.host
      true t.fragments) fun records => ∀ frag ∈ records, frag.state = .done := by
  have hbytes : ∀ items, env.fulls items → deliveredBytes items = entity := fun items hitems =>
    hserved.full_clean items hitems (hserved.full_ends items hitems)
  have hsucceeds : Succeeds (Calm env) (executeFullDownload metadata.fileSize
      t.config.maxFullStreamBytes t.host true t.fragments) (FirstDone t.fragments) := by
    refine executeFullDownload_succeeds hserved.takes hhost hserved.full_served
      hserved.full_ends (fun size items hsize hitems => ?_) (fun items hnone hitems => ?_) hopen
    · rw [hbytes items hitems, hserved.size size hsize]
    · rw [hbytes items hitems]
      exact hlimit hnone
  refine hsucceeds.mono ?_
  rintro records ⟨hfirst, htail⟩ frag hfrag
  have hnil : t.fragments.tail = [] := by
    apply List.eq_nil_of_length_eq_zero
    rw [List.length_tail]
    omega
  rw [hnil] at htail
  cases records with
  | nil => cases hfrag
  | cons first rest =>
    obtain rfl : rest = [] := htail
    obtain rfl := List.mem_singleton.mp hfrag
    exact hfirst _ rfl

/-- A fragmented download of a plan is answered, asks for no restored byte, and ends with
every record Done. -/
theorem executeFragmented_calm (hserved : WellServed entity metadata env) (hslots : 0 < slots)
    (hplan : t.plannedFragments metadata = some plan)
    (hfragments : t.fragments = resumedRecords done (freshRecords t.config.maxRetries plan))
    (hhost : t.host = .ok name) (hconcurrent : t.config.maxConcurrentFragments ≠ 0) :
    let r := TaskRequest.executeFragmented t.config.maxConcurrentFragments t.config.maxRetries
      t.host t.url true t.fragments
    Answered env slots r (some content) ∧
      Spares env (restoredFragments done plan) r (some content) ∧
      ∀ x file', CalmTask platform env metadata slots r (some content) x file' →
        ∃ records, x = .ok records ∧ ∀ frag ∈ records, frag.state = .done := by
  have hplanned : Planned t.fragments := hfragments ▸ planned_resumedRecords hplan
  have hspecs : ∀ spec ∈ fragmentSpecs t.fragments,
      (∃ items, env.ranges spec.start spec.end_ items) ∧
        ∀ items, env.ranges spec.start spec.end_ items →
          Acceptable spec.start spec.end_ items := by
    rw [hfragments]
    exact fun spec hspec => hserved.specs hplan hspec
  obtain ⟨s₀, hstart, hinv⟩ := @Planned.startFragmented_calm env t.fragments _ t.config.maxRetries _
    t.url name content hplanned hconcurrent hhost hserved.takes
    (fun spec hspec => (hspecs spec hspec).1) fun spec hspec => (hspecs spec hspec).2
  have hdistinct : ∀ i j : Fin (fragmentSpecs t.fragments).length, i ≠ j →
      (fragmentSpecs t.fragments)[i].index ≠ (fragmentSpecs t.fragments)[j].index :=
    fun i j hij => (hplanned.separated.disjoint hij).1
  refine ⟨fun s₁ hs₁ => ?_, fun s₁ s hs₁ hrun i op k hi f hf => ?_, fun x file' hx => ?_⟩
  · obtain rfl := Except.ok.inj (hstart.symm.trans hs₁)
    refine (hinv.inevitable hslots hdistinct).mono fun s hs => ?_
    rw [hs.outcome]
    rfl
  · have hasks := threads_ask hs₁ hrun i
    rw [hi] at hasks
    have hspec : (fragmentSpecs t.fragments)[i] ∈ fragmentSpecs
        (resumedRecords done (freshRecords t.config.maxRetries plan)) := by
      rw [← hfragments]
      exact List.getElem_mem i.2
    exact restored_untouched hplan hspec hf hasks.1
  · dsimp only [CalmTask, if_true] at hx
    rw [if_pos rfl, hstart] at hx
    obtain ⟨s, hrun, houtcome, hrecords, -⟩ := hx
    rcases hinv.run hdistinct hrun with hrunning | hover
    · rw [hrunning.running] at houtcome
      cases houtcome
    · rw [hover.outcome] at houtcome
      cases x with
      | error e => cases houtcome
      | ok records =>
        rw [← hrecords records rfl]
        exact ⟨_, rfl, hover.done⟩

/-- A planned task whose one stream, if it is one, was not restored completes. -/
theorem execute_completes (hserved : WellServed entity metadata env) (hslots : 0 < slots)
    (hprobed : t.metadata = some metadata) (hplan : t.plannedFragments metadata = some plan)
    (hfragments : t.fragments = resumedRecords done (freshRecords t.config.maxRetries plan))
    (hopened : t.storage.isSome = true) (hhost : t.host = .ok name)
    (hconcurrent : t.config.maxConcurrentFragments ≠ 0)
    (hlimit : metadata.fileSize = none → entity.length ≤ t.config.maxFullStreamBytes.toNat)
    (hresume : plan.length = 1 → 0 ∉ done) :
    Completes platform env metadata slots (restoredFragments done plan) t.execute (some content)
      fun t' _ => t'.state = .completed ∧ (∀ frag ∈ t'.fragments, frag.state = .done) ∧
        t'.config = t.config := by
  have hcount : t.fragments.length = plan.length := by
    rw [hfragments, resumedRecords, List.length_mapIdx, freshRecords, List.length_map]
  unfold DownloadTask.execute
  simp only [hprobed, orThrow_some, ok_bind]
  by_cases hempty : metadata.fileSize = some 0
  · rw [if_pos hempty]
    have hnil : plan = [] := by
      rw [DownloadTask.plannedFragments_empty (by rw [hempty]; rfl)] at hplan
      exact (Option.some.inj hplan).symm
    apply Completes.pure
    refine ⟨rfl, fun frag hfrag => ?_, rfl⟩
    rw [List.eq_nil_of_length_eq_zero (hcount.trans (by rw [hnil]; rfl))] at hfrag
    cases hfrag
  rw [if_neg hempty, hopened]
  by_cases hfull : (!metadata.supportsRange || decide (t.fragments.length ≤ 1)) = true
  · rw [if_pos hfull]
    have hshort : plan.length ≤ 1 := by
      rcases (Bool.or_eq_true _ _).mp hfull with hrange | hfew
      · exact DownloadTask.plannedFragments_length hplan (by simpa using hrange)
      · rw [← hcount]
        exact of_decide_eq_true hfew
    have hopen : FirstOpen t.fragments := hfragments ▸ firstOpen_resumedRecords hresume hshort
    have hsucceeds := executeFull_calm hserved hlimit hhost hopen (by omega)
    refine Completes.request_bind ?_ ?_ fun x file' hx => ?_
    · exact Prog.Ends.mono hsucceeds fun _ _ => trivial
    · rw [restoredFragments_of_short hplan hresume hshort]
      exact Prog.asksOnly_of_forall (fun op f hf => absurd hf List.not_mem_nil) _
    · obtain ⟨w, hyields, -⟩ := hx
      obtain ⟨records, rfl, hdone⟩ := Prog.Ends.returns hsucceeds hyields
      exact Completes.pure ⟨rfl, hdone, rfl⟩
  · rw [if_neg hfull]
    obtain ⟨hanswered, hspares, hends⟩ := executeFragmented_calm hserved hslots hplan hfragments
      hhost hconcurrent
    refine Completes.request_bind hanswered hspares fun x file' hx => ?_
    obtain ⟨records, rfl, hdone⟩ := hends x file' hx
    exact Completes.pure ⟨rfl, hdone, rfl⟩

end Execute

/-! ### Whole runs -/

section Run

variable {platform : Platform} {env : Environment} {metadata : FileMetadata} {slots : ℕ}
  {entity : Bytes} {t : DownloadTask} {old : Option Bytes} {name : String}

theorem probe_completes (hcached : ∀ m, t.metadata = some m → m = metadata) :
    Completes platform env metadata slots [] t.probe old fun t' file' =>
      t' = { t with metadata := some metadata } ∧ file' = old := by
  unfold DownloadTask.probe
  cases hmetadata : t.metadata with
  | some m =>
    obtain rfl := hcached m hmetadata
    exact Completes.pure ⟨by rw [← hmetadata], rfl⟩
  | none =>
    refine Completes.request_bind trivial trivial ?_
    rintro x file' ⟨rfl, rfl⟩
    exact Completes.pure ⟨rfl, rfl⟩

theorem initStorage_completes (hclosed : t.storage = none) (hprobed : t.metadata = some metadata) :
    Completes platform env metadata slots [] t.initStorage old fun t' file' =>
      (∃ path, t' = { t with storage := some path }) ∧ file' = some (old.getD []) := by
  unfold DownloadTask.initStorage
  simp only [hclosed, Option.isSome_none, Bool.false_eq_true, if_false, hprobed, orThrow_some,
    ok_bind]
  refine Completes.request_bind trivial trivial ?_
  rintro x file' ⟨⟨path, rfl⟩, rfl⟩
  refine Completes.request_bind trivial trivial ?_
  rintro x file' ⟨rfl, rfl⟩
  exact Completes.pure ⟨⟨path, rfl⟩, rfl⟩

theorem prepareStorage_completes {content : Bytes} (hopened : t.storage.isSome = true)
    (hprobed : t.metadata = some metadata) :
    Completes platform env metadata slots [] t.prepareStorage (some content) fun _ file' =>
      ∃ content', file' = some content' := by
  obtain ⟨path, hpath⟩ := Option.isSome_iff_exists.mp hopened
  unfold DownloadTask.prepareStorage
  simp only [hprobed, hpath, orThrow_some, ok_bind]
  split
  · refine Completes.request_bind trivial trivial ?_
    rintro x file' ⟨rfl, rfl⟩
    exact Completes.pure ⟨_, rfl⟩
  · refine Completes.request_bind trivial trivial ?_
    rintro x file' ⟨rfl, rfl⟩
    exact Completes.pure ⟨_, rfl⟩

/-- With the default scheduler configuration every file can be cut. -/
theorem cutSize_default (bandwidthBps fileSize : ℕ) (supportsRange : Bool)
    (suggestedFragSize : Option ℕ) :
    ∃ size, cutSize bandwidthBps .default fileSize supportsRange suggestedFragSize =
      some size := by
  have hcompute : ∃ size, computeFragmentSize fileSize bandwidthBps .default = some size := by
    unfold computeFragmentSize
    split
    · exact ⟨0, rfl⟩
    · dsimp only
      rw [if_neg (by decide)]
      exact ⟨_, rfl⟩
  have hfrag : ∃ size, fragSize bandwidthBps .default fileSize suggestedFragSize = some size := by
    unfold fragSize
    split
    · split
      · exact ⟨_, rfl⟩
      · exact hcompute
    · exact hcompute
  obtain ⟨size, hsize⟩ := hfrag
  unfold cutSize
  split
  · exact ⟨_, rfl⟩
  · rw [hsize]
    dsimp only [Option.bind_eq_bind, Option.bind_some]
    split <;> exact ⟨_, rfl⟩

theorem plannedFragments_default (hdefault : t.schedulerConfig = .default) :
    ∃ plan, t.plannedFragments metadata = some plan := by
  rcases Nat.eq_zero_or_pos (metadata.fileSize.getD 0).toNat with hzero | hfile
  · exact ⟨[], DownloadTask.plannedFragments_empty hzero⟩
  · rw [DownloadTask.plannedFragments_eq hfile, DownloadTask.cutSize, hdefault]
    obtain ⟨size, hsize⟩ := cutSize_default t.bandwidthBps (metadata.fileSize.getD 0).toNat
      metadata.supportsRange _
    exact ⟨_, by rw [hsize]; rfl⟩

/-- A run of a fresh task with checksums off ends in Completed. -/
theorem runInner_completes (hserved : WellServed entity metadata env) (hslots : 0 < slots)
    (hverify : t.config.verifyChecksum = false) (hclosed : t.storage = none)
    (hcached : ∀ m, t.metadata = some m → m = metadata) (hresume : t.completedFragments = [])
    (hhost : t.host = .ok name) (hdefault : t.schedulerConfig = .default)
    (hconcurrent : t.config.maxConcurrentFragments ≠ 0)
    (hlimit : metadata.fileSize = none → entity.length ≤ t.config.maxFullStreamBytes.toNat) :
    Completes platform env metadata slots [] t.runInner old fun t' _ => t'.state = .completed := by
  unfold DownloadTask.runInner
  refine (probe_completes hcached).bind ?_
  rintro t₁ file₁ ⟨ht₁, rfl⟩
  refine (initStorage_completes (by rw [ht₁]; exact hclosed) (by rw [ht₁])).bind ?_
  rintro t₂ file₂ ⟨⟨path, ht₂⟩, rfl⟩
  refine Completes.request_bind trivial trivial ?_
  rintro x file₃ ⟨rfl, rfl⟩
  obtain ⟨plan, hplan⟩ := @plannedFragments_default metadata t₂ (by rw [ht₂, ht₁]; exact hdefault)
  have hprobed₂ : t₂.metadata = some metadata := by rw [ht₂, ht₁]
  have hnone : t₂.completedFragments = [] := by
    rw [ht₂, ht₁]
    exact hresume
  rw [DownloadTask.plan_eq hprobed₂, hplan, hnone]
  let t₃ : DownloadTask := { t₂ with
    fragments := resumedRecords [] (freshRecords t₂.config.maxRetries plan)
    completedFragments := [] }
  have hconfig : t₃.config = t.config := by
    change t₂.config = t.config
    rw [ht₂, ht₁]
  have hopened : t₃.storage.isSome = true := by
    change t₂.storage.isSome = true
    rw [ht₂]
    rfl
  have hprepare := @prepareStorage_completes platform env metadata slots t₃ (file₁.getD []) hopened
    hprobed₂
  refine hprepare.bind ?_
  rintro _ file₄ ⟨content, rfl⟩
  have hexecute := @execute_completes platform env metadata slots entity t₃ plan [] content name
    hserved hslots hprobed₂ hplan rfl hopened (by rw [← hhost]; change t₂.host = _; rw [ht₂, ht₁])
    (by rw [hconfig]; exact hconcurrent) (by rw [hconfig]; exact hlimit) (fun _ => List.not_mem_nil)
  have hnothing : restoredFragments [] plan = [] := by simp [restoredFragments]
  rw [hnothing] at hexecute
  refine hexecute.bind ?_
  rintro t₄ file₅ ⟨-, -, hconfig'⟩
  have hskipped : t₄.verify = pure () := by
    unfold DownloadTask.verify
    rw [hconfig', hconfig, if_pos (by rw [hverify]; rfl)]
  rw [hskipped, ok_bind]
  refine Completes.request_bind trivial trivial ?_
  rintro x file₆ ⟨rfl, rfl⟩
  exact Completes.pure rfl

/-- A fresh task with the default configuration, checksums off, whose save path holds no
file longer than the entity: every run returns Ok in state Completed, and the file is the
entity. -/
theorem well_behaved_run_completes {recommended : ℕ} {downloadDir : String}
    (hserved : WellServed entity metadata env)
    (hconfig : t.config = { DownloadConfig.default downloadDir with verifyChecksum := false })
    (hdefault : t.schedulerConfig = .default) (hhost : t.host = .ok name)
    (hclosed : t.storage = none) (hcached : ∀ m, t.metadata = some m → m = metadata)
    (hresume : t.completedFragments = [])
    (hlimit : metadata.fileSize = none → entity.length ≤ defaultMaxFullStreamBytes.toNat)
    (hold : (old.getD []).length ≤ entity.length) :
    Completes platform env metadata
      (effectiveConcurrency recommended t.config.maxConcurrentFragments) [] t.runInner old
      fun t' final => t'.state = .completed ∧ final = some entity := by
  have hverify : t.config.verifyChecksum = false := by rw [hconfig]
  have hconcurrent : t.config.maxConcurrentFragments ≠ 0 := by
    rw [hconfig]
    exact Nat.succ_ne_zero 15
  refine Completes.and_yields (runInner_completes hserved (effectiveConcurrency_pos _ _) hverify
    hclosed hcached hresume hhost hdefault hconcurrent (by rw [hconfig]; exact hlimit)) ?_
  intro t' final hrun
  have hrun' := Prog.Returns.mono hrun fun _ _ _ _ hx => CalmTask.handles hx
  exact (output_file_iff hserved.toCorrect hverify hclosed hcached hresume hrun').mpr (Or.inl hold)

end Run

/-- The one byte is downloaded where no file was. -/
theorem well_behaved_run_completes_one_byte :
    Completes .linux (.reliable [7]) oneByteMetadata
      (effectiveConcurrency 4 oneByteTask.config.maxConcurrentFragments) [] oneByteTask.runInner
      none fun t' final => t'.state = .completed ∧ final = some [7] := by
  have hserved : WellServed [7] oneByteMetadata (.reliable [7]) :=
    reliable_wellServed (by rintro size ⟨⟩; rfl)
  exact well_behaved_run_completes hserved rfl rfl rfl rfl (by rintro m ⟨⟩) rfl (by rintro ⟨⟩)
    (Nat.zero_le 1)

/-- The task with the default configuration as it is. -/
def defaultTask : DownloadTask := { oneByteTask with config := .default "dir" }

/-- The default configuration asks for checksums, and a planned fragment has none to compare
with: the byte is stored and the run fails. -/
theorem default_run_fails :
    Yields (CalmTask .linux (.reliable [7]) oneByteMetadata 1) defaultTask.runInner none
        (.error .noExpectedChecksum) (some [7]) ∧
      ¬Completes .linux (.reliable [7]) oneByteMetadata 1 [] defaultTask.runInner none
        fun t' final => t'.state = .completed ∧ final = some [7] := by
  have hfull : Yields (Calm (.reliable [7])) (executeFullDownload (some 1)
      defaultMaxFullStreamBytes (.ok "host") true [.new ⟨0, 0, 0, 1, 0, none⟩ 3])
      (.initial [0]) (.ok [oneByteRecord]) ((World.initial [0]).write 0 [7]) :=
    Prog.exec_returns (reliable_calm [7]) _ _
  have hexecute : CalmTask .linux (.reliable [7]) oneByteMetadata 1
      (.executeFull (some 1) defaultMaxFullStreamBytes (.ok "host") true
        [.new ⟨0, 0, 0, 1, 0, none⟩ 3])
      (some [0]) (.ok [oneByteRecord]) (some [7]) := ⟨_, hfull, rfl⟩
  have hallocate : CalmTask .linux (.reliable [7]) oneByteMetadata 1 (.allocate 1) (some [])
      (.finished (.ok ())) (some [0]) := ⟨rfl, rfl⟩
  have hrun : Yields (CalmTask .linux (.reliable [7]) oneByteMetadata 1) defaultTask.runInner none
      (.error .noExpectedChecksum) (some [7]) := by
    refine .call (x := .finished (.ok oneByteMetadata)) ⟨rfl, rfl⟩ ?_
    refine .call (x := .ok "dir/file") ⟨⟨_, rfl⟩, rfl⟩ ?_
    refine .call (x := .ok ()) ⟨rfl, rfl⟩ (.call (x := .ok ()) ⟨rfl, rfl⟩ ?_)
    exact .call hallocate (.call hexecute (.done _ _))
  exact ⟨hrun, fun h => (Prog.Safe.returns h hrun).2 _ rfl⟩

end Tachyon
