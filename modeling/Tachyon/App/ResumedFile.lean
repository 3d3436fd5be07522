import Tachyon.App.Durability
import Tachyon.Engine.Completion
import Tachyon.Engine.TrueTransfer

/-!
# The output file over the runs of a task

The runs of a task follow each other, in one process or over several, on one file, and each
restores the indices it finds stored. This module runs their downloads next to the application.
Where the server keeps to one entity and every run cuts the file alike, a stored index stands
for bytes that are in the file, whatever was interrupted, retried or downloaded twice, and a run
that returns Ok leaves the entity there.
-/

namespace Tachyon

open EventRuns Resumption ByteFile

/-- A task with its output file, a missing one being empty. -/
structure Resumable where
  app : System
  file : Bytes
  /-- The download of the run under way, and the messages of it that the reader has received. -/
  current : Option Transfer
  received : ℕ
  /-- The downloads of earlier runs in this process. Their aborted tasks may still write. -/
  earlier : List Transfer

/-- A new run leaves the download of the last one behind, a new process all of them. -/
def Resumable.advance (c : Resumable) (app : System) : Event → Resumable
  | .start _ _ _ => ⟨app, c.file, none, 0, c.current.toList ++ c.earlier⟩
  | .restart _ => ⟨app, c.file, none, 0, []⟩
  | _ => { c with app := app }

/-- The run under way may return Ok: its download has, or there is nothing to download. -/
def Resumable.Returned (c : Resumable) : Prop :=
  (∃ t, c.current = some t ∧ t.Succeeded) ∨
    ∃ r metadata, c.app.runner = some r ∧ r.phase = .planned ∧
      r.download.metadata = some metadata ∧ metadata.fileSize = some 0

/-- One step of the application, or of a download of the process. -/
inductive ResumableStep (platform : Platform) (env : Environment) :
    Resumable → Resumable → Prop where
  /-- `prepare_storage` fails or is cancelled, after it has had its effect. -/
  | allocate {c : Resumable} {r : Runner} {metadata : FileMetadata} (hidle : c.current = none)
      (hrunner : c.app.runner = some r) (hphase : r.phase = .planned)
      (hmetadata : r.download.metadata = some metadata) :
      ResumableStep platform env c { c with file := prepared platform metadata c.file }
  /-- `prepare_storage` succeeds and `execute` begins. -/
  | begin {c : Resumable} {r : Runner} {metadata : FileMetadata} {transfer : Transfer}
      (hidle : c.current = none) (hrunner : c.app.runner = some r) (hphase : r.phase = .planned)
      (hmetadata : r.download.metadata = some metadata) (hsize : metadata.fileSize ≠ some 0)
      (h : r.download.begin metadata (prepared platform metadata c.file) = .ok transfer) :
      ResumableStep platform env c { c with
        file := prepared platform metadata c.file
        current := some transfer
        received := 0 }
  | current {c : Resumable} {t t' : Transfer} (hcurrent : c.current = some t)
      (h : TransferStep env (t.onFile c.file) t') :
      ResumableStep platform env c { c with file := t'.world.file, current := some t' }
  | earlier {c : Resumable} {before after : List Transfer} {t t' : Transfer}
      (hearlier : c.earlier = before ++ t :: after) (h : TransferStep env (t.onFile c.file) t') :
      ResumableStep platform env c { c with
        file := t'.world.file
        earlier := before ++ t' :: after }
  /-- The chunk reader receives the next message of the channel. -/
  | receive {c : Resumable} {t : Transfer} {progress : FragmentProgress} {app : System}
      (hcurrent : c.current = some t) (hnext : t.world.sent[c.received]? = some progress)
      (h : c.app.step (.receive progress) = some app) :
      ResumableStep platform env c { c with app := app, received := c.received + 1 }
  | app {c : Resumable} {e : Event} {app : System} (hother : ∀ progress, e ≠ .receive progress)
      (hreturned : e = .finish (.ok ()) → c.Returned) (h : c.app.step e = some app) :
      ResumableStep platform env c (c.advance app e)

/-- A run that plans does so for the entity's size, and cuts the file by this plan. -/
def System.PlansAlike (entity : Bytes) (plan : List FragmentInfo) (s : System) : Prop :=
  ∀ r ∈ s.runner, r.phase = .planned → ∀ metadata ∈ r.download.metadata,
    (∀ size ∈ metadata.fileSize, size.toNat = entity.length) ∧
      r.download.plannedFragments metadata = some plan

instance (entity : Bytes) (plan : List FragmentInfo) (s : System) :
    Decidable (s.PlansAlike entity plan) :=
  -- not by going through every size there is
  have (metadata : FileMetadata) :
      Decidable (∀ size ∈ metadata.fileSize, size.toNat = entity.length) :=
    Option.decidableForallMem _
  have (r : Runner) : Decidable (∀ metadata ∈ r.download.metadata,
      (∀ size ∈ metadata.fileSize, size.toNat = entity.length) ∧
        r.download.plannedFragments metadata = some plan) :=
    Option.decidableForallMem _
  (Option.decidableForallMem s.runner : Decidable (∀ r ∈ s.runner, r.phase = .planned →
    ∀ metadata ∈ r.download.metadata,
      (∀ size ∈ metadata.fileSize, size.toNat = entity.length) ∧
        r.download.plannedFragments metadata = some plan))

/-- An index that the application may store, or that its run has restored. -/
def System.Holds (s : System) (i : ℕ) : Prop :=
  s.Knows i ∨ ∃ r, s.runner = some r ∧ i ∈ r.download.completedFragments

/-- A planned run has the records of its plan, with what it has restored Done. -/
def System.PlansRestored (s : System) : Prop :=
  ∀ r, s.runner = some r → r.phase = .planned → ∃ metadata plan,
    r.download.metadata = some metadata ∧ r.download.plannedFragments metadata = some plan ∧
      r.download.fragments = resumedRecords r.download.completedFragments
        (freshRecords r.download.config.maxRetries plan)

section Application

variable {s s' : System} {e : Event} {i : ℕ}

/-- Before its chunk reader is there, a run brings the application no index. -/
theorem System.Knows.of_early_step (hstep : s.step e = some s') (hearly : e.sinceSpawn = false)
    (h : s'.Knows i) : s.Knows i := by
  rcases h with hstored | ⟨p, hp, loaded, hloaded, hi⟩ | ⟨r', hr', hi⟩
  · by_cases hwrites : ∃ save, s.Writes e save
    · obtain ⟨save, hwrites⟩ := hwrites
      rw [System.indices_of_writes hstep hwrites] at hstored
      cases hwrites with
      | metadata => cases hstored
      | checkpoint | persist => cases hearly
    · rw [System.indices_of_quiet hstep (not_exists.mp hwrites)] at hstored
      exact Or.inl hstored
  · obtain hold | ⟨-, hle⟩ := System.step_persists hstep hp hloaded
    · exact Or.inr (Or.inl ⟨p, hold, loaded, hloaded, hi⟩)
    · exact Or.inl (hle hi)
  · obtain ⟨-, hnone, -⟩ | ⟨r, hr, hsame | ⟨progress, rfl, -⟩⟩ := System.step_reader hstep hr'
    · rw [hnone] at hi
      cases hi
    · rw [hsame] at hi
      exact Or.inr (Or.inr ⟨r, hr, hi⟩)
    · cases hearly

/-- In any step the application learns of an index from a progress message alone. -/
theorem System.Holds.of_step (hstep : s.step e = some s') (h : s'.Holds i) :
    s.Holds i ∨ ∃ progress, e = .receive progress ∧ progress.fragmentIndex = i ∧
      progress.completed = true := by
  rcases h with hknown | ⟨r', hr', hi⟩
  · cases hsince : e.sinceSpawn with
    | true => exact (System.Knows.of_step hstep hsince hknown).imp_left Or.inl
    | false => exact Or.inl (Or.inl (System.Knows.of_early_step hstep hsince hknown))
  · left
    obtain hr | ⟨-, -, hnone, -⟩ | ⟨r, hr, hadvances⟩ := System.step_runner hstep hr'
    · exact Or.inr ⟨r', hr, hi⟩
    · rw [hnone] at hi
      cases hi
    · cases hadvances with
      | inject hphase hrestored =>
        rename_i restored
        cases hsnapshot : restored with
        | none =>
          rw [hsnapshot] at hi
          cases hi
        | some snapshot =>
          rw [hsnapshot] at hi
          have hstored := hrestored snapshot hsnapshot
          refine Or.inl (Or.inl ?_)
          unfold System.indices
          rwa [hstored]
      | plan hphase hplan =>
        obtain ⟨metadata, plan, -, -, rfl⟩ := DownloadTask.plan_ok hplan
        exact Or.inr ⟨r, hr, hi⟩
      | probe | saveMetadata | spawn | finish => exact Or.inr ⟨r, hr, hi⟩

theorem System.PlansRestored.step (h : s.PlansRestored) (hstep : s.step e = some s') :
    s'.PlansRestored := by
  intro r' hr' hphase'
  obtain hr | ⟨hstarted, -⟩ | ⟨r, hr, hadvances⟩ := System.step_runner hstep hr'
  · exact h r' hr hphase'
  · rw [hstarted] at hphase'
    cases hphase'
  · cases hadvances with
    | plan hphase hplan =>
      obtain ⟨metadata, plan, hmetadata, hplanned, rfl⟩ := DownloadTask.plan_ok hplan
      exact ⟨metadata, plan, hmetadata, hplanned, rfl⟩
    | inject | probe | saveMetadata | spawn | finish => cases hphase'

end Application

/-! ### What a run has left to download -/

/-- Every byte is still to be fetched, in a fragment of the plan, or is already there. -/
def Transfer.Covers (entity : Bytes) (plan : List FragmentInfo) (file : Bytes) : Transfer → Prop
  | @fragmented specs _ =>
    (∀ spec ∈ specs, ∃ f, plan[spec.index]? = some f ∧ f.spec = spec) ∧
      ∀ x < entity.length, (∃ spec ∈ specs, spec.start ≤ x ∧ x ≤ spec.end_) ∨
        file[x]? = entity[x]?
  | full _ _ => True

section Plan

variable {platform : Platform} {env : Environment} {entity file : Bytes} {t : DownloadTask}
  {metadata : FileMetadata} {plan : List FragmentInfo}

/-- Preparing a file for the entity takes nothing away. -/
theorem prepared_improves (hsize : ∀ size ∈ metadata.fileSize, size.toNat = entity.length) :
    Improves entity file (prepared platform metadata file) := by
  unfold prepared
  cases hfile : metadata.fileSize with
  | none => exact Improves.refl entity file
  | some size =>
    rw [Option.getD_some, hsize size hfile]
    split
    · cases platform with
      | linux => exact reserve_improves
      | other => exact setLen_improves
    · exact Improves.refl entity file

/-- The fragments of a plan for the entity reach every byte of it. -/
theorem exists_planned_fragment (hsize : ∀ size ∈ metadata.fileSize, size.toNat = entity.length)
    (hplan : t.plannedFragments metadata = some plan) (hsome : plan ≠ []) {x : ℕ}
    (hx : x < entity.length) : ∃ f ∈ plan, f.start ≤ x ∧ x ≤ f.end_ := by
  cases hfile : metadata.fileSize with
  | none =>
    rw [DownloadTask.plannedFragments_empty (by rw [hfile]; rfl)] at hplan
    exact absurd (Option.some.inj hplan).symm hsome
  | some size =>
    obtain ⟨hsep, -, hcover⟩ := planFragments_separated hplan
    rw [hfile, Option.getD_some, hsize size hfile] at hcover
    obtain ⟨f, hf, hlo, hhi⟩ := hcover x hx
    have hlength := planFragments_size hplan hf
    have hrange := hsep.range f.spec (List.mem_map_of_mem hf)
    simp only [FragmentInfo.spec] at hrange
    exact ⟨f, hf, hlo, by omega⟩

/-- What a task begins to download covers what it has not restored. -/
theorem DownloadTask.begin_covers {transfer : Transfer}
    (hsize : ∀ size ∈ metadata.fileSize, size.toNat = entity.length)
    (hplan : t.plannedFragments metadata = some plan)
    (hfragments : t.fragments = resumedRecords t.completedFragments
      (freshRecords t.config.maxRetries plan))
    (hrestored : ∀ i ∈ t.completedFragments, ∀ f, plan[i]? = some f →
      AgreesOn entity f.start (f.end_ + 1) file)
    (h : t.begin metadata file = .ok transfer) : transfer.Covers entity plan file := by
  unfold DownloadTask.begin at h
  split at h
  · obtain rfl := Except.ok.inj h
    trivial
  · rename_i hmany
    cases hstart : startFragmented t.config.maxConcurrentFragments t.config.maxRetries t.host t.url
        (some file) t.fragments with
    | error e =>
      rw [hstart] at h
      cases h
    | ok s =>
      rw [hstart] at h
      obtain rfl := Except.ok.inj h
      have hsome : plan ≠ [] := by
        rintro rfl
        rw [hfragments] at hmany
        simp [resumedRecords, freshRecords] at hmany
      rw [Transfer.Covers, hfragments]
      constructor
      · intro spec hspec
        obtain ⟨frag, hfrag, -, rfl⟩ := mem_fragmentSpecs.mp hspec
        obtain ⟨j, hj⟩ := List.getElem?_of_mem hfrag
        obtain ⟨f, hf, hspec, hindex, -⟩ := resumedRecords_fresh hj
        rw [hspec]
        refine ⟨f, ?_, rfl⟩
        rw [FragmentInfo.spec, DownloadTask.plannedFragments_index hplan hf]
        exact hf
      · intro x hx
        obtain ⟨f, hf, hlo, hhi⟩ := exists_planned_fragment hsize hplan hsome hx
        obtain ⟨i, hi⟩ := List.getElem?_of_mem hf
        by_cases hdone : i ∈ t.completedFragments
        · exact Or.inr (hrestored i hdone f hi x hlo (by omega))
        · left
          refine ⟨f.spec, mem_fragmentSpecs.mpr ?_, hlo, hhi⟩
          have hrecord : (resumedRecords t.completedFragments
              (freshRecords t.config.maxRetries plan))[i]? =
                some (FragmentRecord.new f t.config.maxRetries) := by
            rw [resumedRecords_getElem?, freshRecords, List.getElem?_map, hi]
            simp [hdone]
          exact ⟨_, List.mem_of_getElem? hrecord, rfl, rfl⟩

theorem Transfer.Covers.improves {transfer : Transfer} {file' : Bytes}
    (h : transfer.Covers entity plan file) (himproves : Improves entity file file') :
    transfer.Covers entity plan file' := by
  cases transfer with
  | full => trivial
  | fragmented => exact ⟨h.1, fun x hx => (h.2 x hx).imp_right (himproves x)⟩

/-- A step of a download changes nothing of what it is there for. -/
theorem Transfer.Covers.step {transfer transfer' : Transfer}
    (h : (transfer.onFile file).Covers entity plan file)
    (hstep : TransferStep env (transfer.onFile file) transfer') :
    transfer'.Covers entity plan file := by
  generalize transfer.onFile file = t at h hstep
  cases hstep with
  | fragmented => exact h
  | full => trivial

theorem Transfer.covers_onFile {transfer : Transfer} {file' : Bytes} :
    (transfer.onFile file').Covers entity plan file ↔ transfer.Covers entity plan file := by
  cases transfer <;> rfl

/-- A message of a sound download reports a fragment of the plan that is in the file. -/
theorem Transfer.Covers.reported {transfer : Transfer} (h : transfer.Covers entity plan file)
    (hsound : (transfer.onFile file).Sound env entity) {message : FragmentProgress}
    (hsent : message ∈ transfer.world.sent) (hcompleted : message.completed = true)
    {f : FragmentInfo} (hf : plan[message.fragmentIndex]? = some f) :
    AgreesOn entity f.start (f.end_ + 1) file := by
  cases transfer with
  | fragmented download =>
    obtain ⟨spec, hspec, hindex, hagrees⟩ := hsound.2.2.2 message hsent hcompleted
    obtain ⟨g, hg, rfl⟩ := h.1 spec hspec
    rw [← hindex, hf] at hg
    obtain rfl := Option.some.inj hg
    exact hagrees
  | full rest w =>
    have hnone := hsound.2 message hsent
    rw [hcompleted] at hnone
    cases hnone

/-- A sound download that returned Ok has the entity in the file. -/
theorem Transfer.Covers.succeeded {transfer : Transfer} (h : transfer.Covers entity plan file)
    (hsound : (transfer.onFile file).Sound env entity) (hok : transfer.Succeeded) :
    AgreesOn entity 0 entity.length file := by
  cases transfer with
  | fragmented download =>
    intro x _ hx
    rcases h.2 x hx with ⟨spec, hspec, hlo, hhi⟩ | hthere
    · exact hsound.fragmented_done hok hspec x hlo (by omega)
    · exact hthere
  | full rest w =>
    obtain ⟨records, rfl⟩ := hok
    exact hsound.full_done

end Plan

/-! ### Every run -/

/-- What holds after any steps on a file that was `file₀` at first. -/
structure ResumableInvariant (env : Environment) (entity : Bytes) (plan : List FragmentInfo)
    (file₀ : Bytes) (c : Resumable) : Prop where
  alike : c.app.PlansAlike entity plan
  restored : c.app.PlansRestored
  improved : Improves entity file₀ c.file
  held : ∀ i, c.app.Holds i → ∀ f, plan[i]? = some f → AgreesOn entity f.start (f.end_ + 1) c.file
  current : ∀ t, c.current = some t →
    (t.onFile c.file).Sound env entity ∧ t.Covers entity plan c.file
  earlier : ∀ t ∈ c.earlier, (t.onFile c.file).Sound env entity

section Invariant

variable {platform : Platform} {env : Environment} {entity file₀ file' : Bytes}
  {plan : List FragmentInfo} {c c' : Resumable}

/-- A change that takes nothing away keeps all of it. -/
theorem ResumableInvariant.onFile (h : ResumableInvariant env entity plan file₀ c)
    (himproves : Improves entity c.file file') :
    ResumableInvariant env entity plan file₀ { c with file := file' } where
  alike := h.alike
  restored := h.restored
  improved := h.improved.trans himproves
  held i hi f hf := (h.held i hi f hf).improves himproves
  current t ht := ⟨(h.current t ht).1.onFile himproves, (h.current t ht).2.improves himproves⟩
  earlier t ht := (h.earlier t ht).onFile himproves

/-- What a run of the plan has in its hands. -/
theorem ResumableInvariant.planned (h : ResumableInvariant env entity plan file₀ c) {r : Runner}
    {metadata : FileMetadata} (hrunner : c.app.runner = some r) (hphase : r.phase = .planned)
    (hmetadata : r.download.metadata = some metadata) :
    (∀ size ∈ metadata.fileSize, size.toNat = entity.length) ∧
      r.download.plannedFragments metadata = some plan ∧
      r.download.fragments = resumedRecords r.download.completedFragments
        (freshRecords r.download.config.maxRetries plan) := by
  obtain ⟨hsize, hplan⟩ := h.alike r hrunner hphase metadata hmetadata
  obtain ⟨metadata', plan', hmetadata', hplan', hfragments⟩ := h.restored r hrunner hphase
  obtain rfl := Option.some.inj (hmetadata.symm.trans hmetadata')
  obtain rfl := Option.some.inj (hplan.symm.trans hplan')
  exact ⟨hsize, hplan, hfragments⟩

/-- A download begins where the bytes it leaves out are there. -/
theorem ResumableInvariant.begin (h : ResumableInvariant env entity plan file₀ c)
    (hserves : ServesOne entity env) {r : Runner} {metadata : FileMetadata} {transfer : Transfer}
    (hrunner : c.app.runner = some r) (hphase : r.phase = .planned)
    (hmetadata : r.download.metadata = some metadata)
    (hbegin : r.download.begin metadata (prepared platform metadata c.file) = .ok transfer) :
    ResumableInvariant env entity plan file₀ { c with
      file := prepared platform metadata c.file
      current := some transfer
      received := 0 } := by
  obtain ⟨hsize, hplan, hfragments⟩ := h.planned hrunner hphase hmetadata
  have hprepared := h.onFile (@prepared_improves platform entity c.file metadata hsize)
  obtain ⟨hsound, hworld⟩ := DownloadTask.begin_sound hserves hbegin
  refine ⟨h.alike, h.restored, hprepared.improved, hprepared.held, fun t ht => ?_,
    hprepared.earlier⟩
  obtain rfl := Option.some.inj ht
  constructor
  · have hfile : transfer.world.file = prepared platform metadata c.file := by rw [hworld]; rfl
    change (transfer.onFile (prepared platform metadata c.file)).Sound env entity
    rwa [← hfile, Transfer.onFile_self]
  · refine DownloadTask.begin_covers hsize hplan hfragments (fun i hi f hf => ?_) hbegin
    exact hprepared.held i (Or.inr ⟨r, hrunner, hi⟩) f hf

/-- What the application does on its own. -/
theorem ResumableInvariant.app (h : ResumableInvariant env entity plan file₀ c) {e : Event}
    {app : System} (hother : ∀ progress, e ≠ .receive progress) (hstep : c.app.step e = some app)
    (halike : (c.advance app e).app.PlansAlike entity plan) :
    ResumableInvariant env entity plan file₀ (c.advance app e) := by
  have hrestored := h.restored.step hstep
  have hheld (i : ℕ) (hi : app.Holds i) (f : FragmentInfo) (hf : plan[i]? = some f) :
      AgreesOn entity f.start (f.end_ + 1) c.file := by
    obtain hold | ⟨progress, he, -⟩ := hi.of_step hstep
    · exact h.held i hold f hf
    · exact absurd he (hother progress)
  cases e with
  | start =>
    refine ⟨halike, hrestored, h.improved, hheld, (by rintro t ⟨⟩), fun t ht => ?_⟩
    rcases List.mem_append.mp ht with hcurrent | hearlier
    · exact (h.current t (Option.mem_toList.mp hcurrent)).1
    · exact h.earlier t hearlier
  | restart =>
    exact ⟨halike, hrestored, h.improved, hheld, (by rintro t ⟨⟩),
      fun t ht => absurd ht List.not_mem_nil⟩
  | _ => exact ⟨halike, hrestored, h.improved, hheld, h.current, h.earlier⟩

theorem ResumableInvariant.step (h : ResumableInvariant env entity plan file₀ c)
    (hserves : ServesOne entity env) (hstep : ResumableStep platform env c c')
    (halike : c'.app.PlansAlike entity plan) : ResumableInvariant env entity plan file₀ c' := by
  cases hstep with
  | allocate hidle hrunner hphase hmetadata =>
    obtain ⟨hsize, -⟩ := h.planned hrunner hphase hmetadata
    exact h.onFile (prepared_improves hsize)
  | begin hidle hrunner hphase hmetadata _ hbegin =>
    exact h.begin hserves hrunner hphase hmetadata hbegin
  | current hcurrent htransfer =>
    rename_i t t'
    obtain ⟨hsound, hcovers⟩ := h.current t hcurrent
    obtain ⟨hsound', himproves⟩ := hsound.step htransfer
    rw [Transfer.onFile_world] at himproves
    have hothers := h.onFile himproves
    refine ⟨h.alike, h.restored, hothers.improved, hothers.held, fun t₁ ht₁ => ?_,
      hothers.earlier⟩
    obtain rfl := Option.some.inj ht₁
    have hkept := Transfer.Covers.step (Transfer.covers_onFile.mpr hcovers) htransfer
    exact ⟨by rw [Transfer.onFile_self]; exact hsound', hkept.improves himproves⟩
  | earlier hearlier htransfer =>
    rename_i before after t t'
    have hmem : t ∈ c.earlier := by
      rw [hearlier]
      exact List.mem_append_right before List.mem_cons_self
    obtain ⟨hsound', himproves⟩ := (h.earlier t hmem).step htransfer
    rw [Transfer.onFile_world] at himproves
    have hothers := h.onFile himproves
    refine ⟨h.alike, h.restored, hothers.improved, hothers.held, hothers.current,
      fun t₁ ht₁ => ?_⟩
    rcases List.mem_append.mp ht₁ with hbefore | hrest
    · exact hothers.earlier t₁ (by rw [hearlier]; exact List.mem_append_left _ hbefore)
    · rcases List.mem_cons.mp hrest with rfl | hafter
      · rw [Transfer.onFile_self]
        exact hsound'
      · refine hothers.earlier t₁ ?_
        rw [hearlier]
        exact List.mem_append_right before (List.mem_cons_of_mem t hafter)
  | receive hcurrent hnext happ =>
    rename_i t progress app
    refine ⟨halike, h.restored.step happ, h.improved, fun i hi f hf => ?_, h.current, h.earlier⟩
    obtain hold | ⟨progress', he, rfl, hcompleted⟩ := hi.of_step happ
    · exact h.held i hold f hf
    · obtain rfl := Event.receive.inj he
      obtain ⟨hsound, hcovers⟩ := h.current t hcurrent
      exact hcovers.reported hsound (List.mem_of_getElem? hnext) hcompleted hf
  | app hother _ happ => exact h.app hother happ halike

/-- A run that may return Ok has the entity in the file. -/
theorem ResumableInvariant.returned (h : ResumableInvariant env entity plan file₀ c)
    (hok : c.Returned) : AgreesOn entity 0 entity.length c.file := by
  rcases hok with ⟨t, ht, hok⟩ | ⟨r, metadata, hrunner, hphase, hmetadata, hsize⟩
  · obtain ⟨hsound, hcovers⟩ := h.current t ht
    exact hcovers.succeeded hsound hok
  · obtain ⟨hlength, -⟩ := h.planned hrunner hphase hmetadata
    exact agreesOn_of_le (Nat.le_of_eq (hlength 0 hsize).symm)

end Invariant

/-- Runs of a task on one file: each plans alike. -/
def ResumedRuns (platform : Platform) (env : Environment) (entity : Bytes)
    (plan : List FragmentInfo) : Resumable → Resumable → Prop :=
  Relation.ReflTransGen fun c c' => ResumableStep platform env c c' ∧ c'.app.PlansAlike entity plan

theorem ResumableInvariant.run {platform : Platform} {env : Environment} {entity file₀ : Bytes}
    {plan : List FragmentInfo} {c c' : Resumable}
    (h : ResumableInvariant env entity plan file₀ c) (hserves : ServesOne entity env)
    (hruns : ResumedRuns platform env entity plan c c') :
    ResumableInvariant env entity plan file₀ c' := by
  induction hruns with
  | refl => exact h
  | tail _ hstep ih => exact ih.step hserves hstep.1 hstep.2

theorem reliable_servesOne {entity : Bytes} (hbounded : entity.length < u64Bound) :
    ServesOne entity (.reliable entity) where
  bounded := hbounded
  whole _ _ _ hn := Except.ok.inj hn
  fulls := by
    rintro items rfl
    rw [deliveredBytes, deliveredBytes, List.append_nil]
  full_clean := by
    rintro items rfl -
    rw [deliveredBytes, deliveredBytes, List.append_nil]
  ranges := by
    rintro start end_ items rfl
    rw [deliveredBytes, deliveredBytes, List.append_nil]
    exact List.take_prefix _ _

/-- The events of the application between downloads. -/
def Event.idle : Event → Bool
  | .receive _ | .finish _ => false
  | _ => true

section Runs

variable {platform : Platform} {env : Environment} {entity file : Bytes}
  {plan : List FragmentInfo} {c : Resumable}

/-- Steps of the application while nothing is downloaded. -/
theorem ResumedRuns.idle {s s' : System} (events : List Event)
    (hidle : ∀ e ∈ events, e.idle = true)
    (halike : EachStep System.step (fun s e => ∀ s' ∈ s.step e, s'.PlansAlike entity plan) s events)
    (hrun : run System.step s events = some s') :
    ResumedRuns platform env entity plan ⟨s, file, none, 0, []⟩ ⟨s', file, none, 0, []⟩ := by
  induction events generalizing s with
  | nil =>
    obtain rfl := Option.some.inj hrun
    exact .refl
  | cons e events ih =>
    obtain ⟨s₁, hs₁, hrun⟩ := run_cons.mp hrun
    obtain ⟨hnext, hrest⟩ := halike s₁ hs₁
    have hevent := hidle e List.mem_cons_self
    have hstep : ResumableStep platform env ⟨s, file, none, 0, []⟩
        (Resumable.advance ⟨s, file, none, 0, []⟩ s₁ e) := by
      refine .app (fun progress he => ?_) (fun he => ?_) hs₁
      · rw [he] at hevent
        cases hevent
      · rw [he] at hevent
        cases hevent
    have hadvance : Resumable.advance ⟨s, file, none, 0, []⟩ s₁ e = ⟨s₁, file, none, 0, []⟩ := by
      cases e <;> rfl
    rw [hadvance] at hstep
    exact .head ⟨hstep, hnext s₁ hs₁⟩
      (ih (fun e he => hidle e (List.mem_cons_of_mem _ he)) hrest hrun)

/-- Steps of the download of the run under way. -/
theorem ResumedRuns.download {specs : List FragmentSpec} {s s' : Fragmented specs}
    (halike : c.app.PlansAlike entity plan)
    (h : Relation.ReflTransGen (FragmentedStep env) s s') :
    ResumedRuns platform env entity plan
      { c with file := s.world.file, current := some (.fragmented s) }
      { c with file := s'.world.file, current := some (.fragmented s') } := by
  let embed (d : Fragmented specs) : Resumable :=
    { c with file := d.world.file, current := some (.fragmented d) }
  refine h.lift embed fun d d' hstep => ⟨?_, halike⟩
  exact @ResumableStep.current platform env (embed d) (.fragmented d) (.fragmented d') rfl
    (.fragmented hstep)

end Runs

/-- The download of three bytes that leaves out what is restored. -/
def threeByteTransfer (done : List ℕ) (file : Bytes) : Fragmented (fragmentSpecs
    (resumedRecords done threeByteRecords)) where
  fragments := (resumedRecords done threeByteRecords).map fun frag =>
    if frag.state = .pending then { frag with state := .downloading } else frag
  threads i :=
    let spec := (fragmentSpecs (resumedRecords done threeByteRecords))[i]
    fragmentTask "url" 3 spec.index spec.start spec.end_
  live _ := true
  world := .initial file
  state := .downloading
  outcome := none

/-- The first fragment has been checkpointed. -/
def threeByteStored : System := (run System.step threeByteApp
  [.receive ⟨0, true, 2⟩, .checkpointLoad true, .checkpointSave true]).get rfl

/-- The next process has planned. -/
def threeByteAgain : System := (run System.step threeByteStored
  (.restart true :: plannedRun 2 threeBytes)).get rfl

/-- The first process downloads and checkpoints one fragment and ends. -/
theorem threeByte_interrupted :
    ResumedRuns .linux (.reliable [10, 20, 30]) [10, 20, 30] (cutInto 3 2)
      ⟨created, [], none, 0, []⟩ ⟨threeByteAgain, [10, 20, 0], none, 0, []⟩ := by
  have hplanned : ResumedRuns .linux (.reliable [10, 20, 30]) [10, 20, 30] (cutInto 3 2)
      ⟨created, [], none, 0, []⟩ ⟨threeByteApp, [], none, 0, []⟩ :=
    ResumedRuns.idle (plannedRun 2 threeBytes) (by decide +kernel) (by decide +kernel) rfl
  have hbegun := hplanned.tail ⟨@ResumableStep.begin .linux (.reliable [10, 20, 30]) _ _ _
    (.fragmented (threeByteTransfer [] [0, 0, 0])) rfl rfl rfl rfl (by decide +kernel) rfl,
    by decide +kernel⟩
  have hexec := Fragmented.exec_run (reliable_handles [10, 20, 30])
    (threeByteTransfer [] [0, 0, 0]) ⟨0, by decide +kernel⟩
  have halike : threeByteApp.PlansAlike [10, 20, 30] (cutInto 3 2) := by decide +kernel
  have hfirst := hbegun.trans (@ResumedRuns.download .linux _ _ _ ⟨threeByteApp, [], none, 0, []⟩
    _ _ _ halike hexec)
  have hreceived := hfirst.tail ⟨.receive rfl (show _ = some ⟨0, true, 2⟩ by decide +kernel) rfl,
    by decide +kernel⟩
  have hloaded := hreceived.tail ⟨@ResumableStep.app .linux (.reliable [10, 20, 30]) _
    (.checkpointLoad true) _ (by rintro _ ⟨⟩) (by rintro ⟨⟩) rfl, by decide +kernel⟩
  have hsaved := hloaded.tail ⟨@ResumableStep.app .linux (.reliable [10, 20, 30]) _
    (.checkpointSave true) threeByteStored (by rintro _ ⟨⟩) (by rintro ⟨⟩) rfl, by decide +kernel⟩
  have hended := hsaved.tail ⟨@ResumableStep.app .linux (.reliable [10, 20, 30]) _
    (.restart true) _ (by rintro _ ⟨⟩) (by rintro ⟨⟩) rfl, by decide +kernel⟩
  exact hended.trans
    (ResumedRuns.idle (plannedRun 2 threeBytes) (by decide +kernel) (by decide +kernel) rfl)

end Tachyon
