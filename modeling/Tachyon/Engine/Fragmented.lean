import Tachyon.Engine.Fragment
import Tachyon.Engine.FragmentContract
import Tachyon.Engine.Planner

/-!
# Downloading all fragments

`execute_fragmented_download` spawns one task for every Pending fragment, joins
them as they end and syncs the storage once the last one has been joined. A
state of the run holds the tasks, the records and the shared world; a step is an
answered request of one task, a join, or the sync.
-/

namespace Tachyon

open Resumption ByteFile

/-- What a fragment task is spawned with. -/
structure FragmentSpec where
  index : ℕ
  start : ℕ
  end_ : ℕ
  deriving DecidableEq, Repr

/-- Index and range of a planned fragment. -/
def FragmentInfo.spec (info : FragmentInfo) : FragmentSpec := ⟨info.index, info.start, info.end_⟩

/-- `fragment_specs`: the fragments that are still Pending. -/
def fragmentSpecs (fragments : List FragmentRecord) : List FragmentSpec :=
  (fragments.filter fun frag => frag.state = .pending).map fun frag => frag.info.spec

/-- The record a task is spawned for is started. -/
def startFragment (fragments : List FragmentRecord) (spec : FragmentSpec) :
    DownloadResult (List FragmentRecord) :=
  match fragments[spec.index]? with
  | none => .error (.config "分片索引越界")
  | some frag => do
    let frag' ← frag.startDownload
    .ok (fragments.set spec.index frag')

/-- A fragmented download under way. `live` are the tasks not yet joined. -/
structure Fragmented (specs : List FragmentSpec) where
  fragments : List FragmentRecord
  threads : Fin specs.length → Prog Answer FragmentTaskResult
  live : Fin specs.length → Bool
  world : World
  state : DownloadState
  outcome : Option (DownloadResult Unit)

/-- `execute_fragmented_download` up to the joins: the checks, and a task for every Pending
fragment. A spawned task may run at once; its own steps say when it does. -/
def startFragmented (maxConcurrentFragments maxRetries : ℕ) (host : DownloadResult String)
    (url : String) (storage : Option Bytes) (fragments : List FragmentRecord) :
    DownloadResult (Fragmented (fragmentSpecs fragments)) :=
  if maxConcurrentFragments = 0 then .error (.config "max_concurrent_fragments 不能为 0")
  else do
    let file ← storage.elim (.error (.config "存储未初始化")) .ok
    let _ ← host
    let started ← (fragmentSpecs fragments).foldlM startFragment fragments
    .ok {
      fragments := started
      threads := fun i =>
        let spec := (fragmentSpecs fragments)[i]
        fragmentTask url maxRetries spec.index spec.start spec.end_
      live := fun _ => true
      world := .initial file
      state := .downloading
      outcome := none }

/-- The body of the join loop for a task that has ended. `none` is a task still running,
or the panic on an index outside the records. -/
def Fragmented.join {specs : List FragmentSpec} (s : Fragmented specs) (i : Fin specs.length) :
    Option (Fragmented specs) :=
  match s.threads i with
  | .call _ _ => none
  | .done (.error (failedIndex, e)) =>
    some { s with
      fragments := s.fragments.modify failedIndex FragmentRecord.forceFail
      state := .failed
      outcome := some (.error e) }
  | .done (.ok (index, downloaded, duration)) => do
    let frag ← s.fragments[index]?
    match frag.completeDownloadFast downloaded duration with
    | .error e => some { s with outcome := some (.error e) }
    | .ok frag' =>
      some { s with
        fragments := s.fragments.set index frag'
        live := Function.update s.live i false }

/-- What follows the join loop: `storage.sync()` and, if it succeeds, the end of the run. -/
def Fragmented.sync {specs : List FragmentSpec} (s : Fragmented specs) :
    DownloadResult Unit → Fragmented specs
  | .error e => { s with outcome := some (.error e) }
  | .ok () =>
    { s with
      world := { s.world with unsynced := [] }
      state := .completed
      outcome := some (.ok ()) }

/-- One step of a fragmented download. Aborted tasks may still go on for a while. -/
inductive FragmentedStep {specs : List FragmentSpec} (env : Environment) :
    Fragmented specs → Fragmented specs → Prop where
  /-- A request of a task is answered. -/
  | task {s : Fragmented specs} {threads : Fin specs.length → Prog Answer FragmentTaskResult}
      {world : World} (h : PoolStep (Handles env) (s.threads, s.world) (threads, world)) :
      FragmentedStep env s { s with threads := threads, world := world }
  /-- A task that has ended is joined. -/
  | join {s s' : Fragmented specs} {i : Fin specs.length} (hrunning : s.outcome = none)
      (hlive : s.live i = true) (h : s.join i = some s') : FragmentedStep env s s'
  /-- A task that panicked is joined; the others are aborted. -/
  | panicked {s : Fragmented specs} {error : String} (hrunning : s.outcome = none) :
      FragmentedStep env s { s with
        state := .failed
        outcome := some (.error (.other s!"分片任务 panic: {error}")) }
  /-- All tasks are joined and the storage answers the sync. -/
  | sync {s : Fragmented specs} {result : DownloadResult Unit} (hrunning : s.outcome = none)
      (hall : ∀ i, s.live i = false) : FragmentedStep env s (s.sync result)

/-- A joined task either succeeded and its record is completed, or ends the run with an error. -/
theorem Fragmented.join_cases {specs : List FragmentSpec} {s s' : Fragmented specs}
    {i : Fin specs.length} (h : s.join i = some s') :
    (∃ index downloaded duration fragments,
      s.threads i = .done (.ok (index, downloaded, duration)) ∧
      s' = { s with fragments := fragments, live := Function.update s.live i false }) ∨
    ∃ fragments state e,
      s' = { s with fragments := fragments, state := state, outcome := some (.error e) } := by
  unfold Fragmented.join at h
  split at h
  · cases h
  · rename_i failedIndex e hi
    cases h
    exact Or.inr ⟨_, _, e, rfl⟩
  · rename_i index downloaded duration hi
    obtain ⟨frag, -, h⟩ := Option.bind_eq_some_iff.mp h
    split at h
    · cases h
      exact Or.inr ⟨_, _, _, rfl⟩
    · cases h
      exact Or.inl ⟨index, downloaded, duration, _, hi, rfl⟩

section Drive

variable {env : Environment} {specs : List FragmentSpec}
  {h : (op : Request) → World → Answer op × World}

/-- One task is answered by a fixed handler until it ends. -/
def Fragmented.exec (h : (op : Request) → World → Answer op × World) (s : Fragmented specs)
    (i : Fin specs.length) : Fragmented specs :=
  { s with
    threads := Function.update s.threads i (.done ((s.threads i).exec h s.world).1)
    world := ((s.threads i).exec h s.world).2 }

/-- The tasks run to their ends one after the other, each joined when it has ended. -/
def Fragmented.drive (h : (op : Request) → World → Answer op × World) (s : Fragmented specs) :
    List (Fin specs.length) → Option (Fragmented specs)
  | [] => some s
  | i :: is => do
    guard (s.outcome.isNone ∧ s.live i = true)
    let s' ← (s.exec h i).join i
    s'.drive h is

theorem Fragmented.exec_run (hh : ∀ op w, Handles env op w (h op w).1 (h op w).2)
    (s : Fragmented specs) (i : Fin specs.length) :
    Relation.ReflTransGen (FragmentedStep env) s (s.exec h i) := by
  have hpool := pool_exec hh s.threads i s.world
  let embed : (Fin specs.length → Prog Answer FragmentTaskResult) × World → Fragmented specs :=
    fun p => { s with threads := p.1, world := p.2 }
  exact hpool.lift embed fun _ _ hstep => FragmentedStep.task (s := embed _) hstep

/-- Driving the tasks one after the other is a run. -/
theorem Fragmented.drive_run (hh : ∀ op w, Handles env op w (h op w).1 (h op w).2)
    {s s' : Fragmented specs} {is : List (Fin specs.length)} (hdrive : s.drive h is = some s') :
    Relation.ReflTransGen (FragmentedStep env) s s' := by
  induction is generalizing s with
  | nil =>
    obtain rfl := Option.some.inj hdrive
    exact .refl
  | cons i is ih =>
    unfold Fragmented.drive at hdrive
    obtain ⟨_, hguard, hdrive⟩ := Option.bind_eq_some_iff.mp hdrive
    obtain ⟨s₁, hjoin, hrest⟩ := Option.bind_eq_some_iff.mp hdrive
    have hopen : s.outcome = none ∧ s.live i = true := by simpa [guard] using hguard
    have hstep : FragmentedStep env (s.exec h i) s₁ := .join hopen.1 hopen.2 hjoin
    exact ((s.exec_run hh i).tail hstep).trans (ih hrest)

end Drive

/-! ### Separate ranges -/

/-- The fragments have ranges, one behind the other, and indices of their own. -/
structure Separated (specs : List FragmentSpec) : Prop where
  range : ∀ spec ∈ specs, spec.start ≤ spec.end_
  ordered : specs.Pairwise fun f g => f.index ≠ g.index ∧ f.end_ < g.start

theorem Separated.sublist {specs specs' : List FragmentSpec} (h : Separated specs)
    (hsub : specs'.Sublist specs) : Separated specs' :=
  ⟨fun spec hspec => h.range spec (hsub.subset hspec), h.ordered.sublist hsub⟩

/-- Two fragments of a separated list have different indices and disjoint ranges. -/
theorem Separated.disjoint {specs : List FragmentSpec} (h : Separated specs)
    {i j : Fin specs.length} (hij : i ≠ j) :
    specs[i].index ≠ specs[j].index ∧
      (specs[i].end_ < specs[j].start ∨ specs[j].end_ < specs[i].start) := by
  have hpair := List.pairwise_iff_getElem.mp h.ordered
  rcases Nat.lt_or_gt_of_ne (fun heq => hij (Fin.ext heq)) with hlt | hgt
  · obtain ⟨hindex, hrange⟩ := hpair i j i.2 j.2 hlt
    exact ⟨hindex, Or.inl hrange⟩
  · obtain ⟨hindex, hrange⟩ := hpair j i j.2 i.2 hgt
    exact ⟨fun heq => hindex heq.symm, Or.inr hrange⟩

/-- What one fragment task does is what the others may count on. -/
theorem Separated.leftAlone {specs : List FragmentSpec} (h : Separated specs)
    {i j : Fin specs.length} (hij : i ≠ j) {w w' : World}
    (hguar : KeepsToRange specs[i].index specs[i].start specs[i].end_ w w') :
    LeftAlone specs[j].index specs[j].start specs[j].end_ w w' := by
  obtain ⟨hindex, hrange⟩ := h.disjoint hij
  have hi := h.range specs[i] (List.getElem_mem i.2)
  have hj := h.range specs[j] (List.getElem_mem j.2)
  refine ⟨fun x b hlo hhi hb => hguar.bytes.1 x b (by omega) hb, hguar.served _ _ (by omega), ?_⟩
  exact hguar.completed _ (fun heq => hindex heq.symm)

/-- The fragments of a cut file are separated. -/
theorem cutInto_separated {fileSize size : ℕ} (hsize : 0 < size) :
    Separated ((cutInto fileSize size).map FragmentInfo.spec) := by
  constructor
  · intro spec hspec
    obtain ⟨f, hf, rfl⟩ := List.mem_map.mp hspec
    obtain ⟨i, hi, rfl⟩ := mem_cutInto.mp hf
    have hlt := (lt_divCeil_iff hsize).mp hi
    obtain ⟨hstart, hend, -⟩ := fragmentAt_bounds hlt hsize
    simp only [FragmentInfo.spec]
    omega
  · simp only [cutInto, List.map_map, List.pairwise_map]
    refine List.Pairwise.imp_of_mem ?_ List.pairwise_lt_range
    intro i j hi hj hij
    rw [List.mem_range] at hi hj
    have hlt := (lt_divCeil_iff hsize).mp hi
    obtain ⟨-, hend, -⟩ := fragmentAt_bounds hlt hsize
    have hle : (i + 1) * size ≤ j * size := Nat.mul_le_mul_right size hij
    rw [Nat.add_mul, Nat.one_mul] at hle
    simp only [Function.comp, FragmentInfo.spec]
    refine ⟨fun heq => Nat.ne_of_lt hij heq, ?_⟩
    have hstart : (fragmentAt fileSize size j).start = j * size := rfl
    omega

/-! ### What every run preserves -/

/-- What holds in every state of a run on a file that was `file₀` at its start: every task
keeps its contract, joined tasks succeeded, reported completions are deliveries, and
from `fileSize` on the file is as it was. -/
structure FragmentedInvariant {specs : List FragmentSpec} (env : Environment) (fileSize : ℕ)
    (file₀ : Bytes) (s : Fragmented specs) : Prop where
  safe : ∀ i : Fin specs.length, (s.threads i).Safe (Handles env)
    (fragmentContract specs[i].index specs[i].start specs[i].end_)
    (TaskOutcome specs[i].index specs[i].start specs[i].end_) s.world
  joined : ∀ i, s.live i = false → ∃ result, s.threads i = .done (.ok result)
  all_joined : s.outcome = some (.ok ()) → ∀ i, s.live i = false
  honest : ∀ i : Fin specs.length, Honest specs[i].index specs[i].start specs[i].end_ s.world
  tail : ∀ x, fileSize ≤ x → s.world.file[x]? = file₀[x]?

section Invariant

variable {env : Environment} {specs : List FragmentSpec} {fileSize : ℕ} {file₀ : Bytes}
  {s s' : Fragmented specs}

/-- A step of one task keeps the reports of all tasks honest. -/
theorem honest_of_keepsToRange (hsep : Separated specs) {i : Fin specs.length} {w w' : World}
    (hguar : KeepsToRange specs[i].index specs[i].start specs[i].end_ w w')
    (h : ∀ j : Fin specs.length, Honest specs[j].index specs[j].start specs[j].end_ w)
    (j : Fin specs.length) : Honest specs[j].index specs[j].start specs[j].end_ w' := by
  by_cases hij : i = j
  · subst hij
    exact hguar.delivered
  · intro hc
    have hrely := hsep.leftAlone hij hguar
    have hle := hsep.range specs[j] (List.getElem_mem j.2)
    exact Delivered.stable hle w w' hrely (h j (hrely.completed hc))

theorem FragmentedInvariant.task (hsep : Separated specs)
    (hend : ∀ spec ∈ specs, spec.end_ < fileSize) (h : FragmentedInvariant env fileSize file₀ s)
    {threads : Fin specs.length → Prog Answer FragmentTaskResult} {world : World}
    (hstep : PoolStep (Handles env) (s.threads, s.world) (threads, world)) :
    FragmentedInvariant env fileSize file₀ { s with threads := threads, world := world } := by
  obtain ⟨⟨i, hguar⟩, hsafe⟩ := pool_step_safe
    (fun i j w w' hij hguar => hsep.leftAlone hij hguar) h.safe hstep
  refine ⟨hsafe, ?_, h.all_joined, fun j => honest_of_keepsToRange hsep hguar h.honest j, ?_⟩
  · intro j hlive
    obtain ⟨result, hresult⟩ := h.joined j hlive
    cases hstep with
    | call hi hx =>
      rename_i k op f x
      by_cases hjk : j = k
      · subst hjk
        rw [hresult] at hi
        cases hi
      · exact ⟨result, by rw [← hresult]; exact Function.update_of_ne hjk _ _⟩
  · intro x hx
    have hlt := hend specs[i] (List.getElem_mem i.2)
    rw [hguar.bytes.2 x (by omega)]
    exact h.tail x hx

/-- A run that ends with an error has changed neither its tasks nor the world. -/
theorem FragmentedInvariant.ended (h : FragmentedInvariant env fileSize file₀ s)
    (fragments : List FragmentRecord) (state : DownloadState) (e : DownloadError) :
    FragmentedInvariant env fileSize file₀
      { s with fragments := fragments, state := state, outcome := some (.error e) } := by
  refine ⟨h.safe, h.joined, fun hok => ?_, h.honest, h.tail⟩
  cases hok

/-- Every step keeps the invariant. -/
theorem FragmentedInvariant.step (hsep : Separated specs)
    (hend : ∀ spec ∈ specs, spec.end_ < fileSize) (h : FragmentedInvariant env fileSize file₀ s)
    (hstep : FragmentedStep env s s') : FragmentedInvariant env fileSize file₀ s' := by
  cases hstep with
  | task htask => exact h.task hsep hend htask
  | join hrunning hlive hjoin =>
    rename_i i
    rcases Fragmented.join_cases hjoin with
      ⟨index, downloaded, duration, fragments, hdone, rfl⟩ | ⟨fragments, state, e, rfl⟩
    · refine ⟨h.safe, fun j hj => ?_, fun hok => ?_, h.honest, h.tail⟩
      · by_cases hji : j = i
        · subst hji
          exact ⟨_, hdone⟩
        · have hlive' : Function.update s.live i false j = s.live j := Function.update_of_ne hji _ _
          exact h.joined j (hlive'.symm.trans hj)
      · rw [show s.outcome = some (.ok ()) from hok] at hrunning
        cases hrunning
    · exact h.ended fragments state e
  | panicked => exact h.ended _ _ _
  | sync hrunning hall =>
    rename_i result
    cases result with
    | error e => exact h.ended _ _ e
    | ok _ =>
      refine ⟨fun i => ?_, h.joined, fun _ => hall, fun i hc => ?_, h.tail⟩
      · exact (h.safe i).rely ⟨fun _ _ _ _ hb => hb, rfl, fun hc => hc⟩
      · have hdelivered := h.honest i hc
        exact ⟨hdelivered.clean, hdelivered.length_eq, hdelivered.stored⟩

theorem FragmentedInvariant.run (hsep : Separated specs)
    (hend : ∀ spec ∈ specs, spec.end_ < fileSize) (h : FragmentedInvariant env fileSize file₀ s)
    (hrun : Relation.ReflTransGen (FragmentedStep env) s s') :
    FragmentedInvariant env fileSize file₀ s' := by
  induction hrun with
  | refl => exact h
  | tail _ hstep ih => exact ih.step hsep hend hstep

/-- A run opens only streams the server may deliver. -/
theorem servedAllowed_run (h : ServedAllowed env s.world)
    (hrun : Relation.ReflTransGen (FragmentedStep env) s s') : ServedAllowed env s'.world := by
  induction hrun with
  | refl => exact h
  | tail _ hstep ih =>
    cases hstep with
    | task htask =>
      cases htask with
      | call _ hx => exact ih.handles hx
    | join _ _ hjoin =>
      rcases Fragmented.join_cases hjoin with ⟨_, _, _, _, -, rfl⟩ | ⟨_, _, _, rfl⟩ <;> exact ih
    | panicked => exact ih
    | sync =>
      rename_i result _ _
      cases result <;> exact ih

/-- A task about to write does so inside its range. -/
theorem FragmentedInvariant.writesWithin (h : FragmentedInvariant env fileSize file₀ s)
    {i : Fin specs.length} {op : Request} {k : Answer op → Prog Answer FragmentTaskResult}
    (hi : s.threads i = .call op k) : WritesWithin specs[i].start specs[i].end_ op := by
  have hsafe := h.safe i
  rw [hi] at hsafe
  exact hsafe.issue_of_call

/-- A successful run has delivered every fragment it was started for. -/
theorem FragmentedInvariant.delivered (h : FragmentedInvariant env fileSize file₀ s)
    (hok : s.outcome = some (.ok ())) (i : Fin specs.length) :
    Delivered specs[i].start specs[i].end_ s.world := by
  obtain ⟨⟨index, downloaded, duration⟩, hdone⟩ := h.joined i (h.all_joined hok i)
  have hsafe := h.safe i
  rw [hdone] at hsafe
  exact hsafe.post_of_done.2.2

end Invariant

/-- A run starts with its tasks at their beginning, on the file as it is. -/
theorem startFragmented_ok {maxConcurrentFragments maxRetries : ℕ} {host : DownloadResult String}
    {url : String} {storage : Option Bytes} {fragments : List FragmentRecord}
    {s : Fragmented (fragmentSpecs fragments)}
    (h : startFragmented maxConcurrentFragments maxRetries host url storage fragments = .ok s) :
    ∃ file, storage = some file ∧ s.world = .initial file ∧ s.outcome = none ∧
      (∀ i, s.live i = true) ∧
      ∀ i : Fin (fragmentSpecs fragments).length, s.threads i =
        fragmentTask url maxRetries (fragmentSpecs fragments)[i].index
          (fragmentSpecs fragments)[i].start (fragmentSpecs fragments)[i].end_ := by
  unfold startFragmented at h
  split at h
  · cases h
  · cases storage with
    | none => cases h
    | some file =>
    cases host with
    | error e => cases h
    | ok name =>
    cases hstarted : (fragmentSpecs fragments).foldlM startFragment fragments with
    | error e =>
      simp only [hstarted] at h
      cases h
    | ok started =>
      simp only [hstarted] at h
      cases h
      exact ⟨file, rfl, rfl, rfl, fun _ => rfl, fun _ => rfl⟩

/-- The first state of a run keeps the invariant. -/
theorem startFragmented_invariant {maxConcurrentFragments maxRetries : ℕ}
    {host : DownloadResult String} {url : String} {file : Bytes} {fragments : List FragmentRecord}
    {s : Fragmented (fragmentSpecs fragments)} (env : Environment) (fileSize : ℕ)
    (hsep : Separated (fragmentSpecs fragments))
    (h : startFragmented maxConcurrentFragments maxRetries host url (some file) fragments = .ok s) :
    FragmentedInvariant env fileSize file s := by
  obtain ⟨file', hfile, hworld, houtcome, hlive, hthreads⟩ := startFragmented_ok h
  obtain rfl := Option.some.inj hfile
  have hnone : ∀ index, ¬Completed index s.world := by
    rw [hworld]
    rintro index ⟨message, hmessage, -⟩
    cases hmessage
  refine ⟨fun i => ?_, fun i hi => ?_, fun hok => ?_, fun i hc => ?_, fun x _ => ?_⟩
  · rw [hthreads i]
    exact fragmentTask_safe (hsep.range _ (List.getElem_mem i.2)) (hnone _)
  · rw [hlive i] at hi
    cases hi
  · rw [houtcome] at hok
    cases hok
  · exact absurd hc (hnone _)
  · rw [hworld]
    rfl

end Tachyon
