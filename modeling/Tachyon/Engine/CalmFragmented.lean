import Tachyon.Engine.Calm
import Tachyon.Engine.Fragmented

/-!
# Fragmented downloads that nothing interferes with

The fragment tasks share a semaphore and are joined as they end. Where every request is
answered as hoped, every interleaving comes to the end of the download: a task that
waits for a slot waits for one that is given back.
-/

namespace Tachyon

open Resumption

/-- The request that takes a slot of the semaphore. -/
def takesSlot : Request → Bool
  | .acquireSlot => true
  | _ => false

/-- The request that gives a slot back. -/
def givesSlot : Request → Bool
  | .releaseSlot => true
  | _ => false

/-- A stream is asked for over this range only. -/
def AsksRange (start end_ : ℕ) : Request → Prop
  | .openRange s e => s = start ∧ e = end_
  | .openFull => False
  | _ => True

/-- What one attempt asks for: streams of its range, and no slots. -/
def AttemptAsks (start end_ : ℕ) (r : Request) : Prop :=
  AsksRange start end_ r ∧ takesSlot r = false ∧ givesSlot r = false

section Asks

variable {α : Type} {start end_ index : ℕ} {allowed : Request → Prop}

theorem asksOnly_orThrow (x : Option α) (e : DownloadError) :
    AsksOnly allowed (orThrow x e : Engine α) := by
  cases x <;> exact trivial

theorem asksOnly_fromResult (x : DownloadResult α) :
    AsksOnly allowed (fromResult x : Engine α) := by
  cases x <;> exact trivial

theorem asksOnly_fromSelected (x : Selected α) : AsksOnly allowed (fromSelected x) := by
  cases x with
  | finished result => exact asksOnly_fromResult result
  | interrupted control => exact (asksOnly_fromResult control).bind fun _ => .throw _

theorem writeAllLoop_asks (fuel pos totalWritten : ℕ) (batch : Bytes) :
    AsksOnly (AttemptAsks start end_) (writeAllLoop fuel pos totalWritten batch) := by
  induction fuel generalizing pos totalWritten batch with
  | zero => exact .pure _
  | succ fuel ih =>
    unfold writeAllLoop
    split
    · exact .pure _
    · refine (AsksOnly.request ⟨trivial, rfl, rfl⟩).bind fun x => ?_
      refine (asksOnly_fromSelected x).bind fun written => ?_
      split
      · exact .throw _
      · refine (asksOnly_orThrow _ _).bind fun _ => (asksOnly_orThrow _ _).bind fun _ => ?_
        exact (asksOnly_orThrow _ _).bind fun _ => ih _ _ _

theorem flushBatch_asks (overflowText : String) (expectedLen pos totalWritten : ℕ)
    (batch : Bytes) : AsksOnly (AttemptAsks start end_)
      (flushBatch overflowText index expectedLen pos totalWritten batch) := by
  refine (asksOnly_orThrow _ _).bind fun _ => (asksOnly_orThrow _ _).bind fun _ => ?_
  split
  · exact .throw _
  · exact writeAllLoop_asks _ _ _ _

theorem reportProgress_asks (chunkCount totalWritten : ℕ) :
    AsksOnly (AttemptAsks start end_) (reportProgress index chunkCount totalWritten) := by
  unfold reportProgress
  split
  · exact (AsksOnly.request ⟨trivial, rfl, rfl⟩).bind fun _ => .pure _
  · exact .pure _

theorem chunkLoop_asks (expectedLen : ℕ) (items : List Item) (c : FragmentCursor) :
    AsksOnly (AttemptAsks start end_) (chunkLoop index expectedLen items c) := by
  induction items generalizing c with
  | nil => exact .pure _
  | cons item items ih =>
    refine (AsksOnly.request ⟨trivial, rfl, rfl⟩).bind fun _ => ?_
    refine (asksOnly_fromResult _).bind fun _ => (asksOnly_fromResult _).bind fun chunk => ?_
    dsimp only
    split
    · refine (flushBatch_asks _ _ _ _ _).bind fun _ => (asksOnly_orThrow _ _).bind fun _ => ?_
      refine (AsksOnly.request ⟨trivial, rfl, rfl⟩).bind fun _ => ?_
      exact (reportProgress_asks _ _).bind fun _ => ih _
    · exact ih _

theorem flushRest_asks (expectedLen : ℕ) (c : FragmentCursor) :
    AsksOnly (AttemptAsks start end_) (flushRest index expectedLen c) := by
  unfold flushRest
  split
  · exact .pure _
  · refine (flushBatch_asks _ _ _ _ _).bind fun _ => ?_
    exact (AsksOnly.request ⟨trivial, rfl, rfl⟩).bind fun _ => .pure _

/-- An attempt opens streams of its own range only. -/
theorem downloadSingleFragment_asks :
    AsksOnly (AttemptAsks start end_) (downloadSingleFragment index start end_) := by
  refine (AsksOnly.request ⟨trivial, rfl, rfl⟩).bind fun _ => ?_
  refine (asksOnly_fromResult _).bind fun _ => ?_
  refine (AsksOnly.request ⟨trivial, rfl, rfl⟩).bind fun _ => ?_
  refine (asksOnly_fromResult _).bind fun _ => ?_
  refine (AsksOnly.request ⟨⟨rfl, rfl⟩, rfl, rfl⟩).bind fun _ => ?_
  refine (asksOnly_fromSelected _).bind fun _ => (asksOnly_orThrow _ _).bind fun _ => ?_
  refine (chunkLoop_asks _ _ _).bind fun _ => (flushRest_asks _ _).bind fun _ => ?_
  split
  · exact .throw _
  · refine (AsksOnly.request ⟨trivial, rfl, rfl⟩).bind fun _ => ?_
    exact (AsksOnly.request ⟨trivial, rfl, rfl⟩).bind fun _ => .pure _

variable {fragUrl : String} {maxRetries : ℕ}

/-- A fragment task opens streams of its own range only. -/
theorem retryLoop_asks (fuel attempt : ℕ) : (retryLoop fragUrl maxRetries index start end_ fuel
    attempt).AsksOnly (AsksRange start end_) := by
  induction fuel generalizing attempt with
  | zero => exact trivial
  | succ fuel ih =>
    refine Prog.AsksOnly.ask_bind trivial fun allowed => ?_
    split
    · split
      · exact trivial
      · exact Prog.AsksOnly.ask_bind trivial fun _ => ih _
    · refine Prog.AsksOnly.ask_bind trivial fun slot => ?_
      cases slot with
      | error e => exact trivial
      | ok _ =>
        refine (downloadSingleFragment_asks.mono fun _ h => h.1).bind fun result => ?_
        refine Prog.AsksOnly.ask_bind trivial fun _ => ?_
        cases result with
        | ok r => exact Prog.AsksOnly.ask_bind trivial fun _ => trivial
        | error e =>
          dsimp only
          split
          · exact Prog.AsksOnly.ask_bind trivial fun _ => trivial
          · split
            · exact Prog.AsksOnly.ask_bind trivial fun _ => trivial
            · refine Prog.AsksOnly.ask_bind trivial fun _ => ?_
              exact Prog.AsksOnly.ask_bind trivial fun _ => ih _

/-- A fragment task holds a slot during an attempt and at no other time. -/
theorem retryLoop_brackets (fuel attempt : ℕ) :
    (retryLoop fragUrl maxRetries index start end_ fuel attempt).Brackets Cooperates takesSlot
      givesSlot false := by
  induction fuel generalizing attempt with
  | zero => exact rfl
  | succ fuel ih =>
    refine Prog.Brackets.ask_bind (fun _ => rfl) fun allowed _ => ?_
    split
    · split
      · exact rfl
      · exact Prog.Brackets.ask_bind (fun _ => rfl) fun _ _ => ih _
    · refine Prog.Brackets.ask_bind (fun _ => rfl) ?_
      rintro slot rfl
      refine Prog.Brackets.bind (downloadSingleFragment_asks.mono fun _ h => h.2) fun result => ?_
      refine Prog.Brackets.ask_bind (fun h => nomatch h) fun _ _ => ?_
      cases result with
      | ok r => exact Prog.Brackets.ask_bind (fun _ => rfl) fun _ _ => rfl
      | error e =>
        dsimp only
        split
        · exact Prog.Brackets.ask_bind (fun _ => rfl) fun _ _ => rfl
        · split
          · exact Prog.Brackets.ask_bind (fun _ => rfl) fun _ _ => rfl
          · refine Prog.Brackets.ask_bind (fun _ => rfl) fun _ _ => ?_
            exact Prog.Brackets.ask_bind (fun _ => rfl) fun _ _ => ih _

end Asks

/-! ### The run -/

/-- A fragmented download and the tasks that hold a slot of its semaphore. -/
abbrev Slotted (specs : List FragmentSpec) := Fragmented specs × Finset (Fin specs.length)

/-- The holders of slots after a request of a task is answered. -/
def holdersAfter {n : ℕ} (held : Finset (Fin n)) (i : Fin n) (op : Request) : Finset (Fin n) :=
  if takesSlot op then insert i held else if givesSlot op then held.erase i else held

/-- One step of a fragmented download that nothing interferes with. A task is given a slot
while some of them are free. -/
inductive CalmStep {specs : List FragmentSpec} (env : Environment) (slots : ℕ) :
    Slotted specs → Slotted specs → Prop where
  | task {s : Fragmented specs} {held : Finset (Fin specs.length)} {i : Fin specs.length}
      {op : Request} {k : Answer op → Prog Answer FragmentTaskResult} {x : Answer op}
      {world : World} (hi : s.threads i = .call op k)
      (hslot : takesSlot op = true → held.card < slots) (hx : Calm env op s.world x world) :
      CalmStep env slots (s, held)
        ({ s with threads := Function.update s.threads i (k x), world := world },
          holdersAfter held i op)
  | join {s s' : Fragmented specs} {held : Finset (Fin specs.length)} {i : Fin specs.length}
      (hrunning : s.outcome = none) (hlive : s.live i = true) (h : s.join i = some s') :
      CalmStep env slots (s, held) (s', held)
  | sync {s : Fragmented specs} {held : Finset (Fin specs.length)} (hrunning : s.outcome = none)
      (hall : ∀ i, s.live i = false) : CalmStep env slots (s, held) (s.sync (.ok ()), held)

/-- A step that nothing interferes with is a step. -/
theorem CalmStep.step {specs : List FragmentSpec} {env : Environment} {slots : ℕ}
    {s s' : Slotted specs} (h : CalmStep env slots s s') : FragmentedStep env s.1 s'.1 := by
  cases h with
  | task hi hslot hx => exact .task (.call hi hx.1)
  | join hrunning hlive h => exact .join hrunning hlive h
  | sync hrunning hall => exact @FragmentedStep.sync _ env _ (.ok ()) hrunning hall

/-- The download is over and every record is Done. -/
structure Fragmented.AllDone {specs : List FragmentSpec} (s : Fragmented specs) : Prop where
  outcome : s.outcome = some (.ok ())
  completed : s.state = .completed
  done : ∀ frag ∈ s.fragments, frag.state = .done

/-- What holds until the download is over: every task ends with its fragment, slots are held
during attempts only, and a record that is not Done is the one of a task not yet joined. -/
structure CalmInvariant {specs : List FragmentSpec} (env : Environment) (s : Slotted specs) :
    Prop where
  running : s.1.outcome = none
  ends : ∀ i, (s.1.threads i).Ends (Calm env) fun r =>
    ∃ downloaded duration, r = .ok ((specs.get i).index, downloaded, duration)
  brackets : ∀ i, (s.1.threads i).Brackets Cooperates takesSlot givesSlot (decide (i ∈ s.2))
  started : ∀ i, s.1.live i = true → ∃ frag, s.1.fragments[(specs.get i).index]? = some frag ∧
    frag.state = .downloading
  others : ∀ j frag, s.1.fragments[j]? = some frag → frag.state = .done ∨
    ∃ i, s.1.live i = true ∧ (specs.get i).index = j

section Run

variable {specs : List FragmentSpec} {env : Environment} {slots : ℕ} {s s' : Slotted specs}

/-- A task that ended is joined. -/
theorem CalmInvariant.join_eq (h : CalmInvariant env s) {i : Fin specs.length}
    (hlive : s.1.live i = true) {r : FragmentTaskResult} (hi : s.1.threads i = .done r) :
    ∃ frag, frag.state = .done ∧ s.1.join i = some { s.1 with
      fragments := s.1.fragments.set (specs.get i).index frag
      live := Function.update s.1.live i false } := by
  have hends := h.ends i
  rw [hi] at hends
  obtain ⟨downloaded, duration, rfl⟩ := hends.of_done s.1.world
  obtain ⟨frag, hfrag, hdownloading⟩ := h.started i hlive
  let frag' : FragmentRecord := { frag with
    info := { frag.info with downloaded := downloaded }
    lastDuration := some duration
    state := .done }
  have hcomplete : frag.completeDownloadFast downloaded duration = .ok frag' :=
    FragmentRecord.completeDownloadFast_ok.mpr ⟨hdownloading, rfl⟩
  refine ⟨frag', rfl, ?_⟩
  unfold Fragmented.join
  rw [hi]
  simp only [hfrag, Option.bind_eq_bind, Option.bind_some, hcomplete]

/-- As long as the download runs, some step is possible. -/
theorem CalmInvariant.progress (hslots : 0 < slots) (h : CalmInvariant env s) :
    ∃ s', CalmStep env slots s s' := by
  obtain ⟨s, held⟩ := s
  by_cases hfree : ∃ i op k, s.threads i = .call op k ∧ takesSlot op = false
  · obtain ⟨i, op, k, hi, hno⟩ := hfree
    have hends := h.ends i
    rw [show (s, held).1.threads i = .call op k from hi] at hends
    obtain ⟨x, world, hx⟩ := (hends.answer s.world).1
    exact ⟨_, .task hi (fun htakes => by simp [hno] at htakes) hx⟩
  by_cases hwaits : ∃ i op k, s.threads i = .call op k
  · -- every task that is not at its end waits for a slot, so no slot is held
    obtain ⟨i, op, k, hi⟩ := hwaits
    have hnone : held = ∅ := by
      rw [Finset.eq_empty_iff_forall_notMem]
      intro j hj
      have hbrackets := h.brackets j
      rw [decide_eq_true (show j ∈ (s, held).2 from hj)] at hbrackets
      cases hthread : s.threads j with
      | done r =>
        rw [show (s, held).1.threads j = .done r from hthread] at hbrackets
        cases hbrackets
      | call op' k' =>
        rw [show (s, held).1.threads j = .call op' k' from hthread] at hbrackets
        have htakes : takesSlot op' = true := by
          by_contra hno
          exact hfree ⟨j, op', k', hthread, by simpa using hno⟩
        cases hbrackets.1 htakes
    have hends := h.ends i
    rw [show (s, held).1.threads i = .call op k from hi] at hends
    obtain ⟨x, world, hx⟩ := (hends.answer s.world).1
    refine ⟨_, .task hi (fun _ => ?_) hx⟩
    rw [hnone, Finset.card_empty]
    exact hslots
  · have hdone : ∀ i, ∃ r, s.threads i = .done r := by
      intro i
      cases hi : s.threads i with
      | done r => exact ⟨r, rfl⟩
      | call op k => exact absurd ⟨i, op, k, hi⟩ hwaits
    by_cases hlive : ∃ i, s.live i = true
    · obtain ⟨i, hlive⟩ := hlive
      obtain ⟨r, hi⟩ := hdone i
      obtain ⟨frag, -, hjoin⟩ := h.join_eq hlive hi
      exact ⟨_, .join h.running hlive hjoin⟩
    · have hall : ∀ i, s.live i = false := by simpa using hlive
      exact ⟨_, .sync h.running hall⟩

/-- The holders a request leaves behind are the ones the tasks hold slots for. -/
theorem mem_holdersAfter {n : ℕ} {held : Finset (Fin n)} {i j : Fin n} {op : Request} :
    j ∈ holdersAfter held i op ↔
      if j = i then takesSlot op = true ∨ j ∈ held ∧ givesSlot op = false else j ∈ held := by
  unfold holdersAfter
  by_cases hij : j = i
  · subst hij
    cases takesSlot op <;> cases givesSlot op <;> simp
  · cases takesSlot op <;> cases givesSlot op <;> simp [hij]

theorem CalmInvariant.task {s : Fragmented specs} {held : Finset (Fin specs.length)}
    {i : Fin specs.length} {op : Request} {k : Answer op → Prog Answer FragmentTaskResult}
    {x : Answer op} {world : World} (h : CalmInvariant env (s, held))
    (hi : s.threads i = .call op k) (hx : Calm env op s.world x world) :
    CalmInvariant env ({ s with threads := Function.update s.threads i (k x), world := world },
      holdersAfter held i op) := by
  have hends := h.ends i
  have hbrackets := h.brackets i
  rw [show (s, held).1.threads i = .call op k from hi] at hends hbrackets
  refine ⟨h.running, fun j => ?_, fun j => ?_, h.started, h.others⟩
  · dsimp only
    by_cases hji : j = i
    · subst hji
      rw [Function.update_self]
      exact (hends.answer s.world).2 x world hx
    · rw [Function.update_of_ne hji]
      exact h.ends j
  · dsimp only
    by_cases hji : j = i
    · subst hji
      have hheld : decide (j ∈ holdersAfter held j op) =
          (takesSlot op || decide (j ∈ held) && !givesSlot op) := by
        rw [Bool.eq_iff_iff, decide_eq_true_iff, mem_holdersAfter, if_pos rfl]
        simp
      rw [Function.update_self, hheld]
      exact hbrackets.2 x hx.2
    · have hheld : decide (j ∈ holdersAfter held i op) = decide (j ∈ held) := by
        rw [decide_eq_decide, mem_holdersAfter, if_neg hji]
      rw [Function.update_of_ne hji, hheld]
      exact h.brackets j

/-- The tasks that are not joined yet. -/
def Fragmented.unjoined (s : Fragmented specs) : Finset (Fin specs.length) :=
  Finset.univ.filter fun i => s.live i = true

theorem CalmInvariant.join {s s' : Fragmented specs} {held : Finset (Fin specs.length)}
    {i : Fin specs.length}
    (hdistinct : ∀ i j : Fin specs.length, i ≠ j → (specs.get i).index ≠ (specs.get j).index)
    (h : CalmInvariant env (s, held)) (hlive : s.live i = true) (hjoin : s.join i = some s') :
    CalmInvariant env (s', held) ∧ s'.threads = s.threads ∧ s'.unjoined ⊂ s.unjoined := by
  have hdone : ∃ r, s.threads i = .done r := by
    cases hi : s.threads i with
    | done r => exact ⟨r, rfl⟩
    | call op k =>
      rw [Fragmented.join, hi] at hjoin
      cases hjoin
  obtain ⟨r, hi⟩ := hdone
  obtain ⟨frag, hfrag, hjoined⟩ := h.join_eq hlive hi
  obtain rfl := Option.some.inj (hjoin.symm.trans hjoined)
  refine ⟨⟨h.running, h.ends, h.brackets, fun j hj => ?_, fun j g hg => ?_⟩, rfl, ?_⟩
  · dsimp only at hj ⊢
    by_cases hji : j = i
    · rw [hji, Function.update_self] at hj
      cases hj
    · rw [Function.update_of_ne hji] at hj
      rw [List.getElem?_set_ne (hdistinct i j fun heq => hji heq.symm)]
      exact h.started j hj
  · dsimp only at hg ⊢
    by_cases hj : (specs.get i).index = j
    · subst hj
      rw [List.getElem?_set_self'] at hg
      obtain ⟨-, -, rfl⟩ := Option.map_eq_some_iff.mp hg
      exact Or.inl hfrag
    · rw [List.getElem?_set_ne hj] at hg
      rcases h.others j g hg with hgdone | ⟨i', hlive', hindex⟩
      · exact Or.inl hgdone
      · have hother : i' ≠ i := by
          rintro rfl
          exact hj hindex
        rw [← Function.update_of_ne hother false s.live] at hlive'
        exact Or.inr ⟨i', hlive', hindex⟩
  · unfold Fragmented.unjoined
    rw [Finset.ssubset_iff_of_subset]
    · exact ⟨i, by simpa using hlive, by simp⟩
    · intro j hj
      rw [Finset.mem_filter] at hj ⊢
      obtain ⟨hmem, hlive'⟩ := hj
      refine ⟨hmem, ?_⟩
      by_cases hji : j = i
      · rw [hji]
        exact hlive
      · dsimp only at hlive'
        rwa [Function.update_of_ne hji] at hlive'

/-- The storage is synced when every task is joined, and then every record is Done. -/
theorem CalmInvariant.sync {s : Fragmented specs} {held : Finset (Fin specs.length)}
    (h : CalmInvariant env (s, held)) (hall : ∀ i, s.live i = false) :
    (s.sync (.ok ())).AllDone := by
  refine ⟨rfl, rfl, fun frag hfrag => ?_⟩
  obtain ⟨j, hj⟩ := List.getElem?_of_mem hfrag
  rcases h.others j frag hj with hdone | ⟨i, hlive, -⟩
  · exact hdone
  · rw [show (s, held).1.live i = false from hall i] at hlive
    cases hlive

/-- What the tasks still do once the download is over changes no record. -/
theorem Fragmented.AllDone.step (h : s.1.AllDone) (hstep : CalmStep env slots s s') :
    s'.1.AllDone := by
  obtain ⟨houtcome, hcompleted, hdone⟩ := h
  cases hstep with
  | task => exact ⟨houtcome, hcompleted, hdone⟩
  | join hrunning =>
    rw [show _ = none from hrunning] at houtcome
    cases houtcome
  | sync hrunning =>
    rw [show _ = none from hrunning] at houtcome
    cases houtcome

/-- In every state of a run the invariant holds or the download is over. -/
theorem CalmInvariant.run
    (hdistinct : ∀ i j : Fin specs.length, i ≠ j → (specs.get i).index ≠ (specs.get j).index)
    (h : CalmInvariant env s) (hrun : Relation.ReflTransGen (CalmStep env slots) s s') :
    CalmInvariant env s' ∨ s'.1.AllDone := by
  induction hrun with
  | refl => exact Or.inl h
  | tail _ hstep ih =>
    rcases ih with hinv | hover
    · cases hstep with
      | task hi _ hx => exact Or.inl (hinv.task hi hx)
      | join _ hlive hjoin => exact Or.inl (hinv.join hdistinct hlive hjoin).1
      | sync _ hall => exact Or.inr (hinv.sync hall)
    · exact Or.inr (hover.step hstep)

/-- Every run comes to the end of the download with every record Done. -/
theorem CalmInvariant.inevitable (hslots : 0 < slots)
    (hdistinct : ∀ i j : Fin specs.length, i ≠ j → (specs.get i).index ≠ (specs.get j).index)
    (h : CalmInvariant env s) :
    Inevitable (CalmStep env slots) (fun s => s.1.AllDone) s := by
  have hwf : WellFounded (Prod.Lex (· < ·) (· < ·) :
      (Fin specs.length → Ordinal) × ℕ → (Fin specs.length → Ordinal) × ℕ → Prop) :=
    WellFounded.prod_lex wellFounded_lt wellFounded_lt
  -- an answered request makes the ranks of the tasks smaller, a join the tasks to be joined
  refine Inevitable.of_variant hwf (fun s => (poolRank s.1.threads, s.1.unjoined.card))
    (fun s hs => Or.inr (hs.progress hslots)) (fun s s' hs hstep => ?_) h
  cases hstep with
  | task hi _ hx => exact Or.inr ⟨hs.task hi hx, .left _ _ (poolRank_answer hi _)⟩
  | join _ hlive hjoin =>
    obtain ⟨hinv, hthreads, hfewer⟩ := hs.join hdistinct hlive hjoin
    dsimp only
    rw [hthreads]
    exact Or.inr ⟨hinv, .right _ (Finset.card_lt_card hfewer)⟩
  | sync _ hall => exact Or.inl (hs.sync hall)

end Run

/-! ### The start -/

section Start

variable {env : Environment} {fragments : List FragmentRecord}
  {maxConcurrentFragments maxRetries : ℕ} {host : DownloadResult String} {url name : String}
  {file : Bytes}

/-- A fragment whose streams are all acceptable is downloaded at the first attempt. -/
theorem fragmentTask_ends {index start end_ : ℕ} (htakes : env.TakesWhole)
    (hserved : ∃ items, env.ranges start end_ items)
    (haccept : ∀ items, env.ranges start end_ items → Acceptable start end_ items) :
    (fragmentTask url maxRetries index start end_).Ends (Calm env) fun r =>
      ∃ downloaded duration, r = .ok (index, downloaded, duration) := by
  unfold fragmentTask retryLoop
  refine Prog.Ends.ask_bind (fun w => ⟨true, w, rfl, rfl⟩) ?_
  rintro w allowed w' ⟨-, rfl⟩
  rw [if_neg (by decide)]
  refine Prog.Ends.ask_bind (fun w => ⟨.ok (), w, rfl, rfl⟩) ?_
  rintro w slot w' ⟨-, rfl⟩
  refine Prog.Ends.bind (downloadSingleFragment_succeeds htakes hserved haccept) ?_
  rintro result ⟨⟨downloaded, duration⟩, rfl, -⟩
  refine Prog.Ends.ask_bind (fun w => ⟨(), w, rfl, trivial⟩) fun _ _ _ _ => ?_
  refine Prog.Ends.ask_bind (fun w => ⟨(), w, rfl, trivial⟩) fun _ _ _ _ => ?_
  exact .done ⟨downloaded, duration, rfl⟩

/-- The records of different Pending fragments are started one after the other. -/
theorem foldlM_startFragment {specs : List FragmentSpec}
    (hdistinct : specs.Pairwise fun f g => f.index ≠ g.index)
    (hpending : ∀ spec ∈ specs, ∃ frag, fragments[spec.index]? = some frag ∧
      frag.state = .pending) :
    ∃ started, specs.foldlM startFragment fragments = .ok started ∧
      ∀ j, started[j]? = fragments[j]?.map fun frag =>
        if j ∈ specs.map FragmentSpec.index then { frag with state := .downloading } else frag := by
  induction specs generalizing fragments with
  | nil => exact ⟨fragments, rfl, fun j => by simp⟩
  | cons spec specs ih =>
    obtain ⟨hne, hdistinct⟩ := List.pairwise_cons.mp hdistinct
    obtain ⟨frag, hfrag, hstate⟩ := hpending spec List.mem_cons_self
    let frag' : FragmentRecord := { frag with state := .downloading }
    have hstart : startFragment fragments spec = .ok (fragments.set spec.index frag') := by
      unfold startFragment
      simp only [hfrag, FragmentRecord.startDownload_ok.mpr ⟨hstate, rfl⟩]
      rfl
    have hrest : ∀ spec' ∈ specs, ∃ frag, (fragments.set spec.index frag')[spec'.index]? =
        some frag ∧ frag.state = .pending := by
      intro spec' hspec'
      rw [List.getElem?_set_ne (hne spec' hspec')]
      exact hpending spec' (List.mem_cons_of_mem _ hspec')
    obtain ⟨started, hfold, hstarted⟩ := ih hdistinct hrest
    refine ⟨started, ?_, fun j => ?_⟩
    · rw [List.foldlM_cons, hstart]
      exact hfold
    · rw [hstarted j, List.map_cons]
      by_cases hj : j = spec.index
      · have hnot : j ∉ specs.map FragmentSpec.index := by
          rw [List.mem_map]
          rintro ⟨spec', hspec', heq⟩
          exact hne spec' hspec' (by omega)
        obtain ⟨hlt, -⟩ := List.getElem?_eq_some_iff.mp hfrag
        subst hj
        rw [List.getElem?_set_self hlt, hfrag]
        simp [hnot, frag']
      · rw [List.getElem?_set_ne fun heq => hj heq.symm]
        simp [hj]

/-- Records as `plan` leaves them: each at its index, Pending or Done, with ranges one
behind the other. -/
structure Planned (fragments : List FragmentRecord) : Prop where
  index_eq : ∀ (j : ℕ) (frag : FragmentRecord), fragments[j]? = some frag → frag.info.index = j
  fresh : ∀ frag ∈ fragments, frag.state = .pending ∨ frag.state = .done
  separated : Separated (fragmentSpecs fragments)

theorem mem_fragmentSpecs {spec : FragmentSpec} : spec ∈ fragmentSpecs fragments ↔
    ∃ frag ∈ fragments, frag.state = .pending ∧ frag.info.spec = spec := by
  simp only [fragmentSpecs, List.mem_map, List.mem_filter, decide_eq_true_eq, and_assoc]

/-- A planned fragment is Pending at its index. -/
theorem Planned.pending (h : Planned fragments) {spec : FragmentSpec}
    (hspec : spec ∈ fragmentSpecs fragments) :
    ∃ frag, fragments[spec.index]? = some frag ∧ frag.state = .pending := by
  obtain ⟨frag, hfrag, hstate, rfl⟩ := mem_fragmentSpecs.mp hspec
  obtain ⟨j, hj⟩ := List.getElem?_of_mem hfrag
  refine ⟨frag, ?_, hstate⟩
  rw [show frag.info.spec.index = j from h.index_eq j frag hj]
  exact hj

/-- A download of planned records can start. -/
theorem Planned.startFragmented_calm (h : Planned fragments)
    (hconcurrent : maxConcurrentFragments ≠ 0) (hhost : host = .ok name) (htakes : env.TakesWhole)
    (hserved : ∀ spec ∈ fragmentSpecs fragments, ∃ items, env.ranges spec.start spec.end_ items)
    (haccept : ∀ spec ∈ fragmentSpecs fragments, ∀ items, env.ranges spec.start spec.end_ items →
      Acceptable spec.start spec.end_ items) :
    ∃ s₀, startFragmented maxConcurrentFragments maxRetries host url (some file) fragments =
      .ok s₀ ∧ CalmInvariant env (s₀, ∅) := by
  have hdistinct : (fragmentSpecs fragments).Pairwise fun f g => f.index ≠ g.index :=
    h.separated.ordered.imp fun h => h.1
  obtain ⟨started, hfold, hstarted⟩ := foldlM_startFragment hdistinct fun _ => h.pending
  let s₀ : Fragmented (fragmentSpecs fragments) := {
    fragments := started
    threads := fun i =>
      let spec := (fragmentSpecs fragments)[i]
      fragmentTask url maxRetries spec.index spec.start spec.end_
    live := fun _ => true
    world := .initial file
    state := .downloading
    outcome := none }
  refine ⟨s₀, ?_, ?_⟩
  · unfold startFragmented
    rw [if_neg hconcurrent, hhost, hfold]
    rfl
  · refine ⟨rfl, fun i => ?_, fun i => ?_, fun i _ => ?_, fun j frag hfrag => ?_⟩
    · have hmem := List.getElem_mem i.2
      exact fragmentTask_ends htakes (hserved _ hmem) (haccept _ hmem)
    · rw [show decide (i ∈ (∅ : Finset _)) = false from decide_eq_false (Finset.notMem_empty i)]
      exact retryLoop_brackets _ _
    · have hspec := List.get_mem (fragmentSpecs fragments) i
      obtain ⟨frag, hfrag, -⟩ := h.pending hspec
      refine ⟨{ frag with state := .downloading }, ?_, rfl⟩
      have hmem := List.mem_map_of_mem (f := FragmentSpec.index) hspec
      dsimp only [s₀]
      rw [hstarted, hfrag, Option.map_some, if_pos hmem]
    · dsimp only [s₀] at hfrag
      rw [hstarted] at hfrag
      obtain ⟨old, hold, rfl⟩ := Option.map_eq_some_iff.mp hfrag
      by_cases hmem : j ∈ (fragmentSpecs fragments).map FragmentSpec.index
      · obtain ⟨spec, hspec, hindex⟩ := List.mem_map.mp hmem
        obtain ⟨i, hi, hget⟩ := List.getElem_of_mem hspec
        refine Or.inr ⟨⟨i, hi⟩, rfl, ?_⟩
        rw [← hindex, ← hget]
        rfl
      · rw [if_neg hmem]
        refine Or.inl ((h.fresh old (List.mem_of_getElem? hold)).resolve_left fun hpending => ?_)
        refine hmem (List.mem_map.mpr ⟨old.info.spec, ?_, h.index_eq j old hold⟩)
        exact mem_fragmentSpecs.mpr ⟨old, List.mem_of_getElem? hold, hpending, rfl⟩

/-- In every state of every run a task asks for streams of its own range only. -/
theorem threads_ask {storage : Option Bytes} {s₀ s : Fragmented (fragmentSpecs fragments)}
    (hstart : startFragmented maxConcurrentFragments maxRetries host url storage fragments = .ok s₀)
    (hrun : Relation.ReflTransGen (FragmentedStep env) s₀ s)
    (i : Fin (fragmentSpecs fragments).length) :
    (s.threads i).AsksOnly
      (AsksRange ((fragmentSpecs fragments).get i).start
        ((fragmentSpecs fragments).get i).end_) := by
  induction hrun with
  | refl =>
    obtain ⟨-, -, -, -, -, hthreads⟩ := startFragmented_ok hstart
    rw [hthreads i]
    exact retryLoop_asks _ _
  | tail _ hstep ih =>
    cases hstep with
    | task htask =>
      cases htask with
      | call hi hx =>
        rename_i j op k x
        by_cases hij : i = j
        · subst hij
          rw [hi] at ih
          dsimp only
          rw [Function.update_self]
          exact ih.2 x
        · dsimp only
          rw [Function.update_of_ne hij]
          exact ih
    | join _ _ hjoin =>
      rcases Fragmented.join_cases hjoin with ⟨_, _, _, _, -, rfl⟩ | ⟨_, _, _, rfl⟩ <;> exact ih
    | panicked => exact ih
    | sync =>
      rename_i result _ _
      cases result <;> exact ih

end Start

end Tachyon
