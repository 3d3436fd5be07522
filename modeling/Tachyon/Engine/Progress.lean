import Tachyon.Engine.Fragmented

/-!
# What a run reports

The progress messages of a fragmented download: a task reports its own fragment only and never
more bytes than the fragment has. An attempt counts from zero.
-/

namespace Tachyon

open Resumption

/-- A message is about the fragment and within its length. -/
structure FragmentProgress.Within (message : FragmentProgress) (index length : ℕ) : Prop where
  index : message.fragmentIndex = index
  downloaded : message.fragmentDownloaded ≤ length

/-- A message that is sent is within the fragment; other requests are free. -/
def ReportsWithin (index length : ℕ) : Request → Prop
  | .sendProgress message => message.Within index length
  | _ => True

theorem wrappingAdd_le (a b : ℕ) : wrappingAdd a b ≤ a + b := Nat.mod_le _ _

section Attempt

variable {env : Environment} {index length expectedLen : ℕ} {batch : Bytes}

/-- `write_all_at` reports no more than the batch has. -/
theorem writeAllLoop_reports {fuel pos totalWritten : ℕ} :
    Issues (Handles env) (ReportsWithin index length) (writeAllLoop fuel pos totalWritten batch)
      fun n => n ≤ totalWritten + batch.length := by
  induction fuel generalizing pos totalWritten batch with
  | zero => exact Issues.pure (Nat.le_add_right _ _)
  | succ fuel ih =>
    unfold writeAllLoop
    split
    case isTrue => exact Issues.pure (Nat.le_add_right _ _)
    case isFalse =>
    have hwrite : ReportsWithin index length (.writeAtRaced pos batch) := trivial
    refine (Issues.request hwrite).bind ?_
    rintro result ⟨w, w', hresult⟩
    refine issues_fromSelected.bind ?_
    rintro written rfl
    obtain ⟨k, hk, -, hwritten⟩ := writeAtRaced_handled hresult
    obtain rfl := hwritten written rfl
    split
    case isTrue => exact Issues.throw
    case isFalse =>
    refine issues_orThrow.bind fun writtenU64 hu64 => ?_
    obtain ⟨-, rfl⟩ := tryFromUsize_eq_some.mp hu64
    refine issues_orThrow.bind fun pos' _ => issues_orThrow.bind fun total' htotal => ?_
    obtain ⟨-, rfl⟩ := checkedAdd_eq_some.mp htotal
    refine ih.mono fun n hn => ?_
    rw [List.length_drop] at hn
    omega

/-- What a flush adds stays within the length the batch is checked against. -/
theorem flushBatch_reports {text : String} {fragIndex pos totalWritten : ℕ} :
    Issues (Handles env) (ReportsWithin index length)
      (flushBatch text fragIndex expectedLen pos totalWritten batch)
      fun n => totalWritten + n ≤ expectedLen := by
  unfold flushBatch
  refine issues_orThrow.bind fun batchLen hbatch => issues_orThrow.bind fun attempted hsum => ?_
  obtain ⟨-, rfl⟩ := tryFromUsize_eq_some.mp hbatch
  obtain ⟨-, rfl⟩ := checkedAdd_eq_some.mp hsum
  split
  case isTrue => exact Issues.throw
  case isFalse hfits => exact writeAllLoop_reports.mono fun n hn => by omega

theorem reportProgress_reports {chunkCount totalWritten : ℕ} (h : totalWritten ≤ length) :
    Issues (Handles env) (ReportsWithin index length)
      (reportProgress index chunkCount totalWritten) fun _ => True := by
  unfold reportProgress
  split
  case isTrue =>
    have hsend : ReportsWithin index length (.sendProgress ⟨index, false, totalWritten⟩) := ⟨rfl, h⟩
    exact (Issues.request hsend).bind fun _ _ => Issues.pure trivial
  case isFalse => exact Issues.pure trivial

theorem chunkLoop_reports {items : List Item} {c : FragmentCursor} (h : c.totalWritten ≤ length) :
    Issues (Handles env) (ReportsWithin index length) (chunkLoop index length items c)
      fun c' => c'.totalWritten ≤ length := by
  induction items generalizing c with
  | nil => exact Issues.pure h
  | cons item items ih =>
    unfold chunkLoop
    have hcontrol : ReportsWithin index length .waitControl := trivial
    refine (Issues.request hcontrol).bind fun _ _ => ?_
    refine issues_fromResult.bind fun _ _ => issues_fromResult.bind fun chunk _ => ?_
    dsimp only
    split
    case isFalse => exact ih h
    case isTrue =>
    refine flushBatch_reports.bind fun w hw => issues_orThrow.bind fun pos' _ => ?_
    have hlimiter : ReportsWithin index length (.limiterAcquire w) := trivial
    refine (Issues.request hlimiter).bind fun _ _ => ?_
    have htotal : wrappingAdd c.totalWritten w ≤ length := (wrappingAdd_le _ _).trans hw
    exact (reportProgress_reports htotal).bind fun _ _ => ih htotal

theorem flushRest_reports {fragIndex : ℕ} {c : FragmentCursor} :
    Issues (Handles env) (ReportsWithin index length) (flushRest fragIndex expectedLen c)
      fun _ => True := by
  unfold flushRest
  split
  case isTrue => exact Issues.pure trivial
  case isFalse =>
    refine flushBatch_reports.bind fun w _ => ?_
    have hlimiter : ReportsWithin index length (.limiterAcquire w) := trivial
    exact (Issues.request hlimiter).bind fun _ _ => Issues.pure trivial

/-- An attempt reports its fragment. -/
theorem downloadSingleFragment_reports {start end_ : ℕ} :
    Issues (Handles env) (ReportsWithin index (end_ - start + 1))
      (downloadSingleFragment index start end_) fun _ => True := by
  have hidle : ∀ op, (∀ message, op ≠ .sendProgress message) →
      ReportsWithin index (end_ - start + 1) op := by
    intro op hop
    cases op with
    | sendProgress message => exact absurd rfl (hop message)
    | _ => trivial
  unfold downloadSingleFragment
  refine (Issues.request (hidle .waitControl nofun)).bind fun _ _ => ?_
  refine issues_fromResult.bind fun _ _ => ?_
  refine (Issues.request (hidle .acquirePool nofun)).bind fun _ _ => ?_
  refine issues_fromResult.bind fun _ _ => ?_
  refine (Issues.request (hidle (.openRange start end_) nofun)).bind fun _ _ => ?_
  refine issues_fromSelected.bind fun items _ => ?_
  refine issues_orThrow.bind fun expectedLen hexpected => ?_
  obtain ⟨len, hlen, hexpected⟩ := Option.bind_eq_some_iff.mp hexpected
  obtain ⟨-, rfl⟩ := checkedAdd_eq_some.mp hexpected
  obtain ⟨-, rfl⟩ := checkedSub_eq_some.mp hlen
  refine (chunkLoop_reports (Nat.zero_le _)).bind fun cursor _ => ?_
  refine flushRest_reports.bind fun totalWritten _ => ?_
  split
  case isTrue => exact Issues.throw
  case isFalse hcomplete =>
    refine (Issues.request (hidle .elapsed nofun)).bind fun elapsed _ => ?_
    have hsend :
        ReportsWithin index (end_ - start + 1) (.sendProgress ⟨index, true, totalWritten⟩) :=
      ⟨rfl, (not_not.mp hcomplete).le⟩
    exact (Issues.request hsend).bind fun _ _ => Issues.pure trivial

theorem retryLoop_reports {fragUrl : String} {maxRetries start end_ fuel attempt : ℕ} :
    Asks (Handles env) (ReportsWithin index (end_ - start + 1))
      (retryLoop fragUrl maxRetries index start end_ fuel attempt) := by
  induction fuel generalizing attempt with
  | zero => exact .done _
  | succ fuel ih =>
    unfold retryLoop
    refine .ask_bind trivial fun allowed => ?_
    cases allowed with
    | false =>
      by_cases hlast : attempt ≥ maxRetries
      · rw [Bool.not_false, if_pos rfl, if_pos hlast]
        exact .done _
      · rw [Bool.not_false, if_pos rfl, if_neg hlast]
        exact .ask_bind trivial fun _ => ih
    | true =>
    refine .ask_bind trivial fun slot => ?_
    cases slot with
    | error e => exact .done _
    | ok _ =>
    refine downloadSingleFragment_reports.asks.bind fun result => .ask_bind trivial fun _ => ?_
    cases result with
    | ok r => exact .ask_bind trivial fun _ => .done _
    | error e =>
      dsimp only
      split
      · exact .ask_bind trivial fun _ => .done _
      · split
        · exact .ask_bind trivial fun _ => .done _
        · exact .ask_bind trivial fun _ => .ask_bind trivial fun _ => ih

end Attempt

/-! ### The messages of a run -/

section Run

variable {env : Environment} {specs : List FragmentSpec} {s s' : Fragmented specs}

/-- The length of a fragment's range. -/
def FragmentSpec.length (spec : FragmentSpec) : ℕ := spec.end_ - spec.start + 1

/-- What the progress channel takes was sent. -/
theorem mem_sent_of_handles {op : Request} {w w' : World} {x : Answer op}
    (h : Handles env op w x w') {message : FragmentProgress} (hmessage : message ∈ w'.sent) :
    message ∈ w.sent ∨ op = .sendProgress message := by
  have hwrite : ∀ {offset : ℕ} {data : Bytes} {result : DownloadResult ℕ},
      Writes w offset data result w' → message ∈ w.sent := by
    rintro offset data result ⟨k, -, -, rfl⟩
    exact hmessage
  have hidle : w' = w → message ∈ w.sent := fun hw => hw ▸ hmessage
  cases op with
  | openRange start end_ =>
    match x with
    | .finished (.ok items) =>
      obtain ⟨-, rfl⟩ := h
      exact .inl hmessage
    | .finished (.error e) => exact .inl (hidle h)
    | .interrupted control => exact .inl (hidle h)
  | openFull =>
    match x with
    | .finished (.ok items) => exact .inl (hidle h.2)
    | .finished (.error e) => exact .inl (hidle h)
    | .interrupted control => exact .inl (hidle h)
  | writeAt => exact .inl (hwrite h.2)
  | writeAtRaced =>
    match x with
    | .finished result => exact .inl (hwrite h.2)
    | .interrupted control =>
      obtain ⟨k, -, rfl⟩ := h
      exact .inl hmessage
  | sendProgress m =>
    obtain rfl := h
    cases x with
    | false => exact .inl hmessage
    | true =>
      rcases List.mem_append.mp hmessage with hold | hnew
      · exact .inl hold
      · rw [List.mem_singleton.mp hnew]
        exact .inr rfl
  | _ => exact .inl (hidle h)

/-- Every task reports its own fragment, and every message so far is about a fragment of the run. -/
structure ReportsFragments {specs : List FragmentSpec} (env : Environment)
    (s : Fragmented specs) : Prop where
  asks : ∀ i : Fin specs.length,
    Asks (Handles env) (ReportsWithin (specs.get i).index (specs.get i).length) (s.threads i)
  sent : ∀ message ∈ s.world.sent, ∃ spec ∈ specs, message.Within spec.index spec.length

theorem ReportsFragments.step (h : ReportsFragments env s) (hstep : FragmentedStep env s s') :
    ReportsFragments env s' := by
  cases hstep with
  | task htask =>
    cases htask with
    | @call _ _ world i op k x hi hx =>
      have hasks := h.asks i
      rw [hi] at hasks
      constructor
      · intro j
        by_cases hji : j = i
        · subst hji
          simp only [Function.update_self]
          exact hasks.answer hx
        · simp only [Function.update_of_ne hji]
          exact h.asks j
      · intro message hmessage
        rcases mem_sent_of_handles hx hmessage with hold | rfl
        · exact h.sent message hold
        · exact ⟨specs.get i, List.get_mem specs i, hasks.meets_of_call s.world⟩
  | join _ _ hjoin =>
    rcases Fragmented.join_cases hjoin with ⟨_, _, _, _, -, rfl⟩ | ⟨_, _, _, rfl⟩
    · exact ⟨h.asks, h.sent⟩
    · exact ⟨h.asks, h.sent⟩
  | panicked => exact ⟨h.asks, h.sent⟩
  | sync =>
    rename_i result _ _
    cases result with
    | error e => exact ⟨h.asks, h.sent⟩
    | ok _ => exact ⟨h.asks, h.sent⟩

/-- In every run the messages that the channel took are about the run's fragments. -/
theorem reportsFragments_run {maxConcurrentFragments maxRetries : ℕ} {host : DownloadResult String}
    {url : String} {storage : Option Bytes} {fragments : List FragmentRecord}
    {s₀ s : Fragmented (fragmentSpecs fragments)}
    (hstart : startFragmented maxConcurrentFragments maxRetries host url storage fragments = .ok s₀)
    (hrun : Relation.ReflTransGen (FragmentedStep env) s₀ s) : ReportsFragments env s := by
  induction hrun with
  | refl =>
    obtain ⟨file, -, hworld, -, -, hthreads⟩ := startFragmented_ok hstart
    constructor
    · intro i
      rw [hthreads i]
      exact retryLoop_reports
    · rw [hworld]
      exact fun message hmessage => absurd hmessage List.not_mem_nil
  | tail _ hstep ih => exact ih.step hstep

end Run

end Tachyon
