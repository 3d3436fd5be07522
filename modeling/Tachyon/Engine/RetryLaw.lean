import Tachyon.Core.RateLimit
import Tachyon.Engine.CircuitBreaker
import Tachyon.Engine.Fragmented

/-!
# Retries behind a shared breaker

The fragment tasks of a download share the breaker of their source. A pass of the retry loop that
the breaker refuses counts as an attempt, so what the failures of other fragments leave of the
attempts of one is at most all of them.
-/

namespace Tachyon

open Resumption

/-- One pass of the retry loop. -/
inductive Pass where
  /-- The breaker refuses the source. -/
  | refused
  /-- `download_single_fragment` is called and returns. -/
  | called (result : DownloadResult (ℕ × ℕ))

namespace Pass

/-- Another pass may follow. -/
def mayRetry : Pass → Bool
  | .refused => true
  | .called (.ok _) => false
  | .called (.error e) => e.isRetryable

def isCall : Pass → Bool
  | .refused => false
  | .called _ => true

/-- What a task reports that ends with this pass. -/
def report (fragUrl : String) (fragIndex : ℕ) : Pass → FragmentTaskResult
  | .refused => .error (fragIndex, .network s!"源 {fragUrl} 已被熔断,跳过重试")
  | .called (.ok (downloaded, duration)) => .ok (fragIndex, downloaded, duration)
  | .called (.error e) => .error (fragIndex, e)

end Pass

/-- The real calls among the passes. -/
def calls (passes : List Pass) : ℕ := passes.countP Pass.isCall

/-- The passes that the breaker refused. -/
def refusals (passes : List Pass) : ℕ := passes.countP fun pass => ¬pass.isCall = true

theorem calls_add_refusals (passes : List Pass) : calls passes + refusals passes = passes.length :=
  List.length_eq_countP_add_countP Pass.isCall |>.symm

/-- `retryLoop`, with its passes on record. -/
def retryPasses (fragUrl : String) (maxRetries fragIndex fragStart fragEnd : ℕ) :
    ℕ → ℕ → List Pass → Prog Answer (List Pass × FragmentTaskResult)
  | 0, _, passes => .done (passes, .error (fragIndex, .other "unreachable"))
  | fuel + 1, attempt, passes => do
    let allowed : Bool ← Prog.ask Request.breakerAllow
    if !allowed then
      if attempt ≥ maxRetries then
        .done (passes ++ [.refused],
          .error (fragIndex, .network s!"源 {fragUrl} 已被熔断,跳过重试"))
      else do
        let _ ← Prog.ask (.sleep 1)
        retryPasses fragUrl maxRetries fragIndex fragStart fragEnd fuel (attempt + 1)
          (passes ++ [.refused])
    else do
      let slot : Except String Unit ← Prog.ask Request.acquireSlot
      match slot with
      | .error e => .done (passes, .error (fragIndex, .other s!"信号量获取失败: {e}"))
      | .ok () => do
        let result ← (downloadSingleFragment fragIndex fragStart fragEnd).run
        let _ ← Prog.ask .releaseSlot
        match result with
        | .ok (downloaded, duration) => do
          let _ ← Prog.ask .breakerSuccess
          .done (passes ++ [.called result], .ok (fragIndex, downloaded, duration))
        | .error e =>
          if !e.isRetryable then do
            let _ ← Prog.ask .breakerFailure
            .done (passes ++ [.called result], .error (fragIndex, e))
          else if attempt ≥ maxRetries then do
            let _ ← Prog.ask .breakerFailure
            .done (passes ++ [.called result], .error (fragIndex, e))
          else do
            let _ ← Prog.ask .breakerFailure
            let _ ← Prog.ask (.sleep (retryBackoff fragIndex attempt e))
            retryPasses fragUrl maxRetries fragIndex fragStart fragEnd fuel (attempt + 1)
              (passes ++ [.called result])

/-- `fragmentTask`, with its passes on record. -/
def recordedTask (fragUrl : String) (maxRetries fragIndex fragStart fragEnd : ℕ) :
    Prog Answer (List Pass × FragmentTaskResult) :=
  retryPasses fragUrl maxRetries fragIndex fragStart fragEnd (maxRetries + 1) 0 []

theorem retryPasses_erase {fragUrl : String} {maxRetries fragIndex fragStart fragEnd : ℕ}
    (fuel attempt : ℕ) (passes : List Pass) :
    (retryPasses fragUrl maxRetries fragIndex fragStart fragEnd fuel attempt passes >>=
        fun r => .done r.2) =
      retryLoop fragUrl maxRetries fragIndex fragStart fragEnd fuel attempt := by
  induction fuel generalizing attempt passes with
  | zero => rfl
  | succ fuel ih =>
    unfold retryPasses retryLoop
    refine congrArg (Prog.call Request.breakerAllow) (funext fun allowed => ?_)
    cases allowed with
    | false =>
      by_cases hlast : attempt ≥ maxRetries
      · simp only [if_pos hlast]
        rfl
      · simp only [if_neg hlast]
        exact congrArg (Prog.call (.sleep 1)) (funext fun _ => ih (attempt + 1) _)
    | true =>
      refine congrArg (Prog.call Request.acquireSlot) (funext fun slot => ?_)
      cases slot with
      | error e => rfl
      | ok _ =>
        refine (Prog.bind_assoc (downloadSingleFragment fragIndex fragStart fragEnd).run _ _).trans
          (congrArg (Prog.bind _) (funext fun result => ?_))
        refine congrArg (Prog.call Request.releaseSlot) (funext fun _ => ?_)
        cases result with
        | ok r => rfl
        | error e =>
          by_cases hlast : attempt ≥ maxRetries
          · simp only [if_pos hlast]
            cases e.isRetryable with
            | false => rfl
            | true => rfl
          · simp only [if_neg hlast]
            cases e.isRetryable with
            | false => rfl
            | true =>
              refine congrArg (Prog.call Request.breakerFailure) (funext fun _ => ?_)
              exact congrArg (Prog.call (.sleep _)) (funext fun _ => ih (attempt + 1) _)

/-- Without the record it is the task. -/
theorem recordedTask_erase {fragUrl : String} {maxRetries fragIndex fragStart fragEnd : ℕ} :
    (recordedTask fragUrl maxRetries fragIndex fragStart fragEnd >>= fun r => .done r.2) =
      fragmentTask fragUrl maxRetries fragIndex fragStart fragEnd :=
  retryPasses_erase (maxRetries + 1) 0 []

/-! ### Fragments that share a source -/

/-- What the tasks of a download share. -/
structure Shared where
  now : ℕ
  breakers : SourceCircuitBreakers
  /-- The free slots of the semaphore. -/
  permits : ℕ
  world : World

/-- The answers of the breaker, of the semaphore, which nothing closes, and of everything else. -/
def HandlesShared (env : Environment) (url : String) :
    (r : Request) → Shared → Answer r → Shared → Prop
  | .breakerAllow, s, x, s' =>
    x = (s.breakers.allow url s.now).1 ∧
      s' = { s with breakers := (s.breakers.allow url s.now).2 }
  | .breakerSuccess, s, _, s' => s' = { s with breakers := s.breakers.recordSuccess url }
  | .breakerFailure, s, _, s' => s' = { s with breakers := s.breakers.recordFailure url s.now }
  | .acquireSlot, s, x, s' => x = .ok () ∧ 0 < s.permits ∧ s' = { s with permits := s.permits - 1 }
  | .releaseSlot, s, _, s' => s' = { s with permits := s.permits + 1 }
  | r, s, x, s' => ∃ world, Handles env r s.world x world ∧ s' = { s with world := world }

/-- When a task goes on that has come this far: a sleep takes its time. -/
def wakeAt (now : ℕ) {α : Type} : Prog Answer α → ℕ
  | .call (.sleep secs) _ => now + secs * nanosPerSec
  | _ => now

/-- The fragment tasks of a download and what they share. -/
structure Retrying (specs : List FragmentSpec) where
  threads : Fin specs.length → Prog Answer (List Pass × FragmentTaskResult)
  readyAt : Fin specs.length → ℕ
  shared : Shared

/-- All tasks are spawned. -/
def Retrying.start (url : String) (maxRetries : ℕ) (specs : List FragmentSpec) (shared : Shared) :
    Retrying specs where
  threads := fun i =>
    let spec := specs.get i
    recordedTask url maxRetries spec.index spec.start spec.end_
  readyAt := fun _ => shared.now
  shared := shared

/-- The clock advances, or a task that does not sleep has its request answered. -/
inductive RetryingStep {specs : List FragmentSpec} (env : Environment) (url : String) :
    Retrying specs → Retrying specs → Prop where
  | tick {s : Retrying specs} {now : ℕ} (hlater : s.shared.now ≤ now) :
      RetryingStep env url s { s with shared := { s.shared with now := now } }
  | answer {s : Retrying specs} {i : Fin specs.length} {op : Request}
      {k : Answer op → Prog Answer (List Pass × FragmentTaskResult)} {x : Answer op}
      {shared : Shared} (hi : s.threads i = .call op k) (hready : s.readyAt i ≤ s.shared.now)
      (hx : HandlesShared env url op s.shared x shared) :
      RetryingStep env url s {
        threads := Function.update s.threads i (k x)
        readyAt := Function.update s.readyAt i (wakeAt shared.now (k x))
        shared := shared }

/-- What a task reports after these passes. All but the last can be followed by another, and where
the last can too, no attempt is left. -/
def Reports (fragUrl : String) (maxRetries fragIndex : ℕ) (passes : List Pass)
    (result : FragmentTaskResult) : Prop :=
  ∃ earlier last, passes = earlier ++ [last] ∧ (∀ pass ∈ earlier, pass.mayRetry = true) ∧
    result = last.report fragUrl fragIndex ∧ passes.length ≤ maxRetries + 1 ∧
    (last.mayRetry = true → passes.length = maxRetries + 1)

section

variable {env : Environment} {url fragUrl : String} {specs : List FragmentSpec}
  {maxRetries fragIndex fragStart fragEnd : ℕ} {passes : List Pass} {result : FragmentTaskResult}

/-- Whatever a task does, the others are not bound by it. -/
theorem safe_trivial {α : Type} (p : Prog Answer α) (s : Shared) :
    p.Safe (HandlesShared env url) (asking fun _ => True) (fun _ _ => True) s := by
  induction p generalizing s with
  | done a => exact fun _ _ => trivial
  | call op k ih => exact fun s' _ => ⟨trivial, fun x s'' _ => ⟨trivial, ih x s''⟩⟩

theorem safe_ask {α : Type} {op : Request} {f : Answer op → Prog Answer α}
    {post : α → Shared → Prop} {s : Shared}
    (h : ∀ x s s', HandlesShared env url op s x s' →
      (f x).Safe (HandlesShared env url) (asking fun _ => True) post s') :
    (Prog.ask op >>= f).Safe (HandlesShared env url) (asking fun _ => True) post s :=
  fun s' _ => ⟨trivial, fun x s'' hx => ⟨trivial, h x s' s'' hx⟩⟩

/-- A task that ends with a pass reports what the pass came to. -/
theorem safe_report {last : Pass} (hlength : passes.length ≤ maxRetries)
    (hpasses : ∀ pass ∈ passes, pass.mayRetry = true)
    (hlast : last.mayRetry = true → passes.length = maxRetries) {s : Shared} :
    (Prog.done (passes ++ [last], last.report fragUrl fragIndex) : Prog Answer _).Safe
      (HandlesShared env url) (asking fun _ => True)
      (fun r _ => Reports fragUrl maxRetries fragIndex r.1 r.2) s := by
  have hone : (passes ++ [last]).length = passes.length + 1 := by
    rw [List.length_append, List.length_singleton]
  intro s' _
  refine ⟨passes, last, rfl, hpasses, rfl, hone.trans_le (by omega), ?_⟩
  intro hretry
  exact hone.trans (by rw [hlast hretry])

/-- Every way through the retry loop reports what its passes came to. -/
theorem retryPasses_safe {fuel attempt : ℕ} (hfuel : fuel + attempt = maxRetries + 1)
    (hattempt : attempt ≤ maxRetries) (hlength : passes.length = attempt)
    (hpasses : ∀ pass ∈ passes, pass.mayRetry = true) (s : Shared) :
    (retryPasses fragUrl maxRetries fragIndex fragStart fragEnd fuel attempt passes).Safe
      (HandlesShared env url) (asking fun _ => True)
      (fun r _ => Reports fragUrl maxRetries fragIndex r.1 r.2) s := by
  induction fuel generalizing attempt passes s with
  | zero => omega
  | succ fuel ih =>
    have hagain : ∀ last : Pass, last.mayRetry = true → ¬attempt ≥ maxRetries → ∀ s : Shared,
        (retryPasses fragUrl maxRetries fragIndex fragStart fragEnd fuel (attempt + 1)
          (passes ++ [last])).Safe (HandlesShared env url) (asking fun _ => True)
          (fun r _ => Reports fragUrl maxRetries fragIndex r.1 r.2) s := by
      intro last hlast hmore s
      refine ih (by omega) (by omega) ?_ ?_ s
      · rw [List.length_append, hlength, List.length_singleton]
      · intro pass hmem
        rcases List.mem_append.mp hmem with hpass | hpass
        · exact hpasses pass hpass
        · rw [List.mem_singleton.mp hpass]
          exact hlast
    unfold retryPasses
    apply safe_ask
    intro allowed _ s₁ _
    cases allowed with
    | false =>
      rw [Bool.not_false, if_pos rfl]
      by_cases hlast : attempt ≥ maxRetries
      · rw [if_pos hlast]
        exact @safe_report _ _ _ _ _ passes .refused (by omega) hpasses (fun _ => by omega) _
      · rw [if_neg hlast]
        apply safe_ask
        intro _ _ s₂ _
        exact hagain .refused rfl hlast s₂
    | true =>
      rw [Bool.not_true, if_neg Bool.false_ne_true]
      apply safe_ask
      intro slot _ s₂ hslot
      -- nothing closes the semaphore
      obtain ⟨rfl, -, -⟩ := hslot
      refine Prog.Safe.bind (safe_trivial _ s₂) fun result s₃ _ => ?_
      apply safe_ask
      intro _ _ s₄ _
      cases result with
      | ok r =>
        apply safe_ask
        intro _ _ s₅ _
        exact @safe_report _ _ _ _ _ passes (.called (.ok r)) (by omega) hpasses
          (fun h => absurd h Bool.false_ne_true) _
      | error e =>
        cases hretry : e.isRetryable with
        | false =>
          dsimp only
          rw [hretry, Bool.not_false, if_pos rfl]
          apply safe_ask
          intro _ _ s₅ _
          refine @safe_report _ _ _ _ _ passes (.called (.error e)) (by omega) hpasses ?_ _
          intro h
          exact absurd (hretry.symm.trans h) Bool.false_ne_true
        | true =>
          dsimp only
          rw [hretry, Bool.not_true, if_neg Bool.false_ne_true]
          by_cases hlast : attempt ≥ maxRetries
          · rw [if_pos hlast]
            apply safe_ask
            intro _ _ s₅ _
            exact @safe_report _ _ _ _ _ passes (.called (.error e)) (by omega) hpasses
              (fun _ => by omega) _
          · rw [if_neg hlast]
            apply safe_ask
            intro _ _ s₅ _
            apply safe_ask
            intro _ _ s₆ _
            exact hagain (.called (.error e)) hretry hlast s₆

/-- Every task of a run keeps to the law, whatever the others do. -/
theorem retrying_safe {shared : Shared} {s : Retrying specs}
    (hrun : Relation.ReflTransGen (RetryingStep env url) (.start url maxRetries specs shared) s)
    (i : Fin specs.length) : (s.threads i).Safe (HandlesShared env url) (asking fun _ => True)
      (fun r _ => Reports url maxRetries (specs.get i).index r.1 r.2) s.shared := by
  induction hrun generalizing i with
  | refl =>
    exact retryPasses_safe (Nat.add_zero _) (Nat.zero_le _) rfl (by simp) shared
  | tail _ hstep ih =>
    cases hstep with
    | tick => exact (ih i).rely trivial
    | @answer j op k x after hj _ hx =>
      dsimp only
      by_cases hij : i = j
      · subst hij
        have hown := ih i
        rw [hj] at hown
        rw [Function.update_self]
        exact ((hown _ trivial).2 x after hx).2
      · rw [Function.update_of_ne hij]
        exact (ih i).rely trivial

/-- A task that has ended reports what its passes came to. -/
theorem retrying_reports {shared : Shared} {s : Retrying specs}
    (hrun : Relation.ReflTransGen (RetryingStep env url) (.start url maxRetries specs shared) s)
    {i : Fin specs.length} (hdone : s.threads i = .done (passes, result)) :
    Reports url maxRetries (specs.get i).index passes result := by
  have hsafe := retrying_safe hrun i
  rw [hdone] at hsafe
  exact hsafe.post_of_done

theorem Reports.passes_le (h : Reports fragUrl maxRetries fragIndex passes result) :
    passes.length ≤ maxRetries + 1 := by
  obtain ⟨_, _, _, _, _, hle, _⟩ := h
  exact hle

/-- A failure that can be retried is reported when no attempt is left. -/
theorem Reports.retryable (h : Reports fragUrl maxRetries fragIndex passes result) {index : ℕ}
    {e : DownloadError} (herror : result = .error (index, e)) (hretry : e.isRetryable = true) :
    passes.length = maxRetries + 1 ∧ ∀ pass ∈ passes, pass.mayRetry = true := by
  obtain ⟨earlier, last, rfl, hearlier, hreport, -, hall⟩ := h
  have hlast : last.mayRetry = true := by
    rw [herror] at hreport
    match last with
    | .refused => rfl
    | .called (.error e') =>
      obtain ⟨-, rfl⟩ := Prod.mk.inj (Except.error.inj hreport)
      exact hretry
  refine ⟨hall hlast, ?_⟩
  intro pass hmem
  rcases List.mem_append.mp hmem with hpass | hpass
  · exact hearlier pass hpass
  · rw [List.mem_singleton.mp hpass]
    exact hlast

/-- Any other failure is that of the last call. -/
theorem Reports.not_retryable (h : Reports fragUrl maxRetries fragIndex passes result) {index : ℕ}
    {e : DownloadError} (herror : result = .error (index, e)) (hretry : e.isRetryable = false) :
    passes.getLast? = some (.called (.error e)) := by
  obtain ⟨earlier, last, rfl, -, hreport, -, -⟩ := h
  rw [List.getLast?_concat]
  rw [herror] at hreport
  match last with
  | .refused =>
    obtain ⟨-, rfl⟩ := Prod.mk.inj (Except.error.inj hreport)
    cases hretry
  | .called (.error e') =>
    obtain ⟨-, rfl⟩ := Prod.mk.inj (Except.error.inj hreport)
    rfl

/-- A success is reported when a call succeeds, and it is the last one. -/
theorem Reports.success_iff (h : Reports fragUrl maxRetries fragIndex passes result) :
    (∃ r, result = .ok r) ↔ ∃ r, .called (.ok r) ∈ passes := by
  obtain ⟨earlier, last, rfl, hearlier, rfl, -, -⟩ := h
  constructor
  · rintro ⟨r, hok⟩
    match last with
    | .called (.ok r') => exact ⟨r', List.mem_concat_self⟩
  · rintro ⟨r, hmem⟩
    rcases List.mem_append.mp hmem with hpass | hpass
    · exact absurd (hearlier _ hpass) Bool.false_ne_true
    · rw [← List.mem_singleton.mp hpass]
      exact ⟨_, rfl⟩

end

section

variable {env : Environment} {url : String} {specs : List FragmentSpec}

/-- The connection to the source is refused, the storage takes everything. -/
def unreachable (url : String) : (r : Request) → Shared → Answer r × Shared
  | .breakerAllow, s =>
    ((s.breakers.allow url s.now).1, { s with breakers := (s.breakers.allow url s.now).2 })
  | .breakerSuccess, s => ((), { s with breakers := s.breakers.recordSuccess url })
  | .breakerFailure, s => ((), { s with breakers := s.breakers.recordFailure url s.now })
  | .acquireSlot, s => (.ok (), { s with permits := s.permits - 1 })
  | .releaseSlot, s => ((), { s with permits := s.permits + 1 })
  | .openRange _ _, s => (.finished (.error (.network "connection refused")), s)
  | .openFull, s => (.finished (.error (.network "connection refused")), s)
  | .waitControl, s => (.ok (), s)
  | .acquirePool, s => (.ok (), s)
  | .writeAt offset data, s => (.ok data.length, { s with world := s.world.write offset data })
  | .writeAtRaced offset data, s =>
    (.finished (.ok data.length), { s with world := s.world.write offset data })
  | .limiterAcquire _, s => ((), s)
  | .sendProgress message, s => (true, { s with world := s.world.send message })
  | .elapsed, s => (0, s)
  | .sleep _, s => ((), s)

theorem unreachable_handles {r : Request} {s : Shared} (hslot : r = .acquireSlot → 0 < s.permits) :
    HandlesShared .any url r s (unreachable url r s).1 (unreachable url r s).2 := by
  have hwrite : ∀ (offset : ℕ) (data : Bytes),
      Writes s.world offset data (.ok data.length) (s.world.write offset data) := by
    refine fun offset data => ⟨data.length, Nat.le_refl _, fun n hn => ?_, ?_⟩
    · cases hn
      rfl
    · rw [List.take_length]
  cases r with
  | acquireSlot => exact ⟨rfl, hslot rfl, rfl⟩
  | breakerAllow => exact ⟨rfl, rfl⟩
  | breakerSuccess => rfl
  | breakerFailure => rfl
  | releaseSlot => rfl
  | writeAt offset data => exact ⟨_, ⟨trivial, hwrite offset data⟩, rfl⟩
  | writeAtRaced offset data => exact ⟨_, ⟨trivial, hwrite offset data⟩, rfl⟩
  | sendProgress message => exact ⟨_, rfl, rfl⟩
  | _ => exact ⟨s.world, rfl, rfl⟩

/-- A move of a run with such a source. -/
inductive Move (n : ℕ) where
  | wait (secs : ℕ)
  | go (i : Fin n)

/-- A task goes on that is not asleep and need not wait for a slot. -/
def Retrying.go (url : String) (s : Retrying specs) (i : Fin specs.length) :
    Option (Retrying specs) :=
  match s.threads i with
  | .done _ => none
  | .call op k =>
    if s.readyAt i ≤ s.shared.now ∧ (op = .acquireSlot → 0 < s.shared.permits) then
      let answer := unreachable url op s.shared
      some {
        threads := Function.update s.threads i (k answer.1)
        readyAt := Function.update s.readyAt i (wakeAt answer.2.now (k answer.1))
        shared := answer.2 }
    else none

def Retrying.move (url : String) (s : Retrying specs) : Move specs.length → Option (Retrying specs)
  | .wait secs =>
    some { s with shared := { s.shared with now := s.shared.now + secs * nanosPerSec } }
  | .go i => s.go url i

/-- A move is a step. -/
theorem Retrying.move_step {s s' : Retrying specs} {m : Move specs.length}
    (h : s.move url m = some s') : RetryingStep .any url s s' := by
  cases m with
  | wait secs =>
    obtain rfl := Option.some.inj h
    exact .tick (Nat.le_add_right _ _)
  | go i =>
    rw [Retrying.move, Retrying.go] at h
    cases hthread : s.threads i with
    | done r =>
      rw [hthread] at h
      cases h
    | call op k =>
      rw [hthread] at h
      by_cases hready : s.readyAt i ≤ s.shared.now ∧ (op = .acquireSlot → 0 < s.shared.permits)
      · simp only [if_pos hready] at h
        obtain rfl := Option.some.inj h
        exact .answer hthread hready.1 (unreachable_handles hready.2)
      · simp only [if_neg hready] at h
        cases h

/-- Moves one after another are a run. -/
theorem Retrying.moves_run {moves : List (Move specs.length)} {s s' : Retrying specs}
    (h : moves.foldlM (Retrying.move url) s = some s') :
    Relation.ReflTransGen (RetryingStep .any url) s s' := by
  induction moves generalizing s with
  | nil =>
    obtain rfl := Option.some.inj h
    exact .refl
  | cons m moves ih =>
    rw [List.foldlM_cons] at h
    obtain ⟨s₁, hmove, hrest⟩ := Option.bind_eq_some_iff.mp h
    exact .head (Retrying.move_step hmove) (ih hrest)

end

/-- Two fragments take turns until the breaker opens, and the second one waits for it. -/
def twoFragments : List FragmentSpec := [⟨0, 0, 9⟩, ⟨1, 10, 19⟩]

/-- The moves of one failing call, with the sleep before it. -/
def failingCall (i : Fin 2) : List (Move 2) := List.replicate 8 (.go i)

def breakerOpens : List (Move 2) :=
  List.replicate 7 (.go 0) ++ List.replicate 7 (.go 1) ++ [.wait 1] ++
    failingCall 0 ++ failingCall 1 ++ [.wait 2] ++ failingCall 0 ++
    [.go 1, .go 1, .wait 1, .go 1, .go 1]

/-- What the tasks share at first: a breaker that opens for half a minute after five failures. -/
def firstShared : Shared := ⟨0, .new 5 (30 * nanosPerSec), 2, .initial []⟩

/-- A fragment task has ended with a retryable error after so many calls. -/
def failedAfter (n : ℕ) : Prog Answer (List Pass × FragmentTaskResult) → Bool
  | .done (passes, .error (_, e)) => e.isRetryable && calls passes == n
  | _ => false

theorem breakerOpens_run : ∃ s : Retrying twoFragments,
    Relation.ReflTransGen (RetryingStep .any "http://a/f")
      (.start "http://a/f" 3 twoFragments firstShared) s ∧
    ∃ passes index e, s.threads ⟨1, by decide⟩ = .done (passes, .error (index, e)) ∧
      e.isRetryable = true ∧ calls passes = 2 := by
  have hrun : (breakerOpens.foldlM (Retrying.move "http://a/f")
      (Retrying.start "http://a/f" 3 twoFragments firstShared)).any
        (fun s => failedAfter 2 (s.threads ⟨1, by decide⟩)) = true := by
    decide +kernel
  obtain ⟨s, hs, hend⟩ := (Option.any_eq_true _ _).mp hrun
  refine ⟨s, Retrying.moves_run hs, ?_⟩
  cases hthread : s.threads ⟨1, by decide⟩ with
  | call op k =>
    rw [hthread] at hend
    cases hend
  | done r =>
    rw [hthread] at hend
    obtain ⟨passes, result⟩ := r
    cases result with
    | ok _ => cases hend
    | error failure =>
      rw [failedAfter, Bool.and_eq_true, beq_iff_eq] at hend
      exact ⟨passes, failure.1, failure.2, rfl, hend⟩

end Tachyon
