import Tachyon.Engine.CircuitBreaker
import Tachyon.Library.EventRuns
import Mathlib.Data.List.Count
import Mathlib.Data.List.Perm.Basic

/-!
# The half-open breaker

A breaker that was open for its time lets one request through to try the source. A result does not
say which request it is of, so one of a request from before can close the breaker, or open it
again and let a second request through.
-/

namespace Tachyon

open EventRuns

/-- What the code does not keep of a request that was admitted and has not recorded its result. -/
structure Admission where
  /-- The breaker was half-open. -/
  probe : Bool
  /-- The breaker has opened since. -/
  late : Bool
  deriving DecidableEq

/-- The calls of the requests on one source. -/
inductive BreakerEvent where
  /-- Time goes on. -/
  | tick (nanos : ℕ)
  | allow
  /-- The `k`-th outstanding request records a success. -/
  | recordSuccess (k : ℕ)
  | recordFailure (k : ℕ)

/-- The breakers, the time, and the outstanding requests on the source. -/
structure BreakerSystem where
  breakers : SourceCircuitBreakers
  now : ℕ
  outstanding : List Admission

namespace CircuitBreaker

/-- The test of `record_failure`. -/
def opens (b : CircuitBreaker) : Bool := b.failureThreshold ≤ (b.failureCount + 1) % u32Bound

end CircuitBreaker

namespace BreakerSystem

def new (failureThreshold openDuration : ℕ) : BreakerSystem :=
  ⟨.new failureThreshold openDuration, 0, []⟩

/-- The breaker of the source. -/
def breaker (s : BreakerSystem) (source : String) : CircuitBreaker := s.breakers.entry source

/-- The breaker of the source opens. -/
def markLate (opened : Bool) (outstanding : List Admission) : List Admission :=
  outstanding.map fun a => { a with late := a.late || opened }

def step (source : String) (s : BreakerSystem) : BreakerEvent → Option BreakerSystem
  | .tick nanos => some { s with now := s.now + nanos }
  | .allow =>
    let (allowed, breakers) := s.breakers.allow source s.now
    let probe := (s.breaker source).state s.now = .halfOpen
    some { s with
      breakers := breakers
      outstanding := if allowed then s.outstanding ++ [⟨probe, false⟩] else s.outstanding }
  | .recordSuccess k => do
    let _ ← s.outstanding[k]?
    some { s with
      breakers := s.breakers.recordSuccess source
      outstanding := s.outstanding.eraseIdx k }
  | .recordFailure k => do
    let _ ← s.outstanding[k]?
    some { s with
      breakers := s.breakers.recordFailure source s.now
      outstanding := markLate (s.breaker source).opens (s.outstanding.eraseIdx k) }

/-- The requests that were let through to try. -/
def probes (s : BreakerSystem) : ℕ := s.outstanding.countP Admission.probe

/-- The request whose result is recorded. -/
def recorder (s : BreakerSystem) : BreakerEvent → Option Admission
  | .recordSuccess k | .recordFailure k => s.outstanding[k]?
  | _ => none

/-- While the breaker is half-open at most one probe is outstanding, and no request from before it
opened closes it. -/
def Exclusive (source : String) (s : BreakerSystem) (e : BreakerEvent) : Prop :=
  ∀ s', s.step source e = some s' →
    ((s'.breaker source).state s'.now = .halfOpen → s'.probes ≤ 1) ∧
      ∀ a, s.recorder e = some a → a.late = true → (s.breaker source).openedAt.isSome →
        (s'.breaker source).openedAt.isSome

/-- No request records a success while the breaker is not closed that has opened since the request
was admitted, and none asks the half-open breaker while a probe is outstanding since whose
admission it has opened. -/
def Orderly (source : String) (s : BreakerSystem) : BreakerEvent → Prop
  | .allow => (s.breaker source).state s.now = .halfOpen →
      ∀ a ∈ s.outstanding, a.probe = true → a.late = false
  | .recordSuccess k => ∀ a, s.outstanding[k]? = some a → a.late = true →
      (s.breaker source).openedAt = none
  | _ => True

end BreakerSystem

/-! ### The breaker of the source -/

namespace SourceCircuitBreakers

variable (s : SourceCircuitBreakers) (source : String) (now : ℕ)

theorem entry_insert (b : CircuitBreaker) : (s.insert source b).entry source = b := by
  change (Function.update s.breakers source (some b) source).getD _ = b
  rw [Function.update_self, Option.getD_some]

theorem entry_allow : (s.allow source now).2.entry source = ((s.entry source).allow now).2 :=
  s.entry_insert source _

theorem entry_recordFailure :
    (s.recordFailure source now).entry source = (s.entry source).recordFailure now :=
  s.entry_insert source _

theorem entry_recordSuccess :
    (s.recordSuccess source).entry source = (s.entry source).recordSuccess := by
  cases hb : s.breakers source with
  | none =>
    have hnew : s.entry source = .new s.failureThreshold s.openDuration := by
      rw [entry, hb, Option.getD_none]
    have hsame : s.recordSuccess source = s := by rw [recordSuccess, hb]
    rw [hsame, hnew]
    rfl
  | some b =>
    have hold : s.entry source = b := by rw [entry, hb, Option.getD_some]
    have hinsert : s.recordSuccess source = s.insert source b.recordSuccess := by
      rw [recordSuccess, hb]
    rw [hinsert, hold, entry_insert]

end SourceCircuitBreakers

namespace CircuitBreaker

variable {b : CircuitBreaker} {now : ℕ}

theorem state_eq_closed : b.state now = .closed ↔ b.openedAt = none := by
  unfold state
  cases b.openedAt with
  | none => simp
  | some openedAt =>
    dsimp only
    split <;> simp

theorem isSome_openedAt_of_halfOpen (h : b.state now = .halfOpen) : b.openedAt.isSome := by
  rw [Option.isSome_iff_ne_none]
  intro hclosed
  rw [state_eq_closed.mpr hclosed] at h
  exact absurd h (by decide)

/-- What `allow` does in each state. -/
theorem allow_cases (b : CircuitBreaker) (now : ℕ) :
    (b.openedAt = none ∧ b.allow now = (true, b)) ∨
    (b.state now = .opened ∧ b.allow now = (false, b)) ∨
    (b.state now = .halfOpen ∧ b.halfOpenProbeSent = true ∧ b.allow now = (false, b)) ∨
    (b.state now = .halfOpen ∧ b.halfOpenProbeSent = false ∧
      b.allow now = (true, { b with halfOpenProbeSent := true })) := by
  unfold allow
  cases hstate : b.state now with
  | closed => exact Or.inl ⟨state_eq_closed.mp hstate, rfl⟩
  | opened => exact Or.inr (Or.inl ⟨rfl, rfl⟩)
  | halfOpen =>
    cases hsent : b.halfOpenProbeSent with
    | true => exact Or.inr (Or.inr (Or.inl ⟨rfl, rfl, if_pos rfl⟩))
    | false => exact Or.inr (Or.inr (Or.inr ⟨rfl, rfl, if_neg Bool.false_ne_true⟩))

/-- What `record_failure` does. -/
theorem recordFailure_cases (b : CircuitBreaker) (now : ℕ) :
    (b.opens = true ∧ (b.recordFailure now).openedAt = some now ∧
      (b.recordFailure now).halfOpenProbeSent = false) ∨
    (b.opens = false ∧ (b.recordFailure now).openedAt = b.openedAt ∧
      (b.recordFailure now).halfOpenProbeSent = b.halfOpenProbeSent) := by
  unfold recordFailure opens
  by_cases h : b.failureThreshold ≤ (b.failureCount + 1) % u32Bound
  · exact Or.inl ⟨decide_eq_true h, by rw [if_pos h], by rw [if_pos h]⟩
  · exact Or.inr ⟨decide_eq_false h, by rw [if_neg h], by rw [if_neg h]⟩

end CircuitBreaker

namespace BreakerSystem

variable {source : String} {s s' : BreakerSystem} {e : BreakerEvent}

/-! ### One step -/

theorem exists_allow (s : BreakerSystem) (source : String) :
    ∃ s', s.step source .allow = some s' ∧ s'.now = s.now ∧
      s'.breaker source = ((s.breaker source).allow s.now).2 ∧
      s'.outstanding = if ((s.breaker source).allow s.now).1 then
        s.outstanding ++ [⟨(s.breaker source).state s.now = .halfOpen, false⟩]
        else s.outstanding :=
  ⟨_, rfl, rfl, s.breakers.entry_allow source s.now, rfl⟩

/-- What a step does to the breaker of the source and to the outstanding requests. -/
theorem step_cases (h : s.step source e = some s') :
    (∃ nanos, e = .tick nanos ∧ s'.breaker source = s.breaker source ∧
      s'.outstanding = s.outstanding) ∨
    (e = .allow ∧ s'.now = s.now ∧
      s'.breaker source = ((s.breaker source).allow s.now).2 ∧
      s'.outstanding = if ((s.breaker source).allow s.now).1 then
        s.outstanding ++ [⟨(s.breaker source).state s.now = .halfOpen, false⟩]
        else s.outstanding) ∨
    (∃ k a, e = .recordSuccess k ∧ s.outstanding[k]? = some a ∧
      s'.breaker source = (s.breaker source).recordSuccess ∧
      s'.outstanding = s.outstanding.eraseIdx k) ∨
    (∃ k a, e = .recordFailure k ∧ s.outstanding[k]? = some a ∧
      s'.breaker source = (s.breaker source).recordFailure s.now ∧
      s'.outstanding = markLate (s.breaker source).opens (s.outstanding.eraseIdx k)) := by
  cases e with
  | tick nanos =>
    cases h
    exact Or.inl ⟨nanos, rfl, rfl, rfl⟩
  | allow =>
    obtain ⟨s₁, hs₁, hallow⟩ := s.exists_allow source
    obtain rfl := Option.some.inj (hs₁.symm.trans h)
    exact Or.inr (Or.inl ⟨rfl, hallow⟩)
  | recordSuccess k =>
    obtain ⟨a, ha, h⟩ := Option.bind_eq_some_iff.mp h
    cases h
    exact Or.inr (Or.inr (Or.inl ⟨k, a, rfl, ha, s.breakers.entry_recordSuccess source, rfl⟩))
  | recordFailure k =>
    obtain ⟨a, ha, h⟩ := Option.bind_eq_some_iff.mp h
    cases h
    exact Or.inr (Or.inr (Or.inr
      ⟨k, a, rfl, ha, s.breakers.entry_recordFailure source s.now, rfl⟩))

/-- A recorded request is no longer outstanding. -/
theorem countP_eraseIdx_add {l : List Admission} {k : ℕ} {a : Admission} (ha : l[k]? = some a) :
    (l.eraseIdx k).countP Admission.probe + (if a.probe then 1 else 0) =
      l.countP Admission.probe := by
  obtain ⟨hk, rfl⟩ := List.getElem?_eq_some_iff.mp ha
  rw [← List.Perm.countP_eq Admission.probe (List.getElem_cons_eraseIdx_perm hk), List.countP_cons]

theorem countP_markLate (opened : Bool) (l : List Admission) :
    (markLate opened l).countP Admission.probe = l.countP Admission.probe := by
  rw [markLate, List.countP_map]
  rfl

theorem mem_markLate {opened : Bool} {l : List Admission} {a : Admission} :
    a ∈ markLate opened l ↔ ∃ b ∈ l, a.probe = b.probe ∧ a.late = (b.late || opened) := by
  unfold markLate
  constructor
  · intro ha
    obtain ⟨b, hb, rfl⟩ := List.mem_map.mp ha
    exact ⟨b, hb, rfl, rfl⟩
  · rintro ⟨b, hb, hprobe, hlate⟩
    refine List.mem_map.mpr ⟨b, hb, ?_⟩
    rw [← hlate, ← hprobe]

theorem markLate_false (l : List Admission) : markLate false l = l := by
  unfold markLate
  simp only [Bool.or_false, List.map_id']

/-! ### At most one probe -/

/-- What an orderly run keeps. -/
structure OneProbe (source : String) (s : BreakerSystem) : Prop where
  atMostOne : s.probes ≤ 1
  closed : (s.breaker source).openedAt = none → s.probes = 0
  /-- While the breaker is not closed, the requests that are not probes are from before. -/
  before : (s.breaker source).openedAt.isSome →
    ∀ a ∈ s.outstanding, a.probe = false → a.late = true
  /-- A probe since the breaker opened last was counted. -/
  sent : (s.breaker source).openedAt.isSome →
    ∀ a ∈ s.outstanding, a.probe = true → a.late = false →
      (s.breaker source).halfOpenProbeSent = true
  /-- While a probe is counted, it is the one outstanding. -/
  counted : (s.breaker source).halfOpenProbeSent = true →
    ∀ a ∈ s.outstanding, a.probe = true → a.late = false

theorem OneProbe.new (source : String) (failureThreshold openDuration : ℕ) :
    (new failureThreshold openDuration).OneProbe source where
  atMostOne := Nat.zero_le 1
  closed _ := rfl
  before _ _ ha := absurd ha List.not_mem_nil
  sent _ _ ha := absurd ha List.not_mem_nil
  counted _ _ ha := absurd ha List.not_mem_nil

theorem OneProbe.congr (h : s.OneProbe source) (hb : s'.breaker source = s.breaker source)
    (ho : s'.outstanding = s.outstanding) : s'.OneProbe source := by
  have hprobes : s'.probes = s.probes := by rw [probes, probes, ho]
  constructor
  · exact hprobes ▸ h.atMostOne
  · exact hb ▸ hprobes ▸ h.closed
  · exact hb ▸ ho ▸ h.before
  · exact hb ▸ ho ▸ h.sent
  · exact hb ▸ ho ▸ h.counted

/-- The breaker lets its one request through. -/
theorem OneProbe.admit (h : s.OneProbe source)
    (hstate : (s.breaker source).state s.now = .halfOpen)
    (hnone : ∀ a ∈ s.outstanding, a.probe = false)
    (hb : s'.breaker source = { s.breaker source with halfOpenProbeSent := true })
    (ho : s'.outstanding = s.outstanding ++ [⟨true, false⟩]) : s'.OneProbe source := by
  have hopened := CircuitBreaker.isSome_openedAt_of_halfOpen hstate
  have hzero : s.outstanding.countP Admission.probe = 0 :=
    List.countP_eq_zero.mpr fun a ha => by
      rw [hnone a ha]
      exact Bool.false_ne_true
  have hlast : ∀ a ∈ s'.outstanding, a ∈ s.outstanding ∨ a = ⟨true, false⟩ := by
    intro a ha
    rw [ho, List.mem_append, List.mem_singleton] at ha
    exact ha
  constructor
  · rw [probes, ho, List.countP_append, hzero]
    decide
  · rw [hb]
    exact fun hclosed => absurd hclosed (Option.isSome_iff_ne_none.mp hopened)
  · intro _ a ha hprobe
    rcases hlast a ha with ha | rfl
    · exact h.before hopened a ha hprobe
    · exact absurd hprobe (by decide)
  · rw [hb]
    exact fun _ _ _ _ _ => rfl
  · intro _ a ha hprobe
    rcases hlast a ha with ha | rfl
    · rw [hnone a ha] at hprobe
      exact absurd hprobe Bool.false_ne_true
    · rfl

/-- The breaker is closed and lets every request through. -/
theorem OneProbe.pass (h : s.OneProbe source) (hclosed : (s.breaker source).openedAt = none)
    (hb : s'.breaker source = s.breaker source)
    (ho : s'.outstanding = s.outstanding ++ [⟨false, false⟩]) : s'.OneProbe source := by
  have hzero : s'.probes = 0 := by
    rw [probes, ho, List.countP_append, ← probes, h.closed hclosed]
    rfl
  have hnot : ¬(s'.breaker source).openedAt.isSome := by
    rw [hb, hclosed]
    exact Bool.false_ne_true
  have hnone : ∀ a ∈ s'.outstanding, a.probe ≠ true := List.countP_eq_zero.mp hzero
  constructor
  · rw [hzero]
    exact Nat.zero_le 1
  · exact fun _ => hzero
  · exact fun hopened => absurd hopened hnot
  · exact fun hopened => absurd hopened hnot
  · exact fun _ a ha hprobe => absurd hprobe (hnone a ha)

/-- A success of a request since the breaker opened last: of the probe, if it is not closed. -/
theorem OneProbe.success {k : ℕ} {a : Admission} (h : s.OneProbe source)
    (ha : s.outstanding[k]? = some a)
    (horderly : a.late = true → (s.breaker source).openedAt = none)
    (hb : s'.breaker source = (s.breaker source).recordSuccess)
    (ho : s'.outstanding = s.outstanding.eraseIdx k) : s'.OneProbe source := by
  have hcount : s'.probes + (if a.probe then 1 else 0) = s.probes := by
    rw [probes, ho]
    exact countP_eraseIdx_add ha
  have hzero : s'.probes = 0 := by
    cases hopened : (s.breaker source).openedAt with
    | none =>
      have := h.closed hopened
      omega
    | some openedAt =>
      have hsome : (s.breaker source).openedAt.isSome := by rw [hopened]; rfl
      have hprobe : a.probe = true := by
        by_contra hprobe
        have hlate := h.before hsome a (List.mem_of_getElem? ha)
          (Bool.eq_false_of_not_eq_true hprobe)
        rw [horderly hlate] at hsome
        exact absurd hsome Bool.false_ne_true
      have hone := h.atMostOne
      rw [if_pos hprobe] at hcount
      omega
  have hnone : ∀ a ∈ s'.outstanding, a.probe ≠ true := List.countP_eq_zero.mp hzero
  constructor
  · rw [hzero]
    exact Nat.zero_le 1
  · exact fun _ => hzero
  · rw [hb]
    exact fun hopened => absurd hopened Bool.false_ne_true
  · rw [hb]
    exact fun hopened => absurd hopened Bool.false_ne_true
  · exact fun _ a ha hprobe => absurd hprobe (hnone a ha)

/-- A failure either opens the breaker, and then every outstanding request is from before, or only
counts. -/
theorem OneProbe.failure {k : ℕ} {a : Admission} (h : s.OneProbe source)
    (ha : s.outstanding[k]? = some a)
    (hb : s'.breaker source = (s.breaker source).recordFailure s.now)
    (ho : s'.outstanding = markLate (s.breaker source).opens (s.outstanding.eraseIdx k)) :
    s'.OneProbe source := by
  have hle : s'.probes ≤ s.probes := by
    have := countP_eraseIdx_add ha
    rw [probes, ho, countP_markLate, probes]
    omega
  have hsub : ∀ b ∈ s.outstanding.eraseIdx k, b ∈ s.outstanding :=
    fun b hb => (List.eraseIdx_sublist s.outstanding k).subset hb
  obtain ⟨hopens, hopened, hsent⟩ | ⟨hopens, hopened, hsent⟩ :=
    (s.breaker source).recordFailure_cases s.now
  · have hlate : ∀ b ∈ s'.outstanding, b.late = true := by
      intro b hb
      rw [ho, hopens] at hb
      obtain ⟨c, -, -, hlate⟩ := mem_markLate.mp hb
      rw [hlate, Bool.or_true]
    constructor
    · exact hle.trans h.atMostOne
    · rw [hb, hopened]
      exact fun hclosed => absurd hclosed (Option.some_ne_none _)
    · exact fun _ b hb _ => hlate b hb
    · intro _ b hb _ hfalse
      rw [hlate b hb] at hfalse
      exact absurd hfalse (by decide)
    · rw [hb, hsent]
      exact fun hfalse => absurd hfalse Bool.false_ne_true
  · rw [hopens, markLate_false] at ho
    constructor
    · exact hle.trans h.atMostOne
    · rw [hb, hopened]
      exact fun hclosed => Nat.le_zero.mp (h.closed hclosed ▸ hle)
    · rw [hb, hopened, ho]
      exact fun hsome b hb => h.before hsome b (hsub b hb)
    · rw [hb, hopened, hsent, ho]
      exact fun hsome b hb => h.sent hsome b (hsub b hb)
    · rw [hb, hsent, ho]
      exact fun hcounted b hb => h.counted hcounted b (hsub b hb)

/-- A request that asks the half-open breaker finds no probe from before, where it lets no second
one through. -/
theorem OneProbe.orderly_allow (h : s.OneProbe source) (hexclusive : s.Exclusive source .allow) :
    s.Orderly source .allow := by
  intro hhalf a ha hprobe
  obtain ⟨hclosed, -⟩ | ⟨hstate, -⟩ | ⟨-, hsent, -⟩ | ⟨-, hsent, hallow⟩ :=
    (s.breaker source).allow_cases s.now
  · rw [CircuitBreaker.state_eq_closed.mpr hclosed] at hhalf
    exact absurd hhalf (by decide)
  · rw [hstate] at hhalf
    exact absurd hhalf (by decide)
  · exact h.counted hsent a ha hprobe
  · obtain ⟨s', hs', hnow, hb, ho⟩ := s.exists_allow source
    rw [hallow] at hb ho
    rw [if_pos rfl] at ho
    have hstill : (s'.breaker source).state s'.now = .halfOpen := by
      rw [hb, hnow]
      exact hhalf
    have hone := (hexclusive s' hs').1 hstill
    rw [probes, ho, hhalf, List.countP_append] at hone
    have hpos : 0 < s.outstanding.countP Admission.probe := List.countP_pos_iff.mpr ⟨a, ha, hprobe⟩
    have hlast : List.countP Admission.probe
        [⟨decide (CircuitState.halfOpen = .halfOpen), false⟩] = 1 := rfl
    omega

/-- A step that shows the property meets the condition. -/
theorem OneProbe.orderly (h : s.OneProbe source) (hexclusive : s.Exclusive source e)
    (hs : s.step source e = some s') : s.Orderly source e := by
  cases e with
  | tick nanos => exact trivial
  | allow => exact h.orderly_allow hexclusive
  | recordFailure k => exact trivial
  | recordSuccess k =>
    intro a ha hlate
    by_contra hopened
    have hstill := (hexclusive s' hs).2 a ha hlate (Option.isSome_iff_ne_none.mpr hopened)
    obtain ⟨_, he, -⟩ | ⟨he, -⟩ | ⟨_, _, -, -, hb, -⟩ | ⟨_, _, he, -⟩ := step_cases hs
    · cases he
    · cases he
    · rw [hb] at hstill
      exact absurd hstill Bool.false_ne_true
    · cases he

/-- A step that meets the condition keeps the invariant. -/
theorem OneProbe.step (h : s.OneProbe source) (horderly : s.Orderly source e)
    (hs : s.step source e = some s') : s'.OneProbe source := by
  obtain ⟨_, rfl, hb, ho⟩ | ⟨rfl, -, hb, ho⟩ | ⟨k, a, rfl, ha, hb, ho⟩ | ⟨k, a, rfl, ha, hb, ho⟩ :=
    step_cases hs
  · exact h.congr hb ho
  · obtain ⟨hclosed, hallow⟩ | ⟨-, hallow⟩ | ⟨-, -, hallow⟩ | ⟨hstate, hsent, hallow⟩ :=
      (s.breaker source).allow_cases s.now
    · rw [hallow] at hb ho
      rw [if_pos rfl, CircuitBreaker.state_eq_closed.mpr hclosed] at ho
      exact h.pass hclosed hb ho
    · rw [hallow] at hb ho
      exact h.congr hb (by rw [ho, if_neg Bool.false_ne_true])
    · rw [hallow] at hb ho
      exact h.congr hb (by rw [ho, if_neg Bool.false_ne_true])
    · rw [hallow] at hb ho
      rw [if_pos rfl, hstate] at ho
      refine h.admit hstate (fun a ha => ?_) hb ho
      by_contra hprobe
      have hprobe := Bool.eq_true_of_not_eq_false hprobe
      have hcounted := h.sent (CircuitBreaker.isSome_openedAt_of_halfOpen hstate) a ha hprobe
        (horderly hstate a ha hprobe)
      rw [hsent] at hcounted
      exact Bool.false_ne_true hcounted
  · exact h.success ha (horderly a ha) hb ho
  · exact h.failure ha hb ho

/-- A step that meets the condition shows the property. -/
theorem OneProbe.exclusive (h : s.OneProbe source) (horderly : s.Orderly source e) :
    s.Exclusive source e := by
  intro s' hs
  refine ⟨fun _ => (h.step horderly hs).atMostOne, fun a ha hlate hopened => ?_⟩
  obtain ⟨_, rfl, hb, -⟩ | ⟨rfl, -⟩ | ⟨k, b, rfl, -⟩ | ⟨k, b, rfl, -, hb, -⟩ := step_cases hs
  · rw [hb]
    exact hopened
  · exact absurd ha (Option.some_ne_none a).symm
  · rw [horderly a ha hlate] at hopened
    exact absurd hopened Bool.false_ne_true
  · rw [hb]
    obtain ⟨-, hstill, -⟩ | ⟨-, hstill, -⟩ := (s.breaker source).recordFailure_cases s.now
    · rw [hstill]
      rfl
    · rw [hstill]
      exact hopened

/-! ### Every run -/

/-- The half-open breaker has at most one probe out, and no request from before it opened closes
it, in exactly the runs in which no late success arrives while it is not closed, and none asks for
a probe while an earlier one is out since whose admission it has opened again. -/
theorem half_open_exclusive_iff (source : String) (failureThreshold openDuration : ℕ)
    (events : List BreakerEvent) :
    EachStep (BreakerSystem.step source) (Exclusive source)
        (BreakerSystem.new failureThreshold openDuration) events ↔
      EachStep (BreakerSystem.step source) (Orderly source)
        (BreakerSystem.new failureThreshold openDuration) events := by
  have hnew := OneProbe.new source failureThreshold openDuration
  constructor
  · intro h
    refine h.imp (fun s e s' hinv hexclusive hs => ?_) hnew
    have horderly := hinv.orderly hexclusive hs
    exact ⟨horderly, hinv.step horderly hs⟩
  · intro h
    refine h.imp (fun s e s' hinv horderly hs => ?_) hnew
    exact ⟨hinv.exclusive horderly, hinv.step horderly hs⟩

/-- Two requests are admitted. The first fails and the breaker opens, and later it lets a third one
through to try. Then the second fails, and when the time is over again a fourth is let through, with
the third still out. -/
theorem second_probe_admitted :
    ¬∀ (source : String) (failureThreshold openDuration : ℕ) (events : List BreakerEvent),
      EachStep (BreakerSystem.step source) (Exclusive source)
        (BreakerSystem.new failureThreshold openDuration) events := by
  intro hall
  have h := hall "s" 1 10
    [.allow, .allow, .recordFailure 0, .tick 10, .allow, .recordFailure 0, .tick 10, .allow]
  -- the state before the last request asks
  have hbefore := (((((((h _ rfl).2 _ rfl).2 _ rfl).2 _ rfl).2 _ rfl).2 _ rfl).2 _ rfl).2
  have hlast := ((hbefore _ rfl).1 _ rfl).1
  exact absurd (hlast rfl) (by decide)

end BreakerSystem

end Tachyon
