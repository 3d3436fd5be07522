import Tachyon.Core.Types
import Tachyon.Library.EventRuns
import Tachyon.Library.WatchChannel
import Mathlib.Data.List.Induction

/-!
# Waiting on the control channel

`wait_control_rx` and `watch_for_interrupt` as state machines over the control channel and the
clock. The senders, the clock and the runtime that polls the waiting task take their steps in
any order; a look at the channel, the start of the pause timer and each poll are steps of
their own.
-/

namespace Tachyon

open WatchChannel EventRuns

/-- Where a wait on the control channel is. -/
inductive Waiting where
  /-- Before `borrow_and_update`. -/
  | reading
  /-- A pause was read; the timer of `timeout` is not set yet. -/
  | arming
  /-- In `rx.changed()` under the timer. -/
  | paused (deadline : ℕ)
  /-- In `rx.changed()` without a timer. -/
  | running
  | returned (result : DownloadResult Unit)
  deriving DecidableEq

/-- A wait with the channel and the clock, in milliseconds. -/
structure Waiter where
  channel : Channel DownloadState
  now : ℕ
  /-- How many values the receiver has seen. -/
  seen : ℕ
  phase : Waiting
  deriving DecidableEq

/-- A wait that begins. -/
def Waiter.new (channel : Channel DownloadState) (now : ℕ) (seen : ℕ) : Waiter :=
  ⟨channel, now, seen, .reading⟩

/-- The senders, the clock, or a step of the waiting task. -/
inductive ControlEvent where
  | sender (e : SenderEvent DownloadState)
  | elapse (millis : ℕ)
  | advance
  deriving DecidableEq

/-- `DownloadError::Timeout` of a pause that took too long. -/
def pauseTimeoutError (secs : ℕ) : DownloadError := .timeout s!"暂停超过 {secs} 秒"

/-- What `borrow_and_update` leads to. The two functions differ in a running state: one returns,
the other stays for a change. -/
def afterRead (stay : Bool) : DownloadState → Waiting
  | .cancelled => .returned (.error .cancelled)
  | .failed => .returned (.error (.other "任务已失败"))
  | .paused => .arming
  | _ => if stay then .running else .returned (.ok ())

/-- A step of the loop of `wait_control_rx` and `watch_for_interrupt`. `timeout` polls
`rx.changed()` before its timer. -/
def Waiter.advance (stay : Bool) (pauseTimeoutSecs : ℕ) (w : Waiter) : Waiter :=
  match w.phase with
  | .reading => { w with seen := w.channel.version, phase := afterRead stay w.channel.value }
  | .arming => { w with phase := .paused (w.now + 1000 * pauseTimeoutSecs) }
  | .paused deadline =>
    match w.channel.change w.seen with
    | .changed => { w with seen := w.channel.version, phase := .reading }
    | .closed => { w with phase := .returned (.error (.other "控制通道已关闭")) }
    | .pending =>
      if deadline ≤ w.now then
        { w with phase := .returned (.error (pauseTimeoutError pauseTimeoutSecs)) }
      else w
  | .running =>
    match w.channel.change w.seen with
    | .changed => { w with seen := w.channel.version, phase := .reading }
    | .closed => { w with phase := .returned (.error (.other "控制通道意外关闭")) }
    | .pending => w
  | .returned _ => w

/-- One event of a wait. -/
def Waiter.step (stay : Bool) (pauseTimeoutSecs : ℕ) (w : Waiter) : ControlEvent → Option Waiter
  | .sender e => (w.channel.step e).map fun c => { w with channel := c }
  | .elapse millis => some { w with now := w.now + millis }
  | .advance => some (w.advance stay pauseTimeoutSecs)

/-- `DownloadTask::wait_control_rx`: a running state ends the wait. -/
def waitControlRx (pauseTimeoutSecs : ℕ) : Waiter → ControlEvent → Option Waiter :=
  Waiter.step false pauseTimeoutSecs

/-- `DownloadTask::watch_for_interrupt`: a running state is waited out. -/
def watchForInterrupt (pauseTimeoutSecs : ℕ) : Waiter → ControlEvent → Option Waiter :=
  Waiter.step true pauseTimeoutSecs

/-- A state in which a download goes on. -/
def DownloadState.isRunning : DownloadState → Bool
  | .cancelled | .failed | .paused => false
  | _ => true

/-- How many values the events send. -/
def sendsOf : List ControlEvent → ℕ
  | [] => 0
  | .sender e :: es => e.sends + sendsOf es
  | _ :: es => sendsOf es

/-- How much time passes in the events, in milliseconds. -/
def elapsedIn : List ControlEvent → ℕ
  | [] => 0
  | .elapse millis :: es => millis + elapsedIn es
  | _ :: es => elapsedIn es

/-- How often the waiting task is polled. -/
def advancesIn : List ControlEvent → ℕ
  | [] => 0
  | .advance :: es => advancesIn es + 1
  | _ :: es => advancesIn es

section

variable {es es' : List ControlEvent} {state : DownloadState} {stay : Bool}

theorem sendsOf_append : sendsOf (es ++ es') = sendsOf es + sendsOf es' := by
  induction es with
  | nil => exact (Nat.zero_add _).symm
  | cons e es ih =>
    cases e with
    | sender e =>
      simp only [List.cons_append, sendsOf, ih]
      omega
    | elapse _ => exact ih
    | advance => exact ih

theorem elapsedIn_append : elapsedIn (es ++ es') = elapsedIn es + elapsedIn es' := by
  induction es with
  | nil => exact (Nat.zero_add _).symm
  | cons e es ih =>
    cases e with
    | sender e => exact ih
    | elapse millis =>
      simp only [List.cons_append, elapsedIn, ih]
      omega
    | advance => exact ih

theorem afterRead_running (h : state.isRunning = true) :
    afterRead stay state = if stay then .running else .returned (.ok ()) := by
  cases state <;> first | rfl | cases h

end

/-! ### Why a wait returned -/

/-- The cause of an answer: the last value read, what happened since, and whether the senders
are gone. -/
inductive Cause (stay : Bool) (secs : ℕ) (value : DownloadState) (since : List ControlEvent)
    (closed : Bool) : DownloadResult Unit → Prop where
  | cancelled (hvalue : value = .cancelled) (hsince : since = []) :
      Cause stay secs value since closed (.error .cancelled)
  | failed (hvalue : value = .failed) (hsince : since = []) :
      Cause stay secs value since closed (.error (.other "任务已失败"))
  | running (hvalue : value.isRunning = true) (hsince : since = []) (hstay : stay = false) :
      Cause stay secs value since closed (.ok ())
  | timedOut (hvalue : value = .paused) (hsends : sendsOf since = 0)
      (helapsed : 1000 * secs ≤ elapsedIn since) :
      Cause stay secs value since closed (.error (pauseTimeoutError secs))
  | closedWhilePaused (hvalue : value = .paused) (hsends : sendsOf since = 0)
      (hclosed : closed = true) :
      Cause stay secs value since closed (.error (.other "控制通道已关闭"))
  | closedWhileRunning (hvalue : value.isRunning = true) (hsends : sendsOf since = 0)
      (hclosed : closed = true) (hstay : stay = true) :
      Cause stay secs value since closed (.error (.other "控制通道意外关闭"))

/-- The last look at the channel in a run: the state it was taken in and the events since. -/
structure LastLook (stay : Bool) (secs : ℕ) (first : Waiter) (es : List ControlEvent)
    (w read : Waiter) (since : List ControlEvent) : Prop where
  split : ∃ before, es = before ++ .advance :: since ∧
    run (Waiter.step stay secs) first before = some read
  phase : read.phase = .reading
  sends : w.channel.version = w.seen + sendsOf since
  elapsed : w.now = read.now + elapsedIn since

/-- A wait has returned: its last look at the channel and the cause of its answer, whatever
happened afterwards. -/
structure Returned (stay : Bool) (secs : ℕ) (first : Waiter) (es : List ControlEvent)
    (x : DownloadResult Unit) (before since after : List ControlEvent) (read last : Waiter) :
    Prop where
  split : es = before ++ .advance :: since ++ after
  reaches : run (Waiter.step stay secs) first before = some read
  phase : read.phase = .reading
  returns : run (Waiter.step stay secs) read (.advance :: since) = some last
  answer : last.phase = .returned x
  cause : Cause stay secs read.channel.value since last.channel.closed x

/-- How a wait came to where it is. -/
def Explained (stay : Bool) (secs : ℕ) (first : Waiter) (es : List ControlEvent) (w : Waiter) :
    Prop :=
  match w.phase with
  | .reading => True
  | .arming => ∃ read since, LastLook stay secs first es w read since ∧
      read.channel.value = .paused
  | .paused deadline => ∃ read since, LastLook stay secs first es w read since ∧
      read.channel.value = .paused ∧ read.now + 1000 * secs ≤ deadline
  | .running => ∃ read since, LastLook stay secs first es w read since ∧
      read.channel.value.isRunning = true ∧ stay = true
  | .returned x => ∃ before since after read last,
      Returned stay secs first es x before since after read last

section

variable {stay : Bool} {secs : ℕ} {first w w' read : Waiter} {es since : List ControlEvent}
  {e : ControlEvent}

/-- Another event since the last look, where the wait only looks whether something changed. -/
theorem LastLook.concat (h : LastLook stay secs first es w read since)
    (hsends : w'.channel.version = w.channel.version + sendsOf [e]) (hseen : w'.seen = w.seen)
    (hnow : w'.now = w.now + elapsedIn [e]) :
    LastLook stay secs first (es ++ [e]) w' read (since ++ [e]) := by
  obtain ⟨before, hes, hread⟩ := h.split
  refine ⟨⟨before, ?_, hread⟩, h.phase, ?_, ?_⟩
  · rw [hes, List.append_assoc, List.cons_append]
  · rw [hsends, hseen, h.sends, sendsOf_append, Nat.add_assoc]
  · rw [hnow, h.elapsed, elapsedIn_append, Nat.add_assoc]

/-- A receiver that has seen the last value was sent none since its last look. -/
theorem LastLook.quiet (h : LastLook stay secs first es w read since)
    (hseen : w.seen = w.channel.version) : sendsOf (since ++ [.advance]) = 0 := by
  have hsends := h.sends
  rw [sendsOf_append]
  change sendsOf since + 0 = 0
  omega

theorem Returned.concat {x : DownloadResult Unit} {before after : List ControlEvent}
    {last : Waiter} (h : Returned stay secs first es x before since after read last) :
    Returned stay secs first (es ++ [e]) x before since (after ++ [e]) read last :=
  { h with split := by rw [h.split, List.append_assoc _ after] }

/-- The events of the senders and the clock only add to what happened since the last look. -/
theorem Explained.beside (h : Explained stay secs first es w) (hphase : w'.phase = w.phase)
    (hsends : w'.channel.version = w.channel.version + sendsOf [e]) (hseen : w'.seen = w.seen)
    (hnow : w'.now = w.now + elapsedIn [e]) : Explained stay secs first (es ++ [e]) w' := by
  unfold Explained at h ⊢
  rw [hphase]
  cases hw : w.phase with
  | reading => trivial
  | arming =>
    rw [hw] at h
    obtain ⟨read, since, hread, hvalue⟩ := h
    exact ⟨read, _, hread.concat hsends hseen hnow, hvalue⟩
  | paused deadline =>
    rw [hw] at h
    obtain ⟨read, since, hread, hvalue⟩ := h
    exact ⟨read, _, hread.concat hsends hseen hnow, hvalue⟩
  | running =>
    rw [hw] at h
    obtain ⟨read, since, hread, hvalue⟩ := h
    exact ⟨read, _, hread.concat hsends hseen hnow, hvalue⟩
  | returned x =>
    rw [hw] at h
    obtain ⟨before, since, after, read, last, hreturned⟩ := h
    exact ⟨before, since, _, read, last, hreturned.concat⟩

/-- A wait that returns at a poll returns with everything since its last look. -/
theorem LastLook.returns (h : LastLook stay secs first es w read since)
    (hrun : run (Waiter.step stay secs) first es = some w) {x : DownloadResult Unit}
    (hphase : (w.advance stay secs).phase = .returned x)
    (hcause : Cause stay secs read.channel.value (since ++ [.advance])
      (w.advance stay secs).channel.closed x) :
    ∃ before since after read last,
      Returned stay secs first (es ++ [.advance]) x before since after read last := by
  obtain ⟨before, hes, hread⟩ := h.split
  refine ⟨before, _, [], read, w.advance stay secs, ?_, hread, h.phase, ?_, hphase, hcause⟩
  · rw [hes, List.append_nil, List.append_assoc, List.cons_append]
  · rw [hes, run_append, hread] at hrun
    have hrest : run (Waiter.step stay secs) read (.advance :: since) = some w := hrun
    rw [← List.cons_append, run_append, hrest]
    rfl

/-- The look itself. -/
theorem Explained.look (hrun : run (Waiter.step stay secs) first es = some w)
    (hphase : w.phase = .reading) :
    Explained stay secs first (es ++ [.advance]) (w.advance stay secs) := by
  have hadvance : w.advance stay secs =
      { w with seen := w.channel.version, phase := afterRead stay w.channel.value } := by
    simp only [Waiter.advance, hphase]
  have hread : LastLook stay secs first (es ++ [.advance]) (w.advance stay secs) w [] := by
    rw [hadvance]
    exact ⟨⟨es, rfl, hrun⟩, hphase, rfl, rfl⟩
  have hreturned (x : DownloadResult Unit) (hx : afterRead stay w.channel.value = .returned x)
      (hcause : Cause stay secs w.channel.value [] w.channel.closed x) :
      Explained stay secs first (es ++ [.advance]) (w.advance stay secs) := by
    have hlast : (w.advance stay secs).phase = .returned x := by rw [hadvance, ← hx]
    unfold Explained
    rw [hlast]
    refine ⟨es, [], [], w, w.advance stay secs, by rw [List.append_nil], hrun, hphase, rfl,
      hlast, ?_⟩
    rw [hadvance]
    exact hcause
  by_cases hrunning : w.channel.value.isRunning = true
  · cases stay with
    | false => exact hreturned _ (afterRead_running hrunning) (.running hrunning rfl rfl)
    | true =>
      have hlast : (w.advance true secs).phase = .running := by
        rw [hadvance]
        exact afterRead_running hrunning
      unfold Explained
      rw [hlast]
      exact ⟨w, [], hread, hrunning, rfl⟩
  · cases hvalue : w.channel.value with
    | cancelled => exact hreturned (.error .cancelled) (by rw [hvalue]; rfl) (.cancelled hvalue rfl)
    | failed => exact hreturned _ (by rw [hvalue]; rfl) (.failed hvalue rfl)
    | paused =>
      have hlast : (w.advance stay secs).phase = .arming := by
        rw [hadvance, hvalue]
        rfl
      unfold Explained
      rw [hlast]
      exact ⟨w, [], hread, hvalue⟩
    | _ => exact absurd (by rw [hvalue]; rfl) hrunning

/-- A poll explains itself by the last look. -/
theorem Explained.advance (h : Explained stay secs first es w)
    (hrun : run (Waiter.step stay secs) first es = some w) :
    Explained stay secs first (es ++ [.advance]) (w.advance stay secs) := by
  cases hphase : w.phase with
  | reading => exact .look hrun hphase
  | arming =>
    unfold Explained at h
    rw [hphase] at h
    obtain ⟨read, since, hread, hvalue⟩ := h
    have hnow : read.now + 1000 * secs ≤ w.now + 1000 * secs := by
      have := hread.elapsed
      omega
    simp only [Explained, Waiter.advance, hphase]
    exact ⟨read, _, hread.concat rfl rfl rfl, hvalue, hnow⟩
  | paused deadline =>
    have hsame := h
    unfold Explained at h
    rw [hphase] at h
    obtain ⟨read, since, hread, hvalue, hdeadline⟩ := h
    cases hchange : w.channel.change w.seen with
    | changed => simp only [Explained, Waiter.advance, hphase, hchange]
    | closed =>
      obtain ⟨hseen, hclosed⟩ := change_eq_closed.mp hchange
      have hlast : (w.advance stay secs).phase = .returned (.error (.other "控制通道已关闭")) := by
        simp only [Waiter.advance, hphase, hchange]
      have hclosed' : (w.advance stay secs).channel.closed = true := by
        simpa only [Waiter.advance, hphase, hchange] using hclosed
      unfold Explained
      rw [hlast]
      exact hread.returns hrun hlast (.closedWhilePaused hvalue (hread.quiet hseen) hclosed')
    | pending =>
      by_cases hdue : deadline ≤ w.now
      · obtain ⟨hseen, -⟩ := change_eq_pending.mp hchange
        have helapsed : 1000 * secs ≤ elapsedIn (since ++ [.advance]) := by
          have := hread.elapsed
          rw [elapsedIn_append]
          change 1000 * secs ≤ elapsedIn since + 0
          omega
        have hlast : (w.advance stay secs).phase = .returned (.error (pauseTimeoutError secs)) := by
          simp only [Waiter.advance, hphase, hchange, if_pos hdue]
        unfold Explained
        rw [hlast]
        exact hread.returns hrun hlast (.timedOut hvalue (hread.quiet hseen) helapsed)
      · have hadvance : w.advance stay secs = w := by
          simp only [Waiter.advance, hphase, hchange, if_neg hdue]
        rw [hadvance]
        exact hsame.beside rfl rfl rfl rfl
  | running =>
    have hsame := h
    unfold Explained at h
    rw [hphase] at h
    obtain ⟨read, since, hread, hvalue, hstay⟩ := h
    cases hchange : w.channel.change w.seen with
    | changed => simp only [Explained, Waiter.advance, hphase, hchange]
    | closed =>
      obtain ⟨hseen, hclosed⟩ := change_eq_closed.mp hchange
      have hlast : (w.advance stay secs).phase = .returned (.error (.other "控制通道意外关闭")) := by
        simp only [Waiter.advance, hphase, hchange]
      have hclosed' : (w.advance stay secs).channel.closed = true := by
        simpa only [Waiter.advance, hphase, hchange] using hclosed
      unfold Explained
      rw [hlast]
      exact hread.returns hrun hlast
        (.closedWhileRunning hvalue (hread.quiet hseen) hclosed' hstay)
    | pending =>
      have hadvance : w.advance stay secs = w := by
        simp only [Waiter.advance, hphase, hchange]
      rw [hadvance]
      exact hsame.beside rfl rfl rfl rfl
  | returned x =>
    have hadvance : w.advance stay secs = w := by simp only [Waiter.advance, hphase]
    rw [hadvance]
    exact h.beside rfl rfl rfl rfl

theorem Explained.step (h : Explained stay secs first es w)
    (hrun : run (Waiter.step stay secs) first es = some w)
    (hstep : w.step stay secs e = some w') : Explained stay secs first (es ++ [e]) w' := by
  cases e with
  | sender e =>
    obtain ⟨c, hc, rfl⟩ := Option.map_eq_some_iff.mp hstep
    exact h.beside rfl (Channel.version_step hc) rfl rfl
  | elapse millis =>
    obtain rfl := Option.some.inj hstep
    exact h.beside rfl rfl rfl (congrArg (w.now + ·) (Nat.add_zero millis).symm)
  | advance =>
    obtain rfl := Option.some.inj hstep
    exact h.advance hrun

/-- Every run of a wait explains where the wait is. -/
theorem explained_run (hfirst : first.phase = .reading)
    (hrun : run (Waiter.step stay secs) first es = some w) : Explained stay secs first es w := by
  induction es using List.reverseRecOn generalizing w with
  | nil =>
    obtain rfl := Option.some.inj hrun
    unfold Explained
    rw [hfirst]
    trivial
  | append_singleton es e ih =>
    rw [run_append] at hrun
    obtain ⟨w₁, hw₁, hlast⟩ := Option.bind_eq_some_iff.mp hrun
    obtain ⟨w₂, hstep, hw₂⟩ := run_cons.mp hlast
    obtain rfl := Option.some.inj hw₂
    exact (ih hw₁).step hw₁ hstep

theorem returned_of_run {x : DownloadResult Unit} (hfirst : first.phase = .reading)
    (hrun : run (Waiter.step stay secs) first es = some w) (hphase : w.phase = .returned x) :
    ∃ before since after read last,
      Returned stay secs first es x before since after read last := by
  have h := explained_run hfirst hrun
  unfold Explained at h
  rwa [hphase] at h

/-- A wait on the control channel answers for one of six reasons: the value it read last is
Cancelled, Failed or a running one, a pause lasted its whole timeout without another value, or
the senders went away without another value. -/
theorem wait_answer_cause {channel : Channel DownloadState} {now seen : ℕ}
    {x : DownloadResult Unit}
    (hrun : run (Waiter.step stay secs) (.new channel now seen) es = some w)
    (hphase : w.phase = .returned x) : ∃ before since after read last,
      Returned stay secs (.new channel now seen) es x before since after read last :=
  returned_of_run rfl hrun hphase

/-- A pause of a second, read once and not lifted. -/
theorem wait_answer_cause_timeout : ∃ before since after read last,
    Returned true 1 (.new ⟨.paused, 3, false⟩ 7 3) [.advance, .advance, .elapse 1000, .advance]
      (.error (pauseTimeoutError 1)) before since after read last := by
  have hrun : run (Waiter.step true 1) (.new ⟨.paused, 3, false⟩ 7 3)
      [.advance, .advance, .elapse 1000, .advance] =
      some ⟨⟨.paused, 3, false⟩, 1007, 3, .returned (.error (pauseTimeoutError 1))⟩ := by
    decide +kernel
  exact wait_answer_cause hrun rfl

/-! ### The last value is noticed -/

/-- How many polls a wait is away from acting on a value that no other follows. -/
def pollsLeft : Waiting → ℕ
  | .returned _ => 0
  | .reading => 1
  | .paused _ | .running => 2
  | .arming => 3

/-- The wait is about to return `x`: the value says so and the receiver has not seen it. -/
def AboutTo (stay : Bool) (x : DownloadResult Unit) (w : Waiter) : Prop :=
  w.phase = .returned x ∨ afterRead stay w.channel.value = .returned x ∧
    (w.phase = .reading ∨
      ((w.phase = .arming ∨ w.phase = .running ∨ ∃ deadline, w.phase = .paused deadline) ∧
        w.seen ≠ w.channel.version))

theorem AboutTo.advance (secs : ℕ) {x : DownloadResult Unit} (h : AboutTo stay x w) :
    AboutTo stay x (w.advance stay secs) ∧
      pollsLeft (w.advance stay secs).phase = pollsLeft w.phase - 1 := by
  rcases h with h | ⟨hvalue, h | ⟨h, hseen⟩⟩
  · have hadvance : w.advance stay secs = w := by simp only [Waiter.advance, h]
    rw [hadvance, h]
    exact ⟨.inl h, rfl⟩
  · have hphase : (w.advance stay secs).phase = .returned x := by
      simp only [Waiter.advance, h, hvalue]
    rw [hphase, h]
    exact ⟨.inl hphase, rfl⟩
  · have hchanged := change_eq_changed.mpr hseen
    rcases h with h | h | ⟨deadline, h⟩
    · simp only [AboutTo, Waiter.advance, h]
      exact ⟨.inr ⟨hvalue, .inr ⟨.inr (.inr ⟨_, rfl⟩), hseen⟩⟩, rfl⟩
    · simp only [AboutTo, Waiter.advance, h, hchanged]
      exact ⟨.inr ⟨hvalue, .inl trivial⟩, rfl⟩
    · simp only [AboutTo, Waiter.advance, h, hchanged]
      exact ⟨.inr ⟨hvalue, .inl trivial⟩, rfl⟩

/-- What the senders and the clock do without a new value leaves a wait about to return. -/
theorem AboutTo.beside {x : DownloadResult Unit} (h : AboutTo stay x w)
    (hphase : w'.phase = w.phase) (hvalue : w'.channel.value = w.channel.value)
    (hversion : w'.channel.version = w.channel.version) (hseen : w'.seen = w.seen) :
    AboutTo stay x w' := by
  unfold AboutTo at h ⊢
  rwa [hphase, hvalue, hversion, hseen]

/-- With enough polls and no other value, the wait returns. -/
theorem AboutTo.returned {x : DownloadResult Unit} (h : AboutTo stay x w)
    (hsends : sendsOf es = 0) (hpolls : pollsLeft w.phase ≤ advancesIn es)
    (hrun : run (Waiter.step stay secs) w es = some w') : w'.phase = .returned x := by
  induction es generalizing w with
  | nil =>
    obtain rfl := Option.some.inj hrun
    rcases h with h | ⟨-, h | ⟨h | h | ⟨_, h⟩, -⟩⟩
    · exact h
    all_goals exact absurd hpolls (by rw [h]; exact Nat.not_succ_le_zero _)
  | cons e es ih =>
    obtain ⟨w₁, hstep, hrest⟩ := run_cons.mp hrun
    cases e with
    | sender e =>
      obtain ⟨c, hc, rfl⟩ := Option.map_eq_some_iff.mp hstep
      obtain ⟨he, hes⟩ : e.sends = 0 ∧ sendsOf es = 0 := Nat.add_eq_zero_iff.mp hsends
      have hversion : c.version = w.channel.version := by rw [Channel.version_step hc, he]; rfl
      have hnext : AboutTo stay x { w with channel := c } :=
        h.beside rfl (Channel.value_step hc he) hversion rfl
      exact ih hnext hes hpolls hrest
    | elapse millis =>
      obtain rfl := Option.some.inj hstep
      have hnext : AboutTo stay x { w with now := w.now + millis } := h.beside rfl rfl rfl rfl
      exact ih hnext hsends hpolls hrest
    | advance =>
      obtain rfl := Option.some.inj hstep
      obtain ⟨hnext, hleft⟩ := AboutTo.advance secs h
      refine ih hnext hsends ?_ hrest
      have hadvances : advancesIn (.advance :: es) = advancesIn es + 1 := rfl
      omega

/-- A receiver has seen no more values than were sent. -/
theorem seen_le_version (hfirst : first.seen ≤ first.channel.version)
    (hrun : run (Waiter.step stay secs) first es = some w) : w.seen ≤ w.channel.version := by
  have hstep (w : Waiter) (e : ControlEvent) (w' : Waiter)
      (h : w.seen ≤ w.channel.version) (_ : True) (hs : w.step stay secs e = some w') :
      w'.seen ≤ w'.channel.version := by
    cases e with
    | sender e =>
      obtain ⟨c, hc, rfl⟩ := Option.map_eq_some_iff.mp hs
      have hversion := Channel.version_step hc
      change w.seen ≤ c.version
      omega
    | elapse millis => exact Option.some.inj hs ▸ h
    | advance =>
      obtain rfl := Option.some.inj hs
      unfold Waiter.advance
      split
      · exact Nat.le_refl _
      · exact h
      · split
        · exact Nat.le_refl _
        · exact h
        · split <;> exact h
      · split
        · exact Nat.le_refl _
        · exact h
        · exact h
      · exact h
  exact @run_invariant Waiter ControlEvent _ (fun _ _ => True)
    (fun w => w.seen ≤ w.channel.version) _ _ _ hstep hfirst (.of_forall fun _ _ => trivial) hrun

/-- The last value sent is acted upon within three polls of the waiting task, wherever the wait
was when it came and however late the polls are: if that value ends a wait, the wait ends with
the answer for that value, even where a pause timer has run out meanwhile. -/
theorem last_value_noticed {channel : Channel DownloadState} {now seen : ℕ}
    {state : DownloadState} {x : DownloadResult Unit} {later : List ControlEvent}
    (hseen : seen ≤ channel.version)
    (hbefore : run (Waiter.step stay secs) (.new channel now seen) es = some w)
    (hwaiting : ∀ y, w.phase ≠ .returned y) (hstate : afterRead stay state = .returned x)
    (hsends : sendsOf later = 0) (hpolls : 3 ≤ advancesIn later)
    (hrun : run (Waiter.step stay secs) w (.sender (.send state) :: later) = some w') :
    w'.phase = .returned x := by
  obtain ⟨w₁, hstep, hrest⟩ := run_cons.mp hrun
  obtain ⟨c, hc, rfl⟩ := Option.map_eq_some_iff.mp hstep
  have hle := seen_le_version hseen hbefore
  have hversion : c.version = w.channel.version + 1 := Channel.version_step hc
  have hvalue : c.value = state := by
    simp only [Channel.step] at hc
    split_ifs at hc
    exact Option.some.inj hc ▸ rfl
  have hunseen : w.seen ≠ c.version := by omega
  have habout : AboutTo stay x { w with channel := c } := by
    refine .inr ⟨by rw [hvalue, hstate], ?_⟩
    cases hphase : w.phase with
    | reading => exact .inl rfl
    | arming => exact .inr ⟨.inl rfl, hunseen⟩
    | paused deadline => exact .inr ⟨.inr (.inr ⟨deadline, rfl⟩), hunseen⟩
    | running => exact .inr ⟨.inr (.inl rfl), hunseen⟩
    | returned y => exact absurd hphase (hwaiting y)
  refine habout.returned hsends (Nat.le_trans ?_ hpolls) hrest
  have hleft (p : Waiting) : pollsLeft p ≤ 3 := by cases p <;> simp [pollsLeft]
  exact hleft w.phase

/-- A cancellation that comes when the pause timer has run out is noticed before it. -/
theorem last_value_noticed_late : ∃ w' : Waiter,
    run (watchForInterrupt 1) ⟨⟨.paused, 0, false⟩, 5000, 0, .paused 1000⟩
      [.sender (.send .cancelled), .advance, .advance, .advance] = some w' ∧
    w'.phase = .returned (.error .cancelled) := by
  have hbefore : run (Waiter.step true 1) (.new ⟨.paused, 0, false⟩ 0 0)
      [.advance, .advance, .elapse 5000] =
      some ⟨⟨.paused, 0, false⟩, 5000, 0, .paused 1000⟩ := rfl
  have hrun : run (Waiter.step true 1) ⟨⟨.paused, 0, false⟩, 5000, 0, .paused 1000⟩
      [.sender (.send .cancelled), .advance, .advance, .advance] =
      some ⟨⟨.cancelled, 1, false⟩, 5000, 1, .returned (.error .cancelled)⟩ := rfl
  have hpolls : 3 ≤ advancesIn [.advance, .advance, .advance] := Nat.le_refl 3
  have hwaiting (y : DownloadResult Unit) : (Waiting.paused 1000) ≠ .returned y :=
    Waiting.noConfusion
  exact ⟨_, hrun, last_value_noticed (Nat.le_refl 0) hbefore hwaiting rfl rfl hpolls hrun⟩

/-! ### A pause that is not lifted -/

/-- Nothing comes from the senders. -/
def Unattended (es : List ControlEvent) : Prop := ∀ e ∈ es, ∀ s, e ≠ .sender s

/-- How far a wait is from a pause timer for the value at hand, in polls. -/
inductive ArmedIn (secs : ℕ) (w : Waiter) : ℕ → Prop where
  | ended (h : w.phase = .returned (.error (pauseTimeoutError secs))) : ArmedIn secs w 0
  | armed {deadline : ℕ} (h : w.phase = .paused deadline) (hseen : w.seen = w.channel.version)
      (hdeadline : deadline ≤ w.now + 1000 * secs) : ArmedIn secs w 0
  | arming (h : w.phase = .arming) (hseen : w.seen = w.channel.version) : ArmedIn secs w 1
  | reading (h : w.phase = .reading) : ArmedIn secs w 2
  | missed (h : w.phase = .running ∨ ∃ deadline, w.phase = .paused deadline)
      (hseen : w.seen ≠ w.channel.version) : ArmedIn secs w 3
  | armingMissed (h : w.phase = .arming) (hseen : w.seen ≠ w.channel.version) : ArmedIn secs w 4

/-- The pause stands and a sender is left. -/
def Waiter.Pausing (w : Waiter) : Prop :=
  w.channel.value = .paused ∧ w.channel.closed = false

theorem Waiter.channel_advance : (w.advance stay secs).channel = w.channel := by
  unfold Waiter.advance
  split
  · rfl
  · rfl
  · split
    · rfl
    · rfl
    · split <;> rfl
  · split <;> rfl
  · rfl

theorem ArmedIn.advance {n : ℕ} (h : ArmedIn secs w n) (hpause : w.Pausing) :
    ArmedIn secs (w.advance stay secs) (n - 1) := by
  obtain ⟨hvalue, hclosed⟩ := hpause
  cases h with
  | ended h =>
    have hadvance : w.advance stay secs = w := by simp only [Waiter.advance, h]
    rw [hadvance]
    exact .ended h
  | armed h hseen hdeadline =>
    rename_i deadline
    have hpending := change_eq_pending.mpr ⟨hseen, hclosed⟩
    by_cases hdue : deadline ≤ w.now
    · apply ArmedIn.ended
      simp only [Waiter.advance, h, hpending, if_pos hdue]
    · have hadvance : w.advance stay secs = w := by
        simp only [Waiter.advance, h, hpending, if_neg hdue]
      rw [hadvance]
      exact .armed h hseen hdeadline
  | arming h hseen =>
    have hadvance : w.advance stay secs = { w with phase := .paused (w.now + 1000 * secs) } := by
      simp only [Waiter.advance, h]
    rw [hadvance]
    exact .armed rfl hseen (Nat.le_refl _)
  | reading h =>
    have hadvance : w.advance stay secs =
        { w with seen := w.channel.version, phase := .arming } := by
      simp only [Waiter.advance, h, hvalue, afterRead]
    rw [hadvance]
    exact .arming rfl rfl
  | missed h hseen =>
    have hchanged := change_eq_changed.mpr hseen
    apply ArmedIn.reading
    rcases h with h | ⟨deadline, h⟩
    · simp only [Waiter.advance, h, hchanged]
    · simp only [Waiter.advance, h, hchanged]
  | armingMissed h hseen =>
    have hadvance : w.advance stay secs = { w with phase := .paused (w.now + 1000 * secs) } := by
      simp only [Waiter.advance, h]
    rw [hadvance]
    exact .missed (.inr ⟨_, rfl⟩) hseen

theorem ArmedIn.elapse {n : ℕ} (h : ArmedIn secs w n) (millis : ℕ) :
    ArmedIn secs { w with now := w.now + millis } n := by
  cases h with
  | ended h => exact .ended h
  | armed h hseen hdeadline =>
    refine .armed h hseen (Nat.le_trans hdeadline ?_)
    change w.now + 1000 * secs ≤ w.now + millis + 1000 * secs
    omega
  | arming h hseen => exact .arming h hseen
  | reading h => exact .reading h
  | missed h hseen => exact .missed h hseen
  | armingMissed h hseen => exact .armingMissed h hseen

/-- With enough polls the timer is set, or has run out already. -/
theorem ArmedIn.unattended {n : ℕ} (h : ArmedIn secs w n) (hpause : w.Pausing) (hes : Unattended es)
    (hrun : run (Waiter.step stay secs) w es = some w') :
    ArmedIn secs w' (n - advancesIn es) ∧ w'.Pausing := by
  induction es generalizing w n with
  | nil =>
    obtain rfl := Option.some.inj hrun
    exact ⟨h, hpause⟩
  | cons e es ih =>
    obtain ⟨w₁, hstep, hrest⟩ := run_cons.mp hrun
    have hes' : Unattended es := fun e' he' => hes e' (List.mem_cons_of_mem e he')
    cases e with
    | sender s => exact absurd rfl (hes _ List.mem_cons_self s)
    | elapse millis =>
      obtain rfl := Option.some.inj hstep
      exact ih (h.elapse millis) hpause hes' hrest
    | advance =>
      obtain rfl := Option.some.inj hstep
      have hpause' : (w.advance stay secs).Pausing := by
        unfold Waiter.Pausing
        rwa [Waiter.channel_advance]
      obtain ⟨hnext, hlast⟩ := ih (h.advance hpause) hpause' hes' hrest
      refine ⟨?_, hlast⟩
      rwa [Nat.sub_sub, Nat.add_comm 1] at hnext

/-- The timer runs out at a time, or has run out. -/
def DueBy (secs time : ℕ) (w : Waiter) : Prop :=
  w.phase = .returned (.error (pauseTimeoutError secs)) ∨
    ∃ deadline ≤ time, w.phase = .paused deadline ∧ w.seen = w.channel.version

theorem DueBy.advance {time : ℕ} (h : DueBy secs time w) (hpause : w.Pausing) :
    DueBy secs time (w.advance stay secs) ∧
      (time ≤ w.now → (w.advance stay secs).phase =
        .returned (.error (pauseTimeoutError secs))) := by
  rcases h with h | ⟨deadline, hle, h, hseen⟩
  · have hadvance : w.advance stay secs = w := by simp only [Waiter.advance, h]
    rw [hadvance]
    exact ⟨.inl h, fun _ => h⟩
  · have hpending := change_eq_pending.mpr ⟨hseen, hpause.2⟩
    by_cases hdue : deadline ≤ w.now
    · have hphase : (w.advance stay secs).phase =
          .returned (.error (pauseTimeoutError secs)) := by
        simp only [Waiter.advance, h, hpending, if_pos hdue]
      exact ⟨.inl hphase, fun _ => hphase⟩
    · have hadvance : w.advance stay secs = w := by
        simp only [Waiter.advance, h, hpending, if_neg hdue]
      rw [hadvance]
      exact ⟨.inr ⟨deadline, hle, h, hseen⟩, fun htime => absurd (hle.trans htime) hdue⟩

theorem Waiter.now_advance : (w.advance stay secs).now = w.now := by
  unfold Waiter.advance
  split
  · rfl
  · rfl
  · split
    · rfl
    · rfl
    · split <;> rfl
  · split <;> rfl
  · rfl

/-- A wait that has returned stays as it is. -/
theorem returned_run {x : DownloadResult Unit} (h : w.phase = .returned x)
    (hrun : run (Waiter.step stay secs) w es = some w') : w'.phase = .returned x := by
  have hstep (w : Waiter) (e : ControlEvent) (w' : Waiter) (h : w.phase = .returned x)
      (_ : True) (hs : w.step stay secs e = some w') : w'.phase = .returned x := by
    cases e with
    | sender e =>
      obtain ⟨c, -, rfl⟩ := Option.map_eq_some_iff.mp hs
      exact h
    | elapse millis => exact Option.some.inj hs ▸ h
    | advance =>
      obtain rfl := Option.some.inj hs
      simp only [Waiter.advance, h]
  exact @run_invariant Waiter ControlEvent _ (fun _ _ => True) (fun w => w.phase = .returned x)
    _ _ _ hstep h (.of_forall fun _ _ => trivial) hrun

theorem DueBy.unattended {time : ℕ} (h : DueBy secs time w) (hpause : w.Pausing)
    (hes : Unattended es) (hrun : run (Waiter.step stay secs) w es = some w') :
    DueBy secs time w' ∧ w'.Pausing ∧ w'.now = w.now + elapsedIn es := by
  induction es generalizing w with
  | nil =>
    obtain rfl := Option.some.inj hrun
    exact ⟨h, hpause, rfl⟩
  | cons e es ih =>
    obtain ⟨w₁, hstep, hrest⟩ := run_cons.mp hrun
    have hes' : Unattended es := fun e' he' => hes e' (List.mem_cons_of_mem e he')
    cases e with
    | sender s => exact absurd rfl (hes _ List.mem_cons_self s)
    | elapse millis =>
      obtain rfl := Option.some.inj hstep
      have hnext : DueBy secs time { w with now := w.now + millis } := h
      obtain ⟨hdue, hlast, hnow⟩ := ih hnext hpause hes' hrest
      refine ⟨hdue, hlast, ?_⟩
      rw [hnow, elapsedIn, Nat.add_assoc]
    | advance =>
      obtain rfl := Option.some.inj hstep
      have hpause' : (w.advance stay secs).Pausing := by
        unfold Waiter.Pausing
        rwa [Waiter.channel_advance]
      obtain ⟨hdue, hlast, hnow⟩ := ih (h.advance hpause).1 hpause' hes' hrest
      refine ⟨hdue, hlast, ?_⟩
      rw [hnow, Waiter.now_advance]
      rfl

/-- Once the time has come, a poll ends the wait. -/
theorem DueBy.returned {time : ℕ} (h : DueBy secs time w) (hpause : w.Pausing)
    (htime : time ≤ w.now) (hes : Unattended es) (hpolls : 0 < advancesIn es)
    (hrun : run (Waiter.step stay secs) w es = some w') :
    w'.phase = .returned (.error (pauseTimeoutError secs)) := by
  induction es generalizing w with
  | nil => exact absurd hpolls (Nat.lt_irrefl 0)
  | cons e es ih =>
    obtain ⟨w₁, hstep, hrest⟩ := run_cons.mp hrun
    have hes' : Unattended es := fun e' he' => hes e' (List.mem_cons_of_mem e he')
    cases e with
    | sender s => exact absurd rfl (hes _ List.mem_cons_self s)
    | elapse millis =>
      obtain rfl := Option.some.inj hstep
      have hnext : DueBy secs time { w with now := w.now + millis } := h
      exact ih hnext hpause (Nat.le_add_right_of_le htime) hes' hpolls hrest
    | advance =>
      obtain rfl := Option.some.inj hstep
      exact returned_run ((h.advance hpause).2 htime) hrest

/-- A pause that comes before a wait has returned, and that nobody lifts, ends the wait with
the timeout: four polls set the timer for this pause, and the first poll after its time has
passed returns. -/
theorem pause_times_out {armed waited later : List ControlEvent} {w₁ w₂ : Waiter}
    {channel : Channel DownloadState} {now seen : ℕ} (hseen : seen ≤ channel.version)
    (hbefore : run (Waiter.step stay secs) (.new channel now seen) es = some w)
    (hwaiting : ∀ y, w.phase ≠ .returned y)
    (harmed : run (Waiter.step stay secs) w (.sender (.send .paused) :: armed) = some w₁)
    (hpolls : 4 ≤ advancesIn armed)
    (hwaited : run (Waiter.step stay secs) w₁ waited = some w₂)
    (helapsed : 1000 * secs ≤ elapsedIn waited)
    (hlater : run (Waiter.step stay secs) w₂ later = some w') (hpoll : 0 < advancesIn later)
    (hunattended : Unattended (armed ++ waited ++ later)) :
    w'.phase = .returned (.error (pauseTimeoutError secs)) := by
  obtain ⟨w₀, hstep, hrest⟩ := run_cons.mp harmed
  obtain ⟨c, hc, rfl⟩ := Option.map_eq_some_iff.mp hstep
  have hle := seen_le_version hseen hbefore
  have hversion : c.version = w.channel.version + 1 := Channel.version_step hc
  have hpause : Waiter.Pausing { w with channel := c } := by
    simp only [Channel.step] at hc
    split_ifs at hc with hclosed
    obtain rfl := Option.some.inj hc
    exact ⟨rfl, Bool.eq_false_of_not_eq_true hclosed⟩
  have hunseen : w.seen ≠ c.version := by omega
  have hdistance : ∃ n ≤ 4, ArmedIn secs { w with channel := c } n := by
    cases hphase : w.phase with
    | reading => exact ⟨2, by decide, .reading rfl⟩
    | arming => exact ⟨4, by decide, .armingMissed rfl hunseen⟩
    | paused deadline => exact ⟨3, by decide, .missed (.inr ⟨deadline, rfl⟩) hunseen⟩
    | running => exact ⟨3, by decide, .missed (.inl rfl) hunseen⟩
    | returned y => exact absurd hphase (hwaiting y)
  obtain ⟨n, hn, hdistance⟩ := hdistance
  have hmem {es : List ControlEvent} (hes : es ⊆ armed ++ waited ++ later) : Unattended es :=
    fun e he => hunattended e (hes he)
  obtain ⟨hset, hpause₁⟩ := hdistance.unattended hpause (hmem (by simp)) hrest
  rw [Nat.sub_eq_zero_of_le (hn.trans hpolls)] at hset
  have hdue : DueBy secs (w₁.now + 1000 * secs) w₁ := by
    cases hset with
    | ended h => exact .inl h
    | armed h hs hd => exact .inr ⟨_, hd, h, hs⟩
  obtain ⟨hdue₂, hpause₂, hnow⟩ := hdue.unattended hpause₁ (hmem (by simp)) hwaited
  exact hdue₂.returned hpause₂ (by omega) (hmem (by simp)) hpoll hlater

/-- A pause of a second that comes while the task waits in a running state. -/
theorem pause_times_out_after_running : ∃ w' : Waiter,
    run (watchForInterrupt 1) (.new ⟨.downloading, 0, false⟩ 0 0)
      [.advance, .sender (.send .paused), .advance, .advance, .advance, .advance, .elapse 1000,
        .advance] = some w' ∧ w'.phase = .returned (.error (pauseTimeoutError 1)) := by
  have hbefore : run (Waiter.step true 1) (.new ⟨.downloading, 0, false⟩ 0 0) [.advance] =
      some ⟨⟨.downloading, 0, false⟩, 0, 0, .running⟩ := rfl
  have harmed : run (Waiter.step true 1) ⟨⟨.downloading, 0, false⟩, 0, 0, .running⟩
      [.sender (.send .paused), .advance, .advance, .advance, .advance] =
      some ⟨⟨.paused, 1, false⟩, 0, 1, .paused 1000⟩ := by
    decide +kernel
  have hwaited : run (Waiter.step true 1) ⟨⟨.paused, 1, false⟩, 0, 1, .paused 1000⟩
      [.elapse 1000] = some ⟨⟨.paused, 1, false⟩, 1000, 1, .paused 1000⟩ := rfl
  have hlater : run (Waiter.step true 1) ⟨⟨.paused, 1, false⟩, 1000, 1, .paused 1000⟩ [.advance] =
      some ⟨⟨.paused, 1, false⟩, 1000, 1, .returned (.error (pauseTimeoutError 1))⟩ := by
    decide +kernel
  have hwaiting (y : DownloadResult Unit) : Waiting.running ≠ .returned y := Waiting.noConfusion
  have hpolls : 4 ≤ advancesIn [.advance, .advance, .advance, .advance] := Nat.le_refl 4
  have helapsed : 1000 * 1 ≤ elapsedIn [.elapse 1000] := by decide
  have hpoll : 0 < advancesIn [.advance] := Nat.one_pos
  have hunattended : Unattended
      ([.advance, .advance, .advance, .advance] ++ [.elapse 1000] ++ [.advance]) := by
    intro e he s hs
    subst hs
    simp at he
  have hall : run (watchForInterrupt 1) (.new ⟨.downloading, 0, false⟩ 0 0)
      [.advance, .sender (.send .paused), .advance, .advance, .advance, .advance, .elapse 1000,
        .advance] =
      some ⟨⟨.paused, 1, false⟩, 1000, 1, .returned (.error (pauseTimeoutError 1))⟩ := by
    decide +kernel
  exact ⟨_, hall, pause_times_out (Nat.le_refl 0) hbefore hwaiting harmed hpolls hwaited helapsed
    hlater hpoll hunattended⟩

end

end Tachyon
