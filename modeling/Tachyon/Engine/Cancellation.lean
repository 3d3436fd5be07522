import Tachyon.Engine.Control
import Tachyon.Engine.FullDownload
import Tachyon.Engine.SingleFragment

/-!
# What a cancelled download still does

Storage and network go on beside the control channel, so a cancellation may come in the middle
of any request. What a spawned fragment task or a full download has taken by the storage from
then on, opens from then on and sleeps from then on is counted here, for every answer the
environment may give and wherever the program is cut off.
-/

namespace Tachyon

open Resumption WatchChannel EventRuns

/-- Nothing is sent after Cancelled. -/
def Latched (c : Channel DownloadState) (e : SenderEvent DownloadState) : Prop :=
  c.value = .cancelled → e = .close

/-- A wait on the control channel that begins now may end with this answer, and leave the
channel like this. -/
def MayAnswer (stay : Bool) (secs : ℕ) (c : Channel DownloadState) (x : DownloadResult Unit)
    (c' : Channel DownloadState) : Prop :=
  ∃ now seen es w, EachStep (Waiter.step stay secs)
      (fun w e => ∀ s, e = .sender s → Latched w.channel s) (.new c now seen) es ∧
    run (Waiter.step stay secs) (.new c now seen) es = some w ∧ w.phase = .returned x ∧
    w.channel = c'

/-- The control channel, and what the download has cost since the cancellation: bytes the
storage took, streams opened and seconds slept. -/
structure CancelWorld where
  control : Channel DownloadState
  taken : ℕ
  opened : ℕ
  slept : ℕ

/-- A request during which the senders go on. Its cost counts if the download is cancelled by
its end. -/
structure CancelWorld.Passes (w w' : CancelWorld) (taken opened slept : ℕ) : Prop where
  control : w.control.Later Latched w'.control
  taken : w'.taken = w.taken + if w'.control.value = .cancelled then taken else 0
  opened : w'.opened = w.opened + if w'.control.value = .cancelled then opened else 0
  slept : w'.slept = w.slept + if w'.control.value = .cancelled then slept else 0

/-- The answers a request may get, where a stream has chunks of at most `chunk` bytes. -/
def CancelHandles (secs chunk : ℕ) :
    (r : Request) → CancelWorld → Answer r → CancelWorld → Prop
  | .waitControl, w, x, w' => w.Passes w' 0 0 0 ∧ MayAnswer false secs w.control x w'.control
  | .openRange _ _, w, x, w' | .openFull, w, x, w' => w.Passes w' 0 1 0 ∧
    match x with
    | .finished (.ok items) => ∀ data, .ok data ∈ items → data.length ≤ chunk
    | .finished (.error _) => True
    | .interrupted control => MayAnswer true secs w.control control w'.control
  | .writeAt _ data, w, x, w' => ∃ k ≤ data.length, (∀ n, x = .ok n → n = k) ∧ w.Passes w' k 0 0
  | .writeAtRaced _ data, w, x, w' => ∃ k ≤ data.length, w.Passes w' k 0 0 ∧
    match x with
    | .finished result => ∀ n, result = .ok n → n = k
    | .interrupted control => MayAnswer true secs w.control control w'.control
  | .sleep seconds, w, _, w' => w.Passes w' 0 0 seconds
  | .acquirePool, w, _, w' | .limiterAcquire _, w, _, w' | .sendProgress _, w, _, w'
  | .elapsed, w, _, w' | .breakerAllow, w, _, w' | .breakerSuccess, w, _, w'
  | .breakerFailure, w, _, w' | .acquireSlot, w, _, w' | .releaseSlot, w, _, w' =>
    w.Passes w' 0 0 0

/-- Nothing has been counted before the cancellation. -/
def CancelWorld.Calm (w : CancelWorld) : Prop :=
  w.control.value = .cancelled ∨ w.taken = 0 ∧ w.opened = 0 ∧ w.slept = 0

section

variable {secs chunk : ℕ} {c c' : Channel DownloadState} {w w' : CancelWorld}
  {taken opened slept : ℕ}

/-! ### The control channel after a cancellation -/

theorem Latched.value_step {e : SenderEvent DownloadState} (he : Latched c e)
    (h : c.step e = some c') (hc : c.value = .cancelled) : c'.value = .cancelled := by
  obtain rfl := he hc
  rw [Channel.value_step h rfl, hc]

theorem later_cancelled (h : c.Later Latched c') (hc : c.value = .cancelled) :
    c'.value = .cancelled :=
  h.preserves (fun _ _ _ he hs hc => Latched.value_step he hs hc) hc

/-- A cancelled download is told so. -/
theorem MayAnswer.of_cancelled {stay : Bool} {x : DownloadResult Unit}
    (h : MayAnswer stay secs c x c') (hc : c.value = .cancelled) : x = .error .cancelled := by
  obtain ⟨now, seen, es, w, hsteps, hrun, hphase, -⟩ := h
  obtain ⟨before, since, after, read, last, hreturned⟩ := returned_of_run rfl hrun hphase
  have hkept (w : Waiter) (e : ControlEvent) (w' : Waiter) (hw : w.channel.value = .cancelled)
      (he : ∀ s, e = .sender s → Latched w.channel s) (hs : w.step stay secs e = some w') :
      w'.channel.value = .cancelled := by
    cases e with
    | sender s =>
      obtain ⟨c₁, hc₁, rfl⟩ := Option.map_eq_some_iff.mp hs
      exact Latched.value_step (he s rfl) hc₁ hw
    | elapse millis => exact Option.some.inj hs ▸ hw
    | advance =>
      obtain rfl := Option.some.inj hs
      rw [Waiter.channel_advance]
      exact hw
  have hsplit := hreturned.split
  rw [List.append_assoc] at hsplit
  rw [hsplit] at hsteps
  have hread : read.channel.value = .cancelled :=
    @run_invariant Waiter ControlEvent _ _ (fun w => w.channel.value = .cancelled) _ _ _ hkept
      hc (hsteps.append hreturned.reaches).1 hreturned.reaches
  have hcause := hreturned.cause
  rw [hread] at hcause
  cases hcause with
  | cancelled => rfl
  | failed hvalue => cases hvalue
  | running hvalue => cases hvalue
  | timedOut hvalue => cases hvalue
  | closedWhilePaused hvalue => cases hvalue
  | closedWhileRunning hvalue => cases hvalue

/-- What a request costs before a cancellation is not counted. -/
theorem CancelWorld.Passes.calm (h : w.Passes w' taken opened slept) (hw : w.Calm) : w'.Calm := by
  by_cases hcancelled : w'.control.value = .cancelled
  · exact .inl hcancelled
  · have hbefore : w.control.value ≠ .cancelled :=
      fun hc => hcancelled (later_cancelled h.control hc)
    obtain ⟨htaken, hopened, hslept⟩ := hw.resolve_left hbefore
    refine .inr ⟨?_, ?_, ?_⟩
    · rw [h.taken, htaken, if_neg hcancelled]
    · rw [h.opened, hopened, if_neg hcancelled]
    · rw [h.slept, hslept, if_neg hcancelled]

theorem CancelWorld.Passes.le (h : w.Passes w' taken opened slept) :
    w'.taken ≤ w.taken + taken ∧ w'.opened ≤ w.opened + opened ∧ w'.slept ≤ w.slept + slept := by
  refine ⟨?_, ?_, ?_⟩
  · rw [h.taken]
    split <;> omega
  · rw [h.opened]
    split <;> omega
  · rw [h.slept]
    split <;> omega

/-! ### The cost of an attempt -/

/-- A download takes at most so many bytes, opens at most one stream and sleeps at most so
long; nothing runs beside it but the senders. -/
def sparing (bytes seconds : ℕ) : Contract Request CancelWorld where
  rely := Eq
  guar := fun _ w' => w'.taken ≤ bytes ∧ w'.opened ≤ 1 ∧ w'.slept ≤ seconds
  issue := fun _ _ => True
  rely_refl := fun _ => rfl
  rely_trans := Eq.trans

/-- An attempt that has cost at most so many bytes and streams. -/
structure CancelWorld.Attempt (w : CancelWorld) (bytes streams : ℕ) : Prop where
  calm : w.Calm
  taken : w.taken ≤ bytes
  opened : w.opened ≤ streams
  slept : w.slept = 0

theorem CancelWorld.Attempt.mono {bytes bytes' streams streams' : ℕ} (h : w.Attempt bytes streams)
    (hbytes : bytes ≤ bytes') (hstreams : streams ≤ streams') : w.Attempt bytes' streams' :=
  ⟨h.calm, h.taken.trans hbytes, h.opened.trans hstreams, h.slept⟩

theorem CancelWorld.Attempt.passes {bytes streams : ℕ} (h : w.Attempt bytes streams)
    (hpass : w.Passes w' taken opened 0) : w'.Attempt (bytes + taken) (streams + opened) := by
  obtain ⟨htaken, hopened, hslept⟩ := hpass.le
  have := h.taken
  have := h.opened
  have := h.slept
  exact ⟨hpass.calm h.calm, by omega, by omega, by omega⟩

theorem CancelWorld.Attempt.guar {bytes seconds t : ℕ} (h : w.Attempt t 1) (ht : t ≤ bytes) :
    (sparing bytes seconds).guar w' w :=
  ⟨h.taken.trans ht, h.opened, by rw [h.slept]; exact Nat.zero_le _⟩

theorem sparing_stable {bytes seconds : ℕ} (P : CancelWorld → Prop) :
    (sparing bytes seconds).Stable P := fun _ _ hrely h => hrely ▸ h

variable {α : Type} {bytes seconds t : ℕ} {post : α → CancelWorld → Prop}

/-- A request of an attempt that costs nothing. -/
theorem attempt_idle {op : Request} {f : Answer op → Engine α} {streams : ℕ}
    (hidle : ∀ w x w', CancelHandles secs chunk op w x w' → w.Passes w' 0 0 0)
    (hw : w.Attempt t streams) (ht : t ≤ bytes) (hstreams : streams ≤ 1)
    (h : ∀ x w', w'.Attempt t streams → Ensures (CancelHandles secs chunk) (sparing bytes seconds)
      (f x) w' post fun w' => w'.Attempt bytes 1) :
    Ensures (CancelHandles secs chunk) (sparing bytes seconds) (request op >>= f) w post
      fun w' => w'.Attempt bytes 1 := by
  refine Ensures.request_bind fun w₁ hrely => ⟨trivial, fun x w₂ hx => ?_⟩
  obtain rfl : w = w₁ := hrely
  have hnext := hw.passes (hidle w x w₂ hx)
  exact ⟨(hnext.mono (Nat.le_refl t) hstreams).guar ht, h x w₂ hnext⟩

/-- Going on after a result at hand, or failing. -/
theorem attempt_fromResult {β : Type} {x : DownloadResult β} {f : β → Engine α}
    (hw : w.Attempt bytes 1)
    (h : ∀ b, x = .ok b → Ensures (CancelHandles secs chunk) (sparing bytes seconds)
      (f b) w post fun w' => w'.Attempt bytes 1) :
    Ensures (CancelHandles secs chunk) (sparing bytes seconds) (fromResult x >>= f) w post
      fun w' => w'.Attempt bytes 1 := by
  cases x with
  | ok b => exact h b rfl
  | error e => exact Ensures.throw hw (sparing_stable _)

theorem attempt_orThrow {β : Type} {x : Option β} {e : DownloadError} {f : β → Engine α}
    (hw : w.Attempt bytes 1)
    (h : ∀ b, x = some b → Ensures (CancelHandles secs chunk) (sparing bytes seconds)
      (f b) w post fun w' => w'.Attempt bytes 1) :
    Ensures (CancelHandles secs chunk) (sparing bytes seconds) (orThrow x e >>= f) w post
      fun w' => w'.Attempt bytes 1 := by
  cases x with
  | some b => exact h b rfl
  | none => exact Ensures.throw hw (sparing_stable _)

/-- Going on after a `select!`, or failing. -/
theorem attempt_fromSelected {β : Type} {x : Selected β} {f : β → Engine α}
    (hw : w.Attempt bytes 1)
    (h : ∀ b, x = .finished (.ok b) → Ensures (CancelHandles secs chunk) (sparing bytes seconds)
      (f b) w post fun w' => w'.Attempt bytes 1) :
    Ensures (CancelHandles secs chunk) (sparing bytes seconds) (fromSelected x >>= f) w post
      fun w' => w'.Attempt bytes 1 := by
  cases x with
  | finished result => exact attempt_fromResult hw fun b hb => h b (hb ▸ rfl)
  | interrupted control => cases control <;> exact Ensures.throw hw (sparing_stable _)

/-- Past a wait on the control channel nothing has been counted yet. -/
theorem attempt_waitControl {f : Unit → Engine α} {streams : ℕ} (hw : w.Attempt t streams)
    (ht : t ≤ bytes) (hstreams : streams ≤ 1)
    (h : ∀ w', w'.Attempt 0 0 → Ensures (CancelHandles secs chunk) (sparing bytes seconds)
      (f ()) w' post fun w' => w'.Attempt bytes 1) :
    Ensures (CancelHandles secs chunk) (sparing bytes seconds)
      (request .waitControl >>= fun x => fromResult x >>= f) w post
      fun w' => w'.Attempt bytes 1 := by
  refine Ensures.request_bind fun w₁ hrely => ⟨trivial, fun x w₂ hx => ?_⟩
  obtain rfl : w = w₁ := hrely
  obtain ⟨hpass, hanswer⟩ := hx
  have hnext : w₂.Attempt t streams := hw.passes hpass
  refine ⟨(hnext.mono (Nat.le_refl t) hstreams).guar ht, ?_⟩
  refine attempt_fromResult (hnext.mono ht hstreams) fun u hu => h w₂ ?_
  have hrunning : w.control.value ≠ .cancelled := by
    intro hc
    rw [hanswer.of_cancelled hc] at hu
    cases hu
  obtain ⟨htaken, hopened, hslept⟩ := hw.calm.resolve_left hrunning
  exact CancelWorld.Attempt.passes ⟨hw.calm, htaken.le, hopened.le, hslept⟩ hpass

/-- `write_all_at` has the storage take the batch at most. -/
theorem writeAllLoop_sparing {fuel pos totalWritten : ℕ} {batch : Bytes} (hw : w.Attempt t 1)
    (ht : t + batch.length ≤ bytes) :
    Ensures (CancelHandles secs chunk) (sparing bytes seconds)
      (writeAllLoop fuel pos totalWritten batch) w
      (fun _ w' => w'.Attempt (t + batch.length) 1) fun w' => w'.Attempt bytes 1 := by
  induction fuel generalizing pos totalWritten batch t w with
  | zero => exact Ensures.pure (hw.mono (Nat.le_add_right _ _) (Nat.le_refl 1)) (sparing_stable _)
  | succ fuel ih =>
    unfold writeAllLoop
    split
    case isTrue =>
      exact Ensures.pure (hw.mono (Nat.le_add_right _ _) (Nat.le_refl 1)) (sparing_stable _)
    case isFalse =>
    refine Ensures.request_bind fun w₁ hrely => ⟨trivial, fun x w₂ hx => ?_⟩
    obtain rfl : w = w₁ := hrely
    obtain ⟨k, hk, hpass, hx⟩ := hx
    have hnext : w₂.Attempt (t + k) 1 := hw.passes hpass
    have hlast : w₂.Attempt bytes 1 := hnext.mono (by omega) (Nat.le_refl 1)
    refine ⟨hnext.guar (by omega), ?_⟩
    refine attempt_fromSelected hlast fun written hwritten => ?_
    subst hwritten
    obtain rfl := hx written rfl
    dsimp only
    by_cases hzero : written = 0
    · rw [if_pos hzero]
      exact Ensures.throw hlast (sparing_stable _)
    · rw [if_neg hzero]
      refine attempt_orThrow hlast fun writtenU64 _ => ?_
      refine attempt_orThrow hlast fun pos' _ => attempt_orThrow hlast fun total' _ => ?_
      have hdrop : (batch.drop written).length = batch.length - written := List.length_drop
      have hrest := @ih w₂ (t + written) pos' total' (batch.drop written) hnext (by omega)
      exact hrest.mono fun _ w' hw' => hw'.mono (by omega) (Nat.le_refl 1)

/-- A batch costs its length at most. -/
theorem flushBatch_sparing {text : String} {fragIndex expectedLen pos totalWritten : ℕ}
    {batch : Bytes} (hw : w.Attempt t 1) (ht : t + batch.length ≤ bytes) :
    Ensures (CancelHandles secs chunk) (sparing bytes seconds)
      (flushBatch text fragIndex expectedLen pos totalWritten batch) w
      (fun _ w' => w'.Attempt (t + batch.length) 1) fun w' => w'.Attempt bytes 1 := by
  have hlast : w.Attempt bytes 1 := hw.mono (by omega) (Nat.le_refl 1)
  unfold flushBatch
  refine attempt_orThrow hlast fun batchLen _ => attempt_orThrow hlast fun attempted _ => ?_
  split
  case isTrue => exact Ensures.throw hlast (sparing_stable _)
  case isFalse => exact writeAllLoop_sparing hw ht

theorem reportProgress_sparing {fragIndex chunkCount totalWritten : ℕ} (hw : w.Attempt bytes 1) :
    Ensures (CancelHandles secs chunk) (sparing bytes seconds)
      (reportProgress fragIndex chunkCount totalWritten) w (fun _ w' => w'.Attempt bytes 1)
      fun w' => w'.Attempt bytes 1 := by
  unfold reportProgress
  split
  case isTrue =>
    refine attempt_idle (fun _ _ _ hx => hx) hw (Nat.le_refl _) (Nat.le_refl 1) fun _ w' hw' => ?_
    exact Ensures.pure hw' (sparing_stable _)
  case isFalse => exact Ensures.pure hw (sparing_stable _)

theorem writeBatchBytes_pos : 0 < writeBatchBytes := by decide

/-- The chunk loop: what was taken and what the buffer still holds fit the budget at its head. -/
theorem chunkLoop_sparing {fragIndex expectedLen : ℕ} {items : List Item} {cursor : FragmentCursor}
    (hitems : ∀ data, .ok data ∈ items → data.length ≤ chunk) (hw : w.Attempt t 1)
    (ht : t + cursor.writeBuf.length ≤ writeBatchBytes - 1 + chunk)
    (hbuf : cursor.writeBuf.length < writeBatchBytes) :
    Ensures (CancelHandles secs chunk) (sparing (writeBatchBytes - 1 + chunk) seconds)
      (chunkLoop fragIndex expectedLen items cursor) w
      (fun cursor' w' => ∃ t', w'.Attempt t' 1 ∧
        t' + cursor'.writeBuf.length ≤ writeBatchBytes - 1 + chunk)
      fun w' => w'.Attempt (writeBatchBytes - 1 + chunk) 1 := by
  induction items generalizing cursor t w with
  | nil => exact Ensures.pure ⟨t, hw, ht⟩ (sparing_stable _)
  | cons item items ih =>
    have hrest : ∀ data, .ok data ∈ items → data.length ≤ chunk :=
      fun data hdata => hitems data (List.mem_cons_of_mem item hdata)
    unfold chunkLoop
    refine attempt_waitControl hw (by omega) (Nat.le_refl 1) fun w₁ hw₁ => ?_
    have hlast : w₁.Attempt (writeBatchBytes - 1 + chunk) 1 :=
      hw₁.mono (Nat.zero_le _) (Nat.zero_le 1)
    refine attempt_fromResult hlast fun data hdata => ?_
    have hlength : data.length ≤ chunk := hitems data (hdata ▸ List.mem_cons_self)
    have happend : (cursor.writeBuf ++ data).length = cursor.writeBuf.length + data.length :=
      List.length_append
    dsimp only
    split
    case isFalse hsmall =>
      have hfits : (cursor.writeBuf ++ data).length < writeBatchBytes := by omega
      exact ih hrest (hw₁.mono (Nat.le_refl 0) (Nat.zero_le 1))
        (by dsimp only; omega) hfits
    case isTrue =>
      refine (flushBatch_sparing (hw₁.mono (Nat.le_refl 0) (Nat.zero_le 1)) (by omega)).bind
        (sparing_stable _) fun written w₂ hw₂ => ?_
      have hlast₂ : w₂.Attempt (writeBatchBytes - 1 + chunk) 1 :=
        hw₂.mono (by omega) (Nat.le_refl 1)
      refine attempt_orThrow hlast₂ fun pos' _ => ?_
      refine attempt_idle (fun _ _ _ hx => hx) hlast₂ (Nat.le_refl _) (Nat.le_refl 1)
        fun _ w₃ hw₃ => ?_
      refine (reportProgress_sparing hw₃).bind (sparing_stable _) fun _ w₄ hw₄ => ?_
      exact ih hrest hw₄ (Nat.le_refl _) writeBatchBytes_pos

theorem flushRest_sparing {fragIndex expectedLen : ℕ} {cursor : FragmentCursor}
    (hw : w.Attempt t 1) (ht : t + cursor.writeBuf.length ≤ bytes) :
    Ensures (CancelHandles secs chunk) (sparing bytes seconds)
      (flushRest fragIndex expectedLen cursor) w (fun _ w' => w'.Attempt bytes 1)
      fun w' => w'.Attempt bytes 1 := by
  unfold flushRest
  split
  case isTrue =>
    exact Ensures.pure (hw.mono (by omega) (Nat.le_refl 1)) (sparing_stable _)
  case isFalse =>
    refine (flushBatch_sparing hw ht).bind (sparing_stable _) fun written w₁ hw₁ => ?_
    refine attempt_idle (fun _ _ _ hx => hx) (hw₁.mono ht (Nat.le_refl 1)) (Nat.le_refl _)
      (Nat.le_refl 1) fun _ w₂ hw₂ => ?_
    exact Ensures.pure hw₂ (sparing_stable _)

/-- One attempt at a fragment costs one batch and one stream at most. -/
theorem downloadSingleFragment_sparing {index start end_ : ℕ} (hw : w.Attempt 0 0) :
    Ensures (CancelHandles secs chunk) (sparing (writeBatchBytes - 1 + chunk) seconds)
      (downloadSingleFragment index start end_) w
      (fun _ w' => w'.Attempt (writeBatchBytes - 1 + chunk) 1)
      fun w' => w'.Attempt (writeBatchBytes - 1 + chunk) 1 := by
  unfold downloadSingleFragment
  refine attempt_waitControl hw (Nat.zero_le _) (Nat.zero_le 1) fun w₁ hw₁ => ?_
  refine attempt_idle (fun _ _ _ hx => hx) hw₁ (Nat.zero_le _) (Nat.zero_le 1) fun x w₂ hw₂ => ?_
  have hlast₂ : w₂.Attempt (writeBatchBytes - 1 + chunk) 1 :=
    hw₂.mono (Nat.zero_le _) (Nat.zero_le 1)
  refine attempt_fromResult hlast₂ fun _ _ => ?_
  refine Ensures.request_bind fun w₂' hrely => ⟨trivial, fun x w₃ hx => ?_⟩
  obtain rfl : w₂ = w₂' := hrely
  obtain ⟨hpass, hx⟩ := hx
  have hw₃ : w₃.Attempt 0 1 := hw₂.passes hpass
  have hlast₃ : w₃.Attempt (writeBatchBytes - 1 + chunk) 1 :=
    hw₃.mono (Nat.zero_le _) (Nat.le_refl 1)
  refine ⟨hw₃.guar (Nat.zero_le _), ?_⟩
  refine attempt_fromSelected hlast₃ fun items hitems => ?_
  subst hitems
  refine attempt_orThrow hlast₃ fun expectedLen _ => ?_
  have hempty : ([] : Bytes).length < writeBatchBytes := writeBatchBytes_pos
  refine (chunkLoop_sparing hx hw₃ (Nat.zero_le _) hempty).bind (sparing_stable _)
    fun cursor w₄ hw₄ => ?_
  obtain ⟨t', hw₄, ht'⟩ := hw₄
  refine (flushRest_sparing hw₄ ht').bind (sparing_stable _) fun totalWritten w₅ hw₅ => ?_
  split
  case isTrue => exact Ensures.throw hw₅ (sparing_stable _)
  case isFalse =>
    refine attempt_idle (fun _ _ _ hx => hx) hw₅ (Nat.le_refl _) (Nat.le_refl 1)
      fun elapsed w₆ hw₆ => ?_
    refine attempt_idle (fun _ _ _ hx => hx) hw₆ (Nat.le_refl _) (Nat.le_refl 1)
      fun _ w₇ hw₇ => ?_
    exact Ensures.pure hw₇ (sparing_stable _)

/-! ### The retry loop -/

/-- The head of the retry loop: the cost of one attempt at most, a second for every attempt the
breaker refused, and one backoff. -/
structure CancelWorld.Retrying (w : CancelWorld) (bytes attempt : ℕ) : Prop where
  calm : w.Calm
  taken : w.taken ≤ bytes
  opened : w.opened ≤ 1
  slept : w.slept ≤ 1024 + attempt

theorem CancelWorld.Retrying.passes {bytes attempt seconds : ℕ} (h : w.Retrying bytes attempt)
    (hpass : w.Passes w' 0 0 seconds) : w'.Retrying bytes (attempt + seconds) := by
  obtain ⟨htaken, hopened, hslept⟩ := hpass.le
  have := h.taken
  have := h.opened
  have := h.slept
  exact ⟨hpass.calm h.calm, by omega, by omega, by omega⟩

theorem CancelWorld.Retrying.guar {bytes attempt maxRetries : ℕ} (h : w'.Retrying bytes attempt)
    (hattempt : attempt ≤ maxRetries) : (sparing bytes (1024 + maxRetries)).guar w w' :=
  ⟨h.taken, h.opened, h.slept.trans (by omega)⟩

theorem CancelWorld.Attempt.retrying {bytes attempt : ℕ} (h : w.Attempt bytes 1) :
    w.Retrying bytes attempt :=
  ⟨h.calm, h.taken, h.opened, by rw [h.slept]; exact Nat.zero_le _⟩

theorem retryBackoff_le {fragIndex attempt : ℕ} {e : DownloadError} :
    retryBackoff fragIndex attempt e ≤ 1024 := by
  have hpow : 2 ^ min attempt 10 ≤ 1024 :=
    Nat.pow_le_pow_right (by decide) (Nat.min_le_right attempt 10)
  unfold retryBackoff
  split
  · exact Nat.min_le_right _ _
  · dsimp only
    split
    · decide
    · exact max_le ((Nat.sub_le _ _).trans hpow) (by decide)

/-- A request of the retry loop carries along what its cost leaves true. -/
theorem retryLoop_step {op : Request} {f : Answer op → Prog Answer α} {maxRetries seconds : ℕ}
    {post : α → CancelWorld → Prop} {P P' : CancelWorld → Prop}
    (hcost : ∀ w x w', CancelHandles secs chunk op w x w' → w.Passes w' 0 0 seconds)
    (hP : ∀ w w', w.Passes w' 0 0 seconds → P w → P' w')
    (hguar : ∀ w w', P' w' → (sparing bytes (1024 + maxRetries)).guar w w') (hw : P w)
    (h : ∀ x w', P' w' →
      (f x).Safe (CancelHandles secs chunk) (sparing bytes (1024 + maxRetries)) post w') :
    (Prog.ask op >>= f).Safe (CancelHandles secs chunk) (sparing bytes (1024 + maxRetries)) post
      w := by
  intro w₁ hrely
  obtain rfl : w = w₁ := hrely
  refine ⟨trivial, fun x w₂ hx => ?_⟩
  have hnext := hP w w₂ (hcost w x w₂ hx) hw
  exact ⟨hguar w w₂ hnext, h x w₂ hnext⟩

/-- A request between two attempts that costs nothing. -/
theorem retrying_idle {op : Request} {f : Answer op → Prog Answer α} {attempt maxRetries : ℕ}
    {post : α → CancelWorld → Prop}
    (hidle : ∀ w x w', CancelHandles secs chunk op w x w' → w.Passes w' 0 0 0)
    (hw : w.Retrying bytes attempt) (hattempt : attempt ≤ maxRetries)
    (h : ∀ x w', w'.Retrying bytes attempt →
      (f x).Safe (CancelHandles secs chunk) (sparing bytes (1024 + maxRetries)) post w') :
    (Prog.ask op >>= f).Safe (CancelHandles secs chunk) (sparing bytes (1024 + maxRetries)) post
      w :=
  retryLoop_step (P := fun w => w.Retrying bytes attempt) hidle
    (fun _ _ hpass hw => hw.passes hpass) (fun _ _ hw => hw.guar hattempt) hw h

/-- A request after an attempt, before the backoff, that costs nothing. -/
theorem attempted_idle {op : Request} {f : Answer op → Prog Answer α} {maxRetries : ℕ}
    {post : α → CancelWorld → Prop}
    (hidle : ∀ w x w', CancelHandles secs chunk op w x w' → w.Passes w' 0 0 0)
    (hw : w.Attempt bytes 1) (h : ∀ x w', w'.Attempt bytes 1 →
      (f x).Safe (CancelHandles secs chunk) (sparing bytes (1024 + maxRetries)) post w') :
    (Prog.ask op >>= f).Safe (CancelHandles secs chunk) (sparing bytes (1024 + maxRetries)) post
      w :=
  retryLoop_step (P := fun w => w.Attempt bytes 1) hidle (fun _ _ hpass hw => hw.passes hpass)
    (fun _ _ hw => hw.guar (Nat.le_refl _)) hw h

/-- An attempt that begins after the cancellation costs nothing and returns Cancelled; any
other begins with nothing counted. -/
theorem attempt_retrying {index start end_ attempt maxRetries : ℕ}
    (hw : w.Retrying (writeBatchBytes - 1 + chunk) attempt) (hattempt : attempt ≤ maxRetries) :
    (downloadSingleFragment index start end_).run.Safe (CancelHandles secs chunk)
      (sparing (writeBatchBytes - 1 + chunk) (1024 + maxRetries))
      (fun r w' => r = .error .cancelled ∧ w'.Retrying (writeBatchBytes - 1 + chunk) attempt ∨
        w'.Attempt (writeBatchBytes - 1 + chunk) 1) w := by
  rcases hw.calm with hcancelled | ⟨htaken, hopened, hslept⟩
  · intro w₁ hrely
    obtain rfl : w = w₁ := hrely
    refine ⟨trivial, fun x w₂ hx => ?_⟩
    obtain ⟨hpass, hanswer⟩ := hx
    have hnext : w₂.Retrying (writeBatchBytes - 1 + chunk) attempt := hw.passes hpass
    refine ⟨hnext.guar hattempt, ?_⟩
    rw [hanswer.of_cancelled hcancelled]
    rintro w₃ rfl
    exact .inl ⟨rfl, hnext⟩
  · have hfresh : w.Attempt 0 0 := ⟨hw.calm, htaken.le, hopened.le, hslept⟩
    refine Prog.Safe.mono (downloadSingleFragment_sparing hfresh) fun r w' hr => .inr ?_
    cases r with
    | ok a => exact hr.1 a rfl
    | error e => exact hr.2 e rfl

theorem retryLoop_sparing {url : String} {maxRetries index start end_ fuel attempt : ℕ}
    (hw : w.Retrying (writeBatchBytes - 1 + chunk) attempt) (hattempt : attempt ≤ maxRetries) :
    (retryLoop url maxRetries index start end_ fuel attempt).Safe (CancelHandles secs chunk)
      (sparing (writeBatchBytes - 1 + chunk) (1024 + maxRetries)) (fun _ _ => True) w := by
  induction fuel generalizing attempt w with
  | zero => exact fun _ _ => trivial
  | succ fuel ih =>
    unfold retryLoop
    refine retrying_idle (fun _ _ _ hx => hx) hw hattempt fun allowed w₁ hw₁ => ?_
    cases allowed with
    | false =>
      rw [Bool.not_false, if_pos rfl]
      split
      · exact fun _ _ => trivial
      · have hstep (w w' : CancelWorld) (hpass : w.Passes w' 0 0 1)
            (hw : w.Retrying (writeBatchBytes - 1 + chunk) attempt) :
            w'.Retrying (writeBatchBytes - 1 + chunk) (attempt + 1) := hw.passes hpass
        exact retryLoop_step (fun _ _ _ hx => hx) hstep (fun _ _ hw => hw.guar (by omega)) hw₁
          fun _ w₂ hw₂ => ih hw₂ (by omega)
    | true =>
      rw [Bool.not_true, if_neg Bool.false_ne_true]
      refine retrying_idle (fun _ _ _ hx => hx) hw₁ hattempt fun slot w₂ hw₂ => ?_
      cases slot with
      | error e => exact fun _ _ => trivial
      | ok _ =>
        refine (attempt_retrying hw₂ hattempt).bind fun result w₃ hresult => ?_
        have hw₃ : w₃.Retrying (writeBatchBytes - 1 + chunk) attempt :=
          hresult.elim (fun h => h.2) CancelWorld.Attempt.retrying
        cases result with
        | ok r =>
          refine retrying_idle (fun _ _ _ hx => hx) hw₃ hattempt fun _ w₄ hw₄ => ?_
          exact retrying_idle (fun _ _ _ hx => hx) hw₄ hattempt fun _ _ _ _ _ => trivial
        | error e =>
          by_cases hretry : e.isRetryable = true
          · -- only an attempt that the cancellation met on its way fails like this
            have hfailed : w₃.Attempt (writeBatchBytes - 1 + chunk) 1 := by
              refine hresult.resolve_left fun h => ?_
              rw [Except.error.inj h.1] at hretry
              cases hretry
            refine attempted_idle (fun _ _ _ hx => hx) hfailed fun _ w₄ hw₄ => ?_
            dsimp only
            rw [hretry, Bool.not_true, if_neg Bool.false_ne_true]
            split
            · exact attempted_idle (fun _ _ _ hx => hx) hw₄ fun _ _ _ _ _ => trivial
            · refine attempted_idle (fun _ _ _ hx => hx) hw₄ fun _ w₅ hw₅ => ?_
              have hstep (w w' : CancelWorld)
                  (hpass : w.Passes w' 0 0 (retryBackoff index attempt e))
                  (hw : w.Attempt (writeBatchBytes - 1 + chunk) 1) :
                  w'.Retrying (writeBatchBytes - 1 + chunk) (attempt + 1) := by
                obtain ⟨htaken, hopened, hslept⟩ := hpass.le
                have hbackoff : retryBackoff index attempt e ≤ 1024 := retryBackoff_le
                have := hw.taken
                have := hw.opened
                have := hw.slept
                exact ⟨hpass.calm hw.calm, by omega, by omega, by omega⟩
              exact retryLoop_step (fun _ _ _ hx => hx) hstep (fun _ _ hw => hw.guar (by omega)) hw₅
                fun _ w₆ hw₆ => ih hw₆ (by omega)
          · refine retrying_idle (fun _ _ _ hx => hx) hw₃ hattempt fun _ w₄ hw₄ => ?_
            dsimp only
            rw [if_pos (by simpa using hretry)]
            exact retrying_idle (fun _ _ _ hx => hx) hw₄ hattempt fun _ _ _ _ _ => trivial

/-- Nothing has been counted. -/
def CancelWorld.Fresh (w : CancelWorld) : Prop := w.taken = 0 ∧ w.opened = 0 ∧ w.slept = 0

theorem fullLoop_sparing {expectedSize : Option UInt64} {maxFullStreamBytes : UInt64}
    {items : List Item} {pos : ℕ} (hitems : ∀ data, .ok data ∈ items → data.length ≤ chunk)
    (hw : w.Attempt chunk 1) :
    Ensures (CancelHandles secs chunk) (sparing chunk seconds)
      (fullLoop expectedSize maxFullStreamBytes items pos) w (fun _ w' => w'.Attempt chunk 1)
      fun w' => w'.Attempt chunk 1 := by
  induction items generalizing pos w with
  | nil => exact Ensures.pure hw (sparing_stable _)
  | cons item items ih =>
    unfold fullLoop
    refine attempt_waitControl hw (Nat.le_refl _) (Nat.le_refl 1) fun w₁ hw₁ => ?_
    have hlast : w₁.Attempt chunk 1 := hw₁.mono (Nat.zero_le _) (Nat.zero_le 1)
    refine attempt_fromResult hlast fun data hdata => ?_
    have hlength : data.length ≤ chunk := hitems data (hdata ▸ List.mem_cons_self)
    refine attempt_orThrow hlast fun chunkLen _ => attempt_fromResult hlast fun _ _ => ?_
    refine Ensures.request_bind fun w₁' hrely => ⟨trivial, fun x w₂ hx => ?_⟩
    obtain rfl : w₁ = w₁' := hrely
    obtain ⟨k, hk, -, hpass⟩ := hx
    have hw₂ : w₂.Attempt chunk 1 := (hw₁.passes hpass).mono (by omega) (Nat.zero_le 1)
    refine ⟨hw₂.guar (Nat.le_refl _), attempt_fromResult hw₂ fun written _ => ?_⟩
    refine attempt_idle (fun _ _ _ hx => hx) hw₂ (Nat.le_refl _) (Nat.le_refl 1) fun _ w₃ hw₃ => ?_
    exact ih (fun d hd => hitems d (List.mem_cons_of_mem item hd)) hw₃

theorem completeFirst_sparing {fragments : List FragmentRecord} {pos : ℕ}
    (hw : w.Attempt bytes 1) :
    Ensures (CancelHandles secs chunk) (sparing bytes seconds) (completeFirst fragments pos) w
      (fun _ w' => w'.Attempt bytes 1) fun w' => w'.Attempt bytes 1 := by
  unfold completeFirst
  split
  · exact Ensures.pure hw (sparing_stable _)
  case _ frag rest =>
    have hrest (frag' : FragmentRecord) :
        Ensures (CancelHandles secs chunk) (sparing bytes seconds)
        (request .elapsed >>= fun elapsed =>
          fromResult (frag'.completeDownloadFast pos elapsed) >>= fun frag'' =>
            pure (frag'' :: rest)) w
        (fun _ w' => w'.Attempt bytes 1) fun w' => w'.Attempt bytes 1 := by
      refine attempt_idle (fun _ _ _ hx => hx) hw (Nat.le_refl _) (Nat.le_refl 1)
        fun elapsed w₁ hw₁ => ?_
      exact attempt_fromResult hw₁ fun _ _ => Ensures.pure hw₁ (sparing_stable _)
    dsimp only
    split
    · exact attempt_fromResult hw fun frag' _ => hrest frag'
    · exact hrest frag

/-- A cancellation stops the download of a whole file within one chunk: whenever it comes, the
storage takes at most one chunk from then on, and at most one more stream is opened. -/
theorem cancel_stops_full_download {expectedSize : Option UInt64} {maxFullStreamBytes : UInt64}
    {host : DownloadResult String} {storageReady : Bool} {fragments : List FragmentRecord}
    (hw : w.Fresh)
    (hcut : (executeFullDownload expectedSize maxFullStreamBytes host storageReady
      fragments).run.CutOff (CancelHandles secs chunk) w w') :
    w'.taken ≤ chunk ∧ w'.opened ≤ 1 := by
  obtain ⟨htaken, hopened, hslept⟩ := hw
  have hfirst : w.Attempt 0 0 := ⟨.inr ⟨htaken, hopened, hslept⟩, htaken.le, hopened.le, hslept⟩
  have hensures : Ensures (CancelHandles secs chunk) (sparing chunk 0)
      (executeFullDownload expectedSize maxFullStreamBytes host storageReady fragments) w
      (fun _ w' => w'.Attempt chunk 1) fun w' => w'.Attempt chunk 1 := by
    unfold executeFullDownload
    refine attempt_waitControl hfirst (Nat.zero_le _) (Nat.zero_le 1) fun w₁ hw₁ => ?_
    have hlast₁ : w₁.Attempt chunk 1 := hw₁.mono (Nat.zero_le _) (Nat.zero_le 1)
    refine attempt_fromResult hlast₁ fun _ _ => ?_
    refine attempt_idle (fun _ _ _ hx => hx) hw₁ (Nat.zero_le _) (Nat.zero_le 1)
      fun x w₂ hw₂ => ?_
    have hlast₂ : w₂.Attempt chunk 1 := hw₂.mono (Nat.zero_le _) (Nat.zero_le 1)
    refine attempt_fromResult hlast₂ fun _ _ => ?_
    refine Ensures.request_bind fun w₂' hrely => ⟨trivial, fun x w₃ hx => ?_⟩
    obtain rfl : w₂ = w₂' := hrely
    obtain ⟨hpass, hx⟩ := hx
    have hw₃ : w₃.Attempt 0 1 := hw₂.passes hpass
    have hlast₃ : w₃.Attempt chunk 1 := hw₃.mono (Nat.zero_le _) (Nat.le_refl 1)
    refine ⟨hw₃.guar (Nat.zero_le _), ?_⟩
    refine attempt_fromSelected hlast₃ fun items hitems => ?_
    subst hitems
    split
    · exact Ensures.throw hlast₃ (sparing_stable _)
    · refine (fullLoop_sparing hx hlast₃).bind (sparing_stable _) fun pos w₄ hw₄ => ?_
      unfold finishFullDownload
      split
      · exact completeFirst_sparing hw₄
      · split
        · exact Ensures.throw hw₄ (sparing_stable _)
        · exact completeFirst_sparing hw₄
  have hguar (u u' : CancelWorld) (h : (sparing chunk 0).guar u u') :
      u'.taken ≤ chunk ∧ u'.opened ≤ 1 := ⟨h.1, h.2.1⟩
  exact Prog.Safe.cutOff (P := fun u => u.taken ≤ chunk ∧ u.opened ≤ 1) hensures hguar hcut
    ⟨htaken.trans_le (Nat.zero_le _), hopened.trans_le (Nat.zero_le _)⟩

/-- A whole file, cancelled while the storage takes two bytes of its first chunk. -/
theorem cancel_stops_full_download_mid_write : ∃ w' : CancelWorld,
    (executeFullDownload none 100 (.ok "h") true []).run.CutOff (CancelHandles 1 3)
      ⟨⟨.downloading, 0, false⟩, 0, 0, 0⟩ w' ∧ w'.taken = 2 ∧ w'.taken ≤ 3 ∧ w'.opened ≤ 1 := by
  let before : CancelWorld := ⟨⟨.downloading, 0, false⟩, 0, 0, 0⟩
  let after : CancelWorld := ⟨⟨.cancelled, 1, false⟩, 2, 0, 0⟩
  have hidle : before.Passes before 0 0 0 := ⟨.refl _, rfl, rfl, rfl⟩
  have hlook : EachStep (Waiter.step false 1)
      (fun w e => ∀ s, e = .sender s → Latched w.channel s) (.new before.control 0 0)
      [.advance] := fun _ _ => ⟨fun _ he => ControlEvent.noConfusion he, trivial⟩
  have hcontrol : CancelHandles 1 3 .waitControl before (.ok ()) before :=
    ⟨hidle, 0, 0, [.advance], _, hlook, rfl, rfl, rfl⟩
  have hpool : CancelHandles 1 3 .acquirePool before (.ok ()) before := hidle
  have hopen : CancelHandles 1 3 .openFull before (.finished (.ok [.ok [1, 2, 3]])) before := by
    refine ⟨⟨.refl _, rfl, rfl, rfl⟩, fun data hdata => ?_⟩
    rw [Except.ok.inj (List.mem_singleton.mp hdata)]
    exact Nat.le_refl 3
  have hstep : before.control.step (.send .cancelled) = some after.control := rfl
  have hsend : before.control.Later Latched after.control :=
    .step (fun hc => DownloadState.noConfusion hc) hstep (.refl _)
  have hwrite : CancelHandles 1 3 (.writeAt 0 [1, 2, 3]) before (.ok 2) after := by
    refine ⟨2, Nat.le_succ 2, fun n hn => ?_, ⟨hsend, rfl, rfl, rfl⟩⟩
    exact (Except.ok.inj hn).symm
  have hcut : (executeFullDownload none 100 (.ok "h") true []).run.CutOff (CancelHandles 1 3)
      before after :=
    .call hcontrol (.call hpool (.call hopen (.call hcontrol (.call hwrite (.here _ _)))))
  exact ⟨after, hcut, rfl, cancel_stops_full_download ⟨rfl, rfl, rfl⟩ hcut⟩

end

end Tachyon
