import Tachyon.Engine.SingleFragment

/-!
# One fragment among others

A fragment task runs next to the tasks of the other fragments on one file. This
module says what it may count on and what it owes them, and proves that the
retry loop keeps to it: every write stays inside the fragment's range, and a
success leaves exactly the bytes of its last stream there.
-/

namespace Tachyon

open Resumption ByteFile

/-- The progress channel took a `completed: true` message of the fragment. -/
def Completed (index : ℕ) (w : World) : Prop :=
  ∃ message ∈ w.sent, message.fragmentIndex = index ∧ message.completed = true

/-- The last stream opened for the range ended cleanly, has as many bytes as the range,
and its bytes stand in the range. -/
structure Delivered (start end_ : ℕ) (w : World) : Prop where
  clean : EndsCleanly (w.served start end_)
  length_eq : (deliveredBytes (w.served start end_)).length = end_ - start + 1
  stored : StoredAt w.file start (deliveredBytes (w.served start end_))

/-- The others take no byte of the range away, open no stream for it and send no
completion of this fragment. -/
structure LeftAlone (index start end_ : ℕ) (w w' : World) : Prop where
  bytes : ∀ i b, start ≤ i → i ≤ end_ → w.file[i]? = some b → w'.file[i]? = some b
  served : w'.served start end_ = w.served start end_
  completed : Completed index w' → Completed index w

/-- This fragment changes nothing outside its range and reports its completion only when
its bytes are delivered. -/
structure KeepsToRange (index start end_ : ℕ) (w w' : World) : Prop where
  bytes : KeepsOutside start (end_ + 1) w.file w'.file
  served : ∀ s e, ¬(s = start ∧ e = end_) → w'.served s e = w.served s e
  completed : ∀ i, i ≠ index → Completed i w' → Completed i w
  delivered : Completed index w' → Delivered start end_ w'

/-- A write request stays inside the range; other requests are free. -/
def WritesWithin (start end_ : ℕ) : Request → Prop
  | .writeAt offset data | .writeAtRaced offset data =>
    start ≤ offset ∧ offset + data.length ≤ end_ + 1
  | _ => True

/-- The contract of a fragment task. -/
def fragmentContract (index start end_ : ℕ) : Contract Request World where
  rely := LeftAlone index start end_
  guar := KeepsToRange index start end_
  issue := fun r _ => WritesWithin start end_ r
  rely_refl := fun _ => ⟨fun _ _ _ _ hb => hb, rfl, fun h => h⟩
  rely_trans := fun h h' => ⟨fun i b hlo hhi hb => h'.bytes i b hlo hhi (h.bytes i b hlo hhi hb),
    h'.served.trans h.served, fun hc => h.completed (h'.completed hc)⟩

@[simp] theorem World.write_served (w : World) (offset : ℕ) (data : Bytes) :
    (w.write offset data).served = w.served := rfl

@[simp] theorem World.write_sent (w : World) (offset : ℕ) (data : Bytes) :
    (w.write offset data).sent = w.sent := rfl

@[simp] theorem World.write_file (w : World) (offset : ℕ) (data : Bytes) :
    (w.write offset data).file = pwrite w.file offset data := rfl

@[simp] theorem World.serve_file (w : World) (start end_ : ℕ) (items : List Item) :
    (w.serve start end_ items).file = w.file := rfl

@[simp] theorem World.serve_sent (w : World) (start end_ : ℕ) (items : List Item) :
    (w.serve start end_ items).sent = w.sent := rfl

@[simp] theorem World.serve_served_self (w : World) (start end_ : ℕ) (items : List Item) :
    (w.serve start end_ items).served start end_ = items := by
  simp [World.serve]

@[simp] theorem World.send_file (w : World) (message : FragmentProgress) :
    (w.send message).file = w.file := rfl

@[simp] theorem World.send_served (w : World) (message : FragmentProgress) :
    (w.send message).served = w.served := rfl

/-- A message completes its own fragment, if any. -/
theorem completed_send {w : World} {message : FragmentProgress} {i : ℕ} :
    Completed i (w.send message) ↔
      Completed i w ∨ (message.fragmentIndex = i ∧ message.completed = true) := by
  simp only [Completed, World.send, List.mem_append, List.mem_singleton]
  constructor
  · rintro ⟨m, hm | rfl, h⟩
    · exact Or.inl ⟨m, hm, h⟩
    · exact Or.inr h
  · rintro (⟨m, hm, h⟩ | h)
    · exact ⟨m, Or.inl hm, h⟩
    · exact ⟨message, Or.inr rfl, h⟩

section Attempt

variable {env : Environment} {index start end_ : ℕ} {items : List Item} {written : Bytes}
  {w w' : World}

/-- A completion not yet reported stays so while the others run. -/
theorem pending_stable :
    (fragmentContract index start end_).Stable fun w => ¬Completed index w :=
  fun _ _ hrely hpending hc => hpending (hrely.completed hc)

/-- A completion in the channel is one of delivered bytes. -/
def Honest (index start end_ : ℕ) (w : World) : Prop := Completed index w → Delivered start end_ w

theorem honest_of_pending (h : ¬Completed index w) : Honest index start end_ w :=
  fun hc => absurd hc h

/-- A step that leaves the world as it is keeps the contract. -/
theorem keepsToRange_refl (h : Honest index start end_ w) : KeepsToRange index start end_ w w :=
  ⟨KeepsOutside.refl _ _ _, fun _ _ _ => rfl, fun _ _ hc => hc, h⟩

/-- Delivered bytes stay delivered while the others run. -/
theorem Delivered.stable (hle : start ≤ end_) :
    (fragmentContract index start end_).Stable (Delivered start end_) := by
  intro w w' hrely h
  have hserved := hrely.served
  refine ⟨by rw [hserved]; exact h.clean, by rw [hserved]; exact h.length_eq, ?_⟩
  rw [hserved]
  intro i hi
  have hlength := h.length_eq
  exact hrely.bytes _ _ (by omega) (by omega) (h.stored i hi)

/-- An attempt is on: its stream is `items`, and `written` is stored from the start of
the range on. -/
structure Attempt (index start end_ : ℕ) (items : List Item) (written : Bytes) (w : World) :
    Prop where
  pending : ¬Completed index w
  served : w.served start end_ = items
  fits : start + written.length ≤ end_ + 1
  stored : StoredAt w.file start written

theorem Attempt.honest (h : Attempt index start end_ items written w) :
    Honest index start end_ w := honest_of_pending h.pending

theorem Attempt.stable :
    (fragmentContract index start end_).Stable (Attempt index start end_ items written) := by
  intro w w' hrely h
  have hfits := h.fits
  refine ⟨pending_stable w w' hrely h.pending, hrely.served.trans h.served, hfits, ?_⟩
  intro i hi
  exact hrely.bytes _ _ (by omega) (by omega) (h.stored i hi)

/-- Writing right behind what is written, inside the range. -/
theorem Attempt.write (h : Attempt index start end_ items written w) {data : Bytes}
    (hfits : start + (written ++ data).length ≤ end_ + 1) :
    KeepsToRange index start end_ w (w.write (start + written.length) data) ∧
      Attempt index start end_ items (written ++ data)
        (w.write (start + written.length) data) := by
  have hpending : ¬Completed index (w.write (start + written.length) data) := h.pending
  have hlength : (written ++ data).length = written.length + data.length := List.length_append
  constructor
  · refine ⟨?_, fun _ _ _ => rfl, fun _ _ hc => hc, fun hc => absurd hc hpending⟩
    exact pwrite_keepsOutside (by omega) (by omega)
  · exact ⟨hpending, h.served, hfits, h.stored.pwrite_append data⟩

/-- `ok_or_else(..)?` goes on with a value and fails without one. -/
theorem ensures_orThrow {α β : Type} {c : Contract Request World} {x : Option β}
    {e : DownloadError} {f : β → Engine α} {post : α → World → Prop} {fail : World → Prop}
    (hfail : fail w) (hstable : c.Stable fail)
    (h : ∀ b, x = some b → Ensures (Handles env) c (f b) w post fail) :
    Ensures (Handles env) c (orThrow x e >>= f) w post fail := by
  cases x with
  | none => exact Ensures.throw hfail hstable
  | some b => exact h b rfl

/-- However a raced write ends, the storage took a prefix of the data: the reported one
when it succeeded. -/
theorem writeAtRaced_handled {offset : ℕ} {data : Bytes} {x : Selected ℕ}
    (h : Handles env (.writeAtRaced offset data) w x w') :
    ∃ k ≤ data.length, w' = w.write offset (data.take k) ∧ ∀ n, x = .finished (.ok n) → n = k := by
  cases x with
  | finished result =>
    obtain ⟨k, hk, hresult, hw'⟩ := h.2
    exact ⟨k, hk, hw', fun n hn => hresult n (by cases hn; rfl)⟩
  | interrupted control =>
    obtain ⟨k, hk, hw'⟩ := h
    exact ⟨k, hk, hw', fun n hn => by cases hn⟩

/-- A request that leaves the world as it is carries along whatever the others respect. -/
theorem safe_idle {α : Type} {op : Request} {f : Answer op → Prog Answer α}
    {post : α → World → Prop} {P : World → Prop}
    (hidle : ∀ w x w', Handles env op w x w' → w' = w) (hissue : WritesWithin start end_ op)
    (hhonest : ∀ w, P w → Honest index start end_ w)
    (hstable : (fragmentContract index start end_).Stable P) (hw : P w)
    (h : ∀ x w', P w' → (f x).Safe (Handles env) (fragmentContract index start end_) post w') :
    (Prog.ask op >>= f).Safe (Handles env) (fragmentContract index start end_) post w := by
  intro w₁ hrely
  have hw₁ := hstable w w₁ hrely hw
  refine ⟨hissue, fun x w₂ hx => ?_⟩
  obtain rfl := hidle w₁ x w₂ hx
  exact ⟨keepsToRange_refl (hhonest _ hw₁), h x _ hw₁⟩

/-- A step of the control channel either lets the program go on or ends it. -/
theorem ensures_control {α : Type} {op : Request} {f : Answer op → Engine α}
    {post : α → World → Prop} {P : World → Prop}
    (hidle : ∀ w x w', Handles env op w x w' → w' = w) (hissue : WritesWithin start end_ op)
    (hhonest : ∀ w, P w → Honest index start end_ w)
    (hstable : (fragmentContract index start end_).Stable P) (hw : P w)
    (h : ∀ x w', P w' → Ensures (Handles env) (fragmentContract index start end_) (f x) w' post
      fun w' => ¬Completed index w') :
    Ensures (Handles env) (fragmentContract index start end_) (request op >>= f) w post
      fun w' => ¬Completed index w' :=
  @safe_idle env index start end_ w _ op (fun x => (f x).run) _ P hidle hissue hhonest hstable hw h

/-- The offset behind the data is a `u64`, where there is data. -/
def EndsInU64 (pos : ℕ) (data : Bytes) : Prop := data ≠ [] → pos + data.length < u64Bound

theorem endsInU64_nil {pos : ℕ} : EndsInU64 pos [] := fun h => absurd rfl h

/-- `write_all_at` stores the whole batch or fails, and never writes outside the range. -/
theorem writeAllLoop_ensures {fuel pos totalWritten : ℕ} {batch : Bytes}
    (h : Attempt index start end_ items written w) (hpos : pos = start + written.length)
    (hfits : start + (written ++ batch).length ≤ end_ + 1) (hfuel : batch.length ≤ fuel) :
    Ensures (Handles env) (fragmentContract index start end_)
      (writeAllLoop fuel pos totalWritten batch) w
      (fun n w' => n = totalWritten + batch.length ∧ EndsInU64 pos batch ∧
        Attempt index start end_ items (written ++ batch) w')
      (fun w' => ¬Completed index w') := by
  induction fuel generalizing pos totalWritten batch written w with
  | zero =>
    have hnil : batch = [] := List.length_eq_zero_iff.mp (by omega)
    subst hnil
    exact Ensures.pure ⟨by simp, endsInU64_nil, by simpa using h⟩
      fun w w' hrely h => ⟨h.1, h.2.1, Attempt.stable w w' hrely h.2.2⟩
  | succ fuel ih =>
    unfold writeAllLoop
    by_cases hnil : batch = []
    · subst hnil
      exact Ensures.pure ⟨by simp, endsInU64_nil, by simpa using h⟩
        fun w w' hrely h => ⟨h.1, h.2.1, Attempt.stable w w' hrely h.2.2⟩
    rw [if_neg (by simpa using hnil)]
    have hlength : (written ++ batch).length = written.length + batch.length := List.length_append
    refine Ensures.request_bind fun w₁ hrely => ?_
    have h₁ := Attempt.stable w w₁ hrely h
    refine ⟨⟨by omega, by omega⟩, fun x w₂ hx => ?_⟩
    obtain ⟨k, hk, rfl, hxk⟩ := writeAtRaced_handled hx
    have htake : (batch.take k).length = k := by rw [List.length_take]; omega
    have hdrop : (batch.drop k).length = batch.length - k := List.length_drop
    have hfitsk : start + (written ++ batch.take k).length ≤ end_ + 1 := by
      rw [List.length_append]
      omega
    obtain ⟨hguar, h₂⟩ := h₁.write hfitsk
    rw [← hpos] at hguar h₂
    refine ⟨hguar, ?_⟩
    have hpending := h₂.pending
    cases x with
    | interrupted r => cases r <;> exact Ensures.throw hpending pending_stable
    | finished r =>
      cases r with
      | error e => exact Ensures.throw hpending pending_stable
      | ok n =>
        have hn := hxk n rfl
        subst hn
        simp only [fromSelected, fromResult, ok_bind]
        by_cases hzero : n = 0
        · rw [if_pos hzero]
          exact Ensures.throw hpending pending_stable
        rw [if_neg hzero]
        refine ensures_orThrow hpending pending_stable fun writtenU64 hu64 => ?_
        refine ensures_orThrow hpending pending_stable fun pos' hpos' => ?_
        refine ensures_orThrow hpending pending_stable fun total' htotal' => ?_
        obtain ⟨-, rfl⟩ := tryFromUsize_eq_some.mp hu64
        obtain ⟨hu64, rfl⟩ := checkedAdd_eq_some.mp hpos'
        obtain ⟨-, rfl⟩ := checkedAdd_eq_some.mp htotal'
        have happend : written ++ batch.take n ++ batch.drop n = written ++ batch := by
          rw [List.append_assoc, List.take_append_drop]
        have hrest := @ih (written ++ batch.take n) (w₁.write pos (batch.take n)) (pos + n)
          (totalWritten + n) (batch.drop n) h₂
          (by rw [List.length_append]; omega) (by rw [happend]; exact hfits) (by omega)
        refine hrest.mono fun m w' hdone => ?_
        obtain ⟨hm, hend, hw'⟩ := hdone
        refine ⟨by omega, fun _ => ?_, happend ▸ hw'⟩
        by_cases hrest : batch.drop n = []
        · rw [hrest, List.length_nil] at hdrop
          omega
        · have := hend hrest
          omega

/-- A batch passes the length check, or nothing of it is written. -/
theorem flushBatch_ensures {overflowText : String} {expectedLen pos totalWritten : ℕ}
    {batch : Bytes} (h : Attempt index start end_ items written w) (hle : start ≤ end_)
    (hlen : expectedLen = end_ - start + 1) (hpos : pos = start + written.length)
    (htotal : totalWritten = written.length) :
    Ensures (Handles env) (fragmentContract index start end_)
      (flushBatch overflowText index expectedLen pos totalWritten batch) w
      (fun n w' => n = batch.length ∧ EndsInU64 pos batch ∧
        Attempt index start end_ items (written ++ batch) w')
      (fun w' => ¬Completed index w') := by
  unfold flushBatch
  refine ensures_orThrow h.pending pending_stable fun batchLen hbatch => ?_
  refine ensures_orThrow h.pending pending_stable fun attempted hattempted => ?_
  obtain ⟨-, rfl⟩ := tryFromUsize_eq_some.mp hbatch
  obtain ⟨-, rfl⟩ := checkedAdd_eq_some.mp hattempted
  by_cases hover : totalWritten + batch.length > expectedLen
  · rw [if_pos hover]
    exact Ensures.throw h.pending pending_stable
  · rw [if_neg hover]
    have hfits : start + (written ++ batch).length ≤ end_ + 1 := by
      rw [List.length_append]
      omega
    have hall := @writeAllLoop_ensures env index start end_ items written w batch.length pos 0
      batch h hpos hfits (Nat.le_refl _)
    exact hall.mono fun n w' hn => ⟨by rw [hn.1, Nat.zero_add], hn.2⟩

/-- The chunk loop stands after `consumed` of a stream: those bytes are written or buffered. -/
structure CursorAt (index start end_ : ℕ) (items : List Item) (consumed : List Bytes)
    (rest : List Item) (c : FragmentCursor) (w : World) : Prop where
  stream : items = consumed.map Except.ok ++ rest
  attempt : ∃ written, Attempt index start end_ items written w ∧
    written ++ c.writeBuf = consumed.flatten ∧ c.pos = start + written.length ∧
    c.totalWritten = written.length ∧ EndsInU64 start written

theorem CursorAt.pending {consumed : List Bytes} {rest : List Item} {c : FragmentCursor}
    (h : CursorAt index start end_ items consumed rest c w) : ¬Completed index w := by
  obtain ⟨written, hattempt, -⟩ := h.attempt
  exact hattempt.pending

theorem CursorAt.honest {consumed : List Bytes} {rest : List Item} {c : FragmentCursor}
    (h : CursorAt index start end_ items consumed rest c w) : Honest index start end_ w :=
  honest_of_pending h.pending

theorem CursorAt.stable {consumed : List Bytes} {rest : List Item} {c : FragmentCursor} :
    (fragmentContract index start end_).Stable
      (CursorAt index start end_ items consumed rest c) := by
  rintro w w' hrely ⟨hstream, written, hattempt, h⟩
  exact ⟨hstream, written, Attempt.stable w w' hrely hattempt, h⟩

/-- A progress message that completes nothing leaves an attempt where it is. -/
theorem reportProgress_ensures {chunkCount totalWritten : ℕ}
    (h : Attempt index start end_ items written w) :
    Ensures (Handles env) (fragmentContract index start end_)
      (reportProgress index chunkCount totalWritten) w
      (fun _ w' => Attempt index start end_ items written w') (fun w' => ¬Completed index w') := by
  unfold reportProgress
  by_cases hreport : chunkCount % progressReportChunkInterval = 0
  · rw [if_pos hreport]
    refine Ensures.request_bind fun w₁ hrely => ⟨trivial, fun taken w₂ hw₂ => ?_⟩
    have h₁ := Attempt.stable w w₁ hrely h
    have hsame : ∀ i, Completed i w₂ ↔ Completed i w₁ := by
      intro i
      cases taken with
      | false => rw [show w₂ = w₁ from hw₂]
      | true => rw [show w₂ = w₁.send _ from hw₂, completed_send]; simp
    have hfile : w₂.file = w₁.file := by cases taken <;> rw [hw₂] <;> rfl
    have hserved : w₂.served = w₁.served := by cases taken <;> rw [hw₂] <;> rfl
    have hpending : ¬Completed index w₂ := fun hc => h₁.pending ((hsame index).mp hc)
    constructor
    · refine ⟨?_, fun s e _ => by rw [hserved], fun i _ => (hsame i).mp,
        fun hc => absurd hc hpending⟩
      rw [hfile]
      exact KeepsOutside.refl _ _ _
    · refine Ensures.pure ⟨hpending, ?_, h.fits, ?_⟩ Attempt.stable
      · rw [hserved]; exact h₁.served
      · rw [hfile]; exact h₁.stored
  · rw [if_neg hreport]
    exact Ensures.pure h Attempt.stable

/-- The chunk loop ends with the whole stream written or buffered. -/
theorem chunkLoop_ensures {expectedLen : ℕ} {consumed : List Bytes} {rest : List Item}
    {c : FragmentCursor} (h : CursorAt index start end_ items consumed rest c w)
    (hle : start ≤ end_) (hlen : expectedLen = end_ - start + 1) :
    Ensures (Handles env) (fragmentContract index start end_) (chunkLoop index expectedLen rest c) w
      (fun c' w' => ∃ consumed', CursorAt index start end_ items consumed' [] c' w')
      (fun w' => ¬Completed index w') := by
  induction rest generalizing consumed c w with
  | nil =>
    exact Ensures.pure ⟨consumed, h⟩ fun w w' hrely ⟨consumed', h⟩ =>
      ⟨consumed', CursorAt.stable w w' hrely h⟩
  | cons item rest ih =>
    refine ensures_control (fun _ _ _ hw => hw) trivial (fun _ => CursorAt.honest) CursorAt.stable
      h fun control w₁ h₁ => ?_
    cases control with
    | error e => exact Ensures.throw h₁.pending pending_stable
    | ok _ =>
    cases item with
    | error e => exact Ensures.throw h₁.pending pending_stable
    | ok chunk =>
    simp only [fromResult, ok_bind]
    obtain ⟨hstream, written, hattempt, hbuffered, hpos, htotal, hend⟩ := h₁
    have hstream' : items = (consumed ++ [chunk]).map Except.ok ++ rest := by
      rw [hstream, List.map_append, List.append_assoc]
      rfl
    have hbuffered' : written ++ (c.writeBuf ++ chunk) = (consumed ++ [chunk]).flatten := by
      rw [List.flatten_append, ← hbuffered, List.append_assoc, List.flatten_singleton]
    by_cases hfull : (c.writeBuf ++ chunk).length ≥ writeBatchBytes
    · rw [if_pos hfull]
      refine Ensures.bind (flushBatch_ensures hattempt hle hlen hpos htotal) pending_stable ?_
      rintro n w₂ ⟨rfl, -, h₂⟩
      refine ensures_orThrow h₂.pending pending_stable fun pos' hpos' => ?_
      obtain ⟨hu64, rfl⟩ := checkedAdd_eq_some.mp hpos'
      refine ensures_control (fun _ _ _ hw => hw) trivial (fun _ => Attempt.honest) Attempt.stable
        h₂ fun _ w₃ h₃ => ?_
      refine Ensures.bind (reportProgress_ensures h₃) pending_stable fun _ w₄ h₄ => ?_
      have hfits := h₄.fits
      have hall : (written ++ (c.writeBuf ++ chunk)).length =
          written.length + (c.writeBuf ++ chunk).length := List.length_append
      have hnowrap : wrappingAdd c.totalWritten (c.writeBuf ++ chunk).length =
          c.totalWritten + (c.writeBuf ++ chunk).length := wrappingAdd_of_lt (by omega)
      have hpos₄ : c.pos + (c.writeBuf ++ chunk).length =
          start + (written ++ (c.writeBuf ++ chunk)).length := by omega
      have htotal₄ : wrappingAdd c.totalWritten (c.writeBuf ++ chunk).length =
          (written ++ (c.writeBuf ++ chunk)).length := by omega
      exact ih ⟨hstream', written ++ (c.writeBuf ++ chunk), h₄,
        by rw [List.append_nil, hbuffered'], hpos₄, htotal₄, fun _ => by omega⟩
    · rw [if_neg hfull]
      exact ih ⟨hstream', written, hattempt, hbuffered', hpos, htotal, hend⟩

/-- After the last flush the whole stream is written. -/
theorem flushRest_ensures {expectedLen : ℕ} {consumed : List Bytes} {c : FragmentCursor}
    (h : CursorAt index start end_ items consumed [] c w)
    (hle : start ≤ end_) (hlen : expectedLen = end_ - start + 1)
    (hbound : expectedLen < u64Bound) :
    Ensures (Handles env) (fragmentContract index start end_) (flushRest index expectedLen c) w
      (fun n w' => n = consumed.flatten.length ∧ EndsInU64 start consumed.flatten ∧
        Attempt index start end_ items consumed.flatten w')
      (fun w' => ¬Completed index w') := by
  obtain ⟨hstream, written, hattempt, hbuffered, hpos, htotal, hend⟩ := h
  have hstable : ∀ n, (fragmentContract index start end_).Stable fun w' =>
      n = consumed.flatten.length ∧ EndsInU64 start consumed.flatten ∧
        Attempt index start end_ items consumed.flatten w' :=
    fun _ w w' hrely h => ⟨h.1, h.2.1, Attempt.stable w w' hrely h.2.2⟩
  unfold flushRest
  by_cases hempty : c.writeBuf = []
  · rw [hempty, List.append_nil] at hbuffered
    rw [if_pos (by simpa using hempty), ← hbuffered]
    exact Ensures.pure ⟨htotal, hend, hattempt⟩ fun w w' hrely h =>
      ⟨h.1, h.2.1, Attempt.stable w w' hrely h.2.2⟩
  · rw [if_neg (by simpa using hempty)]
    refine Ensures.bind (flushBatch_ensures hattempt hle hlen hpos htotal) pending_stable ?_
    rintro n w₂ ⟨rfl, hlast, h₂⟩
    refine ensures_control (fun _ _ _ hw => hw) trivial (fun _ => Attempt.honest) Attempt.stable
      h₂ fun _ w₃ h₃ => ?_
    have hfits := h₃.fits
    have hall : (written ++ c.writeBuf).length = written.length + c.writeBuf.length :=
      List.length_append
    rw [hbuffered] at h₃ hall hfits
    have hnowrap : wrappingAdd c.totalWritten c.writeBuf.length =
        c.totalWritten + c.writeBuf.length := wrappingAdd_of_lt (by omega)
    have hu64 := hlast hempty
    exact Ensures.pure ⟨by omega, fun _ => by omega, h₃⟩ (hstable _)

/-- The bytes of a stream without errors are all its chunks. -/
theorem deliveredBytes_map_ok (chunks : List Bytes) :
    deliveredBytes (chunks.map (Except.ok : Bytes → Item)) = chunks.flatten := by
  induction chunks with
  | nil => rfl
  | cons chunk chunks ih =>
    rw [List.map_cons, List.flatten_cons, ← ih]
    rfl

theorem endsCleanly_map_ok (chunks : List Bytes) :
    EndsCleanly (chunks.map (Except.ok : Bytes → Item)) := by
  intro item hitem
  obtain ⟨chunk, -, rfl⟩ := List.mem_map.mp hitem
  exact ⟨chunk, rfl⟩

/-- An attempt that has written a whole clean stream of the range's length has delivered it. -/
theorem Attempt.delivered {chunks : List Bytes}
    (h : Attempt index start end_ (chunks.map Except.ok) chunks.flatten w)
    (hlength : chunks.flatten.length = end_ - start + 1) : Delivered start end_ w := by
  have hbytes : deliveredBytes (w.served start end_) = chunks.flatten := by
    rw [h.served, deliveredBytes_map_ok]
  refine ⟨?_, by rw [hbytes]; exact hlength, by rw [hbytes]; exact h.stored⟩
  rw [h.served]
  exact endsCleanly_map_ok chunks

/-- Opening a stream for the range keeps the contract; the stream is then the one served. -/
theorem openRange_handled {x : Selected (List Item)} (h : ¬Completed index w)
    (hx : Handles env (.openRange start end_) w x w') :
    KeepsToRange index start end_ w w' ∧ ¬Completed index w' ∧
      ∀ items, x = .finished (.ok items) → w'.served start end_ = items := by
  match x with
  | .finished (.ok items) =>
    obtain ⟨-, rfl⟩ := hx
    refine ⟨⟨KeepsOutside.refl _ _ _, ?_, fun _ _ hc => hc, fun hc => absurd hc h⟩, h, ?_⟩
    · intro s e hne
      simp [World.serve, hne]
    · rintro items' ⟨⟩
      exact World.serve_served_self _ _ _ _
  | .finished (.error e) =>
    obtain rfl : w' = w := hx
    exact ⟨keepsToRange_refl (honest_of_pending h), h, fun _ hne => by cases hne⟩
  | .interrupted control =>
    obtain rfl : w' = w := hx
    exact ⟨keepsToRange_refl (honest_of_pending h), h, fun _ hne => by cases hne⟩

/-- A completion sent once the bytes are delivered keeps the contract. -/
theorem sendCompleted_handled {taken : Bool} {downloaded : ℕ} (h : Delivered start end_ w)
    (hx : Handles env (.sendProgress ⟨index, true, downloaded⟩) w taken w') :
    KeepsToRange index start end_ w w' ∧ Delivered start end_ w' := by
  cases taken with
  | false =>
    obtain rfl : w' = w := hx
    exact ⟨⟨KeepsOutside.refl _ _ _, fun _ _ _ => rfl, fun _ _ hc => hc, fun _ => h⟩, h⟩
  | true =>
    obtain rfl : w' = w.send _ := hx
    have hdelivered : Delivered start end_ (w.send ⟨index, true, downloaded⟩) :=
      ⟨h.clean, h.length_eq, h.stored⟩
    refine ⟨⟨KeepsOutside.refl _ _ _, fun _ _ _ => rfl, ?_, fun _ => hdelivered⟩, hdelivered⟩
    intro i hi hc
    rcases completed_send.mp hc with hc | ⟨hindex, -⟩
    · exact hc
    · exact absurd hindex.symm hi

/-- One attempt either delivers the range or fails before reporting anything completed. -/
theorem downloadSingleFragment_ensures (h : ¬Completed index w) :
    Ensures (Handles env) (fragmentContract index start end_)
      (downloadSingleFragment index start end_) w
      (fun r w' => r.1 = end_ - start + 1 ∧ start ≤ end_ ∧ end_ + 1 < u64Bound ∧
        Delivered start end_ w')
      (fun w' => ¬Completed index w') := by
  unfold downloadSingleFragment
  refine ensures_control (fun _ _ _ hw => hw) trivial (fun _ => honest_of_pending) pending_stable h
    fun control w₁ h₁ => ?_
  cases control with
  | error e => exact Ensures.throw h₁ pending_stable
  | ok _ =>
  refine ensures_control (fun _ _ _ hw => hw) trivial (fun _ => honest_of_pending) pending_stable h₁
    fun permit w₂ h₂ => ?_
  cases permit with
  | error e => exact Ensures.throw h₂ pending_stable
  | ok _ =>
  refine Ensures.request_bind fun w₃ hrely => ⟨trivial, fun x w₄ hx => ?_⟩
  have h₃ := pending_stable w₂ w₃ hrely h₂
  obtain ⟨hguar, h₄, hserved⟩ := openRange_handled h₃ hx
  refine ⟨hguar, ?_⟩
  match x, hserved with
  | .interrupted (.ok ()), _ => exact Ensures.throw h₄ pending_stable
  | .interrupted (.error e), _ => exact Ensures.throw h₄ pending_stable
  | .finished (.error e), _ => exact Ensures.throw h₄ pending_stable
  | .finished (.ok items), hserved =>
  refine ensures_orThrow h₄ pending_stable fun expectedLen hexpected => ?_
  obtain ⟨len, hlen, hexpected⟩ := Option.bind_eq_some_iff.mp hexpected
  obtain ⟨hbound, rfl⟩ := checkedAdd_eq_some.mp hexpected
  obtain ⟨hle, rfl⟩ := checkedSub_eq_some.mp hlen
  have hstart : CursorAt index start end_ items [] items ⟨start, 0, 0, []⟩ w₄ :=
    ⟨rfl, [], ⟨h₄, hserved items rfl, by simp; omega, storedAt_nil _ _⟩, rfl, rfl, rfl,
      endsInU64_nil⟩
  refine Ensures.bind (chunkLoop_ensures hstart hle rfl) pending_stable ?_
  rintro cursor w₅ ⟨consumed, h₅⟩
  refine Ensures.bind (flushRest_ensures h₅ hle rfl hbound) pending_stable ?_
  rintro totalWritten w₆ ⟨rfl, hend, h₆⟩
  by_cases hincomplete : consumed.flatten.length ≠ end_ - start + 1
  · rw [if_pos hincomplete]
    exact Ensures.throw h₆.pending pending_stable
  rw [if_neg hincomplete]
  refine ensures_control (fun _ _ _ hw => hw) trivial (fun _ => Attempt.honest) Attempt.stable
    h₆ fun elapsed w₇ h₇ => ?_
  refine Ensures.request_bind fun w₈ hrely => ⟨trivial, fun taken w₉ hx => ?_⟩
  have h₈ := Attempt.stable w₇ w₈ hrely h₇
  have hall : items = consumed.map Except.ok := by
    rw [h₅.stream, List.append_nil]
  rw [hall] at h₈
  have hlength := not_not.mp hincomplete
  obtain ⟨hguar, hdelivered⟩ := sendCompleted_handled (h₈.delivered hlength) hx
  have hu64 : end_ + 1 < u64Bound := by
    have := hend (List.length_pos_iff.mp (by omega))
    omega
  exact ⟨hguar, Ensures.pure ⟨hlength, hle, hu64, hdelivered⟩
    fun w w' hrely h => ⟨h.1, h.2.1, h.2.2.1, Delivered.stable hle w w' hrely h.2.2.2⟩⟩

/-- What the result of a fragment task says about the world. -/
def TaskOutcome (index start end_ : ℕ) (result : FragmentTaskResult) (w : World) : Prop :=
  match result with
  | .ok (i, downloaded, _) => i = index ∧ downloaded = end_ - start + 1 ∧ Delivered start end_ w
  | .error (i, _) => i = index ∧ ¬Completed index w

theorem TaskOutcome.stable (hle : start ≤ end_) {result : FragmentTaskResult} :
    (fragmentContract index start end_).Stable (TaskOutcome index start end_ result) := by
  intro w w' hrely h
  match result with
  | .ok (i, downloaded, duration) =>
    exact ⟨h.1, h.2.1, Delivered.stable hle w w' hrely h.2.2⟩
  | .error (i, e) => exact ⟨h.1, pending_stable w w' hrely h.2⟩

/-- The retry loop keeps the contract: each attempt rewrites the same range only. -/
theorem retryLoop_safe {fragUrl : String} {maxRetries fuel attempt : ℕ} (hle : start ≤ end_)
    (h : ¬Completed index w) :
    (retryLoop fragUrl maxRetries index start end_ fuel attempt).Safe (Handles env)
      (fragmentContract index start end_) (TaskOutcome index start end_) w := by
  induction fuel generalizing attempt w with
  | zero => exact fun w' hrely => ⟨rfl, pending_stable w w' hrely h⟩
  | succ fuel ih =>
    have hfail : ∀ (e : DownloadError) w₁, ¬Completed index w₁ →
        (Prog.done (.error (index, e)) : Prog Answer FragmentTaskResult).Safe (Handles env)
          (fragmentContract index start end_) (TaskOutcome index start end_) w₁ :=
      fun e w₁ h₁ w' hrely => ⟨rfl, pending_stable w₁ w' hrely h₁⟩
    unfold retryLoop
    refine safe_idle (fun _ _ _ hw => hw) trivial (fun _ => honest_of_pending) pending_stable h
      fun allowed w₁ h₁ => ?_
    cases allowed with
    | false =>
      by_cases hlast : attempt ≥ maxRetries
      · rw [Bool.not_false, if_pos rfl, if_pos hlast]
        exact hfail _ w₁ h₁
      · rw [Bool.not_false, if_pos rfl, if_neg hlast]
        exact safe_idle (fun _ _ _ hw => hw) trivial (fun _ => honest_of_pending) pending_stable h₁
          fun _ w₂ h₂ => ih h₂
    | true =>
    refine safe_idle (fun _ _ _ hw => hw) trivial (fun _ => honest_of_pending) pending_stable h₁
      fun slot w₂ h₂ => ?_
    cases slot with
    | error e => exact hfail _ w₂ h₂
    | ok _ =>
    refine Prog.Safe.bind (downloadSingleFragment_ensures h₂) fun result w₃ hresult => ?_
    cases result with
    | ok r =>
      obtain ⟨hlength, -, -, hdelivered⟩ := hresult.1 r rfl
      refine safe_idle (fun _ _ _ hw => hw) trivial (fun _ h _ => h) (Delivered.stable hle)
        hdelivered fun _ w₄ h₄ => ?_
      refine safe_idle (fun _ _ _ hw => hw) trivial (fun _ h _ => h) (Delivered.stable hle)
        h₄ fun _ w₅ h₅ => ?_
      exact fun w' hrely => ⟨rfl, hlength, Delivered.stable hle w₅ w' hrely h₅⟩
    | error e =>
      have h₃ := hresult.2 e rfl
      refine safe_idle (fun _ _ _ hw => hw) trivial (fun _ => honest_of_pending) pending_stable h₃
        fun _ w₄ h₄ => ?_
      have hreport : ∀ p : Prog Answer FragmentTaskResult, (∀ w₅, ¬Completed index w₅ →
          p.Safe (Handles env) (fragmentContract index start end_)
            (TaskOutcome index start end_) w₅) →
          (Prog.ask .breakerFailure >>= fun _ => p).Safe (Handles env)
            (fragmentContract index start end_) (TaskOutcome index start end_) w₄ :=
        fun p hp => safe_idle (fun _ _ _ hw => hw) trivial (fun _ => honest_of_pending)
          pending_stable h₄ fun _ w₅ h₅ => hp w₅ h₅
      cases hretry : e.isRetryable with
      | false =>
        dsimp only
        rw [hretry, Bool.not_false, if_pos rfl]
        exact hreport _ (hfail e)
      | true =>
        dsimp only
        rw [hretry, Bool.not_true, if_neg Bool.false_ne_true]
        by_cases hlast : attempt ≥ maxRetries
        · rw [if_pos hlast]
          exact hreport _ (hfail e)
        · rw [if_neg hlast]
          refine hreport _ fun w₅ h₅ => ?_
          exact safe_idle (fun _ _ _ hw => hw) trivial (fun _ => honest_of_pending) pending_stable
            h₅ fun _ w₆ h₆ => ih h₆

/-- A spawned fragment task keeps its contract. -/
theorem fragmentTask_safe {fragUrl : String} {maxRetries : ℕ} (hle : start ≤ end_)
    (h : ¬Completed index w) :
    (fragmentTask fragUrl maxRetries index start end_).Safe (Handles env)
      (fragmentContract index start end_) (TaskOutcome index start end_) w :=
  retryLoop_safe hle h

end Attempt

end Tachyon
