import Tachyon.Engine.DownloadTask
import Tachyon.Library.TrueWrites

/-!
# Downloads from a server of one entity

Where a server sends bytes of one entity and nothing else, though perhaps cut short, a write of
a download brings bytes of the entity to their place. The tasks need not know of each other
then, nor of what an earlier run may still write: no write takes anything away, and a task that
reports its range complete has seen all of it written.
-/

namespace Tachyon

open Resumption ByteFile

/-- The server has one entity: a stream is a beginning of what it was asked for, and a full one
that ends cleanly is the entity. A full download needs a storage that takes whole writes. -/
structure ServesOne (entity : Bytes) (env : Environment) : Prop where
  bounded : entity.length < u64Bound
  whole : ∀ offset data n, env.writes offset data (.ok n) → n = data.length
  fulls : ∀ items, env.fulls items → deliveredBytes items <+: entity
  full_clean : ∀ items, env.fulls items → EndsCleanly items → deliveredBytes items = entity
  ranges : ∀ start end_ items, env.ranges start end_ items →
    deliveredBytes items <+: entity.drop start

/-- A task takes no byte of the entity away, and reports what `reports` allows. -/
def entityContract (entity : Bytes) (reports : ℕ → Bytes → Prop) : Contract Request World where
  rely := fun w w' => Improves entity w.file w'.file
  guar := fun w w' => Improves entity w.file w'.file ∧
    ∀ message ∈ w'.sent, message.completed = true →
      message ∈ w.sent ∨ reports message.fragmentIndex w'.file
  issue := fun _ _ => True
  rely_refl := fun w => Improves.refl entity w.file
  rely_trans := Improves.trans

/-- A fragment's task reports its own index, with its range in the file. -/
def ReportsRange (entity : Bytes) (index start end_ : ℕ) (i : ℕ) (file : Bytes) : Prop :=
  i = index ∧ AgreesOn entity start (end_ + 1) file

/-- The contract of a fragment's task. -/
def rangeContract (entity : Bytes) (spec : FragmentSpec) : Contract Request World :=
  entityContract entity (ReportsRange entity spec.index spec.start spec.end_)

section Transfer

variable {env : Environment} {entity : Bytes} {reports : ℕ → Bytes → Prop} {α : Type}
  {post : α → World → Prop} {w w' : World} {start end_ pos totalWritten : ℕ} {batch : Bytes}

/-- What agrees with the entity stays so. -/
theorem agreesOn_stable {lo hi : ℕ} :
    (entityContract entity reports).Stable fun w => AgreesOn entity lo hi w.file :=
  fun _ _ himproves h => h.improves himproves

theorem agreesOn_stable_and {lo hi : ℕ} (p : Prop) :
    (entityContract entity reports).Stable fun w => p ∧ AgreesOn entity lo hi w.file :=
  fun w w' himproves h => ⟨h.1, agreesOn_stable w w' himproves h.2⟩

theorem true_stable : (entityContract entity reports).Stable fun _ => True := fun _ _ _ h => h

/-- A step that reports nothing. -/
theorem entityGuar_of_improves (h : Improves entity w.file w'.file) (hsent : w'.sent = w.sent) :
    (entityContract entity reports).guar w w' :=
  ⟨h, fun _ hmessage _ => Or.inl (hsent ▸ hmessage)⟩

/-- A request that leaves the world as it is. -/
theorem ensures_idle {op : Request} {f : Answer op → Engine α} {P : World → Prop}
    (hidle : ∀ w x w', Handles env op w x w' → w' = w)
    (hstable : (entityContract entity reports).Stable P) (hw : P w)
    (h : ∀ x w', P w' → Ensures (Handles env) (entityContract entity reports) (f x) w' post
      fun _ => True) :
    Ensures (Handles env) (entityContract entity reports) (request op >>= f) w post
      fun _ => True := by
  refine Ensures.request_bind fun w₁ hrely => ⟨trivial, fun x w₂ hx => ?_⟩
  obtain rfl := hidle w₁ x w₂ hx
  exact ⟨entityGuar_of_improves (Improves.refl _ _) rfl, h x _ (hstable w _ hrely hw)⟩

theorem ensures_result {a : DownloadResult α} {γ : Type} {f : α → Engine γ}
    {post : γ → World → Prop} (h : ∀ b, a = .ok b → Ensures (Handles env)
      (entityContract entity reports) (f b) w post fun _ => True) :
    Ensures (Handles env) (entityContract entity reports) (fromResult a >>= f) w post
      fun _ => True := by
  cases a with
  | ok b => exact h b rfl
  | error e => exact Ensures.throw trivial true_stable

theorem ensures_option {a : Option α} {e : DownloadError} {γ : Type} {f : α → Engine γ}
    {post : γ → World → Prop} (h : ∀ b, a = some b → Ensures (Handles env)
      (entityContract entity reports) (f b) w post fun _ => True) :
    Ensures (Handles env) (entityContract entity reports) (orThrow a e >>= f) w post
      fun _ => True := by
  cases a with
  | some b => exact h b rfl
  | none => exact Ensures.throw trivial true_stable

/-- The storage takes some bytes of the entity behind those there are. -/
theorem write_agrees {k : ℕ} (h : AgreesOn entity start pos w.file)
    (htrue : batch <+: entity.drop pos) :
    (entityContract entity reports).guar w (w.write pos (batch.take k)) ∧
      AgreesOn entity start (pos + (batch.take k).length) (w.write pos (batch.take k)).file := by
  have htaken : batch.take k <+: entity.drop pos := (List.take_prefix k batch).trans htrue
  have himproves : Improves entity w.file (w.write pos (batch.take k)).file :=
    pwrite_improves htaken
  exact ⟨entityGuar_of_improves himproves rfl,
    (h.improves himproves).append (pwrite_agreesOn htaken)⟩

/-- What is left of a batch comes from further on. -/
theorem follows_drop (n : ℕ) (h : batch <+: entity.drop pos) (hn : n ≤ batch.length) :
    batch.drop n <+: entity.drop (pos + n) := by
  obtain ⟨rest, hrest⟩ := h
  refine ⟨rest, ?_⟩
  rw [← List.drop_drop, ← hrest, List.drop_append_of_le_length hn]

/-- `write_all_at` writes the batch behind what agrees, or a part of it. -/
theorem writeAllLoop_true {fuel : ℕ} (h : AgreesOn entity start pos w.file)
    (htrue : batch <+: entity.drop pos) (hfuel : batch.length ≤ fuel) :
    Ensures (Handles env) (entityContract entity reports)
      (writeAllLoop fuel pos totalWritten batch) w
      (fun n w' => n = totalWritten + batch.length ∧
        AgreesOn entity start (pos + batch.length) w'.file) fun _ => True := by
  induction fuel generalizing pos totalWritten batch w with
  | zero =>
    obtain rfl : batch = [] := List.length_eq_zero_iff.mp (by omega)
    exact Ensures.pure ⟨rfl, h⟩ (agreesOn_stable_and _)
  | succ fuel ih =>
    unfold writeAllLoop
    by_cases hnil : batch = []
    · subst hnil
      exact Ensures.pure ⟨rfl, h⟩ (agreesOn_stable_and _)
    rw [if_neg (by simpa using hnil)]
    refine Ensures.request_bind fun w₁ hrely => ⟨trivial, fun x w₂ hx => ?_⟩
    obtain ⟨k, hk, rfl, hxk⟩ := writeAtRaced_handled hx
    obtain ⟨hguar, h₂⟩ := @write_agrees entity reports w₁ start pos batch k
      (agreesOn_stable w w₁ hrely h) htrue
    refine ⟨hguar, ?_⟩
    cases x with
    | interrupted r => cases r <;> exact Ensures.throw trivial true_stable
    | finished r =>
      cases r with
      | error e => exact Ensures.throw trivial true_stable
      | ok n =>
        obtain rfl := hxk n rfl
        simp only [fromSelected, fromResult, ok_bind]
        by_cases hzero : n = 0
        · rw [if_pos hzero]
          exact Ensures.throw trivial true_stable
        rw [if_neg hzero]
        refine ensures_option fun writtenU64 hu64 => ?_
        refine ensures_option fun pos' hpos' => ?_
        refine ensures_option fun total' htotal' => ?_
        obtain ⟨-, rfl⟩ := tryFromUsize_eq_some.mp hu64
        obtain ⟨-, rfl⟩ := checkedAdd_eq_some.mp hpos'
        obtain ⟨-, rfl⟩ := checkedAdd_eq_some.mp htotal'
        have htake : (batch.take n).length = n := by
          rw [List.length_take]
          omega
        have hdrop : (batch.drop n).length = batch.length - n := List.length_drop
        rw [htake] at h₂
        refine (ih h₂ (follows_drop n htrue hk) (by omega)).mono ?_
        rintro m w' ⟨hm, hagrees⟩
        rw [hdrop, show pos + n + (batch.length - n) = pos + batch.length by omega] at hagrees
        exact ⟨by omega, hagrees⟩

/-- A batch that passes the length check fits behind what agrees. -/
theorem flushBatch_true {overflowText : String} {index expectedLen : ℕ}
    (h : AgreesOn entity start pos w.file) (htrue : batch <+: entity.drop pos) :
    Ensures (Handles env) (entityContract entity reports)
      (flushBatch overflowText index expectedLen pos totalWritten batch) w
      (fun n w' => (n = batch.length ∧ totalWritten + batch.length ≤ expectedLen) ∧
        AgreesOn entity start (pos + batch.length) w'.file) fun _ => True := by
  unfold flushBatch
  refine ensures_option fun batchLen hbatch => ensures_option fun attempted hattempted => ?_
  obtain ⟨-, rfl⟩ := tryFromUsize_eq_some.mp hbatch
  obtain ⟨-, rfl⟩ := checkedAdd_eq_some.mp hattempted
  by_cases hover : totalWritten + batch.length > expectedLen
  · rw [if_pos hover]
    exact Ensures.throw trivial true_stable
  · rw [if_neg hover]
    refine (writeAllLoop_true h htrue (Nat.le_refl _)).mono fun n w' hn => ⟨⟨?_, ?_⟩, hn.2⟩
    · rw [hn.1, Nat.zero_add]
    · omega

/-- Where the chunk loop stands: what is written agrees, and what is buffered and still to come
is what follows in the entity. -/
structure CursorTrue (entity : Bytes) (start expectedLen : ℕ) (rest : List Item)
    (c : FragmentCursor) (w : World) : Prop where
  agrees : AgreesOn entity start c.pos w.file
  follows : c.writeBuf ++ deliveredBytes rest <+: entity.drop c.pos
  pos_eq : c.pos = start + c.totalWritten
  fits : c.totalWritten ≤ expectedLen

theorem CursorTrue.stable {expectedLen : ℕ} {rest : List Item} {c : FragmentCursor} :
    (entityContract entity reports).Stable (CursorTrue entity start expectedLen rest c) :=
  fun w w' hrely h => ⟨agreesOn_stable w w' hrely h.agrees, h.follows, h.pos_eq, h.fits⟩

/-- A message that completes nothing. -/
theorem reportProgress_true {index chunkCount : ℕ} {P : World → Prop}
    (hstable : (entityContract entity reports).Stable P)
    (hfile : ∀ w w', w'.file = w.file → P w → P w') (hw : P w) :
    Ensures (Handles env) (entityContract entity reports)
      (reportProgress index chunkCount totalWritten) w (fun _ w' => P w') fun _ => True := by
  unfold reportProgress
  by_cases hreport : chunkCount % progressReportChunkInterval = 0
  · rw [if_pos hreport]
    refine Ensures.request_bind fun w₁ hrely => ⟨trivial, fun taken w₂ hx => ?_⟩
    have h₁ := hstable w w₁ hrely hw
    have hsame : w₂.file = w₁.file := by cases taken <;> rw [hx] <;> rfl
    refine ⟨⟨by rw [hsame]; exact Improves.refl _ _, fun message hmessage hcompleted => ?_⟩,
      Ensures.pure (hfile w₁ w₂ hsame h₁) hstable⟩
    left
    cases taken with
    | false => rwa [show w₂ = w₁ from hx] at hmessage
    | true =>
      rw [show w₂ = w₁.send _ from hx] at hmessage
      rcases List.mem_append.mp hmessage with hold | hnew
      · exact hold
      · obtain rfl := List.mem_singleton.mp hnew
        cases hcompleted
  · rw [if_neg hreport]
    exact Ensures.pure hw hstable

theorem chunkLoop_true {index expectedLen : ℕ} {rest : List Item} {c : FragmentCursor}
    (hbound : expectedLen < u64Bound) (h : CursorTrue entity start expectedLen rest c w) :
    Ensures (Handles env) (entityContract entity reports) (chunkLoop index expectedLen rest c) w
      (fun c' w' => CursorTrue entity start expectedLen [] c' w') fun _ => True := by
  induction rest generalizing c w with
  | nil => exact Ensures.pure h CursorTrue.stable
  | cons item rest ih =>
    refine ensures_idle (fun _ _ _ hw => hw) CursorTrue.stable h fun control w₁ h₁ => ?_
    refine ensures_result fun _ _ => ensures_result fun chunk hchunk => ?_
    subst hchunk
    obtain ⟨hagrees, hfollows, hpos, hfits⟩ := h₁
    rw [show deliveredBytes (.ok chunk :: rest) = chunk ++ deliveredBytes rest from rfl,
      ← List.append_assoc] at hfollows
    by_cases hfull : (c.writeBuf ++ chunk).length ≥ writeBatchBytes
    · rw [if_pos hfull]
      have hbatch := (List.prefix_append _ _).trans hfollows
      refine Ensures.bind (flushBatch_true hagrees hbatch) true_stable ?_
      rintro n w₂ ⟨⟨rfl, hroom⟩, h₂⟩
      refine ensures_option fun pos' hpos' => ?_
      obtain ⟨-, rfl⟩ := checkedAdd_eq_some.mp hpos'
      refine ensures_idle (fun _ _ _ hw => hw) agreesOn_stable h₂ fun _ w₃ h₃ => ?_
      refine Ensures.bind (reportProgress_true agreesOn_stable (fun _ _ hfile h => hfile ▸ h) h₃)
        true_stable fun _ w₄ h₄ => ih ?_
      have hnowrap : wrappingAdd c.totalWritten (c.writeBuf ++ chunk).length =
          c.totalWritten + (c.writeBuf ++ chunk).length := wrappingAdd_of_lt (by omega)
      have hrest := follows_drop (c.writeBuf ++ chunk).length hfollows
        (List.prefix_append _ _).length_le
      rw [List.drop_left] at hrest
      exact ⟨h₄, hrest, by simp only [hnowrap]; omega, by simp only [hnowrap]; omega⟩
    · rw [if_neg hfull]
      exact ih ⟨hagrees, hfollows, hpos, hfits⟩

/-- After the last flush everything the stream brought agrees. -/
theorem flushRest_true {index expectedLen : ℕ} {c : FragmentCursor}
    (hbound : expectedLen < u64Bound) (h : CursorTrue entity start expectedLen [] c w) :
    Ensures (Handles env) (entityContract entity reports) (flushRest index expectedLen c) w
      (fun n w' => True ∧ AgreesOn entity start (start + n) w'.file) fun _ => True := by
  obtain ⟨hagrees, hfollows, hpos, hfits⟩ := h
  rw [deliveredBytes, List.append_nil] at hfollows
  unfold flushRest
  by_cases hempty : c.writeBuf = []
  · rw [if_pos (by simpa using hempty)]
    exact Ensures.pure ⟨trivial, hpos ▸ hagrees⟩ (agreesOn_stable_and _)
  · rw [if_neg (by simpa using hempty)]
    refine Ensures.bind (flushBatch_true hagrees hfollows) true_stable ?_
    rintro n w₂ ⟨⟨rfl, hroom⟩, h₂⟩
    refine ensures_idle (fun _ _ _ hw => hw) agreesOn_stable h₂ fun _ w₃ h₃ => ?_
    rw [wrappingAdd_of_lt (by omega)]
    refine Ensures.pure ⟨trivial, ?_⟩ (agreesOn_stable_and _)
    rwa [hpos, Nat.add_assoc] at h₃

end Transfer

section Tasks

variable {env : Environment} {entity : Bytes} {index start end_ : ℕ} {w : World}

/-- An attempt that returns Ok has its range in the file, and reports it complete only then. -/
theorem downloadSingleFragment_true (hserves : ServesOne entity env) :
    Ensures (Handles env) (entityContract entity (ReportsRange entity index start end_))
      (downloadSingleFragment index start end_) w
      (fun _ w' => AgreesOn entity start (end_ + 1) w'.file) fun _ => True := by
  unfold downloadSingleFragment
  refine ensures_idle (P := fun _ => True) (fun _ _ _ hw => hw) true_stable trivial
    fun control w₁ _ => ensures_result fun _ _ => ?_
  refine ensures_idle (P := fun _ => True) (fun _ _ _ hw => hw) true_stable trivial
    fun permit w₂ _ => ensures_result fun _ _ => ?_
  refine Ensures.request_bind fun w₃ _ => ⟨trivial, fun x w₄ hx => ?_⟩
  have hguar : (entityContract entity (ReportsRange entity index start end_)).guar w₃ w₄ := by
    match x with
    | .finished (.ok items) =>
      obtain ⟨-, rfl⟩ := hx
      exact entityGuar_of_improves (Improves.refl _ _) rfl
    | .finished (.error e) | .interrupted control =>
      obtain rfl : w₄ = w₃ := hx
      exact entityGuar_of_improves (Improves.refl _ _) rfl
  refine ⟨hguar, ?_⟩
  match x with
  | .interrupted (.ok ()) | .interrupted (.error e) | .finished (.error e) =>
    exact Ensures.throw trivial true_stable
  | .finished (.ok items) =>
  refine ensures_option fun expectedLen hexpected => ?_
  obtain ⟨len, hlen, hexpected⟩ := Option.bind_eq_some_iff.mp hexpected
  obtain ⟨hbound, rfl⟩ := checkedAdd_eq_some.mp hexpected
  obtain ⟨hle, rfl⟩ := checkedSub_eq_some.mp hlen
  have hopened : CursorTrue entity start (end_ - start + 1) items ⟨start, 0, 0, []⟩ w₄ :=
    ⟨agreesOn_of_le (Nat.le_refl _), hserves.ranges _ _ _ hx.1, rfl, Nat.zero_le _⟩
  refine Ensures.bind (chunkLoop_true hbound hopened) true_stable fun cursor w₅ h₅ => ?_
  refine Ensures.bind (flushRest_true hbound h₅) true_stable ?_
  rintro totalWritten w₆ ⟨-, h₆⟩
  by_cases hincomplete : totalWritten ≠ end_ - start + 1
  · rw [if_pos hincomplete]
    exact Ensures.throw trivial true_stable
  rw [if_neg hincomplete]
  rw [not_not.mp hincomplete, show start + (end_ - start + 1) = end_ + 1 by omega] at h₆
  refine ensures_idle (fun _ _ _ hw => hw) agreesOn_stable h₆ fun elapsed w₇ h₇ => ?_
  refine Ensures.request_bind fun w₈ hrely => ⟨trivial, fun taken w₉ hx => ?_⟩
  have h₈ := agreesOn_stable w₇ w₈ hrely h₇
  have hsame : w₉.file = w₈.file := by cases taken <;> rw [hx] <;> rfl
  refine ⟨⟨by rw [hsame]; exact Improves.refl _ _, fun message hmessage _ => ?_⟩,
    Ensures.pure (hsame ▸ h₈) agreesOn_stable⟩
  cases taken with
  | false => exact Or.inl ((show w₉ = w₈ from hx) ▸ hmessage)
  | true =>
    rw [show w₉ = w₈.send _ from hx] at hmessage ⊢
    rcases List.mem_append.mp hmessage with hold | hnew
    · exact Or.inl hold
    · obtain rfl := List.mem_singleton.mp hnew
      exact Or.inr ⟨rfl, h₈⟩

/-- A fragment's task that ends with Ok has its range in the file. -/
def RangeOutcome (entity : Bytes) (start end_ : ℕ) (result : FragmentTaskResult) (w : World) :
    Prop := ∀ success, result = .ok success → AgreesOn entity start (end_ + 1) w.file

/-- A request of the retry loop itself. -/
theorem safe_askIdle {op : Request} {f : Answer op → Prog Answer FragmentTaskResult}
    {reports : ℕ → Bytes → Prop} {P : World → Prop}
    (hidle : ∀ w x w', Handles env op w x w' → w' = w)
    (hstable : (entityContract entity reports).Stable P) (hw : P w)
    (h : ∀ x w', P w' → (f x).Safe (Handles env) (entityContract entity reports)
      (RangeOutcome entity start end_) w') :
    (Prog.ask op >>= f).Safe (Handles env) (entityContract entity reports)
      (RangeOutcome entity start end_) w := by
  intro w₁ hrely
  refine ⟨trivial, fun x w₂ hx => ?_⟩
  obtain rfl := hidle w₁ x w₂ hx
  exact ⟨entityGuar_of_improves (Improves.refl _ _) rfl, h x _ (hstable w _ hrely hw)⟩

/-- The retry loop, whatever its attempts leave behind. -/
theorem retryLoop_true (hserves : ServesOne entity env) {fragUrl : String}
    {maxRetries fuel attempt : ℕ} :
    (retryLoop fragUrl maxRetries index start end_ fuel attempt).Safe (Handles env)
      (entityContract entity (ReportsRange entity index start end_))
      (RangeOutcome entity start end_) w := by
  induction fuel generalizing attempt w with
  | zero => exact fun _ _ _ hsuccess => nomatch hsuccess
  | succ fuel ih =>
    have hfail (e : DownloadError) (w : World) :
        (Prog.done (.error (index, e)) : Prog Answer FragmentTaskResult).Safe (Handles env)
          (entityContract entity (ReportsRange entity index start end_))
          (RangeOutcome entity start end_) w := fun _ _ _ hsuccess => nomatch hsuccess
    unfold retryLoop
    refine safe_askIdle (P := fun _ => True) (fun _ _ _ hw => hw) true_stable trivial
      fun allowed w₁ _ => ?_
    cases allowed with
    | false =>
      rw [Bool.not_false, if_pos rfl]
      split
      · exact hfail _ w₁
      · exact safe_askIdle (P := fun _ => True) (fun _ _ _ hw => hw) true_stable trivial
          fun _ w₂ _ => ih
    | true =>
    rw [Bool.not_true, if_neg Bool.false_ne_true]
    refine safe_askIdle (P := fun _ => True) (fun _ _ _ hw => hw) true_stable trivial
      fun slot w₂ _ => ?_
    cases slot with
    | error e => exact hfail _ w₂
    | ok _ =>
    refine Prog.Safe.bind (downloadSingleFragment_true hserves) fun result w₃ hresult => ?_
    cases result with
    | ok r =>
      refine safe_askIdle (fun _ _ _ hw => hw) agreesOn_stable (hresult.1 r rfl) fun _ w₄ h₄ => ?_
      refine safe_askIdle (fun _ _ _ hw => hw) agreesOn_stable h₄ fun _ w₅ h₅ => ?_
      exact fun w' hrely _ _ => agreesOn_stable w₅ w' hrely h₅
    | error e =>
      refine safe_askIdle (P := fun _ => True) (fun _ _ _ hw => hw) true_stable trivial
        fun _ w₄ _ => ?_
      dsimp only
      split
      · exact safe_askIdle (P := fun _ => True) (fun _ _ _ hw => hw) true_stable trivial
          fun _ w₅ _ => hfail e w₅
      · split
        · exact safe_askIdle (P := fun _ => True) (fun _ _ _ hw => hw) true_stable trivial
            fun _ w₅ _ => hfail e w₅
        · refine safe_askIdle (P := fun _ => True) (fun _ _ _ hw => hw) true_stable trivial
            fun _ w₅ _ => ?_
          exact safe_askIdle (P := fun _ => True) (fun _ _ _ hw => hw) true_stable trivial
            fun _ w₆ _ => ih

end Tasks

section Full

variable {env : Environment} {entity : Bytes} {reports : ℕ → Bytes → Prop} {w : World} {pos : ℕ}
  {expectedSize : Option UInt64} {maxFullStreamBytes : UInt64} {items : List Item}

/-- The chunk loop that ends with Ok has written a stream that ended cleanly. -/
theorem fullLoop_true (hserves : ServesOne entity env) (h : AgreesOn entity 0 pos w.file)
    (hfollows : deliveredBytes items <+: entity.drop pos) (hpos : pos ≤ entity.length) :
    Ensures (Handles env) (entityContract entity reports)
      (fullLoop expectedSize maxFullStreamBytes items pos) w
      (fun _ w' => EndsCleanly items ∧
        AgreesOn entity 0 (pos + (deliveredBytes items).length) w'.file) fun _ => True := by
  induction items generalizing pos w with
  | nil =>
    exact Ensures.pure ⟨fun item hitem => absurd hitem List.not_mem_nil, h⟩
      (agreesOn_stable_and _)
  | cons item items ih =>
    refine ensures_idle (fun _ _ _ hw => hw) agreesOn_stable h fun control w₁ h₁ => ?_
    refine ensures_result fun _ _ => ensures_result fun chunk hchunk => ?_
    subst hchunk
    rw [show deliveredBytes (.ok chunk :: items) = chunk ++ deliveredBytes items from rfl]
      at hfollows ⊢
    refine ensures_option fun chunkLen _ => ensures_result fun _ _ => ?_
    refine Ensures.request_bind fun w₂ hrely => ⟨trivial, fun result w₃ hx => ?_⟩
    obtain ⟨hallowed, k, -, hk, rfl⟩ := hx
    obtain ⟨hguar, h₃⟩ := @write_agrees entity reports w₂ 0 pos chunk k
      (agreesOn_stable w₁ w₂ hrely h₁) ((List.prefix_append _ _).trans hfollows)
    refine ⟨hguar, ensures_result fun written hwritten => ?_⟩
    subst hwritten
    obtain rfl := hk written rfl
    obtain rfl := hserves.whole _ _ _ hallowed
    rw [List.take_length] at h₃ ⊢
    refine ensures_idle (fun _ _ _ hw => hw) agreesOn_stable h₃ fun _ w₄ h₄ => ?_
    have hlength := hfollows.length_le
    rw [List.length_append, List.length_drop] at hlength
    have hbounded := hserves.bounded
    rw [wrappingAdd_of_lt (by omega)]
    have hrest := follows_drop chunk.length hfollows (List.prefix_append _ _).length_le
    rw [List.drop_left] at hrest
    refine (ih h₄ hrest (by omega)).mono fun _ w' hdone => ⟨fun item hitem => ?_, ?_⟩
    · rcases List.mem_cons.mp hitem with rfl | hitem
      · exact ⟨chunk, rfl⟩
      · exact hdone.1 item hitem
    · rw [List.length_append, ← Nat.add_assoc]
      exact hdone.2

/-- Completing the first record leaves the file alone. -/
theorem completeFirst_true {fragments : List FragmentRecord} {lo hi : ℕ}
    (h : AgreesOn entity lo hi w.file) :
    Ensures (Handles env) (entityContract entity reports) (completeFirst fragments pos) w
      (fun _ w' => AgreesOn entity lo hi w'.file) fun _ => True := by
  cases fragments with
  | nil => exact Ensures.pure h agreesOn_stable
  | cons frag rest =>
    have hrest (frag' : FragmentRecord) : Ensures (Handles env) (entityContract entity reports)
        (do
          let elapsed ← request .elapsed
          let frag'' ← fromResult (frag'.completeDownloadFast pos elapsed)
          pure (frag'' :: rest) : Engine (List FragmentRecord)) w
        (fun _ w' => AgreesOn entity lo hi w'.file) fun _ => True :=
      ensures_idle (fun _ _ _ hw => hw) agreesOn_stable h fun _ w₁ h₁ =>
        ensures_result fun _ _ => Ensures.pure h₁ agreesOn_stable
    unfold completeFirst
    dsimp only
    split
    · exact ensures_result fun frag' _ => hrest frag'
    · exact hrest frag

/-- A full download that returns Ok has the whole entity in the file, and reports nothing. -/
theorem executeFullDownload_true (hserves : ServesOne entity env) {host : DownloadResult String}
    {storageReady : Bool} {fragments : List FragmentRecord} :
    Ensures (Handles env) (entityContract entity reports)
      (executeFullDownload expectedSize maxFullStreamBytes host storageReady fragments) w
      (fun _ w' => AgreesOn entity 0 entity.length w'.file) fun _ => True := by
  unfold executeFullDownload
  refine ensures_idle (P := fun _ => True) (fun _ _ _ hw => hw) true_stable trivial
    fun control w₁ _ => ensures_result fun _ _ => ensures_result fun _ _ => ?_
  refine ensures_idle (P := fun _ => True) (fun _ _ _ hw => hw) true_stable trivial
    fun permit w₂ _ => ensures_result fun _ _ => ?_
  refine Ensures.request_bind fun w₃ _ => ⟨trivial, fun x w₄ hx => ?_⟩
  obtain rfl : w₄ = w₃ := by
    match x with
    | .finished (.ok items) => exact hx.2
    | .finished (.error e) | .interrupted control => exact hx
  refine ⟨entityGuar_of_improves (Improves.refl _ _) rfl, ?_⟩
  match x with
  | .interrupted (.ok ()) | .interrupted (.error e) | .finished (.error e) =>
    exact Ensures.throw trivial true_stable
  | .finished (.ok items) =>
  cases storageReady with
  | false => exact Ensures.throw trivial true_stable
  | true =>
  have hloop := @fullLoop_true env entity reports w₄ 0 expectedSize maxFullStreamBytes items hserves
    (agreesOn_of_le (Nat.le_refl _)) (hserves.fulls items hx.1) (Nat.zero_le _)
  simp only [fromSelected, fromResult_ok, ok_bind, Bool.not_true, Bool.false_eq_true, if_false]
  refine Ensures.bind hloop true_stable ?_
  rintro pos w₅ ⟨hclean, h₅⟩
  rw [hserves.full_clean items hx.1 hclean, Nat.zero_add] at h₅
  unfold finishFullDownload
  split
  · exact completeFirst_true h₅
  · split
    · exact Ensures.throw trivial true_stable
    · exact completeFirst_true h₅

end Full

/-! ### Downloads under way -/

/-- A download of one run: in fragments, or as one stream. -/
inductive Transfer where
  | fragmented {specs : List FragmentSpec} (download : Fragmented specs)
  | full (rest : Prog Answer (DownloadResult (List FragmentRecord))) (world : World)

/-- One answered request, join or sync of a download. -/
inductive TransferStep (env : Environment) : Transfer → Transfer → Prop where
  | fragmented {specs : List FragmentSpec} {s s' : Fragmented specs}
      (h : FragmentedStep env s s') : TransferStep env (.fragmented s) (.fragmented s')
  | full {op : Request} {k : Answer op → Prog Answer (DownloadResult (List FragmentRecord))}
      {x : Answer op} {w w' : World} (hx : Handles env op w x w') :
      TransferStep env (.full (.call op k) w) (.full (k x) w')

namespace Transfer

def world : Transfer → World
  | fragmented download => download.world
  | full _ world => world

/-- The download on the file as others have left it. -/
def onFile (file : Bytes) : Transfer → Transfer
  | fragmented download => .fragmented { download with
      world := { download.world with file := file } }
  | full rest world => .full rest { world with file := file }

/-- It has returned Ok. -/
def Succeeded : Transfer → Prop
  | fragmented download => download.outcome = some (.ok ())
  | full rest _ => ∃ records, rest = .done (.ok records)

/-- Its tasks take nothing away, and what they have reported complete is in the file. -/
def Sound (env : Environment) (entity : Bytes) : Transfer → Prop
  | @fragmented specs download =>
    (∀ i : Fin specs.length, (download.threads i).Safe (Handles env)
      (rangeContract entity (specs.get i))
      (RangeOutcome entity (specs.get i).start (specs.get i).end_)
      download.world) ∧
    (∀ i, download.live i = false → ∃ result, download.threads i = .done (.ok result)) ∧
    (download.outcome = some (.ok ()) → ∀ i, download.live i = false) ∧
    ∀ message ∈ download.world.sent, message.completed = true →
      ∃ spec ∈ specs, ReportsRange entity spec.index spec.start spec.end_ message.fragmentIndex
        download.world.file
  | full rest world =>
    rest.Safe (Handles env) (entityContract entity fun _ _ => False)
      (fun result w => ∀ records, result = .ok records → AgreesOn entity 0 entity.length w.file)
      world ∧
    ∀ message ∈ world.sent, message.completed = false

variable {env : Environment} {entity file file' : Bytes} {t t' : Transfer}

@[simp] theorem onFile_world : (t.onFile file).world = { t.world with file := file } := by
  cases t <;> rfl

@[simp] theorem onFile_onFile : (t.onFile file).onFile file' = t.onFile file' := by
  cases t <;> rfl

@[simp] theorem onFile_self : t.onFile t.world.file = t := by
  cases t <;> rfl

theorem onFile_succeeded : (t.onFile file).Succeeded ↔ t.Succeeded := by
  cases t <;> rfl

theorem Sound.fragmented_step {specs : List FragmentSpec} {s s' : Fragmented specs}
    (h : Sound env entity (.fragmented s)) (hstep : FragmentedStep env s s') :
    Sound env entity (.fragmented s') ∧ Improves entity s.world.file s'.world.file := by
  obtain ⟨hsafe, hjoined, hall, hreported⟩ := h
  cases hstep with
  | task htask =>
    rename_i threads world
    have hcompat (i j : Fin specs.length) (w w' : World) (_ : i ≠ j)
        (hguar : (rangeContract entity (specs.get i)).guar w w') :
        (rangeContract entity (specs.get j)).rely w w' := hguar.1
    obtain ⟨⟨i, himproves, hsent⟩, hsafe'⟩ := pool_step_safe hcompat hsafe htask
    refine ⟨⟨hsafe', fun j hlive => ?_, hall, fun message hmessage hcompleted => ?_⟩, himproves⟩
    · obtain ⟨result, hresult⟩ := hjoined j hlive
      refine ⟨result, ?_⟩
      cases htask with
      | call hi hx =>
        rename_i k op f x
        have hne : j ≠ k := by
          rintro rfl
          rw [hresult] at hi
          cases hi
        exact (Function.update_of_ne hne _ _).trans hresult
    · rcases hsent message hmessage hcompleted with hold | hnew
      · obtain ⟨spec, hspec, hindex, hagrees⟩ := hreported message hold hcompleted
        exact ⟨spec, hspec, hindex, hagrees.improves himproves⟩
      · exact ⟨specs.get i, List.get_mem specs i, hnew⟩
  | join hrunning hlive hjoin =>
    rename_i i
    obtain ⟨index, downloaded, duration, fragments, hdone, rfl⟩ | ⟨fragments, state, e, rfl⟩ :=
      Fragmented.join_cases hjoin
    · refine ⟨⟨hsafe, fun j hj => ?_, fun hok => ?_, hreported⟩, Improves.refl _ _⟩
      · by_cases hji : j = i
        · subst hji
          exact ⟨_, hdone⟩
        · exact hjoined j ((Function.update_of_ne hji _ _).symm.trans hj)
      · rw [show s.outcome = some (.ok ()) from hok] at hrunning
        cases hrunning
    · exact ⟨⟨hsafe, hjoined, (by rintro ⟨⟩), hreported⟩, Improves.refl _ _⟩
  | panicked =>
    exact ⟨⟨hsafe, hjoined, (by rintro ⟨⟩), hreported⟩, Improves.refl _ _⟩
  | sync hrunning hlive =>
    rename_i result
    cases result with
    | error e => exact ⟨⟨hsafe, hjoined, (by rintro ⟨⟩), hreported⟩, Improves.refl _ _⟩
    | ok _ =>
      refine ⟨⟨fun i => ?_, hjoined, fun _ => hlive, hreported⟩, Improves.refl _ _⟩
      exact (hsafe i).rely (Improves.refl entity s.world.file)

/-- Whatever a download does next takes nothing away. -/
theorem Sound.step (h : t.Sound env entity) (hstep : TransferStep env t t') :
    t'.Sound env entity ∧ Improves entity t.world.file t'.world.file := by
  cases hstep with
  | fragmented hstep => exact h.fragmented_step hstep
  | full hx =>
    obtain ⟨hsafe, hsent⟩ := h
    obtain ⟨⟨himproves, hmessages⟩, hnext⟩ := (hsafe _ (Improves.refl _ _)).2 _ _ hx
    refine ⟨⟨hnext, fun message hmessage => ?_⟩, himproves⟩
    by_contra hcompleted
    rcases hmessages message hmessage (by simpa using hcompleted) with hold | hnever
    · exact hcompleted (hsent message hold)
    · exact hnever

/-- Nor does what others do break a download. -/
theorem Sound.onFile (h : (t.onFile file).Sound env entity)
    (himproves : Improves entity file file') : (t.onFile file').Sound env entity := by
  cases t with
  | fragmented s =>
    obtain ⟨hsafe, hjoined, hall, hreported⟩ := h
    refine ⟨fun i => (hsafe i).rely himproves, hjoined, hall, fun message hmessage hcompleted => ?_⟩
    obtain ⟨spec, hspec, hindex, hagrees⟩ := hreported message hmessage hcompleted
    exact ⟨spec, hspec, hindex, hagrees.improves himproves⟩
  | full rest w =>
    obtain ⟨hsafe, hsent⟩ := h
    exact ⟨hsafe.rely himproves, hsent⟩

/-- A download in fragments that returned Ok has all its ranges in the file. -/
theorem Sound.fragmented_done {specs : List FragmentSpec} {s : Fragmented specs}
    (h : Sound env entity (.fragmented s)) (hok : s.outcome = some (.ok ())) {spec : FragmentSpec}
    (hspec : spec ∈ specs) : AgreesOn entity spec.start (spec.end_ + 1) s.world.file := by
  obtain ⟨hsafe, hjoined, hall, -⟩ := h
  obtain ⟨i, hi, rfl⟩ := List.getElem_of_mem hspec
  obtain ⟨result, hdone⟩ := hjoined ⟨i, hi⟩ (hall hok _)
  have hthread := hsafe ⟨i, hi⟩
  rw [hdone] at hthread
  exact hthread.post_of_done result rfl

/-- A download as one stream that returned Ok has the whole entity in the file. -/
theorem Sound.full_done {records : List FragmentRecord} {w : World}
    (h : Sound env entity (.full (.done (.ok records)) w)) :
    AgreesOn entity 0 entity.length w.file := h.1.post_of_done records rfl

end Transfer

/-- `execute` of a task on its open file, up to the joins or the stream. -/
def DownloadTask.begin (t : DownloadTask) (metadata : FileMetadata) (file : Bytes) :
    DownloadResult Transfer :=
  if !metadata.supportsRange || t.fragments.length ≤ 1 then
    .ok (.full (executeFullDownload metadata.fileSize t.config.maxFullStreamBytes t.host true
      t.fragments).run (.initial file))
  else (startFragmented t.config.maxConcurrentFragments t.config.maxRetries t.host t.url (some file)
    t.fragments).map .fragmented

/-- A download begins soundly. -/
theorem DownloadTask.begin_sound {env : Environment} {entity file : Bytes} {t : DownloadTask}
    {metadata : FileMetadata} {transfer : Transfer} (hserves : ServesOne entity env)
    (h : t.begin metadata file = .ok transfer) :
    transfer.Sound env entity ∧ transfer.world = .initial file := by
  unfold DownloadTask.begin at h
  split at h
  · obtain rfl := Except.ok.inj h
    refine ⟨⟨Prog.Safe.mono (executeFullDownload_true hserves) fun r w hr => hr.1, ?_⟩, rfl⟩
    exact fun message hmessage => absurd hmessage List.not_mem_nil
  · cases hstart : startFragmented t.config.maxConcurrentFragments t.config.maxRetries t.host t.url
        (some file) t.fragments with
    | error e =>
      rw [hstart] at h
      cases h
    | ok s =>
      rw [hstart] at h
      obtain rfl := Except.ok.inj h
      obtain ⟨file', hfile, hworld, houtcome, hlive, hthreads⟩ := startFragmented_ok hstart
      obtain rfl := Option.some.inj hfile
      refine ⟨⟨fun i => ?_, fun i hi => ?_, fun hok => ?_, fun message hmessage => ?_⟩, hworld⟩
      · rw [hthreads i]
        exact retryLoop_true hserves
      · rw [hlive i] at hi
        cases hi
      · rw [houtcome] at hok
        cases hok
      · rw [hworld] at hmessage
        cases hmessage

end Tachyon
