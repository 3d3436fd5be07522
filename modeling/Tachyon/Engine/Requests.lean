import Tachyon.Core.Types
import Tachyon.Library.ByteFile
import Tachyon.Library.IssuedRequests
import Mathlib.Data.UInt

/-!
# What a download asks of its environment

Storage, network, control channel, limiter, breaker and progress channel are the
environment of the engine. Every await of the code is one request here, and the
world is what the requests act on. `Handles` lists what each answer may be and
what it does; the storage may take any prefix of a write or fail in the middle.
-/

namespace Tachyon

open Resumption ByteFile

/-- `FragmentProgress`, the message of a fragment to the layer above. -/
structure FragmentProgress where
  fragmentIndex : ℕ
  completed : Bool
  fragmentDownloaded : ℕ
  deriving DecidableEq, Repr

/-- One item of a `ByteStream`. -/
abbrev Item := DownloadResult Bytes

/-- The outcome of a `select!` between an operation and the control channel. -/
inductive Selected (α : Type) where
  | finished (result : DownloadResult α)
  | interrupted (control : DownloadResult Unit)

/-- The awaits of the engine. -/
inductive Request where
  /-- `wait_control` and `wait_control_rx`. -/
  | waitControl
  /-- `pool.acquire(host)`. -/
  | acquirePool
  /-- `download_range_stream`, raced with `watch_for_interrupt`. -/
  | openRange (start end_ : ℕ)
  /-- `download_full_stream`, raced with `watch_for_interrupt`. -/
  | openFull
  /-- `storage.write_at`. -/
  | writeAt (offset : ℕ) (data : Bytes)
  /-- `storage.write_at`, raced with `watch_for_interrupt`. -/
  | writeAtRaced (offset : ℕ) (data : Bytes)
  /-- `limiter.acquire`. -/
  | limiterAcquire (bytes : ℕ)
  /-- `tx.try_send` and `tx.send` on the progress channel. -/
  | sendProgress (message : FragmentProgress)
  /-- `start_instant.elapsed()`. -/
  | elapsed
  /-- `circuit_breakers.allow`. -/
  | breakerAllow
  /-- `circuit_breakers.record_success`. -/
  | breakerSuccess
  /-- `circuit_breakers.record_failure`. -/
  | breakerFailure
  /-- `semaphore.acquire_owned`. -/
  | acquireSlot
  /-- `drop(permit)`. -/
  | releaseSlot
  /-- `tokio::time::sleep`, in seconds. -/
  | sleep (secs : ℕ)
  deriving DecidableEq

/-- The type of the answer to each request. -/
@[reducible] def Answer : Request → Type
  | .waitControl | .acquirePool => DownloadResult Unit
  | .openRange _ _ | .openFull => Selected (List Item)
  | .writeAt _ _ => DownloadResult ℕ
  | .writeAtRaced _ _ => Selected ℕ
  | .sendProgress _ => Bool
  | .elapsed => ℕ
  | .breakerAllow => Bool
  | .acquireSlot => Except String Unit
  | .limiterAcquire _ | .breakerSuccess | .breakerFailure | .releaseSlot | .sleep _ => Unit

/-- A step of the engine that can fail with a `DownloadError`. -/
abbrev Engine (α : Type) := ExceptT DownloadError (Prog Answer) α

section Results

variable {Op : Type} {Ans : Op → Type} {α : Type}

/-- `?` on a result at hand. -/
def fromResult : DownloadResult α → ExceptT DownloadError (Prog Ans) α
  | .ok a => pure a
  | .error e => throw e

@[simp] theorem fromResult_ok (a : α) :
    (fromResult (.ok a) : ExceptT DownloadError (Prog Ans) α) = pure a := rfl

@[simp] theorem fromResult_error (e : DownloadError) :
    (fromResult (.error e) : ExceptT DownloadError (Prog Ans) α) = throw e := rfl

/-- `ok_or_else(..)?`. -/
def orThrow (x : Option α) (e : DownloadError) : ExceptT DownloadError (Prog Ans) α :=
  match x with
  | some a => pure a
  | none => throw e

@[simp] theorem orThrow_some (a : α) (e : DownloadError) :
    (orThrow (some a) e : ExceptT DownloadError (Prog Ans) α) = pure a := rfl

@[simp] theorem orThrow_none (e : DownloadError) :
    (orThrow none e : ExceptT DownloadError (Prog Ans) α) = throw e := rfl

variable {World : Type} {handle : (op : Op) → World → Ans op → World → Prop} {w w' : World} {a : α}

theorem yields_fromResult {x : DownloadResult α} :
    Yields handle (fromResult x) w (.ok a) w' ↔ x = .ok a ∧ w = w' := by
  cases x with
  | ok b => simp only [fromResult_ok, yields_pure, Except.ok.injEq, @eq_comm _ a]
  | error e => simp only [fromResult_error, not_yields_throw, reduceCtorEq, false_and]

theorem yields_orThrow {x : Option α} {e : DownloadError} :
    Yields handle (orThrow x e) w (.ok a) w' ↔ x = some a ∧ w = w' := by
  cases x with
  | some b => simp only [orThrow_some, yields_pure, Option.some.injEq, @eq_comm _ a]
  | none => simp only [orThrow_none, not_yields_throw, reduceCtorEq, false_and]

end Results

/-- The arms of a `select!` against `watch_for_interrupt`. -/
def fromSelected {α : Type} : Selected α → Engine α
  | .finished result => fromResult result
  | .interrupted control => do
    fromResult control
    throw (.other "控制信号异常结束")

theorem yields_fromSelected {α World : Type}
    {handle : (op : Request) → World → Answer op → World → Prop} {x : Selected α} {a : α}
    {w w' : World} :
    Yields handle (fromSelected x) w (.ok a) w' ↔ x = .finished (.ok a) ∧ w = w' := by
  cases x with
  | finished result => simp only [fromSelected, yields_fromResult, Selected.finished.injEq]
  | interrupted control =>
    simp only [fromSelected, yields_bind, not_yields_throw, and_false, exists_false, reduceCtorEq,
      false_and]

/-! ### What a step issues on its way -/

section Issues

variable {α World : Type} {handle : (op : Request) → World → Answer op → World → Prop}
  {meets : Request → Prop}

theorem issues_fromResult {x : DownloadResult α} :
    Issues handle meets (fromResult x) fun a => x = .ok a := by
  cases x with
  | ok a => exact Issues.pure rfl
  | error e => exact Issues.throw

theorem issues_orThrow {option : Option α} {e : DownloadError} :
    Issues handle meets (orThrow option e) fun a => option = some a := by
  cases option with
  | some a => exact Issues.pure rfl
  | none => exact Issues.throw

theorem issues_fromSelected {selected : Selected α} :
    Issues handle meets (fromSelected selected) fun a => selected = .finished (.ok a) := by
  cases selected with
  | finished result => exact issues_fromResult.mono fun a ha => by rw [ha]
  | interrupted control => exact issues_fromResult.bind fun _ _ => Issues.throw

end Issues

/-- What the requests act on. `served` and `unsynced` record what the network
delivered and what the storage has not synced; the code does not read them. -/
structure World where
  /-- The content of the target file. -/
  file : Bytes
  /-- The items of the last stream opened for a range. -/
  served : ℕ → ℕ → List Item
  /-- The progress messages the channel took, oldest first. -/
  sent : List FragmentProgress
  /-- Offset and length of every write since the last successful sync. -/
  unsynced : List (ℕ × ℕ)

/-- The world a run starts in: the file as it is, nothing served, sent or written yet. -/
def World.initial (file : Bytes) : World := ⟨file, fun _ _ => [], [], []⟩

/-- The storage takes some bytes at an offset. -/
def World.write (w : World) (offset : ℕ) (data : Bytes) : World :=
  { w with
    file := pwrite w.file offset data
    unsynced := w.unsynced ++ [(offset, data.length)] }

/-- A stream is opened for a range. -/
def World.serve (w : World) (start end_ : ℕ) (items : List Item) : World :=
  { w with served := fun s e => if s = start ∧ e = end_ then items else w.served s e }

/-- A message is taken by the progress channel. -/
def World.send (w : World) (message : FragmentProgress) : World :=
  { w with sent := w.sent ++ [message] }

/-- The answers storage and server may give. -/
structure Environment where
  /-- Results `write_at` may return for an offset and data. -/
  writes : ℕ → Bytes → DownloadResult ℕ → Prop
  /-- Streams the server may deliver for a range request. -/
  ranges : ℕ → ℕ → List Item → Prop
  /-- Streams the server may deliver for the whole file. -/
  fulls : List Item → Prop

/-- The environment that may answer anything. -/
def Environment.any : Environment := ⟨fun _ _ _ => True, fun _ _ _ => True, fun _ => True⟩

/-- The storage took the first `k` bytes: all it reported, or any prefix when it failed. -/
def Writes (w : World) (offset : ℕ) (data : Bytes) (result : DownloadResult ℕ) (w' : World) :
    Prop :=
  ∃ k ≤ data.length, (∀ n, result = .ok n → n = k) ∧ w' = w.write offset (data.take k)

/-- The answers a request may get, and the world each leaves behind. -/
def Handles (env : Environment) : (r : Request) → World → Answer r → World → Prop
  | .openRange start end_, w, x, w' =>
    match x with
    | .finished (.ok items) => env.ranges start end_ items ∧ w' = w.serve start end_ items
    | _ => w' = w
  | .openFull, w, x, w' =>
    match x with
    | .finished (.ok items) => env.fulls items ∧ w' = w
    | _ => w' = w
  | .writeAt offset data, w, x, w' => env.writes offset data x ∧ Writes w offset data x w'
  | .writeAtRaced offset data, w, x, w' =>
    match x with
    | .finished result => env.writes offset data result ∧ Writes w offset data result w'
    -- the write is dropped where it stands
    | .interrupted _ => ∃ k ≤ data.length, w' = w.write offset (data.take k)
  | .sendProgress message, w, x, w' => w' = if x then w.send message else w
  | .waitControl, w, _, w' | .acquirePool, w, _, w' | .limiterAcquire _, w, _, w'
  | .elapsed, w, _, w' | .breakerAllow, w, _, w' | .breakerSuccess, w, _, w'
  | .breakerFailure, w, _, w' | .acquireSlot, w, _, w' | .releaseSlot, w, _, w'
  | .sleep _, w, _, w' => w' = w

/-- Every stream on record is one the server may deliver. -/
def ServedAllowed (env : Environment) (w : World) : Prop :=
  ∀ start end_, w.served start end_ = [] ∨ env.ranges start end_ (w.served start end_)

theorem ServedAllowed.handles {env : Environment} {r : Request} {w w' : World} {x : Answer r}
    (h : ServedAllowed env w) (hx : Handles env r w x w') : ServedAllowed env w' := by
  have hwrite : ∀ {offset : ℕ} {data : Bytes} {result : DownloadResult ℕ},
      Writes w offset data result w' → ServedAllowed env w' := by
    rintro offset data result ⟨k, -, -, rfl⟩
    exact h
  have hidle : w' = w → ServedAllowed env w' := by
    rintro rfl
    exact h
  cases r with
  | openRange start end_ =>
    match x with
    | .finished (.ok items) =>
      obtain ⟨hallowed, rfl⟩ := hx
      intro s e
      by_cases hrange : s = start ∧ e = end_
      · obtain ⟨rfl, rfl⟩ := hrange
        simp only [World.serve, and_self, if_true]
        exact Or.inr hallowed
      · simp only [World.serve, if_neg hrange]
        exact h s e
    | .finished (.error e) => exact hidle hx
    | .interrupted control => exact hidle hx
  | openFull =>
    match x with
    | .finished (.ok items) => exact hidle hx.2
    | .finished (.error e) => exact hidle hx
    | .interrupted control => exact hidle hx
  | writeAt => exact hwrite hx.2
  | writeAtRaced =>
    match x with
    | .finished result => exact hwrite hx.2
    | .interrupted control =>
      obtain ⟨k, -, rfl⟩ := hx
      exact h
  | sendProgress message =>
    obtain rfl := hx
    cases x <;> exact h
  | _ => exact hidle hx

/-- A server that delivers fixed streams, and a storage and channels that take all they are
given. -/
def serving (ranges : ℕ → ℕ → List Item) (full : List Item) :
    (r : Request) → World → Answer r × World
  | .openRange start end_, w =>
    (.finished (.ok (ranges start end_)), w.serve start end_ (ranges start end_))
  | .openFull, w => (.finished (.ok full), w)
  | .writeAt offset data, w => (.ok data.length, w.write offset data)
  | .writeAtRaced offset data, w => (.finished (.ok data.length), w.write offset data)
  | .sendProgress message, w => (true, w.send message)
  | .waitControl, w => (.ok (), w)
  | .acquirePool, w => (.ok (), w)
  | .acquireSlot, w => (.ok (), w)
  | .breakerAllow, w => (true, w)
  | .elapsed, w => (0, w)
  | .limiterAcquire _, w => ((), w)
  | .breakerSuccess, w => ((), w)
  | .breakerFailure, w => ((), w)
  | .releaseSlot, w => ((), w)
  | .sleep _, w => ((), w)

theorem serving_handles {env : Environment} {ranges : ℕ → ℕ → List Item} {full : List Item}
    (hwrites : ∀ offset data, env.writes offset data (.ok data.length))
    (hranges : ∀ start end_, env.ranges start end_ (ranges start end_)) (hfull : env.fulls full)
    (r : Request) (w : World) :
    Handles env r w (serving ranges full r w).1 (serving ranges full r w).2 := by
  have hwrite : ∀ (offset : ℕ) (data : Bytes),
      Writes w offset data (.ok data.length) (w.write offset data) := by
    refine fun offset data => ⟨data.length, Nat.le_refl _, fun n hn => ?_, ?_⟩
    · cases hn
      rfl
    · rw [List.take_length]
  cases r with
  | openRange start end_ => exact ⟨hranges start end_, rfl⟩
  | openFull => exact ⟨hfull, rfl⟩
  | writeAt offset data => exact ⟨hwrites offset data, hwrite offset data⟩
  | writeAtRaced offset data => exact ⟨hwrites offset data, hwrite offset data⟩
  | _ => rfl

/-- A server that has the entity, and a storage and channels that take all they are given. -/
abbrev reliable (entity : Bytes) : (r : Request) → World → Answer r × World :=
  serving (fun start end_ => [.ok ((entity.drop start).take (end_ - start + 1))]) [.ok entity]

/-- The answers of `reliable`. -/
def Environment.reliable (entity : Bytes) : Environment where
  writes := fun _ data result => result = .ok data.length
  ranges := fun start end_ items => items = [.ok ((entity.drop start).take (end_ - start + 1))]
  fulls := fun items => items = [.ok entity]

theorem reliable_handles (entity : Bytes) (r : Request) (w : World) :
    Handles (.reliable entity) r w (reliable entity r w).1 (reliable entity r w).2 :=
  serving_handles (fun _ _ => rfl) (fun _ _ => rfl) rfl r w

/-- The elements of a stream: its chunks up to the first error. -/
def deliveredBytes {ε α : Type} : List (Except ε (List α)) → List α
  | [] => []
  | .ok chunk :: items => chunk ++ deliveredBytes items
  | .error _ :: _ => []

/-- The stream ends without an error. -/
def EndsCleanly {ε α : Type} (items : List (Except ε (List α))) : Prop :=
  ∀ item ∈ items, ∃ chunk, item = .ok chunk

end Tachyon
