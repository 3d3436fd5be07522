import Tachyon.Engine.Fragment
import Tachyon.Engine.Requests

/-!
# Downloading the whole file as one stream

`execute_full_download`, for servers without ranges and plans of one fragment.
Each chunk is handed to the storage once and the offset moves on by what the
storage reports, whether that is the whole chunk or not.
-/

namespace Tachyon

open Resumption

/-- The limit on a stream of unknown length, checked before each chunk. -/
def checkFullStreamLimit (expectedSize : Option UInt64) (maxFullStreamBytes : UInt64)
    (pos chunkLen : ℕ) : DownloadResult Unit :=
  match expectedSize with
  | some _ => .ok ()
  | none =>
    match checkedAdd pos chunkLen with
    | none => .error (.config s!"未知大小整块下载长度溢出: written={pos}, chunk={chunkLen}")
    | some attempted =>
      if attempted > maxFullStreamBytes.toNat then
        .error (.config s!"未知大小整块下载超过上限: 上限 {maxFullStreamBytes} 字节, 本次将写入 {attempted} 字节")
      else .ok ()

/-- The chunk loop of `execute_full_download`; it returns the last `pos`. -/
def fullLoop (expectedSize : Option UInt64) (maxFullStreamBytes : UInt64) :
    List Item → ℕ → Engine ℕ
  | [], pos => pure pos
  | item :: items, pos => do
    fromResult (← request .waitControl)
    let chunk ← fromResult item
    let chunkLen ← orThrow (tryFromUsize chunk.length) (.config "整块下载 chunk 长度溢出")
    fromResult (checkFullStreamLimit expectedSize maxFullStreamBytes pos chunkLen)
    let written ← fromResult (← request (.writeAt pos chunk))
    let _ ← request (.limiterAcquire written)
    fullLoop expectedSize maxFullStreamBytes items (wrappingAdd pos written)

/-- The first record of the list, if there is one, is completed. -/
def completeFirst (fragments : List FragmentRecord) (pos : ℕ) : Engine (List FragmentRecord) :=
  match fragments with
  | [] => pure []
  | frag :: rest => do
    let frag' ← if frag.state = .pending then fromResult frag.startDownload else pure frag
    let elapsed ← request .elapsed
    let frag'' ← fromResult (frag'.completeDownloadFast pos elapsed)
    pure (frag'' :: rest)

/-- The first record, if any, is one that can be completed. -/
def FirstOpen (fragments : List FragmentRecord) : Prop :=
  ∀ frag ∈ fragments.head?, frag.state = .pending ∨ frag.state = .downloading

/-- What follows the loop: the length check for a known size, and the completion. -/
def finishFullDownload (expectedSize : Option UInt64) (fragments : List FragmentRecord)
    (pos : ℕ) : Engine (List FragmentRecord) :=
  match expectedSize with
  | none => completeFirst fragments pos
  | some size =>
    if pos ≠ size.toNat then
      throw (.io .invalidData s!"下载数据不完整: 预期 {size} 字节, 实际写入 {pos} 字节")
    else completeFirst fragments pos

/-- `DownloadTask::execute_full_download`; it returns the records it leaves behind. -/
def executeFullDownload (expectedSize : Option UInt64) (maxFullStreamBytes : UInt64)
    (host : DownloadResult String) (storageReady : Bool) (fragments : List FragmentRecord) :
    Engine (List FragmentRecord) := do
  fromResult (← request .waitControl)
  let _ ← fromResult host
  fromResult (← request .acquirePool)
  let stream ← fromSelected (← request .openFull)
  if !storageReady then throw (.config "存储未初始化")
  else do
    let pos ← fullLoop expectedSize maxFullStreamBytes stream 0
    finishFullDownload expectedSize fragments pos

/-! ### Scripted runs -/

/-- What happens around one item of the stream: the control channel's word before it, the
item, how much of its chunk the storage takes at most, and whether the write then fails. -/
structure ChunkEvent where
  control : DownloadResult Unit
  item : Item
  accepts : ℕ
  failure : Option DownloadError

/-- The bytes the storage takes of a chunk. -/
def ChunkEvent.taken (e : ChunkEvent) (chunk : Bytes) : ℕ := min e.accepts chunk.length

/-- Everything a full download can learn from its environment. -/
structure FullScript where
  control : DownloadResult Unit
  permit : DownloadResult Unit
  opened : Selected Unit
  events : List ChunkEvent
  elapsed : ℕ

/-- The stream the server delivers. -/
def FullScript.items (script : FullScript) : List Item := script.events.map ChunkEvent.item

/-- The world of a scripted run, the events to come once the stream is open, and offset
and length of every `write_at` so far. -/
structure FullState where
  world : World
  rest : Option (List ChunkEvent)
  issued : List (ℕ × ℕ)

/-- The answers a script gives. -/
def FullScript.answer (script : FullScript) : (r : Request) → FullState → Answer r × FullState
  | .waitControl, st =>
    match st.rest with
    | none => (script.control, st)
    | some [] => (.ok (), st)
    | some (e :: _) => (e.control, st)
  | .acquirePool, st => (script.permit, st)
  | .openFull, st =>
    match script.opened with
    | .finished (.ok ()) => (.finished (.ok script.items), { st with rest := some script.events })
    | .finished (.error e) => (.finished (.error e), st)
    | .interrupted control => (.interrupted control, st)
  | .writeAt offset data, st =>
    match st.rest with
    | some (e :: es) =>
      (match e.failure with
        | none => .ok (e.taken data)
        | some error => .error error,
        { world := st.world.write offset (data.take (e.taken data))
          rest := some es
          issued := st.issued ++ [(offset, data.length)] })
    | _ =>
      (.ok 0, { st with
        world := st.world.write offset []
        issued := st.issued ++ [(offset, data.length)] })
  | .writeAtRaced offset _, st =>
    (.finished (.ok 0), { st with world := st.world.write offset [] })
  | .openRange _ _, st => (.interrupted (.ok ()), st)
  | .sendProgress _, st => (false, st)
  | .breakerAllow, st => (true, st)
  | .elapsed, st => (script.elapsed, st)
  | .acquireSlot, st => (.ok (), st)
  | .limiterAcquire _, st => ((), st)
  | .breakerSuccess, st => ((), st)
  | .breakerFailure, st => ((), st)
  | .releaseSlot, st => ((), st)
  | .sleep _, st => ((), st)

/-- A script gives only answers the environment may give. -/
theorem FullScript.answer_handles (script : FullScript) (r : Request) (st : FullState) :
    Handles .any r st.world (script.answer r st).1 (script.answer r st).2.world := by
  obtain ⟨world, rest, issued⟩ := st
  have hnothing : ∀ (offset : ℕ) (data : Bytes),
      Writes world offset data (.ok 0) (world.write offset []) := by
    refine fun offset data => ⟨0, Nat.zero_le _, fun n hn => ?_, rfl⟩
    cases hn
    rfl
  cases r with
  | waitControl => rcases rest with _ | _ | ⟨e, es⟩ <;> rfl
  | openFull =>
    obtain ⟨control, permit, opened, events, elapsed⟩ := script
    rcases opened with (e | _) | control
    · exact rfl
    · exact ⟨trivial, rfl⟩
    · exact rfl
  | writeAt offset data =>
    rcases rest with _ | _ | ⟨e, es⟩
    · exact ⟨trivial, hnothing offset data⟩
    · exact ⟨trivial, hnothing offset data⟩
    · have hresult : ∀ n, (FullScript.answer script (.writeAt offset data)
          ⟨world, some (e :: es), issued⟩).1 = .ok n → n = e.taken data := by
        intro n hn
        obtain ⟨control, item, accepts, failure⟩ := e
        cases failure with
        | none => exact (Except.ok.inj hn).symm
        | some error => cases hn
      exact ⟨trivial, e.taken data, Nat.min_le_right _ _, hresult, rfl⟩
  | writeAtRaced offset data => exact ⟨trivial, hnothing offset data⟩
  | _ => rfl

end Tachyon
