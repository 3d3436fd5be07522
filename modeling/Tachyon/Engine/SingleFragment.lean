import Tachyon.Engine.Requests

/-!
# Downloading one fragment

`write_all_at`, `download_single_fragment` and the retry loop around it, as
programs over the engine's requests. Chunks collect in a buffer that is written
when it reaches the batch size and once more after the stream has ended; every
write is checked against the length of the fragment before it is issued.
-/

namespace Tachyon

open Resumption

/-- The loop of `write_all_at`. A write takes at least one byte, so `batch.length`
iterations are enough. -/
def writeAllLoop : ℕ → ℕ → ℕ → Bytes → Engine ℕ
  | 0, _, totalWritten, _ => pure totalWritten
  | fuel + 1, pos, totalWritten, batch =>
    if batch.isEmpty then pure totalWritten
    else do
      let written ← fromSelected (← request (.writeAtRaced pos batch))
      if written = 0 then
        let remaining := batch.length
        throw (.fragment s!"存储短写未前进: offset={pos}, remaining={remaining}")
      else do
        let writtenU64 ← orThrow (tryFromUsize written) (.fragment "存储写入长度溢出")
        let pos' ← orThrow (checkedAdd pos writtenU64)
          (.fragment s!"存储写入偏移溢出: offset={pos}, len={writtenU64}")
        let totalWritten' ← orThrow (checkedAdd totalWritten writtenU64)
          (.fragment s!"存储写入总长度溢出: written={totalWritten}, len={writtenU64}")
        writeAllLoop fuel pos' totalWritten' (batch.drop written)

theorem writeAllLoop_nil (fuel pos totalWritten : ℕ) :
    writeAllLoop fuel pos totalWritten [] = pure totalWritten := by
  cases fuel <;> rfl

/-- `DownloadTask::write_all_at`. -/
def writeAllAt (pos : ℕ) (batch : Bytes) : Engine ℕ := writeAllLoop batch.length pos 0 batch

/-- `WRITE_BATCH_BYTES`. -/
def writeBatchBytes : ℕ := 256 * 1024

/-- `PROGRESS_REPORT_CHUNK_INTERVAL`. -/
def progressReportChunkInterval : ℕ := 5

/-- The locals of the chunk loop of `download_single_fragment`. -/
structure FragmentCursor where
  pos : ℕ
  totalWritten : ℕ
  chunkCount : ℕ
  writeBuf : Bytes

/-- The length checks and the write of one batch; the two places that flush differ in
the text for a length that is no `u64`. -/
def flushBatch (overflowText : String) (fragIndex expectedLen : ℕ) (pos totalWritten : ℕ)
    (batch : Bytes) : Engine ℕ := do
  let batchLen ← orThrow (tryFromUsize batch.length) (.fragment overflowText)
  let attemptedWritten ← orThrow (checkedAdd totalWritten batchLen)
    (.fragment
      s!"分片写入长度溢出: index={fragIndex}, written={totalWritten}, len={batchLen}")
  if attemptedWritten > expectedLen then
    throw (.fragment
      s!"分片下载数据越界: index={fragIndex}, 预期 {expectedLen} 字节, 本次将写入 {attemptedWritten} 字节")
  else writeAllAt pos batch

/-- The progress message after every `PROGRESS_REPORT_CHUNK_INTERVAL` chunks. -/
def reportProgress (fragIndex chunkCount totalWritten : ℕ) : Engine Unit :=
  if chunkCount % progressReportChunkInterval = 0 then do
    let _ ← request (.sendProgress ⟨fragIndex, false, totalWritten⟩)
  else pure ()

/-- The chunk loop of `download_single_fragment`. -/
def chunkLoop (fragIndex expectedLen : ℕ) : List Item → FragmentCursor → Engine FragmentCursor
  | [], c => pure c
  | item :: items, c => do
    fromResult (← request .waitControl)
    let chunk ← fromResult item
    let writeBuf := c.writeBuf ++ chunk
    let chunkCount := wrappingAdd c.chunkCount 1
    if writeBuf.length ≥ writeBatchBytes then do
      let w ← flushBatch "分片批量写入长度溢出" fragIndex expectedLen c.pos c.totalWritten writeBuf
      let pos := c.pos
      let pos' ← orThrow (checkedAdd c.pos w)
        (.fragment s!"分片写入偏移溢出: index={fragIndex}, offset={pos}, len={w}")
      let totalWritten := wrappingAdd c.totalWritten w
      let _ ← request (.limiterAcquire w)
      reportProgress fragIndex chunkCount totalWritten
      chunkLoop fragIndex expectedLen items ⟨pos', totalWritten, chunkCount, []⟩
    else chunkLoop fragIndex expectedLen items ⟨c.pos, c.totalWritten, chunkCount, writeBuf⟩

/-- The last flush of `download_single_fragment`; it returns `total_written`. -/
def flushRest (fragIndex expectedLen : ℕ) (c : FragmentCursor) : Engine ℕ :=
  if c.writeBuf.isEmpty then pure c.totalWritten
  else do
    let w ← flushBatch "分片剩余写入长度溢出" fragIndex expectedLen c.pos c.totalWritten c.writeBuf
    let _ ← request (.limiterAcquire w)
    pure (wrappingAdd c.totalWritten w)

/-- `DownloadTask::download_single_fragment`: the bytes written and the time it took. -/
def downloadSingleFragment (fragIndex fragStart fragEnd : ℕ) : Engine (ℕ × ℕ) := do
  fromResult (← request .waitControl)
  fromResult (← request .acquirePool)
  let stream ← fromSelected (← request (.openRange fragStart fragEnd))
  let expectedLen ← orThrow ((checkedSub fragEnd fragStart).bind fun len => checkedAdd len 1)
    (.fragment s!"分片范围非法: {fragStart}..={fragEnd}")
  let cursor ← chunkLoop fragIndex expectedLen stream ⟨fragStart, 0, 0, []⟩
  let totalWritten ← flushRest fragIndex expectedLen cursor
  if totalWritten ≠ expectedLen then
    throw (.fragment
      s!"分片下载数据不完整: index={fragIndex}, 预期 {expectedLen} 字节, 实际写入 {totalWritten} 字节")
  else do
    let elapsed ← request .elapsed
    let _ ← request (.sendProgress ⟨fragIndex, true, totalWritten⟩)
    pure (totalWritten, elapsed)

/-- The backoff of the retry loop, in seconds: a server's Retry-After up to 1024, else
`2 ^ min attempt 10` less a jitter hashed from the fragment and the attempt. -/
def retryBackoff (fragIndex attempt : ℕ) (e : DownloadError) : ℕ :=
  match e with
  | .throttled (some secs) => min secs 1024
  | _ =>
    let log2 := min attempt 10
    let baseSecs := 2 ^ log2
    if baseSecs ≤ 1 then 1
    else
      let seed := wrappingAdd (fragIndex * 0x9E3779B97F4A7C15) attempt
      let hash := seed * 0x517cc1b727220a95 % u64Bound
      let jitter := hash / 2 ^ (64 - log2)
      max (baseSecs - jitter) 1

/-- `FragmentTaskResult`: index, bytes and time of a success, or index and error. -/
abbrev FragmentTaskResult := Except (ℕ × DownloadError) (ℕ × ℕ × ℕ)

/-- The retry loop of a spawned fragment task. `fuel` counts the attempts left, the
current one included; the loop never comes round with none left. -/
def retryLoop (fragUrl : String) (maxRetries fragIndex fragStart fragEnd : ℕ) :
    ℕ → ℕ → Prog Answer FragmentTaskResult
  | 0, _ => .done (.error (fragIndex, .other "unreachable"))
  | fuel + 1, attempt => do
    let allowed : Bool ← Prog.ask Request.breakerAllow
    if !allowed then
      if attempt ≥ maxRetries then
        .done (.error (fragIndex, .network s!"源 {fragUrl} 已被熔断,跳过重试"))
      else do
        let _ ← Prog.ask (.sleep 1)
        retryLoop fragUrl maxRetries fragIndex fragStart fragEnd fuel (attempt + 1)
    else do
      let slot : Except String Unit ← Prog.ask Request.acquireSlot
      match slot with
      | .error e => .done (.error (fragIndex, .other s!"信号量获取失败: {e}"))
      | .ok () => do
        let result ← (downloadSingleFragment fragIndex fragStart fragEnd).run
        let _ ← Prog.ask .releaseSlot
        match result with
        | .ok (downloaded, duration) => do
          let _ ← Prog.ask .breakerSuccess
          .done (.ok (fragIndex, downloaded, duration))
        | .error e =>
          if !e.isRetryable then do
            let _ ← Prog.ask .breakerFailure
            .done (.error (fragIndex, e))
          else if attempt ≥ maxRetries then do
            let _ ← Prog.ask .breakerFailure
            .done (.error (fragIndex, e))
          else do
            let _ ← Prog.ask .breakerFailure
            let _ ← Prog.ask (.sleep (retryBackoff fragIndex attempt e))
            retryLoop fragUrl maxRetries fragIndex fragStart fragEnd fuel (attempt + 1)

/-- A spawned fragment task: the retry loop from its first attempt. -/
def fragmentTask (fragUrl : String) (maxRetries fragIndex fragStart fragEnd : ℕ) :
    Prog Answer FragmentTaskResult :=
  retryLoop fragUrl maxRetries fragIndex fragStart fragEnd (maxRetries + 1) 0

end Tachyon
