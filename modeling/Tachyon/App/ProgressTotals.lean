import Tachyon.App.Checkpoints
import Tachyon.Engine.FragmentedIntegrity
import Tachyon.Engine.Progress
import Tachyon.Library.DisjointIntervals

/-!
# The progress shown of a run

The chunk reader shows one total for the task. It adds what a message reports beyond the last
message about the same fragment, and takes nothing away when a message reports less.
-/

namespace Tachyon

open EventRuns DisjointIntervals Resumption

/-- What the last message about a fragment reports, and nothing before the first. -/
def latest (seen : List FragmentProgress) (i : ℕ) : ℕ :=
  ((seen.reverse.find? fun message => message.fragmentIndex = i).map
    FragmentProgress.fragmentDownloaded).getD 0

/-- The chunk reader after some messages. -/
def ChunkReader.after (totalFrags : ℕ) (seen : List FragmentProgress) : ChunkReader :=
  seen.foldl ChunkReader.receive (.new totalFrags)

/-- The next message arrives. -/
def hear (seen : List FragmentProgress) (message : FragmentProgress) :
    Option (List FragmentProgress) := some (seen ++ [message])

/-- The task's entry shows the sum of what the fragments reported last, and no more than the
file. -/
structure TotalRight (plan : List FragmentInfo) (fileSize totalFrags : ℕ) (task : TaskInfo)
    (seen : List FragmentProgress) : Prop where
  total : ((ChunkReader.after totalFrags seen).show task).downloaded =
    (plan.map fun f => latest seen f.index).sum
  bounded : ((ChunkReader.after totalFrags seen).show task).downloaded ≤ fileSize

/-- The message does not report less than the one before it about its fragment. -/
def NotLess (seen : List FragmentProgress) (message : FragmentProgress) : Prop :=
  latest seen message.fragmentIndex ≤ message.fragmentDownloaded

instance (seen : List FragmentProgress) (message : FragmentProgress) :
    Decidable (NotLess seen message) :=
  inferInstanceAs (Decidable (latest seen message.fragmentIndex ≤ message.fragmentDownloaded))

section

variable {seen : List FragmentProgress} {message : FragmentProgress} {totalFrags fileSize : ℕ}
  {task : TaskInfo} {plan : List FragmentInfo}

theorem latest_concat : latest (seen ++ [message]) =
    Function.update (latest seen) message.fragmentIndex message.fragmentDownloaded := by
  funext i
  by_cases hi : message.fragmentIndex = i
  · subst hi
    simp [latest]
  · have hne : i ≠ message.fragmentIndex := fun heq => hi heq.symm
    simp [latest, hi, Function.update_of_ne hne]

theorem ChunkReader.after_concat : ChunkReader.after totalFrags (seen ++ [message]) =
    (ChunkReader.after totalFrags seen).receive message := by
  simp [after]

theorem ChunkReader.after_fragBytes : (ChunkReader.after totalFrags seen).fragBytes =
    latest seen := by
  induction seen using List.reverseRecOn with
  | nil => rfl
  | append_singleton seen message ih =>
    rw [after_concat, latest_concat, ← ih]
    rfl

/-- A message adds what it reports beyond the one before it. -/
theorem downloaded_concat :
    ((ChunkReader.after totalFrags (seen ++ [message])).show task).downloaded =
      min (((ChunkReader.after totalFrags seen).show task).downloaded +
        (message.fragmentDownloaded - latest seen message.fragmentIndex)) (u64Bound - 1) := by
  have hbytes : (ChunkReader.after totalFrags seen).fragBytes = latest seen :=
    ChunkReader.after_fragBytes
  rw [ChunkReader.after_concat, ← hbytes]
  rfl

/-- One of the values of a sum changes. -/
theorem sum_update {keys : List ℕ} {values : ℕ → ℕ} {i v : ℕ} (hnodup : keys.Nodup)
    (hi : i ∈ keys) :
    (keys.map (Function.update values i v)).sum + values i = (keys.map values).sum + v := by
  induction keys with
  | nil => cases hi
  | cons k keys ih =>
    obtain ⟨hk, hrest⟩ := List.nodup_cons.mp hnodup
    rw [List.map_cons, List.sum_cons, List.map_cons, List.sum_cons]
    by_cases hik : i = k
    · subst hik
      have hsame : keys.map (Function.update values i v) = keys.map values :=
        List.map_congr_left fun j hj =>
          Function.update_of_ne (fun heq : j = i => hk (heq ▸ hj)) _ _
      rw [hsame, Function.update_self]
      omega
    · have hsum := ih hrest ((List.mem_cons.mp hi).resolve_left hik)
      rw [Function.update_of_ne (fun heq => hik heq.symm)]
      omega

/-- The fragments of a plan: their indices are their own, and they fit into the file. -/
structure FitsFile (plan : List FragmentInfo) (fileSize : ℕ) : Prop where
  indices : (plan.map FragmentInfo.index).Nodup
  sizes : (plan.map FragmentInfo.size).sum ≤ fileSize
  u64 : fileSize < u64Bound

/-- No fragment has reported more than its size. -/
def WithinSizes (plan : List FragmentInfo) (seen : List FragmentProgress) : Prop :=
  ∀ f ∈ plan, latest seen f.index ≤ f.size

theorem WithinSizes.concat (hplan : FitsFile plan fileSize) (h : WithinSizes plan seen)
    {f : FragmentInfo} (hf : f ∈ plan) (hmessage : message.Within f.index f.size) :
    WithinSizes plan (seen ++ [message]) := by
  intro g hg
  rw [latest_concat]
  by_cases hgf : g.index = f.index
  · obtain rfl := List.inj_on_of_nodup_map hplan.indices hg hf hgf
    rw [hgf, ← hmessage.index, Function.update_self]
    exact hmessage.downloaded
  · rw [Function.update_of_ne (fun heq => hgf (heq.trans hmessage.index))]
    exact h g hg

theorem WithinSizes.sum_le (hplan : FitsFile plan fileSize) (h : WithinSizes plan seen) :
    (plan.map fun f => latest seen f.index).sum ≤ fileSize :=
  (List.sum_le_sum h).trans hplan.sizes

/-- A right total stays right exactly when the message does not report less. -/
theorem totalRight_concat (hplan : FitsFile plan fileSize) (h : WithinSizes plan seen)
    (htotal : TotalRight plan fileSize totalFrags task seen) {f : FragmentInfo} (hf : f ∈ plan)
    (hmessage : message.Within f.index f.size) :
    TotalRight plan fileSize totalFrags task (seen ++ [message]) ↔ NotLess seen message := by
  have hsum : (plan.map fun g => latest (seen ++ [message]) g.index).sum + latest seen f.index =
      (plan.map fun g => latest seen g.index).sum + message.fragmentDownloaded := by
    have hkeys := @sum_update _ (latest seen) f.index message.fragmentDownloaded hplan.indices
      (List.mem_map_of_mem hf)
    rw [List.map_map, List.map_map] at hkeys
    rw [latest_concat, hmessage.index]
    exact hkeys
  have hold := h.sum_le hplan
  have hnew := (h.concat hplan hf hmessage).sum_le hplan
  have hu64 := hplan.u64
  have hdownloaded := @downloaded_concat seen message totalFrags task
  rw [htotal.total, hmessage.index] at hdownloaded
  unfold NotLess
  rw [hmessage.index]
  constructor
  · intro hright
    have htotal' := hright.total
    rw [hdownloaded] at htotal'
    omega
  · intro hle
    constructor
    · omega
    · omega

/-- After every message the total is right exactly when no message reports less than the one before
it about its fragment. -/
theorem totalRight_iff (hplan : FitsFile plan fileSize) {messages : List FragmentProgress}
    (hwithin : ∀ m ∈ messages, ∃ f ∈ plan, m.Within f.index f.size) :
    EachState hear (TotalRight plan fileSize totalFrags task) [] messages ↔
      EachStep hear NotLess [] messages := by
  have hstart : TotalRight plan fileSize totalFrags task [] := by
    have hzero : (plan.map fun f => latest [] f.index).sum = 0 := by
      simp [latest]
    exact ⟨hzero.symm, Nat.zero_le _⟩
  have hnothing : WithinSizes plan [] := fun f _ => Nat.zero_le _
  refine eachState_iff_eachStep (fun seen m seen' hm hsizes htotal hstep => ?_) hwithin
    hnothing hstart
  obtain ⟨f, hf, hmessage⟩ := hm
  obtain rfl := Option.some.inj hstep
  exact ⟨hsizes.concat hplan hf hmessage, totalRight_concat hplan hsizes htotal hf hmessage⟩

end

section Run

variable {env : Environment} {bandwidthBps : ℕ} {config : SchedulerConfig} {fileSize : UInt64}
  {supportsRange : Bool} {suggestedFragSize : Option ℕ} {plan : List FragmentInfo}
  {maxConcurrentFragments maxRetries : ℕ} {host : DownloadResult String} {url : String}
  {storage : Option Bytes} {fragments : List FragmentRecord}
  {s₀ s : Fragmented (fragmentSpecs fragments)} {totalFrags : ℕ} {task : TaskInfo}

theorem planFragments_fitsFile
    (hplan : planFragments bandwidthBps config fileSize.toNat supportsRange suggestedFragSize =
      some plan) : FitsFile plan fileSize.toNat := by
  obtain ⟨⟨hrange, hordered⟩, hend, -⟩ := planFragments_separated hplan
  rw [List.pairwise_map] at hordered
  have hbounds : ∀ f ∈ plan, f.start + f.size = f.end_ + 1 ∧ f.end_ < fileSize.toNat := by
    intro f hf
    have hsize := planFragments_size hplan hf
    have hle : f.start ≤ f.end_ := hrange f.spec (List.mem_map_of_mem hf)
    have hlt : f.end_ < fileSize.toNat := hend f.spec (List.mem_map_of_mem hf)
    omega
  have hapart : plan.Pairwise (Apart FragmentInfo.start FragmentInfo.size) := by
    refine hordered.imp_of_mem fun hf hg hfg => Or.inl ?_
    have hbehind : _ < _ := hfg.2
    simp only [FragmentInfo.spec] at hbehind
    have := (hbounds _ hf).1
    omega
  refine ⟨?_, ?_, fileSize.toNat_lt⟩
  · rw [List.Nodup, List.pairwise_map]
    exact hordered.imp fun h => h.1
  · have hinside : ∀ f ∈ plan, f.start + f.size ≤ fileSize.toNat := fun f hf => by
      have := hbounds f hf
      omega
    exact sum_length_le hapart (fun f _ => Nat.zero_le _) hinside

end Run

/-! ### A retry that starts over -/

/-- Four bytes and the rest of the file, and then a break. -/
def brokenOff (rest : Bytes) : List Item :=
  [.ok [0], .ok [0], .ok [0], .ok [0], .ok rest, .error (.network "reset")]

/-- Four bytes, the rest of the first half, and the other half. -/
def inHalves (half : Bytes) : List Item :=
  [.ok [0], .ok [0], .ok [0], .ok [0], .ok (half.drop 4), .ok half]

/-- A server that breaks off the first stream. -/
def flaky (rest half : Bytes) : (r : Request) → World → Answer r × World
  | .openRange start end_, w =>
    let items := if w.sent = [] then brokenOff rest else inHalves half
    (.finished (.ok items), w.serve start end_ items)
  | r, w => serving (fun _ _ => []) [] r w

theorem flaky_handles (rest half : Bytes) (r : Request) (w : World) :
    Handles .any r w (flaky rest half r w).1 (flaky rest half r w).2 := by
  have hserving : Handles .any r w (serving (fun _ _ => []) [] r w).1
      (serving (fun _ _ => []) [] r w).2 :=
    serving_handles (fun _ _ => trivial) (fun _ _ => trivial) trivial r w
  cases r with
  | openRange start end_ => exact ⟨trivial, rfl⟩
  | _ => exact hserving

section Flaky

variable {rest half : Bytes} {index expectedLen pos totalWritten count : ℕ} {batch chunk : Bytes}
  {items : List Item} {w : World}

theorem writeAllLoop_flaky {fuel : ℕ} (hne : chunk ≠ []) (hpos : pos + chunk.length < u64Bound) :
    runWith (flaky rest half) (writeAllLoop (fuel + 1) pos 0 chunk) w =
      (.ok chunk.length, w.write pos chunk) := by
  have hlength : 0 < chunk.length := List.length_pos_iff.mpr hne
  have hu64 : tryFromUsize chunk.length = some chunk.length :=
    tryFromUsize_eq_some.mpr ⟨by omega, rfl⟩
  have hoffset : checkedAdd pos chunk.length = some (pos + chunk.length) :=
    checkedAdd_eq_some.mpr ⟨hpos, rfl⟩
  have htotal : checkedAdd 0 chunk.length = some chunk.length :=
    checkedAdd_eq_some.mpr ⟨by omega, Nat.zero_add _⟩
  have hanswer : flaky rest half (.writeAtRaced pos chunk) w =
      (.finished (.ok chunk.length), w.write pos chunk) := rfl
  have hsome : chunk.length ≠ 0 := by omega
  simp only [writeAllLoop, List.isEmpty_iff, hne, if_false, runWith_request_bind, hanswer,
    fromSelected, fromResult_ok, ok_bind, hsome, hu64, hoffset, htotal, orThrow_some,
    List.drop_length, writeAllLoop_nil, runWith_pure]

theorem flushBatch_flaky {text : String} (hne : chunk ≠ [])
    (hfits : totalWritten + chunk.length ≤ expectedLen) (hlen : expectedLen < u64Bound)
    (hpos : pos + chunk.length < u64Bound) :
    runWith (flaky rest half) (flushBatch text index expectedLen pos totalWritten chunk) w =
      (.ok chunk.length, w.write pos chunk) := by
  have hu64 : tryFromUsize chunk.length = some chunk.length :=
    tryFromUsize_eq_some.mpr ⟨by omega, rfl⟩
  have hsum : checkedAdd totalWritten chunk.length = some (totalWritten + chunk.length) :=
    checkedAdd_eq_some.mpr ⟨by omega, rfl⟩
  have hnot : ¬totalWritten + chunk.length > expectedLen := by omega
  obtain ⟨fuel, hfuel⟩ := Nat.exists_eq_succ_of_ne_zero (List.length_pos_iff.mpr hne).ne'
  have hwrite := @writeAllLoop_flaky rest half pos chunk w fuel hne hpos
  rw [← Nat.succ_eq_add_one, ← hfuel] at hwrite
  simp only [flushBatch, hu64, hsum, orThrow_some, ok_bind, hnot, if_false, writeAllAt]
  exact hwrite

theorem chunkLoop_flaky_small (hsmall : (batch ++ chunk).length < writeBatchBytes)
    (hcount : count + 1 < u64Bound) :
    runWith (flaky rest half)
        (chunkLoop index expectedLen (.ok chunk :: items) ⟨pos, totalWritten, count, batch⟩) w =
      runWith (flaky rest half)
        (chunkLoop index expectedLen items ⟨pos, totalWritten, count + 1, batch ++ chunk⟩) w := by
  have hcontrol : flaky rest half .waitControl w = (.ok (), w) := rfl
  have hnot : ¬(batch ++ chunk).length ≥ writeBatchBytes := by omega
  simp only [chunkLoop, runWith_request_bind, hcontrol, fromResult_ok, ok_bind, hnot, if_false,
    wrappingAdd_of_lt hcount]

theorem chunkLoop_flaky_full (hfull : writeBatchBytes ≤ (batch ++ chunk).length)
    (hcount : count + 1 < u64Bound)
    (hfits : totalWritten + (batch ++ chunk).length ≤ expectedLen) (hlen : expectedLen < u64Bound)
    (hpos : pos + (batch ++ chunk).length < u64Bound) :
    runWith (flaky rest half)
        (chunkLoop index expectedLen (.ok chunk :: items) ⟨pos, totalWritten, count, batch⟩) w =
      runWith (flaky rest half) (chunkLoop index expectedLen items
          ⟨pos + (batch ++ chunk).length, totalWritten + (batch ++ chunk).length, count + 1, []⟩)
        (if (count + 1) % progressReportChunkInterval = 0 then
          (w.write pos (batch ++ chunk)).send
            ⟨index, false, totalWritten + (batch ++ chunk).length⟩
        else w.write pos (batch ++ chunk)) := by
  have hcontrol : flaky rest half .waitControl w = (.ok (), w) := rfl
  generalize hpiece : batch ++ chunk = piece at hfull hfits hpos ⊢
  have hne : piece ≠ [] := by
    rintro rfl
    exact absurd hfull (by decide)
  have hoffset : checkedAdd pos piece.length = some (pos + piece.length) :=
    checkedAdd_eq_some.mpr ⟨hpos, rfl⟩
  have htotal : wrappingAdd totalWritten piece.length = totalWritten + piece.length :=
    wrappingAdd_of_lt (by omega)
  have hflush := fun text => @flushBatch_flaky rest half index expectedLen pos totalWritten piece w
    text hne hfits hlen hpos
  simp only [chunkLoop, runWith_request_bind, hcontrol, fromResult_ok, ok_bind, hpiece,
    ge_iff_le, hfull, if_true]
  rw [runWith_bind_ok (hflush _)]
  simp only [hoffset, orThrow_some, ok_bind, runWith_request_bind, htotal, wrappingAdd_of_lt hcount]
  unfold reportProgress
  by_cases hreport : (count + 1) % progressReportChunkInterval = 0
  · rw [if_pos hreport, if_pos hreport]
    rfl
  · rw [if_neg hreport, if_neg hreport]
    rfl

theorem chunkLoop_flaky_error {e : DownloadError} {c : FragmentCursor} :
    runWith (flaky rest half) (chunkLoop index expectedLen (.error e :: items) c) w =
      (.error e, w) := rfl

/-- Four bytes and a long piece: they are written together and reported. -/
theorem chunkLoop_flaky_fifth (hfull : writeBatchBytes ≤ 4 + chunk.length)
    (hfits : 4 + chunk.length ≤ expectedLen) (hlen : expectedLen < u64Bound) :
    runWith (flaky rest half) (chunkLoop index expectedLen
        (.ok [0] :: .ok [0] :: .ok [0] :: .ok [0] :: .ok chunk :: items) ⟨0, 0, 0, []⟩) w =
      runWith (flaky rest half)
        (chunkLoop index expectedLen items ⟨4 + chunk.length, 4 + chunk.length, 5, []⟩)
        ((w.write 0 ([0, 0, 0, 0] ++ chunk)).send ⟨index, false, 4 + chunk.length⟩) := by
  have hlength : ([0, 0, 0, 0] ++ chunk).length = 4 + chunk.length := List.length_append
  rw [chunkLoop_flaky_small (by decide) (by decide), chunkLoop_flaky_small (by decide) (by decide),
    chunkLoop_flaky_small (by decide) (by decide), chunkLoop_flaky_small (by decide) (by decide)]
  simp only [List.nil_append, List.cons_append]
  rw [← hlength] at hfull hfits ⊢
  rw [chunkLoop_flaky_full hfull (by decide) (by omega) hlen (by omega), if_pos (by decide)]
  simp only [Nat.zero_add, Nat.reduceAdd, List.cons_append, List.nil_append]

/-- The first attempt reports the whole file and fails. -/
theorem downloadSingleFragment_flaky_first (hrest : rest.length = 524284) (hsent : w.sent = []) :
    ∃ w', runWith (flaky rest half) (downloadSingleFragment 0 0 524287) w =
      (.error (.network "reset"), w') ∧ w'.sent = [⟨0, false, 524288⟩] := by
  have hopen : flaky rest half (.openRange 0 524287) w =
      (.finished (.ok (brokenOff rest)), w.serve 0 524287 (brokenOff rest)) := by
    simp only [flaky, hsent, if_true]
  have hlen : (checkedSub 524287 0).bind (fun len => checkedAdd len 1) = some 524288 := by decide
  have hcontrol : ∀ w, flaky rest half .waitControl w = (.ok (), w) := fun _ => rfl
  have hpool : ∀ w, flaky rest half .acquirePool w = (.ok (), w) := fun _ => rfl
  have hloop := @chunkLoop_flaky_fifth rest half 0 524288 rest [.error (.network "reset")]
    (w.serve 0 524287 (brokenOff rest)) (by rw [hrest]; decide) (by omega) (by decide)
  rw [chunkLoop_flaky_error, hrest] at hloop
  refine ⟨((w.serve 0 524287 (brokenOff rest)).write 0 ([0, 0, 0, 0] ++ rest)).send
    ⟨0, false, 524288⟩, ?_, ?_⟩
  · simp only [downloadSingleFragment, runWith_request_bind, hcontrol, hpool, fromResult_ok,
      ok_bind, hopen, fromSelected, hlen, orThrow_some]
    exact runWith_bind_error hloop
  · simp [World.send, hsent]

/-- The next one reports one half, then both and success. -/
theorem downloadSingleFragment_flaky_next (hhalf : half.length = 262144) (hsent : w.sent ≠ []) :
    ∃ w', runWith (flaky rest half) (downloadSingleFragment 0 0 524287) w =
      (.ok (524288, 0), w') ∧
        w'.sent = w.sent ++ [⟨0, false, 262144⟩, ⟨0, true, 524288⟩] := by
  have hopen : flaky rest half (.openRange 0 524287) w =
      (.finished (.ok (inHalves half)), w.serve 0 524287 (inHalves half)) := by
    simp only [flaky, hsent, if_false]
  have hlen : (checkedSub 524287 0).bind (fun len => checkedAdd len 1) = some 524288 := by decide
  have hcontrol : ∀ w, flaky rest half .waitControl w = (.ok (), w) := fun _ => rfl
  have hpool : ∀ w, flaky rest half .acquirePool w = (.ok (), w) := fun _ => rfl
  have hdrop : (half.drop 4).length = 262140 := by rw [List.length_drop, hhalf]
  have hloop := @chunkLoop_flaky_fifth rest half 0 524288 (half.drop 4) [.ok half]
    (w.serve 0 524287 (inHalves half)) (by rw [hdrop]; decide) (by omega) (by decide)
  have hsecond := @chunkLoop_flaky_full rest half 0 524288 (4 + 262140) (4 + 262140) 5 [] half []
    (((w.serve 0 524287 (inHalves half)).write 0 ([0, 0, 0, 0] ++ half.drop 4)).send
      ⟨0, false, 4 + 262140⟩)
  rw [List.nil_append, hhalf] at hsecond
  rw [hdrop, hsecond (by decide) (by decide) (by decide) (by decide) (by decide),
    if_neg (by decide)] at hloop
  refine ⟨((((w.serve 0 524287 (inHalves half)).write 0 ([0, 0, 0, 0] ++ half.drop 4)).send
    ⟨0, false, 262144⟩).write 262144 half).send ⟨0, true, 524288⟩, ?_, ?_⟩
  · simp only [downloadSingleFragment, runWith_request_bind, hcontrol, hpool, fromResult_ok,
      ok_bind, hopen, fromSelected, hlen, orThrow_some]
    exact (runWith_bind_ok (hloop.trans rfl)).trans rfl
  · simp [World.send]

/-- A task with one retry. -/
theorem fragmentTask_flaky (hrest : rest.length = 524284) (hhalf : half.length = 262144)
    (hsent : w.sent = []) :
    ((fragmentTask "url" 1 0 0 524287).exec (flaky rest half) w).2.sent =
      [⟨0, false, 524288⟩, ⟨0, false, 262144⟩, ⟨0, true, 524288⟩] := by
  obtain ⟨w₁, hfirst, hsent₁⟩ := @downloadSingleFragment_flaky_first rest half w hrest hsent
  have hne : w₁.sent ≠ [] := by
    rw [hsent₁]
    exact List.cons_ne_nil _ _
  obtain ⟨w₂, hnext, hsent₂⟩ := @downloadSingleFragment_flaky_next rest half w₁ hhalf hne
  have hallow : ∀ w, flaky rest half .breakerAllow w = (true, w) := fun _ => rfl
  have hslot : ∀ w, flaky rest half .acquireSlot w = (.ok (), w) := fun _ => rfl
  have hrelease : ∀ w, flaky rest half .releaseSlot w = ((), w) := fun _ => rfl
  have hfailure : ∀ w, flaky rest half .breakerFailure w = ((), w) := fun _ => rfl
  have hsleep : ∀ secs w, flaky rest half (.sleep secs) w = ((), w) := fun _ _ => rfl
  have hsuccess : ∀ w, flaky rest half .breakerSuccess w = ((), w) := fun _ => rfl
  have hattempt : ∀ {w w' : World} {result : DownloadResult (ℕ × ℕ)},
      runWith (flaky rest half) (downloadSingleFragment 0 0 524287) w = (result, w') →
      ∀ f : DownloadResult (ℕ × ℕ) → Prog Answer FragmentTaskResult,
        ((downloadSingleFragment 0 0 524287).run >>= f).exec (flaky rest half) w =
          (f result).exec (flaky rest half) w' := by
    intro w w' result hrun f
    rw [Prog.exec_bind, show (downloadSingleFragment 0 0 524287).run.exec (flaky rest half) w =
      (result, w') from hrun]
  have hretry : (DownloadError.network "reset").isRetryable = true := rfl
  have hmore : ¬0 ≥ 1 := by omega
  simp only [fragmentTask, retryLoop, Prog.exec_ask_bind, hallow, hslot, hrelease,
    hfailure, hsleep, hsuccess, hattempt hfirst, hattempt hnext, Bool.not_true, hretry,
    Bool.false_eq_true, if_false, hmore, Prog.exec, hsent₂, hsent₁, List.singleton_append]

end Flaky

end Tachyon
