import Mathlib.Data.List.Basic
import Mathlib.Data.Stream.Init
import Tachyon.Core.Error
import Tachyon.Library.Unfold
import Tachyon.Protocol.Ftp
import Tachyon.Protocol.RangeResponse

/-!
# The body of an HTTP/3 response

`h3_recv_streaming` makes a byte stream of the buffers a request stream receives. Of each
buffer it passes on the first contiguous piece alone, a buffer without bytes ends the stream,
and after an error it asks the same request stream again.
-/

namespace Tachyon

open Unfold

/-- The `Buf` that `recv_data` returns: its bytes in contiguous pieces, none of them empty. -/
structure RecvBuf where
  pieces : List (List UInt8)
  pieces_ne_nil : ∀ piece ∈ pieces, piece ≠ []

namespace RecvBuf

/-- `chunk`: the first contiguous piece, without bytes where nothing remains. -/
def chunk (buf : RecvBuf) : List UInt8 := buf.pieces.headD []

/-- All that remains. -/
def bytes (buf : RecvBuf) : List UInt8 := buf.pieces.flatten

theorem chunk_eq_nil_iff {buf : RecvBuf} : buf.chunk = [] ↔ buf.pieces = [] := by
  obtain ⟨pieces, hpieces⟩ := buf
  cases pieces with
  | nil => exact iff_of_true rfl rfl
  | cons piece rest =>
    exact iff_of_false (hpieces piece List.mem_cons_self) (List.cons_ne_nil _ _)

theorem length_chunk_le (buf : RecvBuf) : buf.chunk.length ≤ buf.bytes.length := by
  obtain ⟨pieces, hpieces⟩ := buf
  cases pieces with
  | nil => exact le_rfl
  | cons piece rest =>
    rw [bytes, List.flatten_cons, List.length_append]
    exact Nat.le_add_right _ _

/-- Only where there is at most one piece the first is all. -/
theorem length_chunk_eq_iff {buf : RecvBuf} :
    buf.chunk.length = buf.bytes.length ↔ buf.pieces.length ≤ 1 := by
  obtain ⟨pieces, hpieces⟩ := buf
  match pieces with
  | [] => exact iff_of_true rfl (Nat.zero_le 1)
  | [piece] => exact iff_of_true (by simp [chunk, bytes]) le_rfl
  | piece :: next :: rest =>
    have hpos := List.length_pos_iff.mpr (hpieces next (by simp))
    refine iff_of_false ?_ (by simp)
    rw [bytes, chunk, List.flatten_cons, List.flatten_cons, List.length_append,
      List.length_append, List.headD_cons]
    omega

end RecvBuf

/-- What `recv_data` answers: a buffer, the end of the stream, or the text of an error. -/
abbrev RecvData := Except String (Option RecvBuf)

/-- The step of `h3_recv_streaming`, from the answers to come. -/
def h3Next (stream : Stream' RecvData) :
    Option (Except DownloadError (List UInt8) × Stream' RecvData) :=
  match stream.head with
  | .ok (some buf) =>
    let data := buf.chunk
    if data.isEmpty then none else some (.ok data, stream.tail)
  | .ok none => none
  | .error e => some (.error (.network s!"HTTP/3 流读取失败: {e}"), stream.tail)

/-- The answer behind the buffers of a body. -/
def endAnswer : Option String → RecvData
  | none => .ok none
  | some e => .error e

/-- The answers to a response: the buffers of its body, then the end or an error, and whatever
is answered after that. -/
def answers (bufs : List RecvBuf) (failure : Option String) (after : Stream' RecvData) :
    Stream' RecvData :=
  bufs.map (fun buf => .ok (some buf)) ++ₛ Stream'.cons (endAnswer failure) after

/-- The items that report the failure of a body. -/
def failureItems (failure : Option String) : List (Except DownloadError (List UInt8)) :=
  failure.toList.map fun e => .error (.network s!"HTTP/3 流读取失败: {e}")

/-- The byte stream of a body is complete: it comes to an end, with all the bytes of all the
buffers, at the end of the body or after its one error. -/
def CompleteBody (bufs : List RecvBuf) (failure : Option String) (after : Stream' RecvData) :
    Prop :=
  ∃ (chunks : List (List UInt8)) (last : Stream' RecvData),
    Unfolds h3Next (answers bufs failure after) (chunks.map .ok ++ failureItems failure) last ∧
      chunks.flatten = bufs.flatMap RecvBuf.bytes ∧ (failure = none → last.head = .ok none)

/-- An answer that ends the byte stream. -/
def EndsStream : RecvData → Prop
  | .ok (some buf) => buf.pieces = []
  | .ok none => True
  | .error _ => False

section

variable {bufs : List RecvBuf} {failure : Option String} {after last stream : Stream' RecvData}
  {items : List (Except DownloadError (List UInt8))}

theorem h3Next_buf {buf : RecvBuf} (hne : buf.pieces ≠ []) :
    h3Next (Stream'.cons (.ok (some buf)) stream) = some (.ok buf.chunk, stream) := by
  have hchunk : buf.chunk.isEmpty = false :=
    List.isEmpty_eq_false_iff.mpr (mt RecvBuf.chunk_eq_nil_iff.mp hne)
  simp only [h3Next, Stream'.head_cons, Stream'.tail_cons, hchunk, Bool.false_eq_true, if_false]

theorem h3Next_empty {buf : RecvBuf} (h : buf.pieces = []) :
    h3Next (Stream'.cons (.ok (some buf)) stream) = none := by
  have hchunk : buf.chunk.isEmpty = true := List.isEmpty_iff.mpr (RecvBuf.chunk_eq_nil_iff.mpr h)
  simp only [h3Next, Stream'.head_cons, hchunk, if_true]

theorem h3Next_end : h3Next (Stream'.cons (endAnswer none) stream) = none := rfl

theorem h3Next_failure {e : String} : h3Next (Stream'.cons (endAnswer (some e)) stream) =
    some (.error (.network s!"HTTP/3 流读取失败: {e}"), stream) := rfl

theorem h3Next_eq_none : h3Next stream = none ↔ EndsStream stream.head := by
  unfold h3Next
  cases hhead : stream.head with
  | error e => simp [EndsStream]
  | ok found =>
    cases found with
    | none => simp [EndsStream]
    | some buf => simp [EndsStream, RecvBuf.chunk_eq_nil_iff]

/-- The byte stream has the first pieces of the buffers up to the first without bytes, where it
ends; if all have bytes it goes on with what is answered behind them. -/
theorem unfolds_answers (h : Unfolds h3Next (answers bufs failure after) items last) :
    (∃ front buf back, bufs = front ++ buf :: back ∧ buf.pieces = [] ∧
      items = front.map (fun buf => .ok buf.chunk) ∧ last.head = .ok (some buf)) ∨
    ((∀ buf ∈ bufs, buf.pieces ≠ []) ∧
      ∃ rest, items = bufs.map (fun buf => .ok buf.chunk) ++ rest ∧
        Unfolds h3Next (Stream'.cons (endAnswer failure) after) rest last) := by
  induction bufs generalizing items with
  | nil => exact .inr ⟨fun _ hmem => absurd hmem List.not_mem_nil, items, rfl, h⟩
  | cons buf bufs ih =>
    have hcons : answers (buf :: bufs) failure after =
        Stream'.cons (.ok (some buf)) (answers bufs failure after) := rfl
    rw [hcons] at h
    by_cases hempty : buf.pieces = []
    · obtain ⟨rfl, rfl⟩ := (unfolds_of_none (h3Next_empty hempty)).mp h
      exact .inl ⟨[], buf, bufs, rfl, hempty, rfl, rfl⟩
    · obtain ⟨rest, rfl, hrest⟩ := (unfolds_of_some (h3Next_buf hempty)).mp h
      rcases ih hrest with ⟨front, other, back, rfl, hother, rfl, hlast⟩ | ⟨hall, items, rfl, hend⟩
      · exact .inl ⟨buf :: front, other, back, rfl, hother, rfl, hlast⟩
      · exact .inr ⟨List.forall_mem_cons.mpr ⟨hempty, hall⟩, items, rfl, hend⟩

/-- Where all buffers have bytes the byte stream passes them all. -/
theorem unfolds_answers_of_ne (hall : ∀ buf ∈ bufs, buf.pieces ≠ [])
    (h : Unfolds h3Next (Stream'.cons (endAnswer failure) after) items last) :
    Unfolds h3Next (answers bufs failure after)
      (bufs.map (fun buf => .ok buf.chunk) ++ items) last := by
  induction bufs with
  | nil => exact h
  | cons buf bufs ih =>
    obtain ⟨hbuf, hall⟩ := List.forall_mem_cons.mp hall
    exact .next (h3Next_buf hbuf) (ih hall)

/-- The byte stream of a body read to its end has the items of a range response. -/
theorem unfolds_h3RecvStreaming (body : List (Except String RecvBuf)) (after : Stream' RecvData) :
    ∃ last, Unfolds h3Next (body.map (Except.map some) ++ₛ Stream'.cons (.ok none) after)
      (h3RecvStreaming (body.map (Except.map RecvBuf.pieces))) last := by
  induction body with
  | nil => exact ⟨_, .done rfl⟩
  | cons answer body ih =>
    obtain ⟨last, hrest⟩ := ih
    cases answer with
    | error e => exact ⟨last, .next rfl hrest⟩
    | ok buf =>
      have hitems : h3RecvStreaming (.ok buf.pieces :: body.map (Except.map RecvBuf.pieces)) =
          if buf.chunk.isEmpty then []
          else .ok buf.chunk :: h3RecvStreaming (body.map (Except.map RecvBuf.pieces)) := rfl
      rw [List.map_cons, List.map_cons]
      refine hitems ▸ ?_
      by_cases hempty : buf.pieces = []
      · rw [if_pos (List.isEmpty_iff.mpr (RecvBuf.chunk_eq_nil_iff.mpr hempty))]
        exact ⟨_, .done (h3Next_empty hempty)⟩
      · have hchunk : ¬buf.chunk.isEmpty = true := fun h =>
          hempty (RecvBuf.chunk_eq_nil_iff.mp (List.isEmpty_iff.mp h))
        rw [if_neg hchunk]
        exact ⟨last, .next (h3Next_buf hempty) hrest⟩

theorem length_flatten_chunks_le :
    (bufs.map RecvBuf.chunk).flatten.length ≤ (bufs.flatMap RecvBuf.bytes).length := by
  induction bufs with
  | nil => exact le_rfl
  | cons buf bufs ih =>
    rw [List.map_cons, List.flatten_cons, List.flatMap_cons, List.length_append, List.length_append]
    exact Nat.add_le_add buf.length_chunk_le ih

/-- Nothing is lost exactly when no buffer has a second piece. -/
theorem flatten_chunks_eq_iff :
    (bufs.map RecvBuf.chunk).flatten = bufs.flatMap RecvBuf.bytes ↔
      ∀ buf ∈ bufs, buf.pieces.length ≤ 1 := by
  induction bufs with
  | nil => exact iff_of_true rfl fun _ hmem => absurd hmem List.not_mem_nil
  | cons buf bufs ih =>
    rw [List.map_cons, List.flatten_cons, List.flatMap_cons, List.forall_mem_cons, ← ih,
      ← RecvBuf.length_chunk_eq_iff]
    constructor
    · intro h
      have hlengths := congrArg List.length h
      have hchunk := buf.length_chunk_le
      have hrest : (bufs.map RecvBuf.chunk).flatten.length ≤ (bufs.flatMap RecvBuf.bytes).length :=
        length_flatten_chunks_le
      rw [List.length_append, List.length_append] at hlengths
      have hsame : buf.chunk.length = buf.bytes.length := by omega
      exact ⟨hsame, (List.append_inj h hsame).2⟩
    · rintro ⟨hsame, hrest⟩
      have hle : buf.pieces.length ≤ 1 := RecvBuf.length_chunk_eq_iff.mp hsame
      have hbytes : buf.chunk = buf.bytes := by
        obtain ⟨pieces, hpieces⟩ := buf
        match pieces with
        | [] => rfl
        | [piece] => simp [RecvBuf.chunk, RecvBuf.bytes]
        | _ :: _ :: _ => simp at hle
      rw [hbytes, hrest]

/-- Data are followed by the one error exactly when the data are the same and nothing follows. -/
theorem map_ok_append_error {chunks chunks' : List (List UInt8)} {e : DownloadError}
    (h : chunks.map .ok ++ .error e :: items = chunks'.map .ok ++ [.error e]) :
    chunks = chunks' ∧ items = [] := by
  induction chunks generalizing chunks' with
  | nil =>
    cases chunks' with
    | nil => exact ⟨rfl, (List.cons.inj h).2⟩
    | cons _ _ => cases (List.cons.inj h).1
  | cons chunk chunks ih =>
    cases chunks' with
    | nil => cases (List.cons.inj h).1
    | cons chunk' chunks' =>
      obtain ⟨hchunk, hrest⟩ := List.cons.inj h
      obtain ⟨rfl, hitems⟩ := ih hrest
      exact ⟨by rw [Except.ok.inj hchunk], hitems⟩

theorem map_ok_chunk : bufs.map (fun buf => (.ok buf.chunk : Except DownloadError (List UInt8))) =
    (bufs.map RecvBuf.chunk).map .ok :=
  List.map_map.symm

theorem forall_length_eq_one (hall : ∀ buf ∈ bufs, buf.pieces ≠ [])
    (hle : ∀ buf ∈ bufs, buf.pieces.length ≤ 1) : ∀ buf ∈ bufs, buf.pieces.length = 1 := by
  intro buf hmem
  have hpos := List.length_pos_iff.mpr (hall buf hmem)
  exact Nat.le_antisymm (hle buf hmem) hpos

/-- A complete byte stream passed every buffer, and all of it. -/
theorem CompleteBody.length_eq_one (h : CompleteBody bufs failure after) :
    (∀ buf ∈ bufs, buf.pieces.length = 1) ∧ (failure ≠ none → EndsStream after.head) := by
  obtain ⟨chunks, last, hrun, hbytes, hlast⟩ := h
  rcases unfolds_answers hrun with ⟨front, buf, back, rfl, -, hitems, hhead⟩ |
    ⟨hall, rest, hitems, hrest⟩
  · -- a buffer without bytes ended the stream, too early for its end and for its error
    cases failure with
    | none => cases hhead.symm.trans (hlast rfl)
    | some e =>
      have hmem : .error (.network s!"HTTP/3 流读取失败: {e}") ∈
          front.map fun buf => (.ok buf.chunk : Except DownloadError (List UInt8)) := by
        rw [← hitems]
        exact List.mem_append_right _ List.mem_cons_self
      obtain ⟨_, -, heq⟩ := List.mem_map.mp hmem
      cases heq
  · rw [map_ok_chunk] at hitems
    cases failure with
    | none =>
      obtain ⟨rfl, -⟩ := (unfolds_of_none h3Next_end).mp hrest
      have hsame : chunks = bufs.map RecvBuf.chunk :=
        List.map_injective_iff.mpr (fun _ _ => Except.ok.inj) (List.append_cancel_right hitems)
      rw [hsame, flatten_chunks_eq_iff] at hbytes
      exact ⟨forall_length_eq_one hall hbytes, fun hne => absurd rfl hne⟩
    | some e =>
      obtain ⟨items, rfl, hafter⟩ := (unfolds_of_some h3Next_failure).mp hrest
      obtain ⟨hsame, rfl⟩ := map_ok_append_error hitems.symm
      rw [← hsame, flatten_chunks_eq_iff] at hbytes
      refine ⟨forall_length_eq_one hall hbytes, fun _ => ?_⟩
      cases hafter with
      | done hstep => exact h3Next_eq_none.mp hstep

/-- Buffers of one piece each are passed on as they are. -/
theorem completeBody_of_length_eq_one (hone : ∀ buf ∈ bufs, buf.pieces.length = 1)
    (hend : failure ≠ none → EndsStream after.head) : CompleteBody bufs failure after := by
  have hall : ∀ buf ∈ bufs, buf.pieces ≠ [] := fun buf hmem hnil => by
    have hlength := hone buf hmem
    rw [hnil, List.length_nil] at hlength
    cases hlength
  have hbytes := flatten_chunks_eq_iff.mpr fun buf hmem => Nat.le_of_eq (hone buf hmem)
  cases failure with
  | none =>
    refine ⟨_, Stream'.cons (endAnswer none) after, ?_, hbytes, fun _ => rfl⟩
    rw [← map_ok_chunk]
    exact unfolds_answers_of_ne hall (.done h3Next_end)
  | some e =>
    refine ⟨_, after, ?_, hbytes, fun hnone => absurd hnone (Option.some_ne_none e)⟩
    rw [← map_ok_chunk]
    have hstop : h3Next after = none := h3Next_eq_none.mpr (hend (Option.some_ne_none e))
    exact unfolds_answers_of_ne hall (.next h3Next_failure (.done hstop))

/-- The byte stream of a body is complete exactly when every buffer is one piece, and what is
answered after an error ends the stream. -/
theorem completeBody_iff (bufs : List RecvBuf) (failure : Option String)
    (after : Stream' RecvData) :
    CompleteBody bufs failure after ↔
      (∀ buf ∈ bufs, buf.pieces.length = 1) ∧ (failure ≠ none → EndsStream after.head) :=
  ⟨CompleteBody.length_eq_one, fun h => completeBody_of_length_eq_one h.1 h.2⟩

end

/-- The loop of `QuicTransport::download_full` over the byte stream, with the chunks so far and
the number of their bytes; no result where the polls run out. -/
def fullBody : ℕ → Stream' RecvData → ℕ → List (List UInt8) → Option (DownloadResult (List UInt8))
  | 0, _, _, _ => none
  | polls + 1, stream, totalSize, chunks =>
    match h3Next stream with
    | none => some (.ok chunks.flatten)
    | some (.error e, _) => some (.error e)
    | some (.ok chunk, stream) =>
      let totalSize := min (totalSize + chunk.length) (u64Bound - 1)
      if totalSize > FtpServer.maxFullDownloadSize then
        let limit := FtpServer.maxFullDownloadSize / (1024 * 1024)
        some (.error (.protocol
          s!"QUIC 文件过大: 超过单次全量下载上限 {limit} MB, 请使用分片下载"))
      else fullBody polls stream totalSize (chunks ++ [chunk])

/-- A full download takes whatever the byte stream has before its end for the file. -/
theorem fullBody_of_unfolds {stream last : Stream' RecvData} {chunks : List (List UInt8)}
    (hrun : Unfolds h3Next stream (chunks.map .ok) last) {polls totalSize : ℕ}
    (hpolls : chunks.length < polls)
    (hsize : totalSize + chunks.flatten.length ≤ FtpServer.maxFullDownloadSize)
    (got : List (List UInt8)) :
    fullBody polls stream totalSize got = some (.ok (got ++ chunks).flatten) := by
  induction chunks generalizing stream polls totalSize got with
  | nil =>
    cases hrun with
    | done hstep =>
      obtain ⟨polls, rfl⟩ := Nat.exists_eq_succ_of_ne_zero (Nat.ne_of_gt hpolls)
      rw [fullBody, hstep, List.append_nil]
  | cons chunk chunks ih =>
    cases hrun with
    | next hstep hrest =>
      obtain ⟨polls, rfl⟩ := Nat.exists_eq_succ_of_ne_zero (Nat.ne_of_gt (Nat.zero_lt_of_lt hpolls))
      rw [List.flatten_cons, List.length_append] at hsize
      have hmax : FtpServer.maxFullDownloadSize < u64Bound - 1 := by decide
      have htotal : min (totalSize + chunk.length) (u64Bound - 1) = totalSize + chunk.length :=
        Nat.min_eq_left (by omega)
      have hnext : totalSize + chunk.length + chunks.flatten.length ≤
          FtpServer.maxFullDownloadSize := by omega
      have ih := ih hrest (Nat.lt_of_succ_lt_succ hpolls) hnext (got ++ [chunk])
      rw [fullBody, hstep]
      dsimp only
      rw [htotal, if_neg (by omega), ih, List.append_assoc, List.singleton_append]

/-- A buffer of two pieces. -/
def twoPieces : RecvBuf where
  pieces := [[1], [2]]
  pieces_ne_nil := by decide

/-- The second piece of a buffer is lost, and the full download succeeds without it. -/
theorem not_completeBody_twoPieces :
    ¬CompleteBody [twoPieces] none (Stream'.const (.ok none)) ∧
      fullBody 2 (answers [twoPieces] none (Stream'.const (.ok none))) 0 [] =
        some (.ok [1]) := by
  have hrun : Unfolds h3Next (answers [twoPieces] none (Stream'.const (.ok none)))
      ([[1]].map .ok) (Stream'.cons (.ok none) (Stream'.const (.ok none))) :=
    .next rfl (.done rfl)
  refine ⟨fun h => ?_, fullBody_of_unfolds hrun (by decide) (by decide) []⟩
  exact absurd (h.length_eq_one.1 twoPieces List.mem_cons_self) (by decide)

end Tachyon
