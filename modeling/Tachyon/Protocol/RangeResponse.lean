import Tachyon.Engine.Acceptance

/-!
# Answers to a range request

`HttpClient` and `QuicTransport` ask a server for a range and hand its body on as a
stream. Bodies here are laid out as offsets of the remote file, so that a truthful
server is one whose body counts through the range its Content-Range header names,
and the bytes are what the file holds at these offsets.
-/

namespace Tachyon

open ByteFile

/-- What a server sends back: the status, the headers the clients read, and the body as
it comes in. -/
structure HttpResponse (Chunk : Type) where
  status : ℕ
  /-- Code and reason phrase, as `StatusCode` displays them. -/
  statusText : String
  /-- What `parse_retry_after` makes of the Retry-After header. -/
  retryAfterSecs : Option ℕ
  /-- First and last offset of the Content-Range header. -/
  contentRange : Option (ℕ × ℕ)
  body : List (Except String Chunk)

/-- The same response with another body. -/
def HttpResponse.mapBody {Chunk Chunk' : Type} (f : Chunk → Chunk')
    (response : HttpResponse Chunk) : HttpResponse Chunk' where
  status := response.status
  statusText := response.statusText
  retryAfterSecs := response.retryAfterSecs
  contentRange := response.contentRange
  body := response.body.map (Except.map f)

/-- `classify_http_error`. -/
def classifyHttpError {Chunk : Type} (response : HttpResponse Chunk) : DownloadError :=
  let code := response.status
  if code = 429 ∨ code = 503 then .throttled response.retryAfterSecs
  else if code = 401 ∨ code = 403 then .forbidden code
  else
    let status := response.statusText
    .protocol s!"HTTP {status}"

/-- `HttpClient` at one URL. -/
structure HttpClient (α : Type) where
  /-- `Url::parse` and `validate_public_http_url`. -/
  checkUrl : DownloadResult Unit
  /-- The answer to a GET with this Range header, or the chain of errors of the request. -/
  send : String → Except String (HttpResponse (List α))

/-- `<HttpClient as Protocol>::download_range_stream`. -/
def HttpClient.downloadRangeStream {α : Type} (client : HttpClient α) (start end_ : ℕ) :
    DownloadResult (List (DownloadResult (List α))) := do
  client.checkUrl
  match client.send s!"bytes={start}-{end_}" with
  | .error chain => throw (.network s!"Range 请求失败: {chain}")
  | .ok response =>
    if response.status = 200 then
      throw (.protocol "服务器忽略 Range 头,返回 HTTP 200(不支持分片下载)")
    else if response.status ≠ 206 then throw (classifyHttpError response)
    else
      pure (response.body.map (Except.mapError fun e => .network s!"读取响应流数据失败: {e}"))

/-- The buffer `recv_data` returns, cut where it is not contiguous in memory. -/
abbrev Buf (α : Type) := List (List α)

/-- `Buf::chunk`: the bytes up to the first cut. -/
def Buf.chunk {α : Type} (buf : Buf α) : List α := buf.headD []

/-- `h3_recv_streaming`. -/
def h3RecvStreaming {α : Type} : List (Except String (Buf α)) → List (DownloadResult (List α))
  | [] => []
  | .ok buf :: rest =>
    let data := Buf.chunk buf
    if data.isEmpty then [] else .ok data :: h3RecvStreaming rest
  | .error e :: rest => .error (.network s!"HTTP/3 流读取失败: {e}") :: h3RecvStreaming rest

/-- `QuicTransport` at one URL. -/
structure QuicTransport (α : Type) where
  /-- The connection is there and not closed. -/
  connected : Bool
  /-- `connect` has set up the HTTP/3 client. -/
  h3Ready : Bool
  /-- `Url::parse` and `validate_public_http_url`. -/
  checkUrl : DownloadResult Unit
  /-- `build_h3_request` with this Range header. -/
  buildH3Request : String → DownloadResult Unit
  /-- `send_request` and `recv_response`, or the text of the error of either. -/
  exchange : String → Except String (HttpResponse (Buf α))

/-- `<QuicTransport as Protocol>::download_range_stream`. -/
def QuicTransport.downloadRangeStream {α : Type} (transport : QuicTransport α) (start end_ : ℕ) :
    DownloadResult (List (DownloadResult (List α))) := do
  if !transport.connected then throw (.protocol "QUIC 未连接,请先调用 connect()")
  if !transport.h3Ready then throw (.protocol "HTTP/3 客户端未初始化")
  transport.checkUrl
  transport.buildH3Request s!"bytes={start}-{end_}"
  match transport.exchange s!"bytes={start}-{end_}" with
  | .error e => throw (.network s!"HTTP/3 协议错误: {e}")
  | .ok response =>
    let status := response.status
    if status ≠ 206 then
      throw (.protocol s!"服务器忽略 Range 头, 返回 HTTP {status} (期望 206 Partial Content)")
    else pure (h3RecvStreaming response.body)

/-- What comes in counts through a range, as far as it comes in. -/
structure CountsThrough (first last : ℕ) (incoming : List (Except String (List ℕ))) : Prop where
  ordered : first ≤ last
  so_far : deliveredBytes incoming <+: List.range' first (last + 1 - first)
  at_end : EndsCleanly incoming → deliveredBytes incoming = List.range' first (last + 1 - first)

/-- A 206 body counts through the offsets that its Content-Range header names. -/
def HttpResponse.Truthful {Chunk : Type} (offsets : Chunk → List ℕ)
    (response : HttpResponse Chunk) : Prop :=
  response.status = 206 → ∃ first last, response.contentRange = some (first, last) ∧
    CountsThrough first last (response.body.map (Except.map offsets))

/-- An HTTP/1 or HTTP/2 server that labels its responses truthfully. -/
structure TruthfulHttp extends HttpClient ℕ where
  truthful : ∀ header response, send header = .ok response → response.Truthful id

/-- An HTTP/3 server that labels its responses truthfully. -/
structure TruthfulQuic extends QuicTransport ℕ where
  truthful : ∀ header response, exchange header = .ok response →
    response.Truthful (List.flatten : Buf ℕ → List ℕ)

/-- The client of a server that holds this file. -/
def HttpClient.holding (client : HttpClient ℕ) (entity : ℕ → UInt8) : HttpClient UInt8 where
  checkUrl := client.checkUrl
  send := fun header => (client.send header).map (HttpResponse.mapBody (List.map entity))

/-- The client of a server that holds this file. -/
def QuicTransport.holding (transport : QuicTransport ℕ) (entity : ℕ → UInt8) :
    QuicTransport UInt8 where
  connected := transport.connected
  h3Ready := transport.h3Ready
  checkUrl := transport.checkUrl
  buildH3Request := transport.buildH3Request
  exchange := fun header =>
    (transport.exchange header).map (HttpResponse.mapBody (List.map (List.map entity)))

/-- The range of the file. -/
def rangeOf (entity : ℕ → UInt8) (start end_ : ℕ) : Bytes :=
  (List.range' start (end_ - start + 1)).map entity

/-- A fragment that ends Ok on the client's answer has the range's bytes at the range. -/
def RangeSound (entity : ℕ → UInt8) (start end_ : ℕ) (answer : DownloadResult (List Item)) : Prop :=
  ∀ items, answer = .ok items → ∀ index file w', Accepts start end_ items index file w' →
    StoredAt w'.file start (rangeOf entity start end_)

section Streams

variable {ε ε' α β : Type}

theorem deliveredBytes_map (f : α → β) (items : List (Except ε (List α))) :
    deliveredBytes (items.map (Except.map (List.map f))) = (deliveredBytes items).map f := by
  induction items with
  | nil => rfl
  | cons item items ih =>
    cases item with
    | error e => rfl
    | ok chunk =>
      rw [deliveredBytes, List.map_append, ← ih]
      rfl

theorem deliveredBytes_mapError (f : ε → ε') (items : List (Except ε (List α))) :
    deliveredBytes (items.map (Except.mapError f)) = deliveredBytes items := by
  induction items with
  | nil => rfl
  | cons item items ih =>
    cases item with
    | error e => rfl
    | ok chunk =>
      rw [deliveredBytes, ← ih]
      rfl

/-- Whether a stream ends cleanly depends on which of its items are errors only. -/
theorem endsCleanly_map_iff {f : Except ε (List α) → Except ε' (List β)}
    (hf : ∀ item, (∃ chunk, f item = .ok chunk) ↔ ∃ chunk, item = .ok chunk)
    (items : List (Except ε (List α))) : EndsCleanly (items.map f) ↔ EndsCleanly items := by
  constructor
  · intro h item hitem
    exact (hf item).mp (h _ (List.mem_map_of_mem hitem))
  · intro h item hitem
    obtain ⟨item', hitem', rfl⟩ := List.mem_map.mp hitem
    exact (hf item').mpr (h item' hitem')

theorem endsCleanly_map (f : List α → List β) (items : List (Except ε (List α))) :
    EndsCleanly (items.map (Except.map f)) ↔ EndsCleanly items := by
  apply endsCleanly_map_iff
  intro item
  cases item <;> simp [Except.map]

theorem endsCleanly_mapError (f : ε → ε') (items : List (Except ε (List α))) :
    EndsCleanly (items.map (Except.mapError f)) ↔ EndsCleanly items := by
  apply endsCleanly_map_iff
  intro item
  cases item <;> simp [Except.mapError]

end Streams

/-- Two lists read the same in every file only when they are the same. -/
theorem eq_of_map_eq {l l' : List ℕ} (h : ∀ entity : ℕ → UInt8, l.map entity = l'.map entity) :
    l = l' := by
  have hlength : l.length = l'.length := by
    simpa using congrArg List.length (h fun _ => 0)
  apply List.ext_getElem hlength
  intro i hi hi'
  have hmark := congrArg (fun m : Bytes => m[i]?) (h fun p => if p = l'[i] then 1 else 0)
  simp only [List.getElem?_map, List.getElem?_eq_getElem hi, List.getElem?_eq_getElem hi',
    Option.map_some, if_true, Option.some.injEq] at hmark
  by_contra hne
  rw [if_neg hne] at hmark
  exact absurd hmark (by decide)

/-- The conditions on an acceptable stream are about its delivery only. -/
theorem acceptable_congr {ε ε' α β : Type} {start end_ : ℕ} {items : List (Except ε (List α))}
    {items' : List (Except ε' (List β))} (hclean : EndsCleanly items ↔ EndsCleanly items')
    (hlength : (deliveredBytes items).length = (deliveredBytes items').length) :
    Acceptable start end_ items ↔ Acceptable start end_ items' := by
  constructor
  · intro h
    exact ⟨h.ordered, h.inU64, hclean.mp h.clean, hlength ▸ h.length_eq⟩
  · intro h
    exact ⟨h.ordered, h.inU64, hclean.mpr h.clean, hlength ▸ h.length_eq⟩

/-- The stream as the bytes of a file at its offsets. -/
def readOffsets (entity : ℕ → UInt8) (items : List (DownloadResult (List ℕ))) : List Item :=
  items.map (Except.map (List.map entity))

theorem deliveredBytes_readOffsets (entity : ℕ → UInt8) (items : List (DownloadResult (List ℕ))) :
    deliveredBytes (readOffsets entity items) = (deliveredBytes items).map entity :=
  deliveredBytes_map entity items

theorem acceptable_readOffsets {start end_ : ℕ} {entity : ℕ → UInt8}
    {items : List (DownloadResult (List ℕ))} :
    Acceptable start end_ (readOffsets entity items) ↔ Acceptable start end_ items := by
  apply acceptable_congr (endsCleanly_map _ _)
  rw [deliveredBytes_map, List.length_map]

/-- A client's answer is sound for every file exactly when its stream, in case it is
accepted, counts through the requested range. -/
theorem rangeSound_iff {start end_ : ℕ} {answer : DownloadResult (List (DownloadResult (List ℕ)))} :
    (∀ entity, RangeSound entity start end_ (answer.map (readOffsets entity))) ↔
      ∀ items, answer = .ok items → Acceptable start end_ items →
        deliveredBytes items = List.range' start (end_ - start + 1) := by
  constructor
  · rintro hsound items rfl hacceptable
    apply eq_of_map_eq
    intro entity
    obtain ⟨w', haccepts⟩ := (acceptable_readOffsets.mpr hacceptable).accepts 0 []
    have hstored := haccepts.stored.2
    rw [deliveredBytes_readOffsets] at hstored
    apply hstored.unique (hsound entity _ rfl 0 [] w' haccepts)
    rw [List.length_map, hacceptable.length_eq, rangeOf, List.length_map, List.length_range']
  · intro h entity items' hitems' index file w' haccepts
    cases answer with
    | error e => cases hitems'
    | ok items =>
      obtain rfl : readOffsets entity items = items' := Except.ok.inj hitems'
      obtain ⟨hacceptable, hstored⟩ := haccepts.stored
      rw [deliveredBytes_readOffsets, h items rfl (acceptable_readOffsets.mp hacceptable)]
        at hstored
      exact hstored

/-- The server answers a range request that it takes with a 206 for just that range, or
with something the fragment will not accept. -/
def HttpClient.AnswersRange (client : HttpClient ℕ) (start end_ : ℕ) : Prop :=
  ∀ response, client.checkUrl = .ok () → client.send s!"bytes={start}-{end_}" = .ok response →
    response.status = 206 → Acceptable start end_ response.body →
    response.contentRange = some (start, end_)

/-- No byte is taken behind a cut in a buffer. -/
def Unbroken {α : Type} : List (Except String (Buf α)) → Prop
  | .ok buf :: rest => Buf.chunk buf = [] ∨
      (deliveredBytes (h3RecvStreaming rest) = [] ∨ buf.flatten = Buf.chunk buf) ∧ Unbroken rest
  | _ => True

/-- The server answers a range request that it takes with a 206 that starts where the
range does and comes in without cuts, or with something the fragment will not accept. -/
def QuicTransport.AnswersRange (transport : QuicTransport ℕ) (start end_ : ℕ) : Prop :=
  ∀ response, transport.connected = true → transport.h3Ready = true →
    transport.checkUrl = .ok () → transport.buildH3Request s!"bytes={start}-{end_}" = .ok () →
    transport.exchange s!"bytes={start}-{end_}" = .ok response → response.status = 206 →
    Acceptable start end_ (h3RecvStreaming response.body) →
    (∃ last, response.contentRange = some (start, last)) ∧ Unbroken response.body

variable {α : Type} {start end_ : ℕ}

theorem ok_bind_eq_ok {x : DownloadResult Unit} {f : Unit → DownloadResult α} {c : α} :
    x >>= f = .ok c ↔ x = .ok () ∧ f () = .ok c := by
  cases x with
  | error e => simp [bind, Except.bind]
  | ok _ => simp [bind, Except.bind]

/-- The stream `HttpClient` hands on is the body of a 206. -/
theorem HttpClient.downloadRangeStream_eq_ok {client : HttpClient α}
    {items : List (DownloadResult (List α))} :
    client.downloadRangeStream start end_ = .ok items ↔
      ∃ response, client.checkUrl = .ok () ∧
        client.send s!"bytes={start}-{end_}" = .ok response ∧ response.status = 206 ∧
        response.body.map (Except.mapError fun e => .network s!"读取响应流数据失败: {e}") = items := by
  unfold HttpClient.downloadRangeStream
  rw [ok_bind_eq_ok]
  cases client.send s!"bytes={start}-{end_}" with
  | error chain => simp [throw, throwThe, MonadExceptOf.throw]
  | ok response =>
    by_cases hok : response.status = 200
    · simp [hok, throw, throwThe, MonadExceptOf.throw]
    · by_cases h206 : response.status = 206
      · simp [h206, pure, Except.pure]
      · simp [hok, h206, throw, throwThe, MonadExceptOf.throw]

/-- The stream `QuicTransport` hands on is the body of a 206 as `h3_recv_streaming` reads it. -/
theorem QuicTransport.downloadRangeStream_eq_ok {transport : QuicTransport α}
    {items : List (DownloadResult (List α))} :
    transport.downloadRangeStream start end_ = .ok items ↔
      ∃ response, transport.connected = true ∧ transport.h3Ready = true ∧
        transport.checkUrl = .ok () ∧
        transport.buildH3Request s!"bytes={start}-{end_}" = .ok () ∧
        transport.exchange s!"bytes={start}-{end_}" = .ok response ∧ response.status = 206 ∧
        h3RecvStreaming response.body = items := by
  unfold QuicTransport.downloadRangeStream
  cases transport.connected with
  | false => simp [throw, throwThe, MonadExceptOf.throw, bind, Except.bind]
  | true =>
  cases transport.h3Ready with
  | false => simp [throw, throwThe, MonadExceptOf.throw, bind, Except.bind]
  | true =>
  simp only [Bool.not_true, Bool.false_eq_true, if_false, ok_bind_eq_ok]
  cases transport.exchange s!"bytes={start}-{end_}" with
  | error e => simp [throw, throwThe, MonadExceptOf.throw]
  | ok response =>
    by_cases h206 : response.status = 206
    · simp [h206, pure, Except.pure]
    · simp [h206, throw, throwThe, MonadExceptOf.throw]

/-- Holding a file turns the offsets of the stream into bytes. -/
theorem h3RecvStreaming_map {β : Type} (f : α → β) (body : List (Except String (Buf α))) :
    h3RecvStreaming (body.map (Except.map (List.map (List.map f)))) =
      (h3RecvStreaming body).map (Except.map (List.map f)) := by
  induction body with
  | nil => rfl
  | cons item body ih =>
    cases item with
    | error e =>
      rw [h3RecvStreaming, List.map_cons, List.map_cons, ← ih]
      rfl
    | ok buf =>
      have hchunk : Buf.chunk (buf.map (List.map f)) = (Buf.chunk buf).map f := by
        cases buf <;> rfl
      rw [List.map_cons, Except.map, h3RecvStreaming, h3RecvStreaming, hchunk]
      by_cases hempty : Buf.chunk buf = []
      · simp [hempty]
      · simp [hempty, ih, Except.map]

/-- The client of a server that holds a file hands on that file's bytes. -/
theorem HttpClient.downloadRangeStream_holding (client : HttpClient ℕ) (entity : ℕ → UInt8) :
    (client.holding entity).downloadRangeStream start end_ =
      (client.downloadRangeStream start end_).map (readOffsets entity) := by
  unfold HttpClient.downloadRangeStream HttpClient.holding
  dsimp only
  cases client.checkUrl with
  | error e => rfl
  | ok _ =>
  cases client.send s!"bytes={start}-{end_}" with
  | error chain => rfl
  | ok response =>
    have hbody : (response.mapBody (List.map entity)).body.map
        (Except.mapError fun e : String => DownloadError.network s!"读取响应流数据失败: {e}") =
        readOffsets entity (response.body.map
          (Except.mapError fun e : String => .network s!"读取响应流数据失败: {e}")) := by
      simp only [HttpResponse.mapBody, readOffsets, List.map_map]
      apply List.map_congr_left
      intro item hitem
      cases item <;> rfl
    by_cases hok : response.status = 200
    · simp [HttpResponse.mapBody, hok, Except.map, bind, Except.bind, throw, throwThe,
        MonadExceptOf.throw]
    · by_cases h206 : response.status = 206
      · simp [Except.map, bind, Except.bind, h206, HttpResponse.mapBody, pure, Except.pure]
          at hbody ⊢
        exact hbody
      · simp [HttpResponse.mapBody, classifyHttpError, hok, h206, Except.map, bind,
          Except.bind, throw, throwThe, MonadExceptOf.throw]

theorem QuicTransport.downloadRangeStream_holding (transport : QuicTransport ℕ)
    (entity : ℕ → UInt8) :
    (transport.holding entity).downloadRangeStream start end_ =
      (transport.downloadRangeStream start end_).map (readOffsets entity) := by
  unfold QuicTransport.downloadRangeStream QuicTransport.holding
  dsimp only
  cases transport.connected with
  | false => rfl
  | true =>
  cases transport.h3Ready with
  | false => rfl
  | true =>
  cases transport.checkUrl with
  | error e => rfl
  | ok _ =>
  cases transport.buildH3Request s!"bytes={start}-{end_}" with
  | error e => rfl
  | ok _ =>
  cases transport.exchange s!"bytes={start}-{end_}" with
  | error e => rfl
  | ok response =>
    by_cases h206 : response.status = 206
    · simp [HttpResponse.mapBody, h206, Except.map, bind, Except.bind, pure, Except.pure,
        h3RecvStreaming_map, readOffsets]
    · simp [HttpResponse.mapBody, h206, Except.map, bind, Except.bind, throw, throwThe,
        MonadExceptOf.throw]

theorem HttpResponse.Truthful.counts {response : HttpResponse (List ℕ)}
    (h : response.Truthful id) (hstatus : response.status = 206) :
    ∃ first last, response.contentRange = some (first, last) ∧
      CountsThrough first last response.body := by
  obtain ⟨first, last, hrange, hcounts⟩ := h hstatus
  have hsame : response.body.map (Except.map id) = response.body := by
    apply List.map_id''
    intro item
    cases item <;> rfl
  rw [hsame] at hcounts
  exact ⟨first, last, hrange, hcounts⟩

/-- An accepted HTTP body is the requested range exactly when Content-Range says so. -/
theorem CountsThrough.delivered_iff {first last : ℕ} {body : List (Except String (List ℕ))}
    (h : CountsThrough first last body) (hacceptable : Acceptable start end_ body) :
    deliveredBytes body = List.range' start (end_ - start + 1) ↔
      some (first, last) = some (start, end_) := by
  have hwhole := h.at_end hacceptable.clean
  have hlength := hacceptable.length_eq
  have hfirst := h.ordered
  have hstart := hacceptable.ordered
  rw [hwhole, List.length_range'] at hlength
  rw [hwhole, hlength, List.range'_inj, Option.some.injEq, Prod.mk.injEq]
  omega

/-- What the fragments make of a truthful HTTP server's answers is sound for every file
exactly when the server answers the range itself. -/
theorem http_range_sound_iff (server : TruthfulHttp) :
    (∀ entity, RangeSound entity start end_
      ((server.toHttpClient.holding entity).downloadRangeStream start end_)) ↔
      server.toHttpClient.AnswersRange start end_ := by
  simp only [HttpClient.downloadRangeStream_holding]
  rw [rangeSound_iff]
  have hstream : ∀ body : List (Except String (List ℕ)), Acceptable start end_
      (body.map (Except.mapError fun e => DownloadError.network s!"读取响应流数据失败: {e}")) ↔
        Acceptable start end_ body := by
    intro body
    apply acceptable_congr (endsCleanly_mapError _ _)
    rw [deliveredBytes_mapError]
  constructor
  · intro h response hurl hsend hstatus hacceptable
    obtain ⟨first, last, hrange, hcounts⟩ := (server.truthful _ _ hsend).counts hstatus
    have hdelivered := h _ (HttpClient.downloadRangeStream_eq_ok.mpr
      ⟨response, hurl, hsend, hstatus, rfl⟩) ((hstream _).mpr hacceptable)
    rw [deliveredBytes_mapError] at hdelivered
    rw [hrange]
    exact (hcounts.delivered_iff hacceptable).mp hdelivered
  · intro h items hitems hacceptable
    obtain ⟨response, hurl, hsend, hstatus, rfl⟩ := HttpClient.downloadRangeStream_eq_ok.mp hitems
    obtain ⟨first, last, hrange, hcounts⟩ := (server.truthful _ _ hsend).counts hstatus
    have hbody := (hstream _).mp hacceptable
    have hnamed := h response hurl hsend hstatus hbody
    rw [deliveredBytes_mapError]
    rw [hrange] at hnamed
    exact (hcounts.delivered_iff hbody).mpr hnamed

/-- What has come in before a buffer takes up the front of the range. -/
theorem countsThrough_cons {first n : ℕ} {buf : Buf ℕ} {rest : List (Except String (Buf ℕ))}
    (h : deliveredBytes ((.ok buf :: rest).map (Except.map List.flatten)) <+: List.range' first n) :
    buf.flatten = List.range' first buf.flatten.length ∧
      deliveredBytes (rest.map (Except.map List.flatten)) <+:
        List.range' (first + buf.flatten.length) (n - buf.flatten.length) := by
  obtain ⟨behind, hbehind⟩ := h
  have hsplit : List.range' first n = buf.flatten ++
      (deliveredBytes (rest.map (Except.map List.flatten)) ++ behind) := by
    rw [← hbehind, ← List.append_assoc]
    rfl
  obtain ⟨k, hk, hflatten, hrest⟩ := List.range'_eq_append_iff.mp hsplit
  have hlength : buf.flatten.length = k := by
    rw [hflatten, List.length_range']
  rw [Nat.mul_one] at hrest
  rw [hlength]
  exact ⟨hflatten, behind, hrest⟩

/-- The stream takes bytes of the body only, in their order. -/
theorem h3RecvStreaming_sublist (body : List (Except String (Buf α))) :
    (deliveredBytes (h3RecvStreaming body)).Sublist
      (deliveredBytes (body.map (Except.map List.flatten))) := by
  induction body with
  | nil => exact List.Sublist.refl _
  | cons item rest ih =>
    cases item with
    | error e => exact List.Sublist.refl _
    | ok buf =>
      rw [h3RecvStreaming]
      by_cases hempty : Buf.chunk buf = []
      · simp [hempty, deliveredBytes]
      · have hchunk : (Buf.chunk buf).Sublist buf.flatten := by
          cases buf with
          | nil => exact List.Sublist.refl _
          | cons piece pieces => exact List.sublist_append_left piece pieces.flatten
        simp only [List.isEmpty_iff, hempty, if_false]
        exact hchunk.append ih

theorem deliveredBytes_h3RecvStreaming_cons {buf : Buf α} (rest : List (Except String (Buf α)))
    (hchunk : Buf.chunk buf ≠ []) :
    deliveredBytes (h3RecvStreaming (.ok buf :: rest)) =
      Buf.chunk buf ++ deliveredBytes (h3RecvStreaming rest) := by
  simp [h3RecvStreaming, hchunk, deliveredBytes]

/-- The stream counts on without a gap exactly when no byte is taken behind a cut. -/
theorem unbroken_iff {first n : ℕ} {body : List (Except String (Buf ℕ))}
    (h : deliveredBytes (body.map (Except.map List.flatten)) <+: List.range' first n) :
    deliveredBytes (h3RecvStreaming body) =
      List.range' first (deliveredBytes (h3RecvStreaming body)).length ↔ Unbroken body := by
  induction body generalizing first n with
  | nil => exact iff_of_true rfl trivial
  | cons item rest ih =>
    cases item with
    | error e => exact iff_of_true rfl trivial
    | ok buf =>
      obtain ⟨hbuf, hrest⟩ := countsThrough_cons h
      have hsub := (h3RecvStreaming_sublist rest).subset
      have ih' := ih hrest
      rw [Unbroken]
      cases hcut : buf with
      | nil => exact iff_of_true rfl (Or.inl rfl)
      | cons piece pieces =>
      by_cases hpiece : piece = []
      · subst hpiece
        exact iff_of_true rfl (Or.inl rfl)
      have hchunk : Buf.chunk (piece :: pieces) = piece := rfl
      have hflatten : buf.flatten = piece ++ pieces.flatten := by
        rw [hcut, List.flatten_cons]
      have hlength : buf.flatten.length = piece.length + pieces.flatten.length := by
        rw [hflatten, List.length_append]
      have hcounted : piece = List.range' first piece.length := by
        rw [hlength, ← List.range'_append_1, hflatten] at hbuf
        exact (List.append_inj hbuf List.length_range'.symm).1
      rw [deliveredBytes_h3RecvStreaming_cons _ (hchunk ▸ hpiece), hchunk, ← hcut]
      generalize deliveredBytes (h3RecvStreaming rest) = taken at hsub ih' ⊢
      have hfront : piece ++ taken = List.range' first (piece ++ taken).length ↔
          taken = List.range' (first + piece.length) taken.length := by
        rw [List.length_append, ← List.range'_append_1, ← hcounted, List.append_cancel_left_eq]
      rw [hfront, or_iff_right hpiece]
      by_cases htaken : taken = []
      · subst htaken
        exact iff_of_true rfl ⟨Or.inl rfl, ih'.mp rfl⟩
      by_cases hwhole : buf.flatten = piece
      · rw [hwhole] at ih'
        rw [ih']
        exact ⟨fun hrest => ⟨Or.inr hwhole, hrest⟩, And.right⟩
      · -- the first byte taken behind the cut is not the next one
        refine iff_of_false (fun hcount => ?_) (fun hrest => hrest.1.elim htaken hwhole)
        have hfirst : first + piece.length ∈ taken := by
          rw [hcount, List.mem_range'_1]
          have := List.length_pos_iff.mpr htaken
          omega
        have hbehind := List.mem_range'_1.mp (hrest.subset (hsub hfirst))
        have hcutOff : pieces.flatten ≠ [] := by
          intro hnone
          rw [hnone, List.append_nil] at hflatten
          exact hwhole hflatten
        have := List.length_pos_iff.mpr hcutOff
        omega

/-- A stream that takes anything starts where the body does. -/
theorem h3RecvStreaming_head {first n : ℕ} {body : List (Except String (Buf ℕ))}
    (h : deliveredBytes (body.map (Except.map List.flatten)) <+: List.range' first n)
    (htaken : deliveredBytes (h3RecvStreaming body) ≠ []) :
    (deliveredBytes (h3RecvStreaming body)).head? = some first := by
  cases body with
  | nil => exact absurd rfl htaken
  | cons item rest =>
    cases item with
    | error e => exact absurd rfl htaken
    | ok buf =>
      obtain ⟨hbuf, -⟩ := countsThrough_cons h
      cases buf with
      | nil => exact absurd rfl htaken
      | cons piece pieces =>
        cases piece with
        | nil => exact absurd rfl htaken
        | cons p piece =>
          rw [List.flatten_cons, List.cons_append, List.length_cons, List.range'_succ,
            List.cons.injEq] at hbuf
          rw [← hbuf.1]
          rfl

/-- What the fragments make of a truthful HTTP/3 server's answers is sound for every file
exactly when the answers start where the range does and come in without cuts. -/
theorem quic_range_sound_iff (server : TruthfulQuic) :
    (∀ entity, RangeSound entity start end_
      ((server.toQuicTransport.holding entity).downloadRangeStream start end_)) ↔
      server.toQuicTransport.AnswersRange start end_ := by
  simp only [QuicTransport.downloadRangeStream_holding]
  rw [rangeSound_iff]
  have hcounts : ∀ {response : HttpResponse (Buf ℕ)}, response.Truthful List.flatten →
      response.status = 206 → Acceptable start end_ (h3RecvStreaming response.body) →
      (deliveredBytes (h3RecvStreaming response.body) = List.range' start (end_ - start + 1) ↔
        (∃ last, response.contentRange = some (start, last)) ∧ Unbroken response.body) := by
    intro response htruthful hstatus hacceptable
    obtain ⟨first, last, hrange, hcounts⟩ := htruthful hstatus
    have hlength := hacceptable.length_eq
    have htaken : deliveredBytes (h3RecvStreaming response.body) ≠ [] := by
      apply List.length_pos_iff.mp
      omega
    have hhead := h3RecvStreaming_head hcounts.so_far htaken
    have hunbroken := unbroken_iff hcounts.so_far
    rw [hlength] at hunbroken
    constructor
    · intro hdelivered
      rw [hdelivered, List.range'_succ, List.head?_cons, Option.some.injEq] at hhead
      subst hhead
      exact ⟨⟨last, hrange⟩, hunbroken.mp hdelivered⟩
    · rintro ⟨⟨last', hrange'⟩, hbody⟩
      rw [hrange, Option.some.injEq, Prod.mk.injEq] at hrange'
      obtain rfl : first = start := hrange'.1
      exact hunbroken.mpr hbody
  constructor
  · intro h response hconnected hready hurl hbuild hexchange hstatus hacceptable
    have hdelivered := h _ (QuicTransport.downloadRangeStream_eq_ok.mpr
      ⟨response, hconnected, hready, hurl, hbuild, hexchange, hstatus, rfl⟩) hacceptable
    exact (hcounts (server.truthful _ _ hexchange) hstatus hacceptable).mp hdelivered
  · intro h items hitems hacceptable
    obtain ⟨response, hconnected, hready, hurl, hbuild, hexchange, hstatus, rfl⟩ :=
      QuicTransport.downloadRangeStream_eq_ok.mp hitems
    exact (hcounts (server.truthful _ _ hexchange) hstatus hacceptable).mpr
      (h response hconnected hready hurl hbuild hexchange hstatus hacceptable)

/-- Whatever two truthful servers answer to a range request, the fragments that accept the
answers hold that range of the file, for every file, exactly when the HTTP server names
the range and the HTTP/3 server names its start and sends no cut buffers. -/
theorem range_response_sound_iff (http : TruthfulHttp) (quic : TruthfulQuic) (start end_ : ℕ) :
    ((∀ entity, RangeSound entity start end_
        ((http.toHttpClient.holding entity).downloadRangeStream start end_)) ↔
      http.toHttpClient.AnswersRange start end_) ∧
    ((∀ entity, RangeSound entity start end_
        ((quic.toQuicTransport.holding entity).downloadRangeStream start end_)) ↔
      quic.toQuicTransport.AnswersRange start end_) :=
  ⟨http_range_sound_iff http, quic_range_sound_iff quic⟩

/-- A 206 for offsets 2 and 3, whatever was asked for. -/
def shifted {Chunk : Type} (chunk : Chunk) : HttpResponse Chunk where
  status := 206
  statusText := "206 Partial Content"
  retryAfterSecs := none
  contentRange := some (2, 3)
  body := [.ok chunk]

theorem shifted_counts : CountsThrough 2 3 [.ok [2, 3]] :=
  ⟨by decide, List.prefix_rfl, fun _ => rfl⟩

/-- An HTTP server that answers every range request with the same range. -/
def shiftedHttp : TruthfulHttp where
  checkUrl := .ok ()
  send := fun _ => .ok (shifted [2, 3])
  truthful := by
    rintro header response ⟨⟩ -
    exact ⟨2, 3, rfl, shifted_counts⟩

/-- An HTTP/3 server that answers every range request with the same range. -/
def shiftedQuic : TruthfulQuic where
  connected := true
  h3Ready := true
  checkUrl := .ok ()
  buildH3Request := fun _ => .ok ()
  exchange := fun _ => .ok (shifted [[2, 3]])
  truthful := by
    rintro header response ⟨⟩ -
    exact ⟨2, 3, rfl, shifted_counts⟩

/-- Asked for offsets 0 and 1 of the file `0, 1, 2, 3`, both clients let the bytes `2, 3`
be written there. -/
theorem shifted_range_written :
    ¬RangeSound Nat.toUInt8 0 1
      ((shiftedHttp.toHttpClient.holding Nat.toUInt8).downloadRangeStream 0 1) ∧
    ¬RangeSound Nat.toUInt8 0 1
      ((shiftedQuic.toQuicTransport.holding Nat.toUInt8).downloadRangeStream 0 1) := by
  have hitems : ¬RangeSound Nat.toUInt8 0 1 (.ok [.ok [2, 3]]) := by
    have hacceptable : Acceptable 0 1 ([.ok [2, 3]] : List Item) :=
      ⟨by decide, by decide, fun item hitem => ⟨_, List.mem_singleton.mp hitem⟩, by decide⟩
    intro hsound
    obtain ⟨w', haccepts⟩ := hacceptable.accepts 0 []
    have hwritten : StoredAt w'.file 0 [2, 3] := haccepts.stored.2
    have hclaimed : StoredAt w'.file 0 [0, 1] := hsound _ rfl 0 [] w' haccepts
    exact absurd (hwritten.unique hclaimed rfl) (by decide)
  exact ⟨hitems, hitems⟩

end Tachyon
