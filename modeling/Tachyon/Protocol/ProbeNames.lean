import Tachyon.Core.CleanNames
import Tachyon.Core.Types
import Tachyon.Protocol.RangeResponse

/-!
# The file name a probe returns

`HttpClient::probe` sanitizes whatever name it takes, `parse_h3_metadata` only the name it
takes from the URL. The two agree, and are safe, exactly when the Content-Disposition header
names no file or a clean name.
-/

namespace Tachyon

/-- The apostrophe between the parts of an extended value. -/
def apostrophe : Char := Char.ofNat 0x27

/-- `str::trim`. -/
def trim (text : List Char) : List Char :=
  (text.dropWhile isWhitespace).rdropWhile isWhitespace

/-- `str::trim_matches`. -/
def trimMatches (c : Char) (text : List Char) : List Char :=
  (text.dropWhile (· == c)).rdropWhile (· == c)

/-- `str::strip_prefix`. -/
def stripPrefix (start : String) (text : List Char) : Option (List Char) :=
  if start.toList.isPrefixOf text then some (text.drop start.length) else none

theorem stripPrefix_append (start : String) (text : List Char) :
    stripPrefix start (start.toList ++ text) = some text := by
  rw [stripPrefix, if_pos (List.isPrefixOf_iff_prefix.mpr (List.prefix_append _ _)),
    ← String.length_toList, List.drop_left]

theorem stripPrefix_eq_some {start : String} {text rest : List Char}
    (h : stripPrefix start text = some rest) :
    text = start.toList ++ rest := by
  unfold stripPrefix at h
  split at h
  · rename_i hpre
    obtain ⟨more, rfl⟩ := List.isPrefixOf_iff_prefix.mp hpre
    cases h
    rw [← String.length_toList, List.drop_left]
  · exact absurd h (Option.some_ne_none _).symm

/-- What stands after the first of a character. -/
def afterFirst (c : Char) (text : List Char) : Option (List Char) :=
  match text.dropWhile (· ≠ c) with
  | [] => none
  | _ :: rest => some rest

/-- The name in a parameter `filename*=`: the third of the parts between the apostrophes,
decoded. -/
def extendedName (encoded : List Char) : Option String := do
  let afterCharset ← afterFirst apostrophe encoded
  let encodedName ← afterFirst apostrophe afterCharset
  let decoded ← percentDecode (String.ofList encodedName)
  if decoded.isEmpty then none else some decoded

/-- The loop of `parse_content_disposition`. -/
def contentDispositionLoop (fallback : Option String) : List (List Char) → Option String
  | [] => fallback
  | param :: params =>
    let param := trim param
    match stripPrefix "filename*=" param with
    | some encoded =>
      match extendedName encoded with
      | some decoded => some decoded
      | none => contentDispositionLoop fallback params
    | none =>
      match stripPrefix "filename=" param with
      | some name =>
        let name := trimMatches '"' (trim name)
        if !name.isEmpty && fallback.isNone then
          contentDispositionLoop (some (String.ofList name)) params
        else contentDispositionLoop fallback params
      | none => contentDispositionLoop fallback params

/-- `parse_content_disposition`. -/
def parseContentDisposition (value : String) : Option String :=
  contentDispositionLoop none (value.toList.splitOn ';')

/-- `extract_filename`, from what the URL parser gave. -/
def extractFilename (url : Except String Url) (contentDisposition : Option String) : String :=
  let rawName := (contentDisposition.bind parseContentDisposition).getD
    (extractFilenameFromUrl url)
  sanitizeFilename rawName

/-- `HeaderMap`: names in lower case, and the bytes of the values. -/
abbrev HeaderMap := List (String × List UInt8)

/-- `HeaderMap::get`, then `HeaderValue::to_str`, which takes visible ASCII and tabs only. -/
def HeaderMap.text (headers : HeaderMap) (name : String) : Option String := do
  let value ← headers.lookup name
  if value.all fun b => (32 ≤ b && b < 127) || b == 9 then
    some (String.ofList (value.map fun b => Char.ofNat b.toNat))
  else none

/-- `str::parse::<u64>`. -/
def parseU64 (text : String) : Option UInt64 :=
  let digits := match text.toList with
    | '+' :: digits => digits
    | digits => digits
  let value := digits.foldl (fun n c => 10 * n + (c.toNat - '0'.toNat)) 0
  if digits.isEmpty || !digits.all Char.isDigit then none
  else if value < 2 ^ 64 then some (UInt64.ofNat value)
  else none

/-- `str::contains`. -/
def containsText (pattern text : String) : Bool :=
  text.toList.tails.any fun rest => pattern.toList.isPrefixOf rest

/-- The metadata both clients read from the headers, around the file name. -/
def HeaderMap.metadata (headers : HeaderMap) (fileName : String) : FileMetadata where
  fileName := fileName
  fileSize := (headers.text "content-length").bind parseU64
  contentType := headers.text "content-type"
  supportsRange := (headers.text "accept-ranges").any (containsText "bytes")
  etag := headers.text "etag"
  lastModified := headers.text "last-modified"

/-- The answer to a HEAD request: no body, and the headers. -/
structure HeadResponse extends HttpResponse Empty where
  headers : HeaderMap

/-- `StatusCode::is_success`. -/
def HeadResponse.isSuccess (response : HeadResponse) : Bool :=
  200 ≤ response.status && response.status < 300

/-- `<HttpClient as Protocol>::probe`, from what the URL parser gave and the answer to the
HEAD request or the chain of its errors. -/
def httpProbe (text : Ipv6Addr → String) (url : Except String Url)
    (send : Except String HeadResponse) : DownloadResult FileMetadata := do
  let parsedUrl ← url.mapError DownloadError.urlParse
  validatePublicHttpUrl text parsedUrl
  match send with
  | .error chain => throw (.network s!"HEAD 请求失败: {chain}")
  | .ok response =>
    let contentDisposition := response.headers.text "content-disposition"
    if !response.isSuccess then throw (classifyHttpError response.toHttpResponse)
    else pure (response.headers.metadata (extractFilename url contentDisposition))

/-- `parse_h3_metadata`. -/
def parseH3Metadata (response : HeadResponse) (url : Except String Url) :
    DownloadResult FileMetadata :=
  let status := response.status
  let contentDispositionName :=
    (response.headers.text "content-disposition").bind parseContentDisposition
  if !response.isSuccess then throw (.protocol s!"HTTP {status}")
  else
    pure (response.headers.metadata (contentDispositionName.getD (extractFilenameFromUrl url)))

/-- How the connection of a `QuicTransport` stands, and what comes of the HEAD request on
it. -/
structure H3Session where
  /-- The connection is there and not closed. -/
  connected : Bool
  /-- `connect` has set up the HTTP/3 client. -/
  h3Ready : Bool
  /-- `send_request` and `recv_response`, or the text of the error of either. -/
  exchange : Except String HeadResponse

/-- `<QuicTransport as Protocol>::probe`, with what `build_h3_request` makes of the URL. -/
def quicProbe (text : Ipv6Addr → String) (url : Except String Url)
    (request : DownloadResult Unit) (session : H3Session) : DownloadResult FileMetadata := do
  if !session.connected then throw (.protocol "QUIC 未连接,请先调用 connect()")
  if !session.h3Ready then throw (.protocol "HTTP/3 客户端未初始化")
  let parsed ← url.mapError fun e => .network s!"URL 解析失败: {e}"
  validatePublicHttpUrl text parsed
  request
  match session.exchange with
  | .error e => throw (.network s!"HTTP/3 协议错误: {e}")
  | .ok response => parseH3Metadata response url

/-- Whatever else the responses say and however the connections stand, probing this URL with
these response headers gives safe names, and one name on both protocols. -/
structure SafeProbes (text : Ipv6Addr → String) (url : Except String Url)
    (request : DownloadResult Unit) (headers : HeaderMap) : Prop where
  http : ∀ (response : HeadResponse) (metadata : FileMetadata), response.headers = headers →
    httpProbe text url (.ok response) = .ok metadata → SafeFileName metadata.fileName
  quic : ∀ (session : H3Session) (response : HeadResponse) (metadata : FileMetadata),
    session.exchange = .ok response → response.headers = headers →
    quicProbe text url request session = .ok metadata → SafeFileName metadata.fileName
  same : ∀ (response : HeadResponse) (metadata : FileMetadata) (session : H3Session)
    (response' : HeadResponse) (metadata' : FileMetadata), response.headers = headers →
    httpProbe text url (.ok response) = .ok metadata → session.exchange = .ok response' →
    response'.headers = headers → quicProbe text url request session = .ok metadata' →
    metadata.fileName = metadata'.fileName

/-- The name that the Content-Disposition header gives the file. -/
def HeaderMap.dispositionName (headers : HeaderMap) : Option String :=
  (headers.text "content-disposition").bind parseContentDisposition

/-- The URL parses and passes the check, and the HEAD request of HTTP/3 can be built. -/
def Probed (text : Ipv6Addr → String) (url : Except String Url) (request : DownloadResult Unit) :
    Prop :=
  (∃ parsed, url = .ok parsed ∧ validatePublicHttpUrl text parsed = .ok ()) ∧ request = .ok ()

/-- A response of status 200 with these headers. -/
def HeaderMap.answer (headers : HeaderMap) : HeadResponse where
  status := 200
  statusText := "200 OK"
  retryAfterSecs := none
  contentRange := none
  body := []
  headers := headers

/-- A session that brings this response. -/
def HeadResponse.session (response : HeadResponse) : H3Session where
  connected := true
  h3Ready := true
  exchange := .ok response

/-- Whatever the text, the URL and the header are, the names are sanitized. -/
theorem names_sanitized (name : String) (url : Except String Url)
    (contentDisposition : Option String) :
    Sanitized (sanitizeFilename name) ∧ Sanitized (extractFilenameFromUrl url) ∧
      Sanitized (extractFilename url contentDisposition) :=
  ⟨(sanitizeFilename_clean name).sanitized, (sanitizeFilename_clean _).sanitized,
    (sanitizeFilename_clean _).sanitized⟩

section

variable {text : Ipv6Addr → String} {url : Except String Url} {request : DownloadResult Unit}
  {metadata : FileMetadata}

/-- The runs of `HttpClient::probe` that succeed. -/
theorem httpProbe_eq_ok {response : HeadResponse} :
    httpProbe text url (.ok response) = .ok metadata ↔
      (∃ parsed, url = .ok parsed ∧ validatePublicHttpUrl text parsed = .ok ()) ∧
        response.isSuccess = true ∧
        response.headers.metadata
          (extractFilename url (response.headers.text "content-disposition")) = metadata := by
  unfold httpProbe
  cases url with
  | error e => simp [Except.mapError, bind, Except.bind]
  | ok parsed =>
  cases hvalid : validatePublicHttpUrl text parsed with
  | error e => simp [Except.mapError, bind, Except.bind, hvalid]
  | ok _ =>
    cases hsuccess : response.isSuccess with
    | false => simp [Except.mapError, bind, Except.bind, hvalid, hsuccess, throw, throwThe,
        MonadExceptOf.throw]
    | true => simp [Except.mapError, bind, Except.bind, hvalid, hsuccess, pure, Except.pure]

/-- The runs of `QuicTransport::probe` that succeed. -/
theorem quicProbe_eq_ok {session : H3Session} :
    quicProbe text url request session = .ok metadata ↔
      session.connected = true ∧ session.h3Ready = true ∧ Probed text url request ∧
        ∃ response, session.exchange = .ok response ∧ response.isSuccess = true ∧
          response.headers.metadata
            (response.headers.dispositionName.getD (extractFilenameFromUrl url)) = metadata := by
  unfold quicProbe Probed
  cases session.connected with
  | false => simp [throw, throwThe, MonadExceptOf.throw, bind, Except.bind]
  | true =>
  cases session.h3Ready with
  | false => simp [throw, throwThe, MonadExceptOf.throw, bind, Except.bind]
  | true =>
  cases url with
  | error e => simp [Except.mapError, bind, Except.bind]
  | ok parsed =>
  cases hvalid : validatePublicHttpUrl text parsed with
  | error e => simp [Except.mapError, bind, Except.bind, hvalid]
  | ok _ =>
  cases request with
  | error e => simp [Except.mapError, bind, Except.bind, hvalid]
  | ok _ =>
  cases session.exchange with
  | error e => simp [Except.mapError, bind, Except.bind, hvalid, throw, throwThe,
      MonadExceptOf.throw]
  | ok response =>
    cases hsuccess : response.isSuccess with
    | false => simp [Except.mapError, bind, Except.bind, hvalid, parseH3Metadata, hsuccess, throw,
        throwThe, MonadExceptOf.throw]
    | true => simp [Except.mapError, bind, Except.bind, hvalid, parseH3Metadata, hsuccess, pure,
        Except.pure, HeaderMap.dispositionName]

/-- HTTP sanitizes the name, wherever it is from. -/
theorem httpProbe_fileName {response : HeadResponse}
    (h : httpProbe text url (.ok response) = .ok metadata) :
    metadata.fileName = sanitizeFilename
      (response.headers.dispositionName.getD (extractFilenameFromUrl url)) := by
  obtain ⟨-, -, rfl⟩ := httpProbe_eq_ok.mp h
  rfl

/-- HTTP/3 takes the name of the header as it is. -/
theorem quicProbe_fileName {session : H3Session} {response : HeadResponse}
    (hresponse : session.exchange = .ok response)
    (h : quicProbe text url request session = .ok metadata) :
    metadata.fileName = response.headers.dispositionName.getD (extractFilenameFromUrl url) := by
  obtain ⟨-, -, -, response', hresponse', -, rfl⟩ := quicProbe_eq_ok.mp h
  rw [Except.ok.inj (hresponse.symm.trans hresponse')]
  rfl

/-- On a URL that passes the checks HTTP answers. -/
theorem exists_httpProbe (h : Probed text url request) (headers : HeaderMap) :
    ∃ metadata, httpProbe text url (.ok headers.answer) = .ok metadata :=
  ⟨_, httpProbe_eq_ok.mpr ⟨h.1, rfl, rfl⟩⟩

/-- On a URL that passes the checks HTTP/3 answers. -/
theorem exists_quicProbe (h : Probed text url request) (headers : HeaderMap) :
    ∃ metadata, quicProbe text url request headers.answer.session = .ok metadata :=
  ⟨_, quicProbe_eq_ok.mpr ⟨rfl, rfl, h, headers.answer, rfl, rfl, rfl⟩⟩

/-- With a name in the header that is not clean, the protocols give different names. -/
theorem not_safeProbes {headers : HeaderMap} {name : String} (h : Probed text url request)
    (hname : headers.dispositionName = some name) (hdirty : ¬CleanName name) :
    ¬SafeProbes text url request headers := by
  intro hsafe
  obtain ⟨metadata, hhttp⟩ := exists_httpProbe h headers
  obtain ⟨metadata', hquic⟩ := exists_quicProbe h headers
  have hsame := hsafe.same headers.answer metadata headers.answer.session headers.answer metadata'
    rfl hhttp rfl rfl hquic
  rw [httpProbe_fileName hhttp, quicProbe_fileName rfl hquic] at hsame
  change sanitizeFilename (headers.dispositionName.getD _) = headers.dispositionName.getD _ at hsame
  rw [hname, Option.getD_some] at hsame
  exact hdirty ((sanitizeFilename_eq_self_iff name).mp hsame)

end

/-- Probing gives safe names, and one name on both protocols, exactly when the URL is refused, or
the Content-Disposition header names no file, or it names a clean one. -/
theorem safeProbes_iff (text : Ipv6Addr → String) (url : Except String Url)
    (request : DownloadResult Unit) (headers : HeaderMap) :
    SafeProbes text url request headers ↔
      ¬Probed text url request ∨ ∀ name, headers.dispositionName = some name → CleanName name := by
  constructor
  · intro hsafe
    by_contra hnot
    rw [not_or, not_not] at hnot
    obtain ⟨hprobed, hdirty⟩ := hnot
    refine hdirty fun name hname => ?_
    by_contra hclean
    exact not_safeProbes hprobed hname hclean hsafe
  · intro h
    have hhttp : ∀ response metadata, httpProbe text url (.ok response) = .ok metadata →
        SafeFileName metadata.fileName := by
      intro response metadata hprobe
      rw [httpProbe_fileName hprobe]
      exact (sanitizeFilename_clean _).safe
    -- on HTTP/3 the name is clean, so that sanitizing it changes nothing
    have hclean : ∀ session response metadata, session.exchange = .ok response →
        response.headers = headers → quicProbe text url request session = .ok metadata →
        metadata.fileName = headers.dispositionName.getD (extractFilenameFromUrl url) ∧
          CleanName metadata.fileName := by
      intro session response metadata hresponse hheaders hprobe
      obtain ⟨-, -, hprobed, -⟩ := quicProbe_eq_ok.mp hprobe
      have hname := quicProbe_fileName hresponse hprobe
      rw [hheaders] at hname
      refine ⟨hname, ?_⟩
      rw [hname]
      cases hdisposition : headers.dispositionName with
      | none => exact sanitizeFilename_clean _
      | some name => exact (h.resolve_left (not_not.mpr hprobed)) name hdisposition
    refine ⟨fun response metadata _ hprobe => hhttp response metadata hprobe, ?_, ?_⟩
    · intro session response metadata hresponse hheaders hprobe
      exact (hclean session response metadata hresponse hheaders hprobe).2.safe
    · intro response metadata session response' metadata' hheaders hprobe hresponse hheaders'
        hprobe'
      obtain ⟨hname, hclean⟩ := hclean session response' metadata' hresponse hheaders' hprobe'
      rw [httpProbe_fileName hprobe, hheaders, ← hname, hclean.sanitizeFilename_eq]

/-- A file on a public server. -/
def exampleUrl : Url := ⟨"https", "", none, some (.domain "example.com"), none, "/model.bin"⟩

/-- Headers of a server that picks the directory. -/
def climbingHeaders : HeaderMap :=
  [("content-disposition", "attachment; filename=\"../../.bashrc\"".toUTF8.toList)]

/-- HTTP/3 takes a name with separators from the server. -/
theorem climbing_name :
    ¬SafeProbes (fun _ => "") (.ok exampleUrl) (.ok ()) climbingHeaders := by
  have hname : climbingHeaders.dispositionName = some "../../.bashrc" := by decide +kernel
  have hvalid : validatePublicHttpUrl (fun _ => "") exampleUrl = .ok () := by decide +kernel
  have hprobed : Probed (fun _ => "") (.ok exampleUrl) (.ok ()) :=
    ⟨⟨exampleUrl, rfl, hvalid⟩, rfl⟩
  obtain ⟨metadata, hprobe⟩ := exists_quicProbe hprobed climbingHeaders
  intro hsafe
  have hslash := (hsafe.quic climbingHeaders.answer.session climbingHeaders.answer metadata rfl rfl
    hprobe).no_slash
  rw [quicProbe_fileName rfl hprobe] at hslash
  change '/' ∉ (climbingHeaders.dispositionName.getD _).toList at hslash
  rw [hname] at hslash
  exact hslash (by decide)

end Tachyon
