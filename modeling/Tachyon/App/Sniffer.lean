import Mathlib.Data.List.Infix
import Tachyon.Core.FileName
import Tachyon.Library.RecentDistinct

/-!
# Captured resources

`add_sniffer_resource` keeps the last thousand resources the browser was seen to load. What it
stores of a URL has its sensitive parameters redacted, and the URL of a new capture is compared with
what is stored.
-/

namespace Tachyon

open RecentDistinct

/-- `str::contains` -/
def hasText (text part : String) : Bool := decide (part.toList <:+: text.toList)

/-- What is called of the `url` crate. -/
structure UrlCrate where
  /-- `url::Url`, with its query -/
  Parsed : Type
  /-- `Url::parse` -/
  parse : String → Except String Parsed
  /-- the parts without the query -/
  parts : Parsed → Url
  /-- `Url::query_pairs` -/
  queryPairs : Parsed → List (String × String)
  /-- `set_query(None)` -/
  setQueryNone : Parsed → Parsed
  /-- `query_pairs_mut().append_pair(..)` -/
  appendPair : Parsed → String × String → Parsed
  /-- `Url::to_string` -/
  text : Parsed → String

/-- A pair appended is the last pair of the query, a URL without a query has none, and a URL with a
pair appended is parsed from its text again. -/
structure UrlCrate.Documented (crate : UrlCrate) : Prop where
  queryPairs_setQueryNone : ∀ url, crate.queryPairs (crate.setQueryNone url) = []
  queryPairs_appendPair : ∀ url pair,
    crate.queryPairs (crate.appendPair url pair) = crate.queryPairs url ++ [pair]
  setQueryNone_setQueryNone : ∀ url,
    crate.setQueryNone (crate.setQueryNone url) = crate.setQueryNone url
  setQueryNone_appendPair : ∀ url pair,
    crate.setQueryNone (crate.appendPair url pair) = crate.setQueryNone url
  parse_text : ∀ url pair,
    crate.parse (crate.text (crate.appendPair url pair)) = .ok (crate.appendPair url pair)

/-- `SENSITIVE_PARAM_NAMES` -/
def sensitiveParamNames : List String :=
  ["token", "key", "secret", "auth", "session", "password", "passwd", "credential",
    "access_token", "api_key", "apikey", "jwt", "bearer", "sig", "signature", "client_secret",
    "refresh_token"]

/-- A part of the parameter's name is sensitive, its case aside. -/
def isSensitive (key : String) : Bool :=
  sensitiveParamNames.any fun name => decide (name.toList <:+: key.toList.map Char.toLower)

def redactPair (pair : String × String) : String × String :=
  if isSensitive pair.1 then (pair.1, "[REDACTED]") else pair

/-- `redact_sensitive_params` -/
def redactSensitiveParams (crate : UrlCrate) (url : String) : String :=
  match crate.parse url with
  | .error _ => url
  | .ok parsed =>
    if (crate.queryPairs parsed).any fun pair => isSensitive pair.1 then
      let pairs := (crate.queryPairs parsed).map redactPair
      crate.text (pairs.foldl crate.appendPair (crate.setQueryNone parsed))
    else url

/-- `ResourceType` -/
inductive ResourceType where
  | video
  | audio
  | document
  | archive
  | executable
  | image
  | model
  | other
  deriving DecidableEq, Repr

/-- `resource_type_to_string` -/
def resourceTypeToString : ResourceType → String
  | .video => "video"
  | .audio => "audio"
  | .document => "document"
  | .archive => "archive"
  | .executable => "executable"
  | .image => "image"
  | .model => "model"
  | .other => "other"

/-- `char::to_lowercase`, as far as it gives ASCII letters: the Kelvin sign is the only other letter
that becomes one. -/
def lowerAscii (c : Char) : Char := if c = '\u212A' then 'k' else c.toLower

/-- `identify_resource` -/
def identifyResource (crate : UrlCrate) (url : String) : ResourceType :=
  let path := match crate.parse url with
    | .ok parsed => (crate.parts parsed).path.toList
    | .error _ => url.toList.takeWhile (· ≠ '?')
  let ext := String.ofList ((path.map lowerAscii).rtakeWhile (· ≠ '.'))
  if ["mp4", "webm", "m3u8", "flv", "avi", "mkv", "mov", "ts"].contains ext then .video
  else if ["mp3", "aac", "flac", "ogg", "wav", "wma", "m4a"].contains ext then .audio
  else if ["pdf", "doc", "docx", "ppt", "pptx", "xls", "xlsx"].contains ext then .document
  else if ["zip", "rar", "7z", "tar", "gz", "bz2", "xz"].contains ext then .archive
  else if ["exe", "msi", "dmg", "appimage", "deb", "rpm"].contains ext then .executable
  else if ["jpg", "jpeg", "png", "gif", "webp", "svg", "bmp"].contains ext then .image
  else if ["safetensors", "gguf", "bin", "pt", "pth", "onnx", "tflite", "h5", "pkl",
    "model"].contains ext then .model
  else .other

/-- `SnifferResource` -/
structure SnifferResource where
  id : String
  url : String
  fileName : String
  resourceType : String
  fileSize : Option UInt64
  contentType : Option String
  discoveredAt : ℕ
  sourcePage : Option String
  deriving DecidableEq

/-- A call of `add_sniffer_resource`: the URL, the filters at the time, the new identifier and the
time. -/
structure Capture where
  url : String
  filters : List String
  id : String
  now : ℕ

/-- No filter is set, or one matches. -/
def Capture.passes (c : Capture) : Bool :=
  c.filters.isEmpty || c.filters.any (hasText c.url)

/-- What is stored of a capture. -/
def Capture.resource (crate : UrlCrate) (c : Capture) : SnifferResource where
  id := c.id
  url := redactSensitiveParams crate c.url
  fileName := extractFilenameFromUrl ((crate.parse c.url).map crate.parts)
  resourceType := resourceTypeToString (identifyResource crate c.url)
  fileSize := none
  contentType := none
  discoveredAt := c.now
  sourcePage := none

/-- `MAX_SNIFFER_RESOURCES` -/
def maxSnifferResources : ℕ := 1000

/-- `add_sniffer_resource` -/
def addSnifferResource (crate : UrlCrate) (store : List SnifferResource) (c : Capture) :
    List SnifferResource :=
  if !c.passes then store
  else if store.any fun r => r.url == c.url then store
  else
    (if store.length ≥ maxSnifferResources then store.tail else store) ++ [c.resource crate]

/-! ### The captures behind the store -/

/-- What is stored of one of the captures is the new URL. -/
def Stored (crate : UrlCrate) (kept : List Capture) (c : Capture) : Prop :=
  ∃ other ∈ kept, redactSensitiveParams crate other.url = c.url

instance (crate : UrlCrate) (kept : List Capture) (c : Capture) :
    Decidable (Stored crate kept c) :=
  inferInstanceAs (Decidable (∃ other ∈ kept, redactSensitiveParams crate other.url = c.url))

/-- The captures whose resources are in the store after some calls. -/
def keptCaptures (crate : UrlCrate) (captures : List Capture) : List Capture :=
  (captures.filter Capture.passes).foldl (takeIn maxSnifferResources (Stored crate)) []

/-- The last thousand of the captures that were new when they came. -/
def latestCaptures (captures : List Capture) : List Capture :=
  recent maxSnifferResources Capture.url (captures.filter Capture.passes)

/-- The store holds one resource for each of the last thousand captures that were new when they
came. -/
structure HoldsLatest (crate : UrlCrate) (captures : List Capture) : Prop where
  stored : captures.foldl (addSnifferResource crate) [] =
    (keptCaptures crate captures).map (Capture.resource crate)
  distinct : ((keptCaptures crate captures).map Capture.url).Nodup
  bounded : (keptCaptures crate captures).length ≤ 1000
  latest : keptCaptures crate captures = latestCaptures captures

section

variable {crate : UrlCrate} {captures : List Capture}

theorem addSnifferResource_eq {kept : List Capture} {c : Capture} :
    addSnifferResource crate (kept.map (Capture.resource crate)) c =
      (if c.passes = true then takeIn maxSnifferResources (Stored crate) kept c
        else kept).map (Capture.resource crate) := by
  have hany : (kept.map (Capture.resource crate)).any (fun r => r.url == c.url) = true ↔
      Stored crate kept c := by
    simp [Stored, Capture.resource]
  unfold addSnifferResource takeIn
  by_cases hpass : c.passes = true
  · by_cases hstored : Stored crate kept c
    · simp only [hpass, hany.mpr hstored, if_pos hstored, Bool.not_true, Bool.false_eq_true,
        if_false, if_true]
    · have hnew := mt hany.mp hstored
      by_cases hfull : kept.length ≥ maxSnifferResources
      · simp [hpass, hnew, hstored, hfull]
      · simp [hpass, hnew, hstored, hfull]
  · simp [hpass]

/-- The store holds what is stored of the captures kept. -/
theorem foldl_addSnifferResource : captures.foldl (addSnifferResource crate) [] =
    (keptCaptures crate captures).map (Capture.resource crate) := by
  induction captures using List.reverseRecOn with
  | nil => rfl
  | append_singleton captures c ih =>
    rw [List.foldl_append, List.foldl_cons, List.foldl_nil, ih, addSnifferResource_eq]
    unfold keptCaptures
    rw [List.filter_append, List.foldl_append]
    by_cases hpass : c.passes = true
    · rw [if_pos hpass, List.filter_cons_of_pos hpass]
      rfl
    · rw [if_neg hpass, List.filter_cons_of_neg hpass]
      rfl

/-! ### Redaction -/

theorem isSensitive_redactPair (pair : String × String) :
    isSensitive (redactPair pair).1 = isSensitive pair.1 := by
  unfold redactPair
  split <;> rfl

theorem redactPair_redactPair (pair : String × String) :
    redactPair (redactPair pair) = redactPair pair := by
  by_cases hsensitive : isSensitive pair.1 = true
  · simp [redactPair, hsensitive]
  · simp [redactPair, hsensitive]

theorem UrlCrate.Documented.queryPairs_foldl (hdoc : crate.Documented) {url : crate.Parsed}
    (pairs : List (String × String)) : crate.queryPairs (pairs.foldl crate.appendPair url) =
      crate.queryPairs url ++ pairs := by
  induction pairs generalizing url with
  | nil => exact (List.append_nil _).symm
  | cons pair pairs ih =>
    rw [List.foldl_cons, ih, hdoc.queryPairs_appendPair, List.append_assoc, List.singleton_append]

theorem UrlCrate.Documented.setQueryNone_foldl (hdoc : crate.Documented) {url : crate.Parsed}
    (pairs : List (String × String)) :
    crate.setQueryNone (pairs.foldl crate.appendPair url) = crate.setQueryNone url := by
  induction pairs generalizing url with
  | nil => rfl
  | cons pair pairs ih => rw [List.foldl_cons, ih, hdoc.setQueryNone_appendPair]

/-- A URL to which pairs are appended is parsed from its text. -/
theorem UrlCrate.Documented.parse_foldl (hdoc : crate.Documented) {url : crate.Parsed}
    {pairs : List (String × String)} (hne : pairs ≠ []) :
    crate.parse (crate.text (pairs.foldl crate.appendPair url)) =
      .ok (pairs.foldl crate.appendPair url) := by
  rcases List.eq_nil_or_concat' pairs with rfl | ⟨front, last, rfl⟩
  · exact absurd rfl hne
  · rw [List.foldl_append, List.foldl_cons, List.foldl_nil]
    exact hdoc.parse_text _ _

/-- Redaction leaves as it is what it has redacted. -/
theorem redactSensitiveParams_redactSensitiveParams (hdoc : crate.Documented) (url : String) :
    redactSensitiveParams crate (redactSensitiveParams crate url) =
      redactSensitiveParams crate url := by
  cases hparse : crate.parse url with
  | error e => simp only [redactSensitiveParams, hparse]
  | ok parsed =>
    by_cases hsensitive : (crate.queryPairs parsed).any (fun pair => isSensitive pair.1) = true
    · have hredacted : redactSensitiveParams crate url =
          crate.text (((crate.queryPairs parsed).map redactPair).foldl crate.appendPair
            (crate.setQueryNone parsed)) := by
        simp only [redactSensitiveParams, hparse, hsensitive, if_true]
      have hne : (crate.queryPairs parsed).map redactPair ≠ [] := by
        intro hnil
        rw [List.map_eq_nil_iff.mp hnil] at hsensitive
        cases hsensitive
      have hany : ((crate.queryPairs parsed).map redactPair).any
          (fun pair => isSensitive pair.1) = true := by
        rw [List.any_map]
        simpa only [Function.comp_def, isSensitive_redactPair] using hsensitive
      have hpairs : ((crate.queryPairs parsed).map redactPair).map redactPair =
          (crate.queryPairs parsed).map redactPair := by
        rw [List.map_map]
        exact List.map_congr_left fun pair _ => redactPair_redactPair pair
      rw [hredacted, redactSensitiveParams, hdoc.parse_foldl hne]
      simp only [hdoc.queryPairs_foldl, hdoc.queryPairs_setQueryNone, List.nil_append, hany,
        if_true, hpairs, hdoc.setQueryNone_foldl, hdoc.setQueryNone_setQueryNone]
    · simp only [redactSensitiveParams, hparse, hsensitive, Bool.false_eq_true, if_false]

/-! ### When the store holds the latest captures -/

/-- A capture from a URL that is held has a URL that redaction leaves as it is, and any other has
one that is not a held URL redacted. -/
def ToldApart (crate : UrlCrate) (held : List Capture) (url : String) : Prop :=
  (url ∈ held.map Capture.url → redactSensitiveParams crate url = url) ∧
    (url ∉ held.map Capture.url →
      ∀ other ∈ held.map Capture.url, redactSensitiveParams crate other ≠ url)

/-- The comparison with the store tells whether a URL is held where the URL is told apart. -/
theorem stored_iff_held_iff (hdoc : crate.Documented) {held : List Capture} {c : Capture} :
    (Stored crate held c ↔ Held Capture.url held c) ↔ ToldApart crate held c.url := by
  unfold Held ToldApart
  by_cases hheld : c.url ∈ held.map Capture.url
  · obtain ⟨other, hother, hurl⟩ := List.mem_map.mp hheld
    constructor
    · intro hiff
      refine ⟨fun _ => ?_, fun hnot => absurd hheld hnot⟩
      obtain ⟨stored, -, hstored⟩ := hiff.mpr hheld
      rw [← hstored]
      exact redactSensitiveParams_redactSensitiveParams hdoc stored.url
    · rintro ⟨hsame, -⟩
      exact iff_of_true ⟨other, hother, by rw [hurl, hsame hheld]⟩ hheld
  · constructor
    · intro hiff
      refine ⟨fun h => absurd h hheld, fun _ url hmem hredacted => ?_⟩
      obtain ⟨other, hother, rfl⟩ := List.mem_map.mp hmem
      exact hheld (hiff.mp ⟨other, hother, hredacted⟩)
    · rintro ⟨-, hapart⟩
      refine iff_of_false ?_ hheld
      rintro ⟨other, hother, hredacted⟩
      exact hapart hheld other.url (List.mem_map_of_mem hother) hredacted

/-- The store holds the latest captures throughout where every URL that comes is told apart from
the URLs held, and only there. -/
theorem holdsLatest_iff (hdoc : crate.Documented) (captures : List Capture) :
    (∀ n, HoldsLatest crate (captures.take n)) ↔
      ∀ n c, captures[n]? = some c → c.passes = true →
        ToldApart crate (latestCaptures (captures.take n)) c.url := by
  have hcapacity : 2 ≤ maxSnifferResources := by decide
  have hlatest : ∀ n, HoldsLatest crate (captures.take n) ↔
      keptCaptures crate (captures.take n) = latestCaptures (captures.take n) := by
    intro n
    refine ⟨fun h => h.latest, fun h => ⟨foldl_addSnifferResource, ?_, ?_, h⟩⟩
    · rw [h]
      exact recent_nodup (by decide)
    · rw [h]
      exact recent_length_le
  simp only [hlatest, ← stored_iff_held_iff hdoc]
  exact foldl_takeIn_eq_recent_iff hcapacity Capture.passes

end

/-- A crate asked about nothing that is a URL. -/
def noUrlCrate : UrlCrate where
  Parsed := Empty
  parse := fun _ => .error "relative URL without a base"
  parts := Empty.elim
  queryPairs := Empty.elim
  setQueryNone := id
  appendPair := fun url _ => url
  text := Empty.elim

theorem noUrlCrate_documented : noUrlCrate.Documented where
  queryPairs_setQueryNone := fun url => url.elim
  queryPairs_appendPair := fun url => url.elim
  setQueryNone_setQueryNone := fun url => url.elim
  setQueryNone_appendPair := fun url => url.elim
  parse_text := fun url => url.elim

/-- A URL captured twice, without filters. -/
def captureTwice (url : String) : List Capture := [⟨url, [], "1", 0⟩, ⟨url, [], "2", 1⟩]

theorem holdsLatest_iff_noUrl :
    (∀ n, HoldsLatest noUrlCrate ((captureTwice "f.zip").take n)) ↔
      ∀ n c, (captureTwice "f.zip")[n]? = some c → c.passes = true →
        ToldApart noUrlCrate (latestCaptures ((captureTwice "f.zip").take n)) c.url :=
  holdsLatest_iff noUrlCrate_documented (captureTwice "f.zip")

/-- The crate on a URL with a token. -/
def tokenCrate : UrlCrate where
  Parsed := List (String × String)
  parse := fun text =>
    if text = "http://example.com/f.zip?token=abc" then .ok [("token", "abc")]
    else .error "relative URL without a base"
  parts := fun _ => ⟨"http", "", none, some (.domain "example.com"), none, "/f.zip"⟩
  queryPairs := id
  setQueryNone := fun _ => []
  appendPair := fun pairs pair => pairs ++ [pair]
  text := fun _ => "http://example.com/f.zip?token=%5BREDACTED%5D"

/-- A URL with a token that is captured twice is stored twice. -/
theorem stored_twice :
    ¬HoldsLatest tokenCrate (captureTwice "http://example.com/f.zip?token=abc") := by
  intro h
  have htwice : (keptCaptures tokenCrate
      (captureTwice "http://example.com/f.zip?token=abc")).map Capture.url =
      ["http://example.com/f.zip?token=abc", "http://example.com/f.zip?token=abc"] := by
    decide +kernel
  have hdistinct := h.distinct
  rw [htwice] at hdistinct
  revert hdistinct
  decide

end Tachyon
