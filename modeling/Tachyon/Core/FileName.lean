import Tachyon.Core.UrlSafety

/-!
# File names

`sanitize_filename` and the file name a URL ends in. The log form of a URL, which keeps
the same last segment, stands here too.
-/

namespace Tachyon

/-- `is_dangerous`. -/
def isDangerous (c : Char) : Bool :=
  ['/', '\\', ':', '*', '?', '"', '<', '>', '|'].contains c

/-- `char::is_whitespace`. -/
def isWhitespace (c : Char) : Bool :=
  let n := c.toNat
  (9 ≤ n && n ≤ 13) || n == 0x20 || n == 0x85 || n == 0xA0 || n == 0x1680 ||
    (0x2000 ≤ n && n ≤ 0x200A) || n == 0x2028 || n == 0x2029 || n == 0x202F ||
    n == 0x205F || n == 0x3000

/-- The first pass of `sanitize_filename`, after the character `last`: separators become
spaces, and two dots between spaces go. -/
def replaceSeparators (last : Option Char) : List Char → List Char
  | [] => []
  | c :: rest =>
    if c = '/' ∨ c = '\\' then ' ' :: replaceSeparators (some ' ') rest
    else
      match c, rest with
      | '.', '.' :: after =>
        if last.all (· == ' ') && after.head?.all fun d => d == ' ' || d == '/' || d == '\\' then
          replaceSeparators last after
        else '.' :: replaceSeparators (some '.') ('.' :: after)
      | c, rest => c :: replaceSeparators (some c) rest

/-- `str::split_whitespace`. -/
def splitWhitespace (text : List Char) : List (List Char) :=
  (text.splitOnP isWhitespace).filter fun token => !token.isEmpty

/-- `sanitize_filename`. -/
def sanitizeFilename (name : String) : String :=
  let buf := replaceSeparators none name.toList
  let trimmed := (buf.dropWhile isWhitespace).rdropWhile isWhitespace
  if trimmed.isEmpty then "unknown"
  else
    let filtered := trimmed.filter fun c => !isDangerous c
    let tokens := (splitWhitespace filtered).filter fun token => !token.all (· == '.')
    let result := List.intercalate [' '] tokens
    if result.isEmpty then "unknown" else String.ofList result

/-- `hex_digit`. -/
def hexDigit (byte : UInt8) : Option UInt8 :=
  if 0x30 ≤ byte && byte ≤ 0x39 then some (byte - 0x30)
  else if 0x61 ≤ byte && byte ≤ 0x66 then some (byte - 0x61 + 10)
  else if 0x41 ≤ byte && byte ≤ 0x46 then some (byte - 0x41 + 10)
  else none

/-- `parse_hex_pair`. -/
def parseHexPair (high low : UInt8) : Option UInt8 := do
  let h ← hexDigit high
  let l ← hexDigit low
  some (h * 16 + l)

/-- The loop of `percent_decode`. -/
def percentDecodeLoop : List UInt8 → List UInt8
  | [] => []
  | byte :: rest =>
    match byte, rest with
    | 0x25, high :: low :: after =>
      match parseHexPair high low with
      | some decoded => decoded :: percentDecodeLoop after
      | none => 0x25 :: percentDecodeLoop (high :: low :: after)
    | byte, rest => byte :: percentDecodeLoop rest

/-- `percent_decode`. -/
def percentDecode (input : String) : Option String :=
  String.fromUTF8? (percentDecodeLoop input.toUTF8.toList).toByteArray

/-- The last segment of a URL's path. -/
def Url.lastSegment (url : Url) : String :=
  String.ofList (url.path.toList.rtakeWhile (· ≠ '/'))

/-- `extract_filename_from_url`, from what the URL parser gave. -/
def extractFilenameFromUrl (url : Except String Url) : String :=
  let rawName := url.toOption.bind fun u =>
    if u.lastSegment.isEmpty then none else percentDecode u.lastSegment
  sanitizeFilename (rawName.getD "unknown")

/-- `redact_url_for_log`, from what the URL parser gave. -/
def redactUrlForLog (text : Ipv6Addr → String) : Except String Url → String
  | .error _ => "<invalid-url>"
  | .ok parsed =>
    match parsed.hostStr text with
    | none => "<invalid-url>"
    | some host =>
      let scheme := parsed.scheme
      let basename := if parsed.path.startsWith "/" then parsed.lastSegment else ""
      if basename.isEmpty then s!"{scheme}://{host}" else s!"{scheme}://{host}/{basename}"

/-- What the log form keeps of the path. -/
def Url.basename (url : Url) : String := if url.path.startsWith "/" then url.lastSegment else ""

/-- The log form of a URL with a host, as characters. -/
theorem toList_redactUrlForLog {text : Ipv6Addr → String} {url : Url} {host : String}
    (hhost : url.hostStr text = some host) :
    (redactUrlForLog text (.ok url)).toList = url.scheme.toList ++ ':' :: '/' :: '/' ::
      (host.toList ++ if url.basename.isEmpty then [] else '/' :: url.basename.toList) := by
  simp only [redactUrlForLog, hhost]
  change (if url.basename.isEmpty then s!"{url.scheme}://{host}"
    else s!"{url.scheme}://{host}/{url.basename}" : String).toList = _
  split <;> simp [toString]

/-- What stands before the first of a character, and after it. -/
theorem append_cons_inj_of_first {α : Type} {x : α} {pre pre' post post' : List α}
    (hpre : x ∉ pre) (hpre' : x ∉ pre') :
    pre ++ x :: post = pre' ++ x :: post' ↔ pre = pre' ∧ post = post' := by
  induction pre generalizing pre' with
  | nil =>
    cases pre' with
    | nil => simp
    | cons y pre' => simp [ne_of_mem_of_not_mem List.mem_cons_self hpre' |>.symm]
  | cons y pre ih =>
    cases pre' with
    | nil => simp [ne_of_mem_of_not_mem List.mem_cons_self hpre]
    | cons y' pre' =>
      have ih := ih (fun h => hpre (List.mem_cons_of_mem y h)) fun h =>
        hpre' (List.mem_cons_of_mem y' h)
      simp [ih, and_assoc]

/-- The log form keeps the scheme, the host and the last segment, and nothing else: not the port,
not the other segments. No scheme has a colon, and no host a slash. -/
theorem redactUrlForLog_eq_iff {text : Ipv6Addr → String} {url url' : Url} {host host' : String}
    (hhost : url.hostStr text = some host) (hhost' : url'.hostStr text = some host')
    (hcolon : ':' ∉ url.scheme.toList) (hcolon' : ':' ∉ url'.scheme.toList)
    (hslash : '/' ∉ host.toList) (hslash' : '/' ∉ host'.toList) :
    redactUrlForLog text (.ok url) = redactUrlForLog text (.ok url') ↔
      url.scheme = url'.scheme ∧ host = host' ∧ url.basename = url'.basename := by
  rw [← String.toList_inj, toList_redactUrlForLog hhost, toList_redactUrlForLog hhost',
    append_cons_inj_of_first hcolon hcolon', String.toList_inj, List.cons_inj_right,
    List.cons_inj_right]
  refine and_congr_right fun _ => ?_
  by_cases hbase : url.basename.isEmpty = true
  · by_cases hbase' : url'.basename.isEmpty = true
    · rw [if_pos hbase, if_pos hbase', List.append_nil, List.append_nil, String.toList_inj]
      rw [String.isEmpty_iff] at hbase hbase'
      simp [hbase, hbase']
    · rw [if_pos hbase, if_neg hbase', List.append_nil]
      refine iff_of_false (fun h => hslash (by simp [h])) fun h => hbase' (h.2 ▸ hbase)
  · by_cases hbase' : url'.basename.isEmpty = true
    · rw [if_neg hbase, if_pos hbase', List.append_nil]
      refine iff_of_false (fun h => hslash' (by simp [← h])) fun h => hbase (h.2 ▸ hbase')
    · rw [if_neg hbase, if_neg hbase', append_cons_inj_of_first hslash hslash', String.toList_inj,
        String.toList_inj]

end Tachyon
