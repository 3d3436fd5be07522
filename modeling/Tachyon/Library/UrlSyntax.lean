import Mathlib.Algebra.GroupWithZero.Nat
import Mathlib.Data.List.DropRight
import Mathlib.Data.List.TakeDrop
import Tachyon.Library.PercentEncoding

/-!
# The syntax of URLs

The basic URL parser, without a base URL, on the inputs with `//` after the scheme.
What stands before the path is left to the parser of the authority, a parameter; the
states from the path on are followed character by character.
-/

namespace UrlSyntax

open Utf8 PercentEncoding

def isC0OrSpace (c : Char) : Bool := c.toNat ≤ 0x20

def isTabOrNewline (c : Char) : Bool := c == '\t' || c == '\n' || c == '\r'

def isAsciiAlpha (c : Char) : Bool := ('A' ≤ c && c ≤ 'Z') || ('a' ≤ c && c ≤ 'z')

def isSchemeChar (c : Char) : Bool :=
  isAsciiAlpha c || ('0' ≤ c && c ≤ '9') || c == '+' || c == '-' || c == '.'

/-- The special schemes. -/
def isSpecial (scheme : String) : Bool :=
  ["ftp", "file", "http", "https", "ws", "wss"].contains scheme

/-- What ends a segment of the path. -/
def isSlash (scheme : String) (c : Char) : Bool := c == '/' || (isSpecial scheme && c == '\\')

/-- What ends the authority. -/
def isTerminator (scheme : String) (c : Char) : Bool := isSlash scheme c || c == '?' || c == '#'

/-! ### The percent-encode sets -/

def controlSet (c : Char) : Bool := c.toNat < 0x20 || 0x7E < c.toNat

/-- The controls, space, `"`, `<`, `>` and the grave accent. -/
def fragmentSet (c : Char) : Bool := controlSet c || [0x20, 0x22, 0x3C, 0x3E, 0x60].contains c.toNat

/-- The controls, space, `"`, `#`, `<` and `>`, and the apostrophe where the scheme is special. -/
def querySet (scheme : String) (c : Char) : Bool :=
  controlSet c || [0x20, 0x22, 0x23, 0x3C, 0x3E].contains c.toNat ||
    (isSpecial scheme && c.toNat == 0x27)

/-- The controls, space, `"`, `#`, `<`, `>`, `?`, `^`, the grave accent and the braces. -/
def pathSet (c : Char) : Bool :=
  controlSet c || [0x20, 0x22, 0x23, 0x3C, 0x3E, 0x3F, 0x5E, 0x60, 0x7B, 0x7D].contains c.toNat

/-! ### The path -/

/-- A dot, or its escape in either case. -/
def dots : List (List Char) := [".", "%2e", "%2E"].map String.toList

def isSingleDot (segment : List Char) : Bool := dots.contains segment

def isDoubleDot (segment : List Char) : Bool :=
  dots.any fun a => dots.any fun b => segment == a ++ b

/-- A letter and a colon or a vertical bar. -/
def isDriveLetter : List Char → Bool
  | [letter, mark] => isAsciiAlpha letter && (mark == ':' || mark == '|')
  | _ => false

def isNormalizedDriveLetter : List Char → Bool
  | [letter, mark] => isAsciiAlpha letter && mark == ':'
  | _ => false

/-- A drive letter at the beginning of a `file` path gets its colon. -/
def fixDrive (scheme : String) (segment : List Char) : List Char :=
  if scheme == "file" && isDriveLetter segment then segment.set 1 ':' else segment

/-- The last segment is dropped, but a drive letter stays. -/
def shorten (scheme : String) (path : List (List Char)) : List (List Char) :=
  match path with
  | [segment] => if scheme == "file" && isNormalizedDriveLetter segment then path else []
  | _ => path.dropLast

/-- The path once its next segment is read. -/
def endSegment (scheme : String) (slash : Bool) (path : List (List Char)) (segment : List Char) :
    List (List Char) :=
  if isDoubleDot segment then
    if slash then shorten scheme path else shorten scheme path ++ [[]]
  else if isSingleDot segment then
    if slash then path else path ++ [[]]
  else path ++ [if path.isEmpty then fixDrive scheme segment else segment]

/-- What follows the authority. -/
structure Tail where
  path : List (List Char)
  query : Option (List Char)
  fragment : Option (List Char)

/-- The query state: the query, and the fragment if there is one. -/
def queryState (scheme : String) (text : List Char) : List Char × Option (List Char) :=
  let (query, rest) := text.span (· != '#')
  (percentEncode (querySet scheme) query,
    match rest with
    | [] => none
    | _ :: rest => some (percentEncode fragmentSet rest))

/-- The path state, with the segments and the part of the next one read so far. -/
def pathState (scheme : String) (path : List (List Char)) (buffer : List Char) : List Char → Tail
  | [] => ⟨endSegment scheme false path buffer, none, none⟩
  | c :: rest =>
    if isSlash scheme c then pathState scheme (endSegment scheme true path buffer) [] rest
    else if c = '?' then
      let (query, fragment) := queryState scheme rest
      ⟨endSegment scheme false path buffer, some query, fragment⟩
    else if c = '#' then
      ⟨endSegment scheme false path buffer, none, some (percentEncode fragmentSet rest)⟩
    else pathState scheme path (buffer ++ encodeChar pathSet c) rest

/-- The path start state. -/
def pathStartState (scheme : String) : List Char → Tail
  | [] => if isSpecial scheme then pathState scheme [] [] [] else ⟨[], none, none⟩
  | c :: rest =>
    if isSlash scheme c then pathState scheme [] [] rest
    else if isSpecial scheme then pathState scheme [] [] (c :: rest)
    else if c = '?' then
      let (query, fragment) := queryState scheme rest
      ⟨[], some query, fragment⟩
    else if c = '#' then ⟨[], none, some (percentEncode fragmentSet rest)⟩
    else pathState scheme [] [] (c :: rest)

/-! ### The whole URL -/

/-- A URL record. `authority` is what the parser of the authority made of its text. -/
structure Record (Authority : Type) where
  scheme : String
  authority : Authority
  path : List (List Char)
  query : Option (List Char)
  fragment : Option (List Char)

def Record.ofTail {Authority : Type} (scheme : String) (authority : Authority) (tail : Tail) :
    Record Authority := ⟨scheme, authority, tail.path, tail.query, tail.fragment⟩

section Parse

variable {Authority : Type} (parseAuthority : String → List Char → Option Authority)

/-- What follows the two slashes after the scheme. Special schemes allow more of them; in a
`file` URL a drive letter in the host's place is the first segment of the path. -/
def afterSlashes (scheme : String) (text : List Char) : Option (Record Authority) :=
  let text :=
    if isSpecial scheme && scheme != "file" then text.dropWhile fun c => c == '/' || c == '\\'
    else text
  let (host, rest) := text.span fun c => !isTerminator scheme c
  if scheme == "file" && isDriveLetter host then
    (parseAuthority scheme []).map fun authority =>
      .ofTail scheme authority (pathState scheme [] host rest)
  else
    (parseAuthority scheme host).map fun authority =>
      .ofTail scheme authority (pathStartState scheme rest)

/-- The input without controls and spaces at its ends and without tabs and newlines. -/
def clean (input : List Char) : List Char :=
  ((input.dropWhile isC0OrSpace).rdropWhile isC0OrSpace).filter fun c => !isTabOrNewline c

/-- The basic URL parser. `none` is failure, or an input without `//` after its scheme. -/
def parse (input : String) : Option (Record Authority) :=
  let (name, rest) := (clean input.toList).span isSchemeChar
  if name.head?.any isAsciiAlpha then
    match rest with
    | ':' :: '/' :: '/' :: rest =>
      afterSlashes parseAuthority (String.ofList (name.map Char.toLower)) rest
    | _ => none
  else none

end Parse

/-! ### The weight of a path -/

theorem pathSet_keepsEscapes : KeepsEscapes pathSet where
  percent := by decide
  digits := by
    intro c hc
    obtain ⟨n, hn⟩ := Option.isSome_iff_exists.mp hc
    have hlt := lt_of_hexValue hn
    exact @forall_ascii (fun c => (hexValue c).isSome = true → pathSet c = false)
      (by decide +kernel) c hlt hc

/-- The decoded bytes of the segments, and one for the separator before each. -/
def weight (path : List (List Char)) : ℕ := (path.map fun s => (decodedBytes s).length + 1).sum

/-- A segment the path state does not keep. -/
def IsDot (segment : List Char) : Prop := isSingleDot segment = true ∨ isDoubleDot segment = true

section Weight

variable {scheme : String} {path pieces : List (List Char)} {segment : List Char} {slash : Bool}

theorem weight_append (path path' : List (List Char)) :
    weight (path ++ path') = weight path + weight path' := by
  unfold weight
  rw [List.map_append, List.sum_append]

theorem weight_singleton (segment : List Char) :
    weight [segment] = (decodedBytes segment).length + 1 := by
  simp [weight]

theorem weight_cons (segment : List Char) (path : List (List Char)) :
    weight (segment :: path) = (decodedBytes segment).length + 1 + weight path := by
  simp [weight]

theorem decodedBytes_of_isSingleDot (h : isSingleDot segment = true) :
    decodedBytes segment = [0x2E] := by
  have hall : ∀ d ∈ dots, decodedBytes d = [0x2E] := by decide
  exact hall segment (List.contains_iff_mem.mp h)

theorem decodedBytes_of_isDoubleDot (h : isDoubleDot segment = true) :
    decodedBytes segment = [0x2E, 0x2E] := by
  have hall : ∀ a ∈ dots, ∀ b ∈ dots, decodedBytes (a ++ b) = [0x2E, 0x2E] := by decide
  obtain ⟨a, ha, h⟩ := List.any_eq_true.mp h
  obtain ⟨b, hb, h⟩ := List.any_eq_true.mp h
  rw [beq_iff_eq.mp h]
  exact hall a ha b hb

theorem weight_shorten_le : weight (shorten scheme path) ≤ weight path := by
  have hdrop : weight path.dropLast ≤ weight path := by
    rcases List.eq_nil_or_concat path with rfl | ⟨before, last, rfl⟩
    · exact Nat.le_refl _
    · rw [List.concat_eq_append, List.dropLast_concat, weight_append]
      exact Nat.le_add_right _ _
  unfold shorten
  split
  · split
    · exact Nat.le_refl _
    · exact Nat.zero_le _
  · exact hdrop

/-- The colon of a drive letter weighs what the bar does. -/
theorem length_decodedBytes_fixDrive (scheme : String) (segment : List Char) :
    (decodedBytes (fixDrive scheme segment)).length = (decodedBytes segment).length := by
  unfold fixDrive
  split
  · rename_i h
    rw [Bool.and_eq_true] at h
    match segment, h.2 with
    | [letter, mark], hdrive =>
      unfold isDriveLetter at hdrive
      rw [Bool.and_eq_true, Bool.or_eq_true, beq_iff_eq, beq_iff_eq] at hdrive
      obtain ⟨halpha, hmark⟩ := hdrive
      have hletter : letter ≠ '%' := by
        rintro rfl
        revert halpha
        decide
      rw [List.set_cons_succ, List.set_cons_zero, decodedBytes_cons hletter,
        decodedBytes_cons hletter]
      rcases hmark with rfl | rfl
      · rfl
      · rw [List.length_append, List.length_append]
        rfl
  · rfl

/-- A dot segment weighs more than what it leaves. -/
theorem weight_endSegment_of_isDot (h : IsDot segment) :
    weight (endSegment scheme slash path segment) < weight path + weight [segment] := by
  have hshorten := @weight_shorten_le scheme path
  unfold endSegment
  by_cases hdouble : isDoubleDot segment = true
  · rw [if_pos hdouble, weight_singleton, decodedBytes_of_isDoubleDot hdouble]
    cases slash with
    | true =>
      rw [if_pos rfl]
      exact Nat.lt_of_le_of_lt hshorten (Nat.lt_add_of_pos_right (by decide))
    | false =>
      rw [if_neg Bool.false_ne_true, weight_append]
      exact Nat.add_lt_add_of_le_of_lt hshorten (by decide)
  · have hsingle : isSingleDot segment = true := h.resolve_right hdouble
    rw [if_neg hdouble, if_pos hsingle, weight_singleton, decodedBytes_of_isSingleDot hsingle]
    cases slash with
    | true =>
      rw [if_pos rfl]
      exact Nat.lt_add_of_pos_right (by decide)
    | false =>
      rw [if_neg Bool.false_ne_true, weight_append]
      exact Nat.add_lt_add_left (by decide) _

theorem endSegment_of_not_isDot (h : ¬IsDot segment) :
    endSegment scheme slash path segment =
      path ++ [if path.isEmpty then fixDrive scheme segment else segment] := by
  obtain ⟨hsingle, hdouble⟩ := not_or.mp h
  unfold endSegment
  rw [if_neg hdouble, if_neg hsingle]

/-- The path once all its segments are read. -/
def addSegments (scheme : String) (path : List (List Char)) : List (List Char) → List (List Char)
  | [] => path
  | [segment] => endSegment scheme false path segment
  | segment :: rest => addSegments scheme (endSegment scheme true path segment) rest

/-- Segments that are no dots are all kept; the first of a path may get a colon. -/
theorem addSegments_of_forall (h : ∀ segment ∈ pieces, ¬IsDot segment) :
    addSegments scheme path pieces =
      path ++ if path.isEmpty then pieces.modifyHead (fixDrive scheme) else pieces := by
  induction pieces generalizing path with
  | nil =>
    rw [addSegments]
    simp
  | cons segment rest ih =>
    have hsegment := h segment List.mem_cons_self
    have hrest : ∀ s ∈ rest, ¬IsDot s := fun s hs => h s (List.mem_cons_of_mem _ hs)
    cases rest with
    | nil =>
      rw [addSegments, endSegment_of_not_isDot hsegment]
      split
      · rfl
      · rfl
    | cons next rest =>
      rw [addSegments, endSegment_of_not_isDot hsegment, ih hrest]
      · cases path with
        | nil => rfl
        | cons first path => simp
      · exact nofun

/-- Where a segment is a dot, the path weighs less than its segments did. -/
theorem weight_addSegments (path pieces : List (List Char)) :
    weight (addSegments scheme path pieces) ≤ weight path + weight pieces ∧
      ((∃ segment ∈ pieces, IsDot segment) →
        weight (addSegments scheme path pieces) < weight path + weight pieces) := by
  have hend (slash : Bool) (path : List (List Char)) (segment : List Char) :
      weight (endSegment scheme slash path segment) ≤ weight path + weight [segment] := by
    by_cases hdot : IsDot segment
    · exact Nat.le_of_lt (weight_endSegment_of_isDot hdot)
    · rw [endSegment_of_not_isDot hdot, weight_append, weight_singleton, weight_singleton]
      split
      · rw [length_decodedBytes_fixDrive]
      · exact Nat.le_refl _
  induction pieces generalizing path with
  | nil => exact ⟨Nat.le_refl _, nofun⟩
  | cons segment rest ih =>
    cases rest with
    | nil =>
      refine ⟨hend false path segment, ?_⟩
      rintro ⟨s, hs, hdot⟩
      obtain rfl := List.mem_singleton.mp hs
      exact weight_endSegment_of_isDot hdot
    | cons next rest =>
      obtain ⟨hle, hlt⟩ := ih (endSegment scheme true path segment)
      have hfirst := hend true path segment
      have hcons : weight (segment :: next :: rest) = weight [segment] + weight (next :: rest) := by
        rw [← weight_append]
        rfl
      rw [addSegments, hcons]
      · refine ⟨by omega, ?_⟩
        rintro ⟨s, hs, hdot⟩
        rcases List.mem_cons.mp hs with rfl | hs
        · have hdropped := @weight_endSegment_of_isDot scheme path s true hdot
          omega
        · have hdropped := hlt ⟨s, hs, hdot⟩
          omega
      · exact nofun

end Weight

/-! ### The path state over a whole path -/

/-- What is left of a path when its input is cleaned. -/
def cleanTail (text : List Char) : List Char :=
  (text.rdropWhile isC0OrSpace).filter fun c => !isTabOrNewline c

section Path

variable {scheme : String} {path : List (List Char)} {text buffer : List Char}

/-- The path state splits a text without query and fragment at its slashes. -/
theorem pathState_of_forall (h : ∀ c ∈ text, c ≠ '?' ∧ c ≠ '#') :
    pathState scheme path (percentEncode pathSet buffer) text =
      ⟨addSegments scheme path (((text.splitOnP (isSlash scheme)).modifyHead (buffer ++ ·)).map
        (percentEncode pathSet)), none, none⟩ := by
  induction text generalizing path buffer with
  | nil =>
    rw [pathState, List.splitOnP_nil]
    simp [addSegments]
  | cons c rest ih =>
    obtain ⟨hquery, hfragment⟩ := h c List.mem_cons_self
    have hrest : ∀ c ∈ rest, c ≠ '?' ∧ c ≠ '#' := fun c hc => h c (List.mem_cons_of_mem _ hc)
    rw [pathState, List.splitOnP_cons_eq_if_modifyHead]
    by_cases hslash : isSlash scheme c = true
    · rw [if_pos hslash, if_pos hslash]
      refine (@ih (endSegment scheme true path (percentEncode pathSet buffer)) [] hrest).trans ?_
      have hsame : (rest.splitOnP (isSlash scheme)).modifyHead ([] ++ ·) =
          rest.splitOnP (isSlash scheme) := congrFun List.modifyHead_id _
      rw [hsame, List.modifyHead_cons, List.append_nil, List.map_cons]
      cases hpieces : (rest.splitOnP (isSlash scheme)).map (percentEncode pathSet) with
      | nil => exact absurd (List.map_eq_nil_iff.mp hpieces) (List.splitOnP_ne_nil _ _)
      | cons piece pieces => rfl
    · rw [if_neg hslash, if_neg hslash, if_neg hquery, if_neg hfragment]
      have hbuffer : percentEncode pathSet buffer ++ encodeChar pathSet c =
          percentEncode pathSet (buffer ++ [c]) := by
        simp [percentEncode]
      rw [hbuffer, ih hrest, List.modifyHead_modifyHead]
      simp [Function.comp_def]

/-- A text that leaves no query and no fragment has neither mark. -/
theorem forall_of_pathState {scheme : String} {text : List Char} {path : List (List Char)}
    {buffer : List Char} (hquery : (pathState scheme path buffer text).query = none)
    (hfragment : (pathState scheme path buffer text).fragment = none) :
    ∀ c ∈ text, c ≠ '?' ∧ c ≠ '#' := by
  induction text generalizing path buffer with
  | nil => exact nofun
  | cons c rest ih =>
    rw [pathState] at hquery hfragment
    have hslash : ∀ d, isSlash scheme d = true → d ≠ '?' ∧ d ≠ '#' := by
      intro d hd
      unfold isSlash at hd
      rw [Bool.or_eq_true, Bool.and_eq_true, beq_iff_eq, beq_iff_eq] at hd
      rcases hd with rfl | ⟨-, rfl⟩
      · decide
      · decide
    split at hquery
    · rename_i hc
      rw [if_pos hc] at hfragment
      exact List.forall_mem_cons.mpr ⟨hslash c hc, ih hquery hfragment⟩
    · rename_i hc
      rw [if_neg hc] at hfragment
      split at hquery
      · cases hquery
      · rename_i hmark
        rw [if_neg hmark] at hfragment
        split at hfragment
        · cases hfragment
        · rename_i hhash
          rw [if_neg hhash] at hquery
          exact List.forall_mem_cons.mpr ⟨⟨hmark, hhash⟩, ih hquery hfragment⟩

/-- The bytes of the pieces, and one for each. -/
def size (pieces : List (List Char)) : ℕ := (pieces.map fun s => (encode s).length + 1).sum

theorem size_cons (piece : List Char) (pieces : List (List Char)) :
    size (piece :: pieces) = (encode piece).length + 1 + size pieces := by
  simp [size]

/-- Split at characters of one byte, a text keeps its bytes. -/
theorem size_splitOnP {p : Char → Bool} (hp : ∀ c, p c = true → c.utf8Size = 1)
    (text : List Char) : size (text.splitOnP p) = (encode text).length + 1 := by
  induction text with
  | nil => rfl
  | cons c rest ih =>
    have hbytes : (encode (c :: rest)).length = c.utf8Size + (encode rest).length := by
      rw [encode_cons, List.length_append, String.length_utf8EncodeChar]
    rw [List.splitOnP_cons_eq_if_modifyHead, hbytes]
    split
    · rename_i hc
      rw [size_cons, ih, hp c hc]
      rw [show (encode []).length = 0 from rfl]
      omega
    · cases hpieces : rest.splitOnP p with
      | nil => exact absurd hpieces (List.splitOnP_ne_nil _ _)
      | cons piece pieces =>
        rw [hpieces, size_cons] at ih
        rw [List.modifyHead_cons, size_cons, encode_cons, List.length_append,
          String.length_utf8EncodeChar]
        omega

/-- Encoded pieces weigh at most their bytes, and as much only where they decode to
themselves. -/
theorem weight_map_percentEncode (pieces : List (List Char)) :
    weight (pieces.map (percentEncode pathSet)) ≤ size pieces ∧
      (weight (pieces.map (percentEncode pathSet)) = size pieces →
        ∀ piece ∈ pieces, decodedBytes piece = encode piece) := by
  induction pieces with
  | nil => exact ⟨Nat.le_refl _, fun _ => nofun⟩
  | cons piece pieces ih =>
    obtain ⟨hle, heq⟩ := length_decodedBytes_le piece
    rw [List.map_cons, weight_cons, size_cons, decodedBytes_percentEncode pathSet_keepsEscapes]
    refine ⟨by omega, fun h => List.forall_mem_cons.mpr ⟨heq (by omega), ih.2 (by omega)⟩⟩

/-- A part of a text has no more bytes, and as many only where it is the text. -/
theorem length_encode_of_sublist {part text : List Char} (h : part.Sublist text) :
    (encode part).length ≤ (encode text).length ∧
      ((encode part).length = (encode text).length → part = text) := by
  induction h with
  | slnil => exact ⟨Nat.le_refl _, fun _ => rfl⟩
  | cons c h ih =>
    have hsize := c.utf8Size_pos
    rw [encode_cons, List.length_append, String.length_utf8EncodeChar]
    exact ⟨by omega, fun heq => absurd heq (by omega)⟩
  | cons_cons c h ih =>
    rw [encode_cons, encode_cons, List.length_append, List.length_append]
    exact ⟨by omega, fun heq => congrArg _ (ih.2 (by omega))⟩

end Path

section Split

variable {p q : Char → Bool} {text : List Char}

theorem splitOnP_congr (h : ∀ c ∈ text, p c = q c) : text.splitOnP p = text.splitOnP q := by
  induction text with
  | nil => rfl
  | cons c rest ih =>
    rw [List.splitOnP_cons_eq_if_modifyHead, List.splitOnP_cons_eq_if_modifyHead,
      h c List.mem_cons_self, ih fun c hc => h c (List.mem_cons_of_mem _ hc)]

/-- With more separators, the first piece is the beginning of what it was. -/
theorem head_splitOnP_prefix (hpq : ∀ c, q c = true → p c = true) (text : List Char) :
    ∃ piece pieces piece' pieces', text.splitOnP p = piece :: pieces ∧
      text.splitOnP q = piece' :: pieces' ∧ piece <+: piece' := by
  induction text with
  | nil => exact ⟨[], [], [], [], rfl, rfl, List.prefix_refl _⟩
  | cons c rest ih =>
    obtain ⟨piece, pieces, piece', pieces', hp, hq, hprefix⟩ := ih
    rw [List.splitOnP_cons_eq_if_modifyHead, List.splitOnP_cons_eq_if_modifyHead, hp, hq]
    by_cases hcp : p c = true
    · rw [if_pos hcp]
      by_cases hcq : q c = true
      · rw [if_pos hcq]
        exact ⟨_, _, _, _, rfl, rfl, List.prefix_refl _⟩
      · rw [if_neg hcq]
        exact ⟨_, _, _, _, rfl, rfl, List.nil_prefix⟩
    · rw [if_neg hcp, if_neg fun hcq => hcp (hpq c hcq)]
      exact ⟨_, _, _, _, rfl, rfl, List.cons_prefix_cons.mpr ⟨rfl, hprefix⟩⟩

/-- A piece stands in the text, the first one at its beginning. -/
theorem splitOnP_infix {piece : List Char} {pieces : List (List Char)}
    (h : text.splitOnP p = piece :: pieces) :
    piece <+: text ∧ ∀ s ∈ pieces, s <:+: text := by
  induction text generalizing piece pieces with
  | nil =>
    rw [List.splitOnP_nil] at h
    obtain ⟨rfl, rfl⟩ := List.cons_eq_cons.mp h
    exact ⟨List.prefix_refl _, nofun⟩
  | cons c rest ih =>
    rw [List.splitOnP_cons_eq_if_modifyHead] at h
    cases hrest : rest.splitOnP p with
    | nil => exact absurd hrest (List.splitOnP_ne_nil _ _)
    | cons first others =>
      obtain ⟨hfirst, hothers⟩ := ih hrest
      rw [hrest] at h
      split at h
      · obtain ⟨rfl, rfl⟩ := List.cons_eq_cons.mp h
        refine ⟨List.nil_prefix, List.forall_mem_cons.mpr ⟨?_, fun s hs => ?_⟩⟩
        · exact List.infix_cons hfirst.isInfix
        · exact List.infix_cons (hothers s hs)
      · obtain ⟨rfl, rfl⟩ := List.cons_eq_cons.mp h
        refine ⟨List.cons_prefix_cons.mpr ⟨rfl, hfirst⟩, fun s hs => ?_⟩
        exact List.infix_cons (hothers s hs)

theorem infix_of_mem_splitOnP {s : List Char} (h : s ∈ text.splitOnP p) : s <:+: text := by
  cases hsplit : text.splitOnP p with
  | nil => exact absurd hsplit (List.splitOnP_ne_nil _ _)
  | cons piece pieces =>
    obtain ⟨hfirst, hothers⟩ := splitOnP_infix hsplit
    rw [hsplit] at h
    rcases List.mem_cons.mp h with rfl | h
    · exact hfirst.isInfix
    · exact hothers s h

/-- More separators that split no further do not occur. -/
theorem forall_of_splitOnP_eq (hpq : ∀ c, q c = true → p c = true)
    (h : text.splitOnP p = text.splitOnP q) : ∀ c ∈ text, p c = true → q c = true := by
  induction text with
  | nil => exact nofun
  | cons c rest ih =>
    obtain ⟨piece, pieces, piece', pieces', hp, hq, -⟩ := head_splitOnP_prefix hpq rest
    rw [List.splitOnP_cons_eq_if_modifyHead, List.splitOnP_cons_eq_if_modifyHead] at h
    by_cases hcp : p c = true
    · by_cases hcq : q c = true
      · rw [if_pos hcp, if_pos hcq] at h
        exact List.forall_mem_cons.mpr ⟨fun _ => hcq, ih (List.cons_eq_cons.mp h).2⟩
      · rw [if_pos hcp, if_neg hcq, hq] at h
        exact absurd (List.cons_eq_cons.mp h).1 nofun
    · rw [if_neg hcp, if_neg fun hcq => hcp (hpq c hcq), hp, hq] at h
      obtain ⟨hhead, htail⟩ := List.cons_eq_cons.mp h
      refine List.forall_mem_cons.mpr ⟨fun hc => absurd hc hcp, ih ?_⟩
      rw [hp, hq, (List.cons_eq_cons.mp hhead).2, htail]

end Split

/-! ### Paths that are read as they are written -/

/-- A path the parser reads as the segments between its slashes. -/
structure PlainPath (scheme : String) (text : List Char) : Prop where
  marks : ∀ c ∈ text, c ≠ '?' ∧ c ≠ '#' ∧ isTabOrNewline c = false
  slashes : ∀ c ∈ text, isSlash scheme c = true → c = '/'
  ending : ∀ c ∈ text.getLast?, isC0OrSpace c = false
  segments : ∀ s ∈ text.splitOnP (· == '/'),
    s ≠ ['.'] ∧ s ≠ ['.', '.'] ∧ decodedBytes s = encode s
  drive : ∀ s ∈ (text.splitOnP (· == '/')).head?, fixDrive scheme s = s

/-- A URL's path decodes to the segments of a text, and there is no query and no fragment. -/
structure Reads (tail : Tail) (segments : List (List Char)) : Prop where
  query : tail.query = none
  fragment : tail.fragment = none
  path : tail.path.map decodedBytes = segments.map encode

section Plain

variable {scheme : String} {text segment : List Char}

theorem encode_injective {a b : List Char} (h : encode a = encode b) : a = b := by
  rw [← decodeLossy_encode a, h, decodeLossy_encode]

theorem isSlash_slash : isSlash scheme '/' = true := rfl

theorem utf8Size_of_isSlash (c : Char) (h : isSlash scheme c = true) : c.utf8Size = 1 := by
  unfold isSlash at h
  rw [Bool.or_eq_true, Bool.and_eq_true, beq_iff_eq, beq_iff_eq] at h
  rcases h with rfl | ⟨-, rfl⟩
  · rfl
  · rfl

/-- Segments that decode to themselves are dots only where they are written so. -/
theorem not_isDot_iff (h : decodedBytes segment = encode segment) :
    ¬IsDot (percentEncode pathSet segment) ↔ segment ≠ ['.'] ∧ segment ≠ ['.', '.'] := by
  have hdecode := decodedBytes_percentEncode pathSet_keepsEscapes segment
  rw [h] at hdecode
  constructor
  · intro hnot
    refine ⟨?_, ?_⟩
    · rintro rfl
      exact hnot (Or.inl (by decide))
    · rintro rfl
      exact hnot (Or.inr (by decide))
  · rintro ⟨hsingle, hdouble⟩ (hdot | hdot)
    · rw [decodedBytes_of_isSingleDot hdot] at hdecode
      exact hsingle (encode_injective hdecode.symm)
    · rw [decodedBytes_of_isDoubleDot hdot] at hdecode
      exact hdouble (encode_injective hdecode.symm)

theorem pathSet_of_isAsciiAlpha {c : Char} (h : isAsciiAlpha c = true) : pathSet c = false := by
  have hlt : c.toNat < 0x80 := by
    unfold isAsciiAlpha at h
    simp only [Bool.or_eq_true, Bool.and_eq_true, decide_eq_true_eq] at h
    rcases h with h | h
    · exact Nat.lt_of_le_of_lt h.2 (by decide)
    · exact Nat.lt_of_le_of_lt h.2 (by decide)
  exact @forall_ascii (fun c => isAsciiAlpha c = true → pathSet c = false) (by decide +kernel) c
    hlt h

/-- A drive letter, taken apart. -/
theorem exists_of_isDriveLetter (h : isDriveLetter segment = true) : ∃ letter mark,
    segment = [letter, mark] ∧ isAsciiAlpha letter = true ∧ (mark = ':' ∨ mark = '|') := by
  match segment, h with
  | [letter, mark], h =>
    unfold isDriveLetter at h
    rw [Bool.and_eq_true, Bool.or_eq_true, beq_iff_eq, beq_iff_eq] at h
    exact ⟨letter, mark, rfl, h.1, h.2⟩

/-- A drive letter is encoded as it is. -/
theorem percentEncode_of_isDriveLetter (h : isDriveLetter segment = true) :
    percentEncode pathSet segment = segment := by
  obtain ⟨letter, mark, rfl, halpha, hmark⟩ := exists_of_isDriveLetter h
  rw [percentEncode_cons_of_not (pathSet_of_isAsciiAlpha halpha)]
  rcases hmark with rfl | rfl
  · rfl
  · rfl

/-- What is encoded as a drive letter is one. -/
theorem isDriveLetter_of_percentEncode (h : isDriveLetter (percentEncode pathSet segment) = true) :
    isDriveLetter segment = true := by
  obtain ⟨letter, mark, heq, halpha, hmark⟩ := exists_of_isDriveLetter h
  have hletter : letter ≠ '%' := by
    rintro rfl
    cases halpha
  have hpercent : mark ≠ '%' := by
    rintro rfl
    revert hmark
    decide
  rw [heq] at h
  obtain ⟨rest, rfl, hrest⟩ := eq_cons_of_percentEncode heq hletter
  obtain ⟨rest', rfl, hnil⟩ := eq_cons_of_percentEncode hrest hpercent
  obtain rfl := percentEncode_eq_nil hnil
  exact h

/-- A first segment gets its colon in the encoded form where it gets it as written. -/
theorem fixDrive_percentEncode (scheme : String) (segment : List Char) :
    fixDrive scheme (percentEncode pathSet segment) =
      percentEncode pathSet (fixDrive scheme segment) := by
  by_cases hdrive : isDriveLetter segment = true
  · rw [percentEncode_of_isDriveLetter hdrive]
    obtain ⟨letter, mark, rfl, halpha, -⟩ := exists_of_isDriveLetter hdrive
    unfold fixDrive
    split
    · refine (percentEncode_of_isDriveLetter ?_).symm
      simp [isDriveLetter, halpha]
    · exact (percentEncode_of_isDriveLetter hdrive).symm
  · have hencoded : ¬isDriveLetter (percentEncode pathSet segment) = true :=
      fun h => hdrive (isDriveLetter_of_percentEncode h)
    unfold fixDrive
    rw [if_neg fun h => hencoded (Bool.and_eq_true_iff.mp h).2,
      if_neg fun h => hdrive (Bool.and_eq_true_iff.mp h).2]

/-- Segments that are no dots, with a first one that needs no colon, are read as written. -/
theorem reads_of_plain (h : PlainPath scheme text) :
    Reads (pathState scheme [] [] (cleanTail text)) (text.splitOnP (· == '/')) := by
  have hclean : cleanTail text = text := by
    unfold cleanTail
    have hending : ∀ hne : text ≠ [], ¬isC0OrSpace (text.getLast hne) = true := by
      intro hne
      simp [h.ending _ (List.getLast?_eq_some_getLast hne)]
    rw [List.rdropWhile_eq_self_iff.mpr hending, List.filter_eq_self]
    intro c hc
    simp [(h.marks c hc).2.2]
  have hmarks : ∀ c ∈ text, c ≠ '?' ∧ c ≠ '#' :=
    fun c hc => ⟨(h.marks c hc).1, (h.marks c hc).2.1⟩
  have hsplit : text.splitOnP (isSlash scheme) = text.splitOnP (· == '/') := by
    refine splitOnP_congr fun c hc => Bool.eq_iff_iff.mpr ⟨fun hslash => ?_, fun hslash => ?_⟩
    · exact beq_iff_eq.mpr (h.slashes c hc hslash)
    · rw [beq_iff_eq.mp hslash]
      exact isSlash_slash
  have hdots : ∀ s ∈ (text.splitOnP (· == '/')).map (percentEncode pathSet), ¬IsDot s := by
    intro s hs
    obtain ⟨segment, hsegment, rfl⟩ := List.mem_map.mp hs
    obtain ⟨hsingle, hdouble, hdecode⟩ := h.segments segment hsegment
    exact (not_isDot_iff hdecode).mpr ⟨hsingle, hdouble⟩
  have hstate := @pathState_of_forall scheme [] text [] hmarks
  rw [show percentEncode pathSet [] = [] from rfl, hsplit,
    show (text.splitOnP (· == '/')).modifyHead ([] ++ ·) = text.splitOnP (· == '/') from
      congrFun List.modifyHead_id _, addSegments_of_forall hdots] at hstate
  rw [hclean, hstate]
  refine ⟨rfl, rfl, ?_⟩
  have hdrive := h.drive
  have hsegments := h.segments
  cases hpieces : text.splitOnP (· == '/') with
  | nil => exact absurd hpieces (List.splitOnP_ne_nil _ _)
  | cons piece pieces =>
    rw [hpieces] at hdrive hsegments
    have hfix : fixDrive scheme (percentEncode pathSet piece) = percentEncode pathSet piece := by
      rw [fixDrive_percentEncode, hdrive piece rfl]
    have hdecoded : ∀ s ∈ piece :: pieces,
        decodedBytes (percentEncode pathSet s) = encode s := fun s hs =>
      (decodedBytes_percentEncode pathSet_keepsEscapes s).trans (hsegments s hs).2.2
    simp only [List.isEmpty_nil, if_true, List.nil_append, List.map_cons, List.modifyHead_cons,
      hfix, List.map_map]
    exact congrArg₂ _ (hdecoded piece List.mem_cons_self)
      (List.map_congr_left fun s hs => hdecoded s (List.mem_cons_of_mem _ hs))

/-- Segments that decode to the bytes of a text's segments weigh as much as the text. -/
theorem weight_of_decoded {path segments : List (List Char)}
    (h : path.map decodedBytes = segments.map encode) : weight path = size segments := by
  have hlengths := congrArg (List.map fun bytes => bytes.length + 1) h
  rw [List.map_map, List.map_map] at hlengths
  exact congrArg List.sum hlengths

theorem cleanTail_sublist (text : List Char) : (cleanTail text).Sublist text :=
  List.filter_sublist.trans (List.rdropWhile_prefix _ _).sublist

/-- A text that cleaning leaves as it is. -/
theorem of_cleanTail_eq (h : cleanTail text = text) :
    (∀ c ∈ text, isTabOrNewline c = false) ∧ ∀ c ∈ text.getLast?, isC0OrSpace c = false := by
  have hprefix := List.rdropWhile_prefix isC0OrSpace text
  have hfilter : (text.rdropWhile isC0OrSpace).filter (fun c => !isTabOrNewline c) = text := h
  have hdropped : text.rdropWhile isC0OrSpace = text := by
    refine hprefix.eq_of_length (Nat.le_antisymm hprefix.length_le ?_)
    calc text.length = (cleanTail text).length := by rw [h]
      _ ≤ (text.rdropWhile isC0OrSpace).length := List.length_filter_le _ _
  rw [hdropped, List.filter_eq_self] at hfilter
  refine ⟨fun c hc => by simpa using hfilter c hc, fun c hc => ?_⟩
  obtain ⟨hne, rfl⟩ := List.mem_getLast?_eq_getLast hc
  simpa using List.rdropWhile_eq_self_iff.mp hdropped hne

theorem length_fixDrive (scheme : String) (segment : List Char) :
    (fixDrive scheme segment).length = segment.length := by
  unfold fixDrive
  split
  · exact List.length_set
  · rfl

/-- A colon decodes to itself as what it replaces did. -/
theorem decodedBytes_fixDrive (h : decodedBytes segment = encode segment) :
    decodedBytes (fixDrive scheme segment) = encode (fixDrive scheme segment) := by
  unfold fixDrive
  split
  · rename_i hfile
    obtain ⟨letter, mark, rfl, halpha, -⟩ :=
      exists_of_isDriveLetter (Bool.and_eq_true_iff.mp hfile).2
    have hletter : letter ≠ '%' := by
      rintro rfl
      cases halpha
    rw [List.set_cons_succ, List.set_cons_zero, decodedBytes_cons hletter, encode_cons]
    rfl
  · exact h

/-- Of a path that is read as the segments of a text nothing is lost, since it weighs as much as
the text: cleaning takes nothing, and no piece is a dot or has an escape. -/
theorem kept_of_reads
    (h : Reads (pathState scheme [] [] (cleanTail text)) (text.splitOnP (· == '/'))) :
    cleanTail text = text ∧
      (∀ piece ∈ text.splitOnP (isSlash scheme), decodedBytes piece = encode piece) ∧
      (∀ s ∈ (text.splitOnP (isSlash scheme)).map (percentEncode pathSet), ¬IsDot s) ∧
      (addSegments scheme [] ((text.splitOnP (isSlash scheme)).map
        (percentEncode pathSet))).map decodedBytes = (text.splitOnP (· == '/')).map encode := by
  have hmarks := forall_of_pathState h.query h.fragment
  have hstate := @pathState_of_forall scheme [] (cleanTail text) [] hmarks
  rw [show percentEncode pathSet [] = [] from rfl,
    show ((cleanTail text).splitOnP (isSlash scheme)).modifyHead ([] ++ ·) =
      (cleanTail text).splitOnP (isSlash scheme) from congrFun List.modifyHead_id _] at hstate
  have hpath := h.path
  rw [hstate] at hpath
  dsimp only at hpath
  have hweight := weight_of_decoded hpath
  rw [size_splitOnP fun c hc => by rw [beq_iff_eq.mp hc]; rfl] at hweight
  obtain ⟨hadd, hdots⟩ := @weight_addSegments scheme []
    (((cleanTail text).splitOnP (isSlash scheme)).map (percentEncode pathSet))
  obtain ⟨hencode, hdecode⟩ := weight_map_percentEncode ((cleanTail text).splitOnP (isSlash scheme))
  rw [size_splitOnP utf8Size_of_isSlash] at hencode hdecode
  obtain ⟨hbytes, hsame⟩ := length_encode_of_sublist (cleanTail_sublist text)
  rw [show weight [] = 0 from rfl, Nat.zero_add] at hadd hdots
  have hclean := hsame (by omega)
  have hplain := hdecode (by omega)
  have hnodots : ∀ s ∈ ((cleanTail text).splitOnP (isSlash scheme)).map (percentEncode pathSet),
      ¬IsDot s := by
    intro s hs hdot
    have hlost := hdots ⟨s, hs, hdot⟩
    omega
  rw [hclean] at hpath hplain hnodots
  exact ⟨hclean, hplain, hnodots, hpath⟩

/-- A path that is read as the segments of a text is written so. -/
theorem plain_of_reads
    (h : Reads (pathState scheme [] [] (cleanTail text)) (text.splitOnP (· == '/'))) :
    PlainPath scheme text := by
  obtain ⟨hclean, hplain, hnodots, hpath⟩ := kept_of_reads h
  have hmarks := forall_of_pathState h.query h.fragment
  rw [hclean] at hmarks
  have hslash : ∀ c : Char, (c == '/') = true → isSlash scheme c = true := by
    intro c hc
    rw [beq_iff_eq.mp hc]
    exact isSlash_slash
  obtain ⟨piece, pieces, segment, segments, hpieces, hsegments, hprefix⟩ :=
    head_splitOnP_prefix hslash text
  rw [hpieces] at hplain
  rw [addSegments_of_forall hnodots, hpieces, hsegments] at hpath
  simp only [List.isEmpty_nil, if_true, List.nil_append, List.map_cons, List.modifyHead_cons,
    fixDrive_percentEncode, decodedBytes_percentEncode pathSet_keepsEscapes, List.map_map] at hpath
  obtain ⟨hhead, htail⟩ := List.cons_eq_cons.mp hpath
  -- the colon of a drive letter changes no length, so the first piece is the first segment
  rw [decodedBytes_fixDrive (hplain piece List.mem_cons_self)] at hhead
  have hfixed := encode_injective hhead
  have hfirst : piece = segment := by
    refine hprefix.eq_of_length ?_
    rw [← hfixed, length_fixDrive]
  subst hfirst
  have hrest : pieces = segments := by
    refine List.map_injective_iff.mpr (fun _ _ => encode_injective) ?_
    rw [← htail]
    refine List.map_congr_left fun s hs => ?_
    rw [Function.comp_apply, decodedBytes_percentEncode pathSet_keepsEscapes]
    exact (hplain s (List.mem_cons_of_mem _ hs)).symm
  subst hrest
  have hsplit : text.splitOnP (isSlash scheme) = text.splitOnP (· == '/') := by
    rw [hpieces, hsegments]
  obtain ⟨htabs, hending⟩ := of_cleanTail_eq hclean
  refine ⟨fun c hc => ⟨(hmarks c hc).1, (hmarks c hc).2, htabs c hc⟩, fun c hc hc' => ?_, hending,
    fun s hs => ?_, fun s hs => ?_⟩
  · exact beq_iff_eq.mp (forall_of_splitOnP_eq hslash hsplit c hc hc')
  · rw [hsegments] at hs
    have hdecoded := hplain s hs
    obtain ⟨hsingle, hdouble⟩ := (not_isDot_iff hdecoded).mp
      (hnodots _ (List.mem_map_of_mem (by rwa [hpieces])))
    exact ⟨hsingle, hdouble, hdecoded⟩
  · rw [hsegments] at hs
    obtain rfl := Option.some.inj hs
    exact hfixed

/-- The parser reads a path as the segments of a text exactly where the text is plain. -/
theorem reads_iff_plain : Reads (pathState scheme [] [] (cleanTail text))
    (text.splitOnP (· == '/')) ↔ PlainPath scheme text :=
  ⟨plain_of_reads, reads_of_plain⟩

end Plain

/-! ### A URL with a scheme, a host and a path -/

/-- A character that can stand in the host of a URL as it is written. -/
def isHostChar (c : Char) : Bool :=
  c != '/' && c != '\\' && c != '?' && c != '#' && !isTabOrNewline c

/-- The beginning `scheme://host` of a URL. -/
structure Origin where
  name : List Char
  host : List Char
  name_alpha : name.head?.any isAsciiAlpha = true
  name_chars : ∀ c ∈ name, isSchemeChar c = true
  host_ne_nil : host ≠ []
  host_chars : ∀ c ∈ host, isHostChar c = true
  host_drive : isDriveLetter host = false

/-- The scheme as the parser gives it. -/
def Origin.scheme (o : Origin) : String := String.ofList (o.name.map Char.toLower)

/-- The origin as it is written. -/
def Origin.text (o : Origin) : List Char := o.name ++ ':' :: '/' :: '/' :: o.host

section Whole

variable {p : Char → Bool} {before after : List Char} {c : Char}

theorem span_append (h : ∀ c ∈ before, p c = true) (hc : p c = false) :
    (before ++ c :: after).span p = (before, c :: after) := by
  rw [List.span_eq_takeWhile_dropWhile, List.takeWhile_append_of_pos h,
    List.dropWhile_append_of_pos h, List.takeWhile_cons_of_neg (by simp [hc]),
    List.dropWhile_cons_of_neg (by simp [hc]), List.append_nil]

theorem rdropWhile_append_cons (hc : p c = false) :
    (before ++ c :: after).rdropWhile p = before ++ c :: after.rdropWhile p := by
  induction after using List.reverseRecOn with
  | nil =>
    rw [List.rdropWhile_concat_neg _ _ _ (by simp [hc])]
    rfl
  | append_singleton after d ih =>
    have hconcat : before ++ c :: (after ++ [d]) = (before ++ c :: after) ++ [d] := by simp
    rw [hconcat, List.rdropWhile_concat, List.rdropWhile_concat, ih]
    split
    · rfl
    · simp

theorem Origin.not_tab (o : Origin) : ∀ c ∈ o.text, isTabOrNewline c = false := by
  have hscheme : ∀ c, isSchemeChar c = true → isTabOrNewline c = false := by
    intro c hc
    unfold isTabOrNewline
    simp only [Bool.or_eq_false_iff, beq_eq_false_iff_ne]
    refine ⟨⟨?_, ?_⟩, ?_⟩
    · rintro rfl
      revert hc
      decide
    · rintro rfl
      revert hc
      decide
    · rintro rfl
      revert hc
      decide
  intro c hc
  rcases List.mem_append.mp hc with hname | hrest
  · exact hscheme c (o.name_chars c hname)
  · simp only [List.mem_cons] at hrest
    rcases hrest with rfl | rfl | rfl | hhost
    · rfl
    · rfl
    · rfl
    · have hchar := o.host_chars c hhost
      unfold isHostChar at hchar
      simpa using (Bool.and_eq_true_iff.mp hchar).2

/-- Cleaning takes nothing from the origin. -/
theorem clean_origin (o : Origin) (text : List Char) :
    clean (o.text ++ '/' :: text) = o.text ++ '/' :: cleanTail text := by
  have hfirst : (o.text ++ '/' :: text).dropWhile isC0OrSpace = o.text ++ '/' :: text := by
    have halpha := o.name_alpha
    unfold Origin.text
    cases hname : o.name with
    | nil =>
      rw [hname] at halpha
      cases halpha
    | cons c rest =>
      rw [hname] at halpha
      have hletter : isAsciiAlpha c = true := halpha
      have hc0 : isC0OrSpace c = false := by
        unfold isAsciiAlpha at hletter
        simp only [Bool.or_eq_true, Bool.and_eq_true, decide_eq_true_eq] at hletter
        refine decide_eq_false (Nat.not_le.mpr ?_)
        rcases hletter with ⟨hle, -⟩ | ⟨hle, -⟩
        · exact Nat.lt_of_lt_of_le (by decide) hle
        · exact Nat.lt_of_lt_of_le (by decide) hle
      exact List.dropWhile_cons_of_neg (by simp [hc0])
  unfold clean cleanTail
  rw [hfirst, rdropWhile_append_cons (by decide), List.filter_append,
    List.filter_eq_self.mpr (fun c hc => by simp [o.not_tab c hc]),
    List.filter_cons_of_pos (by decide)]

/-- The parser takes the origin apart and reads the path that follows. -/
theorem parse_origin {Authority : Type} (parseAuthority : String → List Char → Option Authority)
    (o : Origin) (text : List Char) :
    parse parseAuthority (String.ofList (o.text ++ '/' :: text)) =
      (parseAuthority o.scheme o.host).map fun authority =>
        .ofTail o.scheme authority (pathState o.scheme [] [] (cleanTail text)) := by
  have hhost : ∀ c ∈ o.host, isTerminator o.scheme c = false ∧
      (c == '/' || c == '\\') = false := by
    intro c hc
    have hchar := o.host_chars c hc
    unfold isHostChar at hchar
    simp only [Bool.and_eq_true, bne_iff_ne] at hchar
    obtain ⟨⟨⟨⟨hslash, hback⟩, hquery⟩, hhash⟩, -⟩ := hchar
    simp [isTerminator, isSlash, hslash, hback, hquery, hhash]
  have hdrop : (o.host ++ '/' :: cleanTail text).dropWhile (fun c => c == '/' || c == '\\') =
      o.host ++ '/' :: cleanTail text := by
    cases hne : o.host with
    | nil => exact absurd hne o.host_ne_nil
    | cons c rest =>
      have hc := (hhost c (by rw [hne]; exact List.mem_cons_self)).2
      exact List.dropWhile_cons_of_neg (by simp only [hc, Bool.false_eq_true, not_false_eq_true])
  have hspan : (o.host ++ '/' :: cleanTail text).span (fun c => !isTerminator o.scheme c) =
      (o.host, '/' :: cleanTail text) :=
    span_append (fun c hc => by simp [(hhost c hc).1]) rfl
  have hafter : afterSlashes parseAuthority o.scheme (o.host ++ '/' :: cleanTail text) =
      (parseAuthority o.scheme o.host).map fun authority =>
        .ofTail o.scheme authority (pathState o.scheme [] [] (cleanTail text)) := by
    unfold afterSlashes
    rw [hdrop, ite_self]
    simp only [hspan, o.host_drive, Bool.and_false]
    rfl
  have hname : (o.text ++ '/' :: cleanTail text).span isSchemeChar =
      (o.name, ':' :: '/' :: '/' :: (o.host ++ '/' :: cleanTail text)) := by
    unfold Origin.text
    rw [List.append_assoc]
    exact span_append o.name_chars (by decide)
  unfold parse
  rw [String.toList_ofList, clean_origin, hname]
  simp only [o.name_alpha, if_true]
  exact hafter

end Whole

end UrlSyntax
