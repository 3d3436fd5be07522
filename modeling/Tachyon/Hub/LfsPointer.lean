import Tachyon.Library.Utf8
import Tachyon.Protocol.Numbers

/-!
# Git LFS pointers

A large file of the hub may come as a pointer: a text with the version of its format, the
digest of the file and its size. Every pointer is read as what it says. The reader asks for
less than a pointer: a version that begins like the one it knows, fifty bytes, and anywhere
behind a line with a digest of any form and one with a size.
-/

namespace Tachyon

open Utf8

/-- `LfsPointer`. -/
structure LfsPointer where
  oid : List Char
  size : UInt64
  deriving DecidableEq

/-- The line a pointer begins with. -/
def lfsVersion : String := "version https://git-lfs.github.com/spec/v1"

/-- `is_lfs_pointer`. -/
def isLfsPointer (data : List UInt8) : Bool :=
  if data.length < 50 then false else (encode lfsVersion.toList).isPrefixOf data

/-- A line without the carriage return at its end. -/
def withoutCr (line : List Char) : List Char :=
  if line.getLast? = some '\r' then line.dropLast else line

/-- `str::lines`: nothing stands behind the last line feed, and without one the last line keeps a
carriage return. -/
def textLines (text : List Char) : List (List Char) :=
  let pieces := text.splitOn '\n'
  pieces.dropLast.map withoutCr ++ pieces.getLast?.toList.filter fun line => !line.isEmpty

/-- The step of the loop of `parse_lfs_pointer`, with the digest and the size found so far. -/
def takeLine (found : Option (List Char) × Option UInt64) (line : List Char) :
    Option (List Char) × Option UInt64 :=
  match stripPrefix "oid sha256:" line with
  | some hash => (some (trim hash), found.2)
  | none =>
    match (stripPrefix "size " line).bind fun s => parseU64 (String.ofList (trim s)) with
    | some n => (found.1, some n)
    | none => found

/-- `parse_lfs_pointer`. -/
def parseLfsPointer (data : List UInt8) : Option LfsPointer :=
  if !isLfsPointer data then none
  else
    match (textLines (decodeLossy data)).foldl takeLine (none, none) with
    | (some o, some s) => some ⟨o, s⟩
    | _ => none

/-! ### What is accepted -/

/-- The digest of a line. -/
def oidOf (line : List Char) : Option (List Char) := (stripPrefix "oid sha256:" line).map trim

/-- The size of a line. -/
def sizeOf (line : List Char) : Option UInt64 :=
  (stripPrefix "size " line).bind fun s => parseU64 (String.ofList (trim s))

/-- What is read from the last line from which something is read. -/
def LastRead {α : Type} (read : List Char → Option α) (lines : List (List Char)) (x : α) : Prop :=
  ∃ before line after, lines = before ++ line :: after ∧ read line = some x ∧
    ∀ other ∈ after, read other = none

/-! ### Pointers -/

/-- A line of a pointer: a key and a value. -/
structure KeyLine where
  key : List Char
  value : List Char
  key_valid : ∀ c ∈ key, c.isLower = true ∨ c.isDigit = true ∨ c = '.' ∨ c = '-'
  value_valid : ∀ c ∈ value, c ≠ '\n' ∧ c ≠ '\r'

/-- The text of the line. -/
def KeyLine.text (l : KeyLine) : List Char := l.key ++ ' ' :: l.value

/-- A digit of a digest. -/
def isHexDigit (c : Char) : Bool :=
  c.isDigit || ('a' ≤ c && c ≤ 'f') || ('A' ≤ c && c ≤ 'F')

/-- The bytes are a pointer of the first version of Git LFS: the line of the version, then lines
sorted by their keys, with one digest of 64 hexadecimal digits and one size. -/
structure IsGitLfsPointer (data : List UInt8) (p : LfsPointer) (lines : List KeyLine) : Prop where
  data_eq : data = encode ((lfsVersion.toList :: lines.map KeyLine.text).flatMap (· ++ ['\n']))
  sorted : lines.Pairwise fun a b => b.key.lex a.key (fun c d => c.toNat < d.toNat) = false
  oid_line : ∃ l : KeyLine, l.key = "oid".toList ∧ l.value = "sha256:".toList ++ p.oid ∧
    lines.filter (fun l => l.key == "oid".toList && "sha256:".toList.isPrefixOf l.value) = [l]
  oid_valid : p.oid.length = 64 ∧ ∀ c ∈ p.oid, isHexDigit c = true
  size_line : ∃ l : KeyLine, l.key = "size".toList ∧ l.value ≠ [] ∧
    (∀ c ∈ l.value, c.isDigit = true) ∧ Nat.ofDigitChars 10 l.value 0 = p.size.toNat ∧
      lines.filter (fun l => l.key == "size".toList) = [l]

section

variable {lines : List (List Char)} {line : List Char}

theorem lastRead_iff {α : Type} {read : List Char → Option α} {x : α} :
    LastRead read lines x ↔ lines.reverse.findSome? read = some x := by
  rw [List.findSome?_eq_some_iff]
  constructor
  · rintro ⟨before, line, after, rfl, hread, hafter⟩
    refine ⟨after.reverse, line, before.reverse, by simp, hread, fun other hmem => ?_⟩
    exact hafter other (List.mem_reverse.mp hmem)
  · rintro ⟨front, line, back, hlines, hread, hfront⟩
    refine ⟨back.reverse, line, front.reverse, ?_, hread, fun other hmem => ?_⟩
    · rw [← List.reverse_reverse lines, hlines]
      simp
    · exact hfront other (List.mem_reverse.mp hmem)

/-- A line of a digest is none of a size. -/
theorem sizeOf_of_oidOf {oid : List Char} (h : oidOf line = some oid) : sizeOf line = none := by
  unfold oidOf at h
  obtain ⟨hash, hhash, -⟩ := Option.map_eq_some_iff.mp h
  have hline := stripPrefix_eq_some hhash
  rw [hline]
  rfl

theorem takeLine_eq (found : Option (List Char) × Option UInt64) :
    takeLine found line = ((oidOf line).or found.1, (sizeOf line).or found.2) := by
  unfold takeLine
  cases hstrip : stripPrefix "oid sha256:" line with
  | some hash =>
    have hoid : oidOf line = some (trim hash) := by rw [oidOf, hstrip, Option.map_some]
    rw [hoid, sizeOf_of_oidOf hoid]
    rfl
  | none =>
    have hoid : oidOf line = none := by rw [oidOf, hstrip, Option.map_none]
    rw [hoid]
    cases hsize : sizeOf line with
    | none =>
      unfold sizeOf at hsize
      rw [hsize]
      rfl
    | some n =>
      unfold sizeOf at hsize
      rw [hsize]
      rfl

/-- The loop ends with the last digest and the last size. -/
theorem foldl_takeLine : lines.foldl takeLine (none, none) =
    (lines.reverse.findSome? oidOf, lines.reverse.findSome? sizeOf) := by
  induction lines using List.reverseRecOn with
  | nil => rfl
  | append_singleton lines line ih =>
    rw [List.foldl_append, ih, List.foldl_cons, List.foldl_nil, takeLine_eq, List.reverse_append,
      List.reverse_singleton, List.singleton_append, List.findSome?_cons, List.findSome?_cons]
    cases oidOf line <;> cases sizeOf line <;> rfl

end

/-- What is accepted: fifty bytes that begin like a pointer, with a line of a digest and one of a
size. The last of each counts. -/
theorem parseLfsPointer_eq_some {data : List UInt8} {p : LfsPointer} :
    parseLfsPointer data = some p ↔
      50 ≤ data.length ∧ encode lfsVersion.toList <+: data ∧
        LastRead oidOf (textLines (decodeLossy data)) p.oid ∧
        LastRead sizeOf (textLines (decodeLossy data)) p.size := by
  rw [lastRead_iff, lastRead_iff]
  unfold parseLfsPointer
  rw [foldl_takeLine]
  by_cases hpointer : isLfsPointer data = true
  · have hpointer' := hpointer
    rw [isLfsPointer, Bool.if_false_left, Bool.and_eq_true, Bool.not_eq_true',
      decide_eq_false_iff_not, Nat.not_lt, List.isPrefixOf_iff_prefix] at hpointer'
    obtain ⟨hlength, hversion⟩ := hpointer'
    rw [hpointer, Bool.not_true, if_neg Bool.false_ne_true]
    cases (textLines (decodeLossy data)).reverse.findSome? oidOf with
    | none => simp
    | some oid =>
      cases (textLines (decodeLossy data)).reverse.findSome? sizeOf with
      | none => simp
      | some size =>
        obtain ⟨oid', size'⟩ := p
        simp [hlength, hversion]
  · have hnot : ¬(50 ≤ data.length ∧ encode lfsVersion.toList <+: data) := by
      rintro ⟨hlength, hversion⟩
      refine hpointer ?_
      rw [isLfsPointer, if_neg (Nat.not_lt.mpr hlength)]
      exact List.isPrefixOf_iff_prefix.mpr hversion
    rw [Bool.not_eq_true] at hpointer
    rw [hpointer, Bool.not_false, if_pos rfl, ← and_assoc]
    exact iff_of_false (Option.some_ne_none _).symm fun h => hnot h.1

/-! ### Every pointer is read -/

section

variable {lines : List (List Char)}

theorem splitOn_flatMap_lineFeed (h : ∀ line ∈ lines, '\n' ∉ line) :
    (lines.flatMap (· ++ ['\n'])).splitOn '\n' = lines ++ [[]] := by
  induction lines with
  | nil => rfl
  | cons line lines ih =>
    obtain ⟨hline, hlines⟩ := List.forall_mem_cons.mp h
    have hfeed : ∀ c ∈ line, (c == '\n') = false := fun c hc =>
      beq_false_of_ne fun heq => hline (heq ▸ hc)
    have ih := ih hlines
    unfold List.splitOn at ih ⊢
    rw [List.flatMap_cons, List.append_assoc, List.singleton_append,
      List.splitOnP_append_cons_of_forall_mem hfeed '\n' rfl, ih, List.cons_append]

/-- Lines without line feeds and carriage returns are read as they are. -/
theorem textLines_flatMap (h : ∀ line ∈ lines, ∀ c ∈ line, c ≠ '\n' ∧ c ≠ '\r') :
    textLines (lines.flatMap (· ++ ['\n'])) = lines := by
  have hkeep : lines.map withoutCr = lines.map id := by
    refine List.map_congr_left fun line hmem => if_neg fun hlast => ?_
    exact (h line hmem _ (List.mem_of_getLast? hlast)).2 rfl
  unfold textLines
  rw [splitOn_flatMap_lineFeed fun line hmem hc => (h line hmem _ hc).1 rfl]
  dsimp only
  rw [List.dropLast_concat, List.getLast?_concat, hkeep, List.map_id]
  exact List.append_nil _

end

theorem KeyLine.space_not_mem (l : KeyLine) : ' ' ∉ l.key := fun hmem => by
  rcases l.key_valid _ hmem with h | h | h | h
  all_goals exact absurd h (by decide)

/-- No character of a line ends it. -/
theorem KeyLine.plain (l : KeyLine) : ∀ c ∈ l.text, c ≠ '\n' ∧ c ≠ '\r' := by
  intro c hc
  rcases List.mem_append.mp hc with hkey | hvalue
  · constructor
    all_goals
      rintro rfl
      rcases l.key_valid _ hkey with h | h | h | h
      all_goals exact absurd h (by decide)
  · rcases List.mem_cons.mp hvalue with rfl | hvalue
    · decide
    · exact l.value_valid c hvalue

/-- A text is cut at its first space in one way. -/
theorem append_space_inj {a b c d : List Char} (ha : ' ' ∉ a) (hc : ' ' ∉ c)
    (h : a ++ ' ' :: b = c ++ ' ' :: d) : a = c ∧ b = d := by
  induction a generalizing c with
  | nil =>
    cases c with
    | nil => exact ⟨rfl, (List.cons.inj h).2⟩
    | cons x c =>
      obtain rfl := (List.cons.inj h).1
      exact absurd List.mem_cons_self hc
  | cons x a ih =>
    cases c with
    | nil =>
      obtain rfl := (List.cons.inj h).1
      exact absurd List.mem_cons_self ha
    | cons y c =>
      obtain ⟨rfl, hrest⟩ := List.cons.inj h
      obtain ⟨rfl, rfl⟩ := ih (fun hmem => ha (List.mem_cons_of_mem _ hmem))
        (fun hmem => hc (List.mem_cons_of_mem _ hmem)) hrest
      exact ⟨rfl, rfl⟩

/-- A line is read from by its key. -/
theorem KeyLine.stripPrefix_text {l : KeyLine} {start : String} {key more rest : List Char}
    (hstart : start.toList = key ++ ' ' :: more) (hkey : ' ' ∉ key)
    (h : stripPrefix start l.text = some rest) : l.key = key ∧ l.value = more ++ rest := by
  have htext := stripPrefix_eq_some h
  rw [hstart, List.append_assoc, List.cons_append] at htext
  exact append_space_inj l.space_not_mem hkey htext

theorem KeyLine.oidOf_eq_none {l : KeyLine}
    (h : (l.key == "oid".toList && "sha256:".toList.isPrefixOf l.value) = false) :
    oidOf l.text = none := by
  unfold oidOf
  cases hstrip : stripPrefix "oid sha256:" l.text with
  | none => rfl
  | some rest =>
    have htext : l.key = "oid".toList ∧ l.value = "sha256:".toList ++ rest :=
      stripPrefix_text rfl (by decide) hstrip
    obtain ⟨hkey, hvalue⟩ := htext
    have hpre : "sha256:".toList.isPrefixOf l.value = true := by
      rw [hvalue]
      exact List.isPrefixOf_iff_prefix.mpr (List.prefix_append _ _)
    rw [hkey, hpre] at h
    exact absurd h (by decide)

theorem KeyLine.sizeOf_eq_none {l : KeyLine} (h : (l.key == "size".toList) = false) :
    sizeOf l.text = none := by
  unfold sizeOf
  cases hstrip : stripPrefix "size " l.text with
  | none => rfl
  | some rest =>
    have htext : l.key = "size".toList ∧ l.value = [] ++ rest :=
      stripPrefix_text rfl (by decide) hstrip
    rw [htext.1] at h
    exact absurd h (by decide)

/-- The one line of its kind is the last. -/
theorem lastRead_of_filter {α : Type} {read : List Char → Option α} {keep : KeyLine → Bool}
    {lines : List KeyLine} {l : KeyLine} {x : α} (hfilter : lines.filter keep = [l])
    (hread : read l.text = some x) (hnone : ∀ l : KeyLine, keep l = false → read l.text = none)
    (first : List Char) : LastRead read (first :: lines.map KeyLine.text) x := by
  obtain ⟨before, after, rfl, -, -, hafter⟩ := List.filter_eq_cons_iff.mp hfilter
  refine ⟨first :: before.map KeyLine.text, l.text, after.map KeyLine.text, by simp, hread, ?_⟩
  intro other hmem
  obtain ⟨l', hl', rfl⟩ := List.mem_map.mp hmem
  exact hnone l' (Bool.eq_false_iff.mpr (List.filter_eq_nil_iff.mp hafter l' hl'))

theorem isHexDigit_not_isWhitespace {c : Char} (h : isHexDigit c = true) :
    isWhitespace c = false := by
  have hbounds : 48 ≤ c.toNat ∧ c.toNat ≤ 102 := by
    unfold isHexDigit Char.isDigit at h
    simp only [Bool.or_eq_true, Bool.and_eq_true, decide_eq_true_eq, Char.le_def,
      UInt32.le_iff_toNat_le, ge_iff_le] at h
    have hval : c.toNat = c.val.toNat := rfl
    have hdigits : '0'.val.toNat = 48 ∧ '9'.val.toNat = 57 := by decide
    have hletters : 'a'.val.toNat = 97 ∧ 'f'.val.toNat = 102 ∧ 'A'.val.toNat = 65 ∧
        'F'.val.toNat = 70 := by decide
    omega
  unfold isWhitespace
  simp only [Bool.or_eq_false_iff, Bool.and_eq_false_iff, decide_eq_false_iff_not,
    beq_eq_false_iff_ne]
  omega

section

variable {data : List UInt8} {p : LfsPointer} {lines : List KeyLine}

theorem IsGitLfsPointer.oidOf_text (h : IsGitLfsPointer data p lines) {l : KeyLine}
    (hkey : l.key = "oid".toList) (hvalue : l.value = "sha256:".toList ++ p.oid) :
    oidOf l.text = some p.oid := by
  have htext : l.text = "oid sha256:".toList ++ p.oid := by
    rw [KeyLine.text, hkey, hvalue]
    rfl
  have htoken : Token p.oid := by
    refine ⟨fun hnil => ?_, fun c hc => isHexDigit_not_isWhitespace (h.oid_valid.2 c hc)⟩
    have hlength := h.oid_valid.1
    rw [hnil] at hlength
    cases hlength
  rw [oidOf, htext, stripPrefix_append, Option.map_some, trim_token htoken]

theorem sizeOf_text {l : KeyLine} (hkey : l.key = "size".toList) (hne : l.value ≠ [])
    (hdigits : ∀ c ∈ l.value, c.isDigit = true)
    (hvalue : Nat.ofDigitChars 10 l.value 0 = p.size.toNat) : sizeOf l.text = some p.size := by
  have htext : l.text = "size ".toList ++ l.value := by
    rw [KeyLine.text, hkey]
    rfl
  have htoken : Token l.value := ⟨hne, fun c hc => isDigit_not_isWhitespace (hdigits c hc)⟩
  have hlt : Nat.ofDigitChars 10 l.value 0 < 2 ^ 64 := hvalue ▸ p.size.toNat_lt
  rw [sizeOf, htext, stripPrefix_append, Option.bind_some, trim_token htoken, parseU64_eq,
    parseUnsigned_digits hne hdigits hlt, hvalue, Option.map_some, UInt64.ofNat_toNat]

/-- Every pointer is read as what it says. -/
theorem IsGitLfsPointer.parse (h : IsGitLfsPointer data p lines) :
    parseLfsPointer data = some p := by
  obtain ⟨o, hokey, hovalue, hofilter⟩ := h.oid_line
  obtain ⟨s, hskey, hsne, hsdigits, hsvalue, hsfilter⟩ := h.size_line
  have hplain : ∀ line ∈ lfsVersion.toList :: lines.map KeyLine.text, ∀ c ∈ line,
      c ≠ '\n' ∧ c ≠ '\r' := by
    refine List.forall_mem_cons.mpr ⟨List.forall_iff_forall_mem.mp (by decide), ?_⟩
    intro line hmem
    obtain ⟨l, -, rfl⟩ := List.mem_map.mp hmem
    exact l.plain
  have hlines : textLines (decodeLossy data) = lfsVersion.toList :: lines.map KeyLine.text := by
    rw [h.data_eq, decodeLossy_encode, textLines_flatMap hplain]
  have hlength : 50 ≤ data.length := by
    have hmem : o ∈ lines := by
      have hfound : o ∈ lines.filter _ := hofilter ▸ List.mem_singleton_self o
      exact (List.mem_filter.mp hfound).1
    have hline : o.text ++ ['\n'] ∈ (lines.map KeyLine.text).map (· ++ ['\n']) :=
      List.mem_map_of_mem (List.mem_map_of_mem hmem)
    have hle := (List.sublist_flatten_of_mem hline).length_le
    have htext : o.text.length = 4 + (7 + 64) := by
      rw [KeyLine.text, hokey, hovalue, List.length_append, List.length_cons, List.length_append,
        h.oid_valid.1]
      rfl
    have hfirst : lfsVersion.toList.length = 42 := by decide
    rw [h.data_eq]
    refine le_trans ?_ (length_le_encode _)
    rw [List.flatMap_cons, List.flatMap_def, List.length_append, List.length_append,
      List.length_singleton, hfirst]
    rw [List.length_append, htext, List.length_singleton] at hle
    omega
  have hversion : encode lfsVersion.toList <+: data := by
    rw [h.data_eq, encode, encode, List.flatMap_cons, List.append_assoc, List.flatMap_append]
    exact List.prefix_append _ _
  rw [parseLfsPointer_eq_some, hlines]
  exact ⟨hlength, hversion,
    lastRead_of_filter hofilter (h.oidOf_text hokey hovalue) (fun _ => KeyLine.oidOf_eq_none) _,
    lastRead_of_filter hsfilter (sizeOf_text hskey hsne hsdigits hsvalue)
      (fun _ => KeyLine.sizeOf_eq_none) _⟩

end

/-! ### Writing a pointer -/

/-- The bytes of a pointer without further lines. -/
def LfsPointer.format (p : LfsPointer) : List UInt8 :=
  encode (lfsVersion.toList ++ "\noid sha256:".toList ++ p.oid ++ "\nsize ".toList ++
    Nat.toDigits 10 p.size.toNat ++ ['\n'])

theorem isWhitespace_lineEnd {c : Char} (h : isWhitespace c = false) : c ≠ '\n' ∧ c ≠ '\r' := by
  constructor
  all_goals
    rintro rfl
    exact absurd h (by decide)

/-- What is written is a pointer. -/
theorem LfsPointer.isGitLfsPointer_format (p : LfsPointer) (hlength : p.oid.length = 64)
    (hhex : ∀ c ∈ p.oid, isHexDigit c = true) : ∃ lines, IsGitLfsPointer p.format p lines := by
  let oidLine : KeyLine :=
    { key := "oid".toList
      value := "sha256:".toList ++ p.oid
      key_valid := List.forall_iff_forall_mem.mp (by decide)
      value_valid := List.forall_mem_append.mpr
        ⟨List.forall_iff_forall_mem.mp (by decide),
          fun c hc => isWhitespace_lineEnd (isHexDigit_not_isWhitespace (hhex c hc))⟩ }
  have hdigits : ∀ c ∈ Nat.toDigits 10 p.size.toNat, c.isDigit = true := fun c hc =>
    Nat.isDigit_of_mem_toDigits (by decide) (by decide) hc
  let sizeLine : KeyLine :=
    { key := "size".toList
      value := Nat.toDigits 10 p.size.toNat
      key_valid := List.forall_iff_forall_mem.mp (by decide)
      value_valid := fun c hc => isWhitespace_lineEnd (isDigit_not_isWhitespace (hdigits c hc)) }
  refine ⟨[oidLine, sizeLine], ?_, ?_, ?_, ⟨hlength, hhex⟩, ?_⟩
  · have hoid : "\noid sha256:".toList = '\n' :: ("oid".toList ++ ' ' :: "sha256:".toList) := by
      decide
    have hsize : "\nsize ".toList = '\n' :: ("size".toList ++ [' ']) := by decide
    rw [LfsPointer.format, hoid, hsize]
    simp only [oidLine, sizeLine, KeyLine.text, List.map_cons, List.map_nil, List.flatMap_cons,
      List.flatMap_nil, List.append_assoc, List.cons_append, List.nil_append, List.append_nil]
  · exact List.pairwise_pair.mpr (by rfl)
  · have hkeep : "sha256:".toList.isPrefixOf ("sha256:".toList ++ p.oid) = true :=
      List.isPrefixOf_iff_prefix.mpr (List.prefix_append _ _)
    refine ⟨oidLine, rfl, rfl, ?_⟩
    simp only [List.filter_cons, oidLine, sizeLine, hkeep]
    rfl
  · exact ⟨sizeLine, rfl, Nat.toDigits_ne_nil, hdigits, Nat.ofDigitChars_ten_toDigits, by rfl⟩

/-- Every pointer is read as what it says, and so is what is written for a digest of 64 digits and a
size. What is read begins with the version, has fifty bytes, a line of a digest and a line of a
size, and the last of each is what it says. -/
theorem parseLfsPointer_reads (data : List UInt8) (p : LfsPointer) :
    ((∃ lines, IsGitLfsPointer data p lines) → parseLfsPointer data = some p) ∧
      (p.oid.length = 64 → (∀ c ∈ p.oid, isHexDigit c = true) →
        parseLfsPointer p.format = some p) ∧
      (parseLfsPointer data = some p ↔
        50 ≤ data.length ∧ encode lfsVersion.toList <+: data ∧
          LastRead oidOf (textLines (decodeLossy data)) p.oid ∧
          LastRead sizeOf (textLines (decodeLossy data)) p.size) := by
  refine ⟨fun ⟨_, h⟩ => h.parse, fun hlength hhex => ?_, parseLfsPointer_eq_some⟩
  obtain ⟨_, h⟩ := p.isGitLfsPointer_format hlength hhex
  exact h.parse

/-- A pointer to an empty file of a made-up digest. -/
theorem parseLfsPointer_reads_zeros :
    parseLfsPointer (LfsPointer.format ⟨List.replicate 64 '0', 0⟩) =
      some ⟨List.replicate 64 '0', 0⟩ :=
  (parseLfsPointer_reads [] ⟨List.replicate 64 '0', 0⟩).2.1 (by decide)
    (List.forall_mem_replicate.mpr (.inr (by decide)))

/-- A text that looks like a pointer, with a digest of twelve digits. -/
def shortPointer : LfsPointer := ⟨"abc123def456".toList, 4096⟩

/-- A digest of twelve digits is accepted. -/
theorem parseLfsPointer_shortPointer :
    parseLfsPointer shortPointer.format = some shortPointer ∧
      ¬∃ p lines, IsGitLfsPointer shortPointer.format p lines := by
  have hparse : parseLfsPointer shortPointer.format = some shortPointer := by
    have hpointer : isLfsPointer shortPointer.format = true := by decide +kernel
    rw [parseLfsPointer, hpointer, LfsPointer.format, decodeLossy_encode]
    decide +kernel
  refine ⟨hparse, fun ⟨p, lines, h⟩ => ?_⟩
  obtain rfl := Option.some.inj (hparse.symm.trans h.parse)
  exact absurd h.oid_valid.1 (by decide)

end Tachyon
