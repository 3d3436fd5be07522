import Mathlib.Data.List.TakeWhile
import Tachyon.Library.PercentEncoding

/-!
# Form-encoded queries

A query holds pairs of texts, joined by ampersands, each written as its name, an equals sign and
its value. Names and values are escaped so that neither separator is left in them. Reading skips
empty pieces; what was written is read back.
-/

namespace FormQuery

open PercentEncoding Utf8

/-- The characters that are escaped. A space has a sign of its own. -/
def formSet (c : Char) : Bool :=
  !(c.isAlphanum || c == '*' || c == '-' || c == '.' || c == '_' || c == ' ')

def toPlus (c : Char) : Char := if c = ' ' then '+' else c

def ofPlus (c : Char) : Char := if c = '+' then ' ' else c

/-- A name or a value as it is written. -/
def writeText (text : List Char) : List Char := (percentEncode formSet text).map toPlus

/-- A written text is read: plus signs first, then the escapes. -/
def readText (text : List Char) : List Char := decodeLossy (decodedBytes (text.map ofPlus))

def writePair (pair : List Char × List Char) : List Char :=
  writeText pair.1 ++ '=' :: writeText pair.2

/-- A piece is read up to its first equals sign, and after it. -/
def readPair (piece : List Char) : List Char × List Char :=
  (readText (piece.takeWhile (· != '=')), readText ((piece.dropWhile (· != '=')).drop 1))

/-- The pairs as a query. -/
def write (pairs : List (List Char × List Char)) : List Char :=
  ['&'].intercalate (pairs.map writePair)

/-- The pairs of a query. -/
def read (query : List Char) : List (List Char × List Char) :=
  ((query.splitOn '&').filter fun piece => !piece.isEmpty).map readPair

section Texts

variable {set : Char → Bool} {text : List Char} {c : Char}

/-- With percent signs escaped, decoding gives back the text. -/
theorem decodedBytes_percentEncode_of_percent (hset : set '%' = true) (text : List Char) :
    decodedBytes (percentEncode set text) = encode text := by
  induction text with
  | nil => rfl
  | cons c text ih =>
    rw [percentEncode_cons, encode_cons]
    cases hc : set c with
    | true =>
      unfold encodeChar
      rw [if_pos hc, decodedBytes_flatMap_escape, ih]
    | false =>
      have hne : c ≠ '%' := by
        rintro rfl
        rw [hset] at hc
        cases hc
      rw [encodeChar_of_not hc, List.singleton_append, decodedBytes_cons hne, ih]

/-- The characters of an encoded text are those of escapes, and those that are not escaped. -/
theorem of_mem_percentEncode (h : c ∈ percentEncode set text) :
    set c = false ∨ ∃ byte : UInt8, c ∈ escape byte := by
  obtain ⟨d, -, hd⟩ := List.mem_flatMap.mp h
  unfold encodeChar at hd
  split at hd
  · obtain ⟨byte, -, hbyte⟩ := List.mem_flatMap.mp hd
    exact Or.inr ⟨byte, hbyte⟩
  · rename_i hset
    obtain rfl := List.mem_singleton.mp hd
    exact Or.inl (Bool.eq_false_iff.mpr hset)

/-- No digit is a separator or a plus sign. -/
theorem hexDigit_ne {n : ℕ} (hn : n < 16) :
    hexDigit n ≠ '&' ∧ hexDigit n ≠ '=' ∧ hexDigit n ≠ '+' := by
  have hall : ∀ n < 16, hexDigit n ≠ '&' ∧ hexDigit n ≠ '=' ∧ hexDigit n ≠ '+' := by decide
  exact hall n hn

/-- No separator and no plus sign is left by escaping. -/
theorem not_separator (h : c ∈ percentEncode formSet text) : c ≠ '&' ∧ c ≠ '=' ∧ c ≠ '+' := by
  rcases of_mem_percentEncode h with hkept | ⟨byte, hbyte⟩
  · refine ⟨?_, ?_, ?_⟩
    all_goals
      rintro rfl
      revert hkept
      decide
  · have hbound : byte.toNat < 256 := UInt8.toNat_lt byte
    have hhigh : byte.toNat / 16 < 16 := by omega
    have hlow : byte.toNat % 16 < 16 := Nat.mod_lt _ (by decide)
    rw [escape, List.mem_cons, List.mem_cons, List.mem_singleton] at hbyte
    rcases hbyte with rfl | rfl | rfl
    · decide
    · exact hexDigit_ne hhigh
    · exact hexDigit_ne hlow

theorem not_separator_writeText (h : c ∈ writeText text) : c ≠ '&' ∧ c ≠ '=' := by
  obtain ⟨d, hd, rfl⟩ := List.mem_map.mp h
  obtain ⟨hamp, heq, -⟩ := not_separator hd
  unfold toPlus
  split
  · decide
  · exact ⟨hamp, heq⟩

theorem readText_writeText (text : List Char) : readText (writeText text) = text := by
  have hback : (writeText text).map ofPlus = percentEncode formSet text := by
    rw [writeText, List.map_map]
    conv_rhs => rw [← List.map_id (percentEncode formSet text)]
    refine List.map_congr_left fun c hc => ?_
    obtain ⟨-, -, hplus⟩ := not_separator hc
    by_cases hspace : c = ' '
    · subst hspace
      rfl
    · simp [toPlus, ofPlus, hspace, hplus]
  rw [readText, hback, decodedBytes_percentEncode_of_percent (by decide), decodeLossy_encode]

end Texts

theorem readPair_writePair (pair : List Char × List Char) : readPair (writePair pair) = pair := by
  have hname : ∀ c ∈ writeText pair.1, (c != '=') = true := fun c hc => by
    simpa using (not_separator_writeText hc).2
  have htake : (writePair pair).takeWhile (· != '=') = writeText pair.1 := by
    rw [writePair, List.takeWhile_append_of_pos hname]
    simp
  have hdrop : (writePair pair).dropWhile (· != '=') = '=' :: writeText pair.2 := by
    rw [writePair, List.dropWhile_append_of_pos hname]
    simp
  rw [readPair, htake, hdrop, List.drop_one, List.tail_cons, readText_writeText,
    readText_writeText]

/-- What was written is read back. -/
theorem read_write (pairs : List (List Char × List Char)) : read (write pairs) = pairs := by
  match pairs with
  | [] => rfl
  | pair :: pairs =>
    have hsplit : (write (pair :: pairs)).splitOn '&' = (pair :: pairs).map writePair := by
      refine List.splitOn_intercalate _ ?_ (by simp)
      intro piece hpiece hamp
      obtain ⟨other, -, rfl⟩ := List.mem_map.mp hpiece
      rcases List.mem_append.mp hamp with hname | hvalue
      · exact (not_separator_writeText hname).1 rfl
      · rcases List.mem_cons.mp hvalue with heq | hvalue
        · cases heq
        · exact (not_separator_writeText hvalue).1 rfl
    have hkept : ((pair :: pairs).map writePair).filter (fun piece => !piece.isEmpty) =
        (pair :: pairs).map writePair := by
      refine List.filter_eq_self.mpr fun piece hpiece => ?_
      obtain ⟨other, -, rfl⟩ := List.mem_map.mp hpiece
      simp [writePair]
    rw [read, hsplit, hkept, List.map_map]
    conv_rhs => rw [← List.map_id (pair :: pairs)]
    exact List.map_congr_left fun other _ => readPair_writePair other

end FormQuery
