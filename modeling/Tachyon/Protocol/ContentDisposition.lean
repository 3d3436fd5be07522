import Tachyon.Library.PercentEncoding
import Tachyon.Library.UrlSyntax
import Tachyon.Protocol.ProbeNames

/-!
# Content-Disposition headers

`parse_content_disposition` splits a header at every semicolon, also at those inside quoted
strings. What such a semicolon cuts off is read like a parameter.
-/

namespace Tachyon

open PercentEncoding

/-! ### Headers as they are written -/

/-- The codes of visible characters that cannot be in a token. -/
def delimiters : List ℕ :=
  [0x22, 0x28, 0x29, 0x2C, 0x2F, 0x3A, 0x3B, 0x3C, 0x3D, 0x3E, 0x3F, 0x40, 0x5B, 0x5C, 0x5D, 0x7B,
    0x7D]

/-- A character of a token: visible ASCII without the delimiters. -/
def isTokenChar (c : Char) : Bool :=
  0x21 ≤ c.toNat && c.toNat ≤ 0x7E && !delimiters.contains c.toNat

def isToken (text : List Char) : Bool := !text.isEmpty && text.all isTokenChar

/-- A character that stands for itself in an extended value. -/
def isAttrChar (c : Char) : Bool := isTokenChar c && !(['*', apostrophe, '%'].contains c)

/-- What may stand between the quotes: a backslash goes with the character behind it. -/
def isQuotedText : List Char → Bool
  | [] => true
  | '\\' :: _ :: rest => isQuotedText rest
  | c :: rest => c != '"' && c != '\\' && isQuotedText rest

def isBlank (c : Char) : Bool := c == ' ' || c == '\t'

/-- `char::is_control` -/
def isControl (c : Char) : Bool := c.toNat < 0x20 || (0x7F ≤ c.toNat && c.toNat ≤ 0x9F)

inductive ParameterValue where
  | token (text : List Char)
  | quoted (text : List Char)

namespace ParameterValue

def text : ParameterValue → List Char
  | token text => text
  | quoted text => '"' :: (text ++ ['"'])

def isValid : ParameterValue → Bool
  | token text => isToken text
  | quoted text => isQuotedText text

end ParameterValue

/-- A parameter, with the blanks around it. -/
structure Parameter where
  before : List Char
  name : List Char
  value : ParameterValue
  after : List Char
  blanks : (before ++ after).all isBlank = true
  nameToken : isToken name = true
  valid : value.isValid = true

/-- The header: what kind of disposition it is, and the parameters. -/
structure Disposition where
  kind : List Char
  after : List Char
  parameters : List Parameter
  kindToken : isToken kind = true
  blanks : after.all isBlank = true

def Parameter.text (p : Parameter) : List Char :=
  p.before ++ (p.name ++ '=' :: (p.value.text ++ p.after))

def Disposition.text (h : Disposition) : String :=
  String.ofList (h.kind ++ h.after ++ h.parameters.flatMap fun p => ';' :: p.text)

/-- The bytes, each as the character it is the code of or percent-encoded. -/
inductive ExtendedText : List UInt8 → List Char → Prop
  | nil : ExtendedText [] []
  | plain {c : Char} {bytes : List UInt8} {text : List Char} (h : isAttrChar c = true)
    (rest : ExtendedText bytes text) : ExtendedText (UInt8.ofNat c.toNat :: bytes) (c :: text)
  | escape {high low : Char} {byte : UInt8} {bytes : List UInt8} {text : List Char}
    (h : escaped high low = some byte) (rest : ExtendedText bytes text) :
    ExtendedText (byte :: bytes) ('%' :: high :: low :: text)

namespace Parameter

/-- `filename="n"` -/
structure IsPlain (p : Parameter) (n : String) : Prop where
  name : p.name = "filename".toList
  value : p.value = .quoted n.toList
  nonempty : n ≠ ""
  clean : ∀ c ∈ n.toList, c ≠ '"' ∧ c ≠ '\\' ∧ isControl c = false

/-- `filename*=UTF-8`, two apostrophes, and the name percent-encoded. -/
structure IsExtended (p : Parameter) (m : String) : Prop where
  name : p.name = "filename*".toList
  value : ∃ text, p.value = .token ("UTF-8".toList ++ apostrophe :: apostrophe :: text) ∧
    ExtendedText (Utf8.encode m.toList) text
  nonempty : m ≠ ""

def NamesFile (p : Parameter) : Prop := p.name = "filename".toList ∨ p.name = "filename*".toList

/-- What stands behind the equals sign up to the first semicolon. -/
def shown (p : Parameter) : List Char :=
  ((p.value.text ++ p.after).splitOn ';').head (List.splitOn_ne_nil _ _)

/-- The parameter up to the first semicolon. -/
def own (p : Parameter) : List Char := p.before ++ (p.name ++ '=' :: p.shown)

/-- What semicolons inside a quoted string cut off. -/
def cutOff (p : Parameter) : List (List Char) := ((p.value.text ++ p.after).splitOn ';').tail

end Parameter

/-- The name that a piece of the header gives as `filename*=`. -/
def extendedOf (piece : List Char) : Option String :=
  (stripPrefix "filename*=" (trim piece)).bind extendedName

/-- The name that a piece of the header gives as `filename=`. -/
def plainOf (piece : List Char) : Option String :=
  (stripPrefix "filename=" (trim piece)).bind fun name =>
    let name := trimMatches '"' (trim name)
    if name.isEmpty then none else some (String.ofList name)

/-- The first name `filename*=` in what semicolons cut off. -/
def cutExtended (parameters : List Parameter) : Option String :=
  (parameters.flatMap Parameter.cutOff).findSome? extendedOf

/-- The first name `filename=` in what semicolons cut off. -/
def cutPlain (parameters : List Parameter) : Option String :=
  (parameters.flatMap Parameter.cutOff).findSome? plainOf

/-- The first name in the pieces, if it stands in what a semicolon cut off. -/
def cutFirst (give : List Char → Option String) : List Parameter → Option String
  | [] => none
  | p :: parameters =>
    match give p.own with
    | some _ => none
    | none => (p.cutOff.findSome? give).or (cutFirst give parameters)

namespace Disposition

/-- The name that the parameters give without what semicolons cut off. -/
def ownName (h : Disposition) : Option String :=
  (h.parameters.findSome? fun p => extendedOf p.own).or
    (h.parameters.findSome? fun p => plainOf p.own)

/-- Parsing finds the name that was written, the extended one if there is one, and takes no text in
a quoted string for a parameter. -/
structure Undone (h : Disposition) : Prop where
  plain : ∀ before p after n, h.parameters = before ++ p :: after → p.IsPlain n →
    (∀ q ∈ before ++ after, ¬q.NamesFile) → parseContentDisposition h.text = some n
  extended : ∀ before p after m, h.parameters = before ++ p :: after → p.IsExtended m →
    (∀ q ∈ before ++ after, q.name ≠ "filename*".toList) →
    parseContentDisposition h.text = some m
  quoted : parseContentDisposition h.text = h.ownName

/-- What semicolons in quoted strings cut off gives no other name before the one that was written,
and a name that is only quoted has no semicolon itself. -/
structure Uncut (h : Disposition) : Prop where
  plain : ∀ before p after n, h.parameters = before ++ p :: after → p.IsPlain n →
    (∀ q ∈ before ++ after, ¬q.NamesFile) →
    cutExtended h.parameters = some n ∨ (cutExtended h.parameters = none ∧ ';' ∉ n.toList ∧
      (cutPlain before = none ∨ cutPlain before = some n))
  extended : ∀ before p after m, h.parameters = before ++ p :: after → p.IsExtended m →
    (∀ q ∈ before ++ after, q.name ≠ "filename*".toList) →
    cutExtended before = none ∨ cutExtended before = some m
  quotedExtended : ∀ name, cutFirst extendedOf h.parameters = some name → h.ownName = some name
  quotedPlain : cutFirst extendedOf h.parameters = none →
    (∀ p ∈ h.parameters, extendedOf p.own = none) →
    ∀ name, cutFirst plainOf h.parameters = some name → h.ownName = some name

end Disposition

/-! ### Pieces -/

section Pieces

variable {text rest lead : List Char} {c : Char}

theorem takeWhile_name {name : List Char} (hname : '=' ∉ name) :
    (name ++ '=' :: rest).takeWhile (· != '=') = name := by
  rw [List.takeWhile_append_of_pos, List.takeWhile_cons_of_neg (by decide), List.append_nil]
  intro c hc
  exact bne_iff_ne.mpr fun heq => hname (heq ▸ hc)

/-- Text up to the first equals sign is compared as a whole. -/
theorem stripPrefix_name {start : String} (key : List Char) {name : List Char}
    (hstart : start.toList = key ++ ['=']) (hkey : '=' ∉ key) (hname : '=' ∉ name) :
    stripPrefix start (name ++ '=' :: rest) = if name = key then some rest else none := by
  by_cases heq : name = key
  · have happend : name ++ '=' :: rest = start.toList ++ rest := by
      rw [hstart, heq, List.append_assoc, List.singleton_append]
    rw [if_pos heq, happend, stripPrefix_append]
  · rw [if_neg heq, stripPrefix, if_neg]
    rw [List.isPrefixOf_iff_prefix, hstart]
    rintro ⟨more, hmore⟩
    rw [List.append_assoc, List.singleton_append] at hmore
    have htake := congrArg (List.takeWhile (· != '=')) hmore
    rw [takeWhile_name hkey, takeWhile_name hname] at htake
    exact heq htake.symm

/-- The two prefixes exclude each other. -/
theorem plainOf_of_extended {encoded : List Char}
    (h : stripPrefix "filename*=" text = some encoded) : stripPrefix "filename=" text = none := by
  unfold stripPrefix at h ⊢
  split at h
  · rename_i hpre
    rw [if_neg]
    intro hpre'
    obtain ⟨more, rfl⟩ := List.isPrefixOf_iff_prefix.mp hpre
    exact absurd hpre' (by simp)
  · exact absurd h (Option.some_ne_none _).symm

/-- The loop finds the first extended name, or else the first plain one. -/
theorem contentDispositionLoop_eq (fallback : Option String) (pieces : List (List Char)) :
    contentDispositionLoop fallback pieces =
      (pieces.findSome? extendedOf).or (fallback.or (pieces.findSome? plainOf)) := by
  induction pieces generalizing fallback with
  | nil => simp [contentDispositionLoop]
  | cons piece pieces ih =>
    rw [contentDispositionLoop, List.findSome?_cons, List.findSome?_cons]
    dsimp only
    cases hext : stripPrefix "filename*=" (trim piece) with
    | some encoded =>
      have hplain : plainOf piece = none := by
        rw [plainOf, plainOf_of_extended hext, Option.bind_none]
      have hextended : extendedOf piece = extendedName encoded := by
        rw [extendedOf, hext, Option.bind_some]
      rw [hplain, hextended]
      dsimp only
      cases hdecoded : extendedName encoded with
      | some decoded => rfl
      | none => exact ih fallback
    | none =>
      have hextended : extendedOf piece = none := by rw [extendedOf, hext, Option.bind_none]
      rw [hextended]
      dsimp only
      cases hname : stripPrefix "filename=" (trim piece) with
      | none =>
        have hplain : plainOf piece = none := by rw [plainOf, hname, Option.bind_none]
        rw [hplain]
        exact ih fallback
      | some name =>
        rw [plainOf, hname, Option.bind_some]
        dsimp only
        cases hempty : (trimMatches '"' (trim name)).isEmpty with
        | true => exact ih fallback
        | false =>
          cases fallback with
          | none => exact ih _
          | some first => exact ih (some first)

theorem trimmed_sublist (p : Char → Bool) (l : List Char) :
    ((l.dropWhile p).rdropWhile p).Sublist l :=
  (List.rdropWhile_prefix p _).sublist.trans (List.dropWhile_suffix p).sublist

/-- A piece without an equals sign is no parameter. -/
theorem stripPrefix_trim_eq_none {start : String} (hstart : '=' ∈ start.toList)
    (htext : '=' ∉ text) : stripPrefix start (trim text) = none := by
  cases hstrip : stripPrefix start (trim text) with
  | none => rfl
  | some rest =>
    refine absurd ((trimmed_sublist isWhitespace text).subset ?_) htext
    change '=' ∈ trim text
    rw [stripPrefix_eq_some hstrip]
    exact List.mem_append_left rest hstart

/-- No piece has a semicolon, so no plain name has. -/
theorem not_mem_of_plainOf {piece : List Char} {name : String} (hpiece : ';' ∉ piece)
    (h : plainOf piece = some name) : ';' ∉ name.toList := by
  obtain ⟨encoded, hstrip, h⟩ := Option.bind_eq_some_iff.mp h
  dsimp only at h
  split at h
  · exact absurd h (Option.some_ne_none _).symm
  · cases h
    have hdrop : encoded.Sublist (trim piece) := by
      rw [stripPrefix_eq_some hstrip]
      exact List.sublist_append_right _ _
    have hname := (trimmed_sublist (· == '"') _).trans (trimmed_sublist isWhitespace encoded)
    have hsub := (hname.trans hdrop).trans (trimmed_sublist isWhitespace piece)
    rw [String.toList_ofList]
    exact fun hmem => hpiece (hsub.subset hmem)

end Pieces

/-! ### The header in pieces -/

section Header

variable {p : Parameter} {h : Disposition}

theorem splitOn_append_of_not_mem {xs ys : List Char} {c : Char} (hxs : c ∉ xs) :
    (xs ++ ys).splitOn c = (ys.splitOn c).modifyHead (xs ++ ·) := by
  induction xs with
  | nil =>
    rw [List.nil_append]
    cases ys.splitOn c with
    | nil => rfl
    | cons _ _ => rfl
  | cons x xs ih =>
    have hx : (x == c) = false := beq_false_of_ne fun heq => hxs (heq ▸ List.mem_cons_self)
    rw [List.cons_append, List.splitOn_cons_eq_if_modifyHead, hx,
      ih fun hmem => hxs (List.mem_cons_of_mem x hmem)]
    cases ys.splitOn c with
    | nil => rfl
    | cons _ _ => rfl

theorem splitOn_flatMap (lead : List Char) (parameters : List Parameter) :
    (lead ++ parameters.flatMap fun p => ';' :: p.text).splitOn ';' =
      lead.splitOn ';' ++ parameters.flatMap fun p => p.text.splitOn ';' := by
  induction parameters generalizing lead with
  | nil => rw [List.flatMap_nil, List.flatMap_nil, List.append_nil, List.append_nil]
  | cons p parameters ih =>
    rw [List.flatMap_cons, List.flatMap_cons, List.cons_append, List.splitOn_append_cons_self, ih]

theorem not_mem_of_isTokenChar {text : List Char} {c : Char} (h : text.all isTokenChar = true)
    (hc : isTokenChar c = false) : c ∉ text := by
  intro hmem
  rw [List.all_eq_true.mp h c hmem] at hc
  exact Bool.false_ne_true hc.symm

theorem isBlank_isWhitespace {c : Char} (h : isBlank c = true) : isWhitespace c = true := by
  unfold isBlank at h
  rw [Bool.or_eq_true, beq_iff_eq, beq_iff_eq] at h
  rcases h with rfl | rfl <;> rfl

theorem isTokenChar_not_isWhitespace {c : Char} (h : isTokenChar c = true) :
    isWhitespace c = false := by
  unfold isTokenChar at h
  simp only [Bool.and_eq_true, decide_eq_true_eq] at h
  unfold isWhitespace
  simp only [Bool.or_eq_false_iff, Bool.and_eq_false_iff, decide_eq_false_iff_not,
    beq_eq_false_iff_ne]
  omega

theorem Parameter.isBlank_of_mem {c : Char} (p : Parameter) (hc : c ∈ p.before ++ p.after) :
    isBlank c = true := List.all_eq_true.mp p.blanks c hc

theorem Parameter.isTokenChar_of_mem {c : Char} (p : Parameter) (hc : c ∈ p.name) :
    isTokenChar c = true :=
  List.all_eq_true.mp ((Bool.and_eq_true_iff.mp p.nameToken).2) c hc

/-- A parameter comes as a piece with its name, and then what semicolons cut off. -/
theorem Parameter.splitOn_text (p : Parameter) :
    p.text.splitOn ';' = p.own :: p.cutOff := by
  have hlead : ';' ∉ p.before ++ (p.name ++ ['=']) := by
    intro hmem
    rcases List.mem_append.mp hmem with hmem | hmem
    · exact absurd (p.isBlank_of_mem (List.mem_append_left _ hmem)) (by decide)
    · rcases List.mem_append.mp hmem with hmem | hmem
      · exact absurd (p.isTokenChar_of_mem hmem) (by decide)
      · exact absurd (List.mem_singleton.mp hmem) (by decide)
  have htext : p.text = (p.before ++ (p.name ++ ['='])) ++ (p.value.text ++ p.after) := by
    simp only [text, List.append_assoc, List.singleton_append]
  have hsplit : (p.value.text ++ p.after).splitOn ';' = p.shown :: p.cutOff :=
    (List.cons_head_tail _).symm
  rw [htext, splitOn_append_of_not_mem hlead, hsplit, List.modifyHead_cons]
  simp only [own, List.append_assoc, List.singleton_append]

theorem Parameter.name_ne_nil (p : Parameter) : p.name ≠ [] := by
  intro hnil
  have htoken := p.nameToken
  rw [hnil] at htoken
  exact Bool.false_ne_true htoken

theorem Parameter.not_mem_name (p : Parameter) : '=' ∉ p.name :=
  fun hmem => absurd (p.isTokenChar_of_mem hmem) (by decide)

/-- Trimming leaves the name in front. -/
theorem Parameter.trim_own (p : Parameter) :
    trim p.own =
      p.name ++ '=' :: p.shown.rdropWhile isWhitespace := by
  obtain ⟨c, rest, hname⟩ := List.exists_cons_of_ne_nil p.name_ne_nil
  have hc : isWhitespace c = false :=
    isTokenChar_not_isWhitespace (p.isTokenChar_of_mem (hname ▸ List.mem_cons_self))
  rw [trim, own, List.dropWhile_append_of_pos fun c hc =>
    isBlank_isWhitespace (p.isBlank_of_mem (List.mem_append_left _ hc))]
  rw [hname, List.cons_append, List.dropWhile_cons_of_neg (by rw [hc]; exact Bool.false_ne_true),
    ← List.cons_append, UrlSyntax.rdropWhile_append_cons rfl]

theorem Parameter.extendedOf_own (p : Parameter) :
    extendedOf p.own =
      if p.name = "filename*".toList then extendedName (p.shown.rdropWhile isWhitespace)
      else none := by
  rw [extendedOf, p.trim_own, stripPrefix_name "filename*".toList rfl (by decide)
    p.not_mem_name]
  split <;> rfl

theorem Parameter.plainOf_own (p : Parameter) (h : p.name ≠ "filename".toList) :
    plainOf p.own = none := by
  rw [plainOf, p.trim_own, stripPrefix_name "filename".toList rfl (by decide)
    p.not_mem_name, if_neg h]
  rfl

/-- A list of other parameters gives the names that semicolons cut off. -/
theorem findSome?_extendedOf {parameters : List Parameter}
    (h : ∀ p ∈ parameters, p.name ≠ "filename*".toList) :
    (parameters.flatMap fun p => p.text.splitOn ';').findSome? extendedOf =
      cutExtended parameters := by
  unfold cutExtended
  induction parameters with
  | nil => rfl
  | cons p parameters ih =>
    rw [List.flatMap_cons, List.flatMap_cons, List.findSome?_append, List.findSome?_append,
      ih fun q hq => h q (List.mem_cons_of_mem p hq), p.splitOn_text, List.findSome?_cons,
      p.extendedOf_own, if_neg (h p List.mem_cons_self)]

theorem findSome?_plainOf {parameters : List Parameter}
    (h : ∀ p ∈ parameters, p.name ≠ "filename".toList) :
    (parameters.flatMap fun p => p.text.splitOn ';').findSome? plainOf =
      cutPlain parameters := by
  unfold cutPlain
  induction parameters with
  | nil => rfl
  | cons p parameters ih =>
    rw [List.flatMap_cons, List.flatMap_cons, List.findSome?_append, List.findSome?_append,
      ih fun q hq => h q (List.mem_cons_of_mem p hq), p.splitOn_text, List.findSome?_cons,
      p.plainOf_own (h p List.mem_cons_self)]

/-- The header is parsed by what its parameters come as. -/
theorem Disposition.parse_eq (h : Disposition) :
    parseContentDisposition h.text =
      ((h.parameters.flatMap fun p => p.text.splitOn ';').findSome? extendedOf).or
        ((h.parameters.flatMap fun p => p.text.splitOn ';').findSome? plainOf) := by
  have hlead : ∀ c ∈ h.kind ++ h.after, c ≠ ';' ∧ c ≠ '=' := by
    intro c hc
    rcases List.mem_append.mp hc with hc | hc
    · have htoken := List.all_eq_true.mp (Bool.and_eq_true_iff.mp h.kindToken).2 c hc
      exact ⟨fun heq => absurd (heq ▸ htoken) (by decide),
        fun heq => absurd (heq ▸ htoken) (by decide)⟩
    · have hblank := List.all_eq_true.mp h.blanks c hc
      exact ⟨fun heq => absurd (heq ▸ hblank) (by decide),
        fun heq => absurd (heq ▸ hblank) (by decide)⟩
  have hequals : '=' ∉ h.kind ++ h.after := fun hmem => (hlead _ hmem).2 rfl
  have hextended : extendedOf (h.kind ++ h.after) = none := by
    rw [extendedOf, stripPrefix_trim_eq_none (by decide) hequals, Option.bind_none]
  have hplain : plainOf (h.kind ++ h.after) = none := by
    rw [plainOf, stripPrefix_trim_eq_none (by decide) hequals, Option.bind_none]
  rw [parseContentDisposition, text, String.toList_ofList, splitOn_flatMap,
    List.splitOn_eq_singleton fun hmem => (hlead _ hmem).1 rfl, contentDispositionLoop_eq,
    List.singleton_append, List.findSome?_cons, List.findSome?_cons, hextended, hplain,
    Option.none_or]

theorem Disposition.not_mem_piece (h : Disposition) {piece : List Char}
    (hpiece : piece ∈ h.parameters.flatMap fun p => p.text.splitOn ';') : ';' ∉ piece := by
  obtain ⟨p, -, hmem⟩ := List.mem_flatMap.mp hpiece
  rw [List.splitOn_eq_splitOnP] at hmem
  intro hsemicolon
  exact absurd (not_of_mem_splitOnP hmem _ hsemicolon).2 (by decide)

/-! ### The parameter of the name -/

/-- A value without semicolons comes as a whole. -/
theorem Parameter.whole (p : Parameter) (h : ';' ∉ p.value.text) :
    p.shown = p.value.text ++ p.after ∧ p.cutOff = [] := by
  have hsplit : (p.value.text ++ p.after).splitOn ';' = [p.value.text ++ p.after] := by
    refine List.splitOn_eq_singleton fun hmem => ?_
    rcases List.mem_append.mp hmem with hmem | hmem
    · exact h hmem
    · exact absurd (p.isBlank_of_mem (List.mem_append_right _ hmem)) (by decide)
  constructor
  · simp only [shown, hsplit, List.head_cons]
  · rw [cutOff, hsplit, List.tail_cons]

/-- The blanks behind a value are trimmed. -/
theorem Parameter.rdropWhile_after (p : Parameter) (lead : List Char) {c : Char}
    (hc : isWhitespace c = false) :
    (lead ++ c :: p.after).rdropWhile isWhitespace = lead ++ [c] := by
  rw [UrlSyntax.rdropWhile_append_cons hc, List.rdropWhile_eq_nil_iff.mpr]
  exact fun d hd => isBlank_isWhitespace (p.isBlank_of_mem (List.mem_append_right _ hd))

/-- Quotes are taken off a name without quotes. -/
theorem trimMatches_quoted {name : List Char} (hne : name ≠ []) (hquote : '"' ∉ name) :
    trimMatches '"' ('"' :: (name ++ ['"'])) = name := by
  obtain ⟨c, rest, rfl⟩ := List.exists_cons_of_ne_nil hne
  have hfirst : (c == '"') = false :=
    beq_false_of_ne fun heq => hquote (heq ▸ List.mem_cons_self)
  rw [trimMatches, List.dropWhile_cons_of_pos (by decide), List.cons_append,
    List.dropWhile_cons_of_neg (by rw [hfirst]; exact Bool.false_ne_true), ← List.cons_append,
    List.rdropWhile_concat_pos _ _ _ (by decide), List.rdropWhile_eq_self_iff]
  intro hl hlast
  exact hquote (beq_iff_eq.mp hlast ▸ List.getLast_mem hl)

/-- `filename="n"` comes as one piece if the name has no semicolon. -/
theorem Parameter.IsPlain.plainOf_own {n : String} (hp : p.IsPlain n) (hn : ';' ∉ n.toList) :
    plainOf p.own = some n := by
  have hquote : '"' ∉ n.toList := fun hmem => (hp.clean _ hmem).1 rfl
  have hne : n.toList ≠ [] := fun hnil => hp.nonempty (String.toList_eq_nil_iff.mp hnil)
  have htext : p.value.text = ('"' :: n.toList) ++ ['"'] := by rw [hp.value]; rfl
  have hsemicolon : ';' ∉ p.value.text := by
    rw [htext]
    intro hmem
    rcases List.mem_append.mp hmem with hmem | hmem
    · rcases List.mem_cons.mp hmem with heq | hmem
      · exact absurd heq (by decide)
      · exact hn hmem
    · exact absurd (List.mem_singleton.mp hmem) (by decide)
  have hshown : p.shown.rdropWhile isWhitespace = '"' :: (n.toList ++ ['"']) := by
    rw [(p.whole hsemicolon).1, htext, List.append_assoc, List.singleton_append,
      p.rdropWhile_after _ (by decide)]
    rfl
  have htrim : trim ('"' :: (n.toList ++ ['"'])) = '"' :: (n.toList ++ ['"']) := by
    rw [trim, List.dropWhile_cons_of_neg (by decide), ← List.cons_append,
      List.rdropWhile_concat_neg _ _ _ (by decide)]
  rw [plainOf, p.trim_own, stripPrefix_name "filename".toList rfl (by decide) p.not_mem_name,
    if_pos hp.name, Option.bind_some, hshown, htrim, trimMatches_quoted hne hquote]
  dsimp only
  rw [if_neg (by rwa [List.isEmpty_iff]), String.ofList_toList]

/-! ### Percent-decoding an extended value -/

theorem hexDigit_of_hexValue {c : Char} {v : ℕ} (h : hexValue c = some v) :
    Tachyon.hexDigit (UInt8.ofNat c.toNat) = some (UInt8.ofNat v) := by
  have hall : ∀ n < 0x80, Tachyon.hexDigit (UInt8.ofNat (Char.ofNat n).toNat) =
      (hexValue (Char.ofNat n)).map UInt8.ofNat := by decide
  have heq := @Utf8.forall_ascii (fun c => Tachyon.hexDigit (UInt8.ofNat c.toNat) =
    (hexValue c).map UInt8.ofNat) hall c (lt_of_hexValue h)
  rw [heq, h, Option.map_some]

theorem parseHexPair_of_escaped {high low : Char} {byte : UInt8}
    (h : escaped high low = some byte) :
    parseHexPair (UInt8.ofNat high.toNat) (UInt8.ofNat low.toNat) = some byte := by
  obtain ⟨hi, hhigh, h⟩ := Option.bind_eq_some_iff.mp h
  obtain ⟨lo, hlow, h⟩ := Option.bind_eq_some_iff.mp h
  cases h
  simp only [parseHexPair, hexDigit_of_hexValue hhigh, hexDigit_of_hexValue hlow,
    Option.bind_eq_bind, Option.bind_some, UInt8.ofNat_add, UInt8.ofNat_mul]
  rfl

theorem percentDecodeLoop_cons {byte : UInt8} {rest : List UInt8} (h : byte ≠ 0x25) :
    percentDecodeLoop (byte :: rest) = byte :: percentDecodeLoop rest := by
  rw [percentDecodeLoop]
  intro _ _ _ heq
  exact absurd heq h

theorem percentDecodeLoop_encode {bytes : List UInt8} {text : List Char}
    (h : ExtendedText bytes text) : percentDecodeLoop (Utf8.encode text) = bytes := by
  induction h with
  | nil => rfl
  | @plain c bytes text hc rest ih =>
    have htoken : isTokenChar c = true := (Bool.and_eq_true_iff.mp hc).1
    have hascii : c.toNat < 0x80 := by
      unfold isTokenChar at htoken
      simp only [Bool.and_eq_true, decide_eq_true_eq] at htoken
      omega
    have hpercent : UInt8.ofNat c.toNat ≠ 0x25 := by
      intro heq
      have htoNat : c.toNat = ('%' : Char).toNat := by
        have hmod := congrArg UInt8.toNat heq
        rw [UInt8.toNat_ofNat', Nat.mod_eq_of_lt (by omega)] at hmod
        exact hmod
      rw [Char.toNat_inj.mp htoNat] at hc
      exact absurd hc (by decide)
    rw [Utf8.encode_cons, Utf8.encodeChar_ascii hascii, List.singleton_append,
      percentDecodeLoop_cons hpercent, ih]
  | @escape high low byte bytes text h rest ih =>
    obtain ⟨hi, hhigh, hlow⟩ := Option.bind_eq_some_iff.mp h
    obtain ⟨lo, hlow, -⟩ := Option.bind_eq_some_iff.mp hlow
    rw [Utf8.encode_cons, Utf8.encode_cons, Utf8.encode_cons,
      Utf8.encodeChar_ascii (lt_of_hexValue hhigh), Utf8.encodeChar_ascii (lt_of_hexValue hlow)]
    change percentDecodeLoop (0x25 :: UInt8.ofNat high.toNat :: UInt8.ofNat low.toNat ::
      Utf8.encode text) = _
    rw [percentDecodeLoop, parseHexPair_of_escaped h]
    dsimp only
    rw [ih]

theorem extendedName_utf8 {m : String} {text : List Char} (hm : m ≠ "")
    (h : ExtendedText (Utf8.encode m.toList) text) :
    extendedName ("UTF-8".toList ++ apostrophe :: apostrophe :: text) = some m := by
  have hcharset : afterFirst apostrophe ("UTF-8".toList ++ apostrophe :: apostrophe :: text) =
      some (apostrophe :: text) := rfl
  have hlanguage : afterFirst apostrophe (apostrophe :: text) = some text := rfl
  have hdecoded : percentDecode (String.ofList text) = some m := by
    rw [percentDecode, Utf8.toList_toUTF8, String.toList_ofList, percentDecodeLoop_encode h,
      Utf8.fromUTF8?_encode]
  have hempty : m.isEmpty = false := by
    rw [← Bool.not_eq_true, String.isEmpty_iff]
    exact hm
  simp only [extendedName, hcharset, hlanguage, hdecoded, Option.bind_eq_bind, Option.bind_some,
    hempty, Bool.false_eq_true, if_false]

/-- A token is left as it is when the blanks behind it are trimmed. -/
theorem Parameter.rdropWhile_token (p : Parameter) {token : List Char}
    (h : token.all isTokenChar = true) :
    (token ++ p.after).rdropWhile isWhitespace = token := by
  rcases List.eq_nil_or_concat token with rfl | ⟨lead, c, rfl⟩
  · rw [List.nil_append, List.rdropWhile_eq_nil_iff]
    exact fun d hd => isBlank_isWhitespace (p.isBlank_of_mem (List.mem_append_right _ hd))
  · have hc : isWhitespace c = false := isTokenChar_not_isWhitespace
      (List.all_eq_true.mp h c (List.concat_eq_append ▸ List.mem_concat_self))
    rw [List.concat_eq_append, List.append_assoc, List.singleton_append, p.rdropWhile_after _ hc]

/-- `filename*=` comes as one piece. -/
theorem Parameter.IsExtended.splitOn_text {m : String} (hp : p.IsExtended m) :
    p.cutOff = [] ∧ extendedOf p.own = some m := by
  obtain ⟨text, hvalue, hencoded⟩ := hp.value
  have htoken : p.value.text.all isTokenChar = true := by
    have hvalid := p.valid
    rw [hvalue] at hvalid ⊢
    simp only [ParameterValue.isValid, isToken, Bool.and_eq_true] at hvalid
    exact hvalid.2
  obtain ⟨hshown, hcutOff⟩ := p.whole (not_mem_of_isTokenChar htoken (by decide))
  refine ⟨hcutOff, ?_⟩
  rw [p.extendedOf_own, if_pos hp.name, hshown, p.rdropWhile_token htoken, hvalue]
  exact extendedName_utf8 hp.nonempty hencoded

/-! ### Headers that are parsed back -/

theorem findSome?_pieces (give : List Char → Option String) (parameters : List Parameter) :
    (parameters.flatMap fun p => p.text.splitOn ';').findSome? give =
      (cutFirst give parameters).or (parameters.findSome? fun p => give p.own) := by
  induction parameters with
  | nil => rfl
  | cons p parameters ih =>
    rw [List.flatMap_cons, List.findSome?_append, p.splitOn_text, List.findSome?_cons,
      List.findSome?_cons, cutFirst, ih]
    cases give p.own with
    | some name => rfl
    | none => rw [Option.or_assoc]

/-- The pieces of a header are those of the parameters one after the other. -/
theorem findSome?_split (give : List Char → Option String) (before after : List Parameter)
    (p : Parameter) :
    ((before ++ p :: after).flatMap fun p => p.text.splitOn ';').findSome? give =
      ((before.flatMap fun p => p.text.splitOn ';').findSome? give).or
        ((give p.own).or ((p.cutOff.findSome? give).or
          ((after.flatMap fun p => p.text.splitOn ';').findSome? give))) := by
  rw [List.flatMap_append, List.flatMap_cons, List.findSome?_append, List.findSome?_append,
    p.splitOn_text, List.findSome?_cons]
  cases give p.own with
  | some name => rfl
  | none => rfl

namespace Disposition

variable {before after : List Parameter} {n m : String}

theorem plain_iff (heq : h.parameters = before ++ p :: after) (hp : p.IsPlain n)
    (hothers : ∀ q ∈ before ++ after, ¬q.NamesFile) :
    parseContentDisposition h.text = some n ↔
      cutExtended h.parameters = some n ∨ (cutExtended h.parameters = none ∧ ';' ∉ n.toList ∧
        (cutPlain before = none ∨ cutPlain before = some n)) := by
  have hextended : ∀ q ∈ h.parameters, q.name ≠ "filename*".toList := by
    intro q hq hname
    rw [heq, List.mem_append, List.mem_cons] at hq
    rcases hq with hq | rfl | hq
    · exact hothers q (List.mem_append_left _ hq) (Or.inr hname)
    · rw [hp.name] at hname
      exact absurd hname (by decide)
    · exact hothers q (List.mem_append_right _ hq) (Or.inr hname)
  rw [h.parse_eq, findSome?_extendedOf hextended]
  cases cutExtended h.parameters with
  | some name => simp
  | none =>
    rw [Option.none_or]
    by_cases hn : ';' ∈ n.toList
    · constructor
      · intro hfound
        obtain ⟨piece, hpiece, hname⟩ := List.exists_of_findSome?_eq_some hfound
        exact absurd hn (not_mem_of_plainOf (h.not_mem_piece hpiece) hname)
      · rintro (hnone | ⟨-, hn', -⟩)
        · exact absurd hnone.symm (Option.some_ne_none n)
        · exact absurd hn hn'
    · have hbefore : ∀ q ∈ before, q.name ≠ "filename".toList :=
        fun q hq hname => hothers q (List.mem_append_left _ hq) (Or.inl hname)
      rw [heq, findSome?_split, findSome?_plainOf hbefore, hp.plainOf_own hn, Option.some_or]
      cases cutPlain before with
      | none => simp [hn]
      | some name => simp [hn]

theorem extended_iff (heq : h.parameters = before ++ p :: after) (hp : p.IsExtended m)
    (hothers : ∀ q ∈ before ++ after, q.name ≠ "filename*".toList) :
    parseContentDisposition h.text = some m ↔
      cutExtended before = none ∨ cutExtended before = some m := by
  have hbefore : ∀ q ∈ before, q.name ≠ "filename*".toList :=
    fun q hq => hothers q (List.mem_append_left _ hq)
  rw [h.parse_eq, heq, findSome?_split, findSome?_extendedOf hbefore, hp.splitOn_text.2,
    Option.some_or]
  cases cutExtended before with
  | none => simp
  | some name => simp

theorem quoted_iff : parseContentDisposition h.text = h.ownName ↔
    (∀ name, cutFirst extendedOf h.parameters = some name → h.ownName = some name) ∧
      (cutFirst extendedOf h.parameters = none → (∀ p ∈ h.parameters, extendedOf p.own = none) →
        ∀ name, cutFirst plainOf h.parameters = some name → h.ownName = some name) := by
  rw [h.parse_eq, findSome?_pieces, findSome?_pieces]
  cases cutFirst extendedOf h.parameters with
  | some cut => simp [eq_comm]
  | none =>
    unfold ownName
    cases hextended : h.parameters.findSome? fun p => extendedOf p.own with
    | some name =>
      refine iff_of_true rfl ⟨fun _ hnone => absurd hnone.symm (Option.some_ne_none _), ?_⟩
      intro _ hnone
      rw [List.findSome?_eq_none_iff.mpr hnone] at hextended
      exact absurd hextended.symm (Option.some_ne_none name)
    | none =>
      have hnone := List.findSome?_eq_none_iff.mp hextended
      rw [Option.none_or, Option.none_or, Option.none_or]
      cases cutFirst plainOf h.parameters with
      | none => simp
      | some cut =>
        constructor
        · intro hown
          refine ⟨fun _ hfirst => absurd hfirst.symm (Option.some_ne_none _), ?_⟩
          intro _ _ name hcut
          rw [← hcut]
          exact hown.symm
        · intro hcut
          exact (hcut.2 rfl hnone cut rfl).symm

/-- Parsing undoes writing exactly where semicolons in quoted strings do no harm. -/
theorem undone_iff_uncut (h : Disposition) : h.Undone ↔ h.Uncut := by
  constructor
  · intro hundone
    have hquoted := quoted_iff.mp hundone.quoted
    exact {
      plain := fun before p after n heq hp hothers =>
        (plain_iff heq hp hothers).mp (hundone.plain before p after n heq hp hothers)
      extended := fun before p after m heq hp hothers =>
        (extended_iff heq hp hothers).mp (hundone.extended before p after m heq hp hothers)
      quotedExtended := hquoted.1
      quotedPlain := hquoted.2 }
  · intro huncut
    exact {
      plain := fun before p after n heq hp hothers =>
        (plain_iff heq hp hothers).mpr (huncut.plain before p after n heq hp hothers)
      extended := fun before p after m heq hp hothers =>
        (extended_iff heq hp hothers).mpr (huncut.extended before p after m heq hp hothers)
      quoted := quoted_iff.mpr ⟨huncut.quotedExtended, huncut.quotedPlain⟩ }

/-- The semicolon in a name takes the rest of it away. -/
theorem semicolon_in_name_not_undone : ¬∀ h : Disposition, h.Undone := by
  intro hundone
  have hclean : ∀ c ∈ "a;b".toList, c ≠ '"' ∧ c ≠ '\\' ∧ isControl c = false := by
    intro c hc
    have hchars : c ∈ ['a', ';', 'b'] := hc
    simp only [List.mem_cons, List.not_mem_nil, or_false] at hchars
    rcases hchars with rfl | rfl | rfl
    · decide
    · decide
    · decide
  have hplain := (hundone {
      kind := "attachment".toList, after := []
      parameters := [{
        before := [' '], name := "filename".toList, value := .quoted "a;b".toList, after := []
        blanks := by decide, nameToken := by decide, valid := by decide }]
      kindToken := by decide, blanks := by decide }).plain [] _ [] "a;b" rfl
    { name := rfl, value := rfl, nonempty := by decide, clean := hclean } (by simp)
  exact absurd hplain (by decide)

end Disposition

end Header

end Tachyon
