import Mathlib.Data.List.DropRight
import Mathlib.Data.List.TakeWhile
import Mathlib.Data.Nat.Notation

/-!
# IP addresses and their texts

The standard library's addresses, how they are displayed, and the parser behind
`str::parse::<IpAddr>`. Characters are read from the front of a list; a reader
gives the value and what is left, or nothing.
-/

namespace Tachyon

/-- `Ipv4Addr`, by its octets. -/
structure Ipv4Addr where
  a : UInt8
  b : UInt8
  c : UInt8
  d : UInt8
  deriving DecidableEq, Repr

/-- `Ipv6Addr`, by its segments. -/
structure Ipv6Addr where
  s0 : UInt16
  s1 : UInt16
  s2 : UInt16
  s3 : UInt16
  s4 : UInt16
  s5 : UInt16
  s6 : UInt16
  s7 : UInt16
  deriving DecidableEq, Repr

/-- `IpAddr`. -/
inductive IpAddr where
  | v4 (ip : Ipv4Addr)
  | v6 (ip : Ipv6Addr)
  deriving DecidableEq, Repr

/-! ### Kinds of addresses -/

/-- `Ipv4Addr::is_loopback`. -/
def Ipv4Addr.isLoopback (ip : Ipv4Addr) : Bool := ip.a == 127

/-- `Ipv4Addr::is_private`. -/
def Ipv4Addr.isPrivate (ip : Ipv4Addr) : Bool :=
  ip.a == 10 || (ip.a == 172 && 16 ≤ ip.b && ip.b ≤ 31) || (ip.a == 192 && ip.b == 168)

/-- `Ipv4Addr::is_link_local`. -/
def Ipv4Addr.isLinkLocal (ip : Ipv4Addr) : Bool := ip.a == 169 && ip.b == 254

/-- `Ipv4Addr::is_unspecified`. -/
def Ipv4Addr.isUnspecified (ip : Ipv4Addr) : Bool := ip == ⟨0, 0, 0, 0⟩

/-- `Ipv6Addr::is_loopback`. -/
def Ipv6Addr.isLoopback (ip : Ipv6Addr) : Bool := ip == ⟨0, 0, 0, 0, 0, 0, 0, 1⟩

/-- `Ipv6Addr::is_unspecified`. -/
def Ipv6Addr.isUnspecified (ip : Ipv6Addr) : Bool := ip == ⟨0, 0, 0, 0, 0, 0, 0, 0⟩

/-- `Ipv6Addr::is_multicast`. -/
def Ipv6Addr.isMulticast (ip : Ipv6Addr) : Bool := ip.s0 &&& 0xff00 == 0xff00

/-- The two octets of a segment. -/
def octetsOf (segment : UInt16) : UInt8 × UInt8 := ((segment >>> 8).toUInt8, segment.toUInt8)

/-- `u16::from_be_bytes`. -/
def fromBeBytes (high low : UInt8) : UInt16 := high.toUInt16 <<< 8 ||| low.toUInt16

/-- `Ipv6Addr::to_ipv4_mapped`: the address behind `::ffff:0:0/96`. -/
def Ipv6Addr.toIpv4Mapped (ip : Ipv6Addr) : Option Ipv4Addr :=
  if ip.s0 = 0 ∧ ip.s1 = 0 ∧ ip.s2 = 0 ∧ ip.s3 = 0 ∧ ip.s4 = 0 ∧ ip.s5 = 0xffff then
    let (a, b) := octetsOf ip.s6
    let (c, d) := octetsOf ip.s7
    some ⟨a, b, c, d⟩
  else none

/-- `Ipv6Addr::segments`. -/
def Ipv6Addr.segments (ip : Ipv6Addr) : List UInt16 :=
  [ip.s0, ip.s1, ip.s2, ip.s3, ip.s4, ip.s5, ip.s6, ip.s7]

/-! ### Display -/

/-- `Display` of an `Ipv4Addr`. -/
def Ipv4Addr.display (ip : Ipv4Addr) : String :=
  s!"{ip.a.toNat}.{ip.b.toNat}.{ip.c.toNat}.{ip.d.toNat}"

/-- Start and length of the longest run of zeros, the first of several. -/
def longestZeros (segments : List UInt16) : ℕ × ℕ :=
  let step := fun (state : (ℕ × ℕ) × (ℕ × ℕ)) (indexed : UInt16 × ℕ) =>
    let (longest, current) := state
    let (segment, i) := indexed
    if segment = 0 then
      let current := if current.2 = 0 then (i, 1) else (current.1, current.2 + 1)
      (if current.2 > longest.2 then current else longest, current)
    else (longest, (0, 0))
  (segments.zipIdx.foldl step ((0, 0), (0, 0))).1

/-- A number in lower-case hexadecimal. -/
def lowerHex (n : ℕ) : String := String.ofList (Nat.toDigits 16 n)

/-- `fmt_subslice`: segments in hexadecimal between colons. -/
def fmtSubslice (segments : List UInt16) : String :=
  String.intercalate ":" (segments.map fun segment => lowerHex segment.toNat)

/-- `Display` of an `Ipv6Addr`. -/
def Ipv6Addr.display (ip : Ipv6Addr) : String :=
  match ip.toIpv4Mapped with
  | some mapped => "::ffff:" ++ mapped.display
  | none =>
    let (start, len) := longestZeros ip.segments
    if len > 1 then
      fmtSubslice (ip.segments.take start) ++ "::" ++ fmtSubslice (ip.segments.drop (start + len))
    else fmtSubslice ip.segments

/-- `Display` of an `IpAddr`. -/
def IpAddr.display : IpAddr → String
  | .v4 ip => ip.display
  | .v6 ip => ip.display

/-! ### Parsing -/

/-- What a reader reads from the front of a text, and the rest. -/
abbrev Reader (α : Type) := List Char → Option (α × List Char)

/-- `char::to_digit`, for a radix of at most 16. -/
def toDigit (radix : ℕ) (c : Char) : Option ℕ :=
  let value :=
    if '0' ≤ c ∧ c ≤ '9' then some (c.toNat - '0'.toNat)
    else if 'a' ≤ c ∧ c ≤ 'f' then some (c.toNat - 'a'.toNat + 10)
    else if 'A' ≤ c ∧ c ≤ 'F' then some (c.toNat - 'A'.toNat + 10)
    else none
  value.filter (· < radix)

/-- `Parser::read_number`: at most `maxDigits` digits, of a value below `bound`. -/
def readNumber (radix maxDigits bound : ℕ) (allowZeroPrefix : Bool) : Reader ℕ := fun text =>
  let digits := text.takeWhile fun c => (toDigit radix c).isSome
  let value := digits.foldl (fun acc c => radix * acc + (toDigit radix c).getD 0) 0
  if digits.length > maxDigits ∨ digits = [] then none
  else if !allowZeroPrefix && digits.head? == some '0' && digits.length > 1 then none
  else if value < bound then some (value, text.drop digits.length) else none

/-- `Parser::read_given_char`. -/
def readGivenChar (c : Char) : Reader Unit
  | [] => none
  | c' :: rest => if c' = c then some ((), rest) else none

/-- `Parser::read_separator`: nothing stands before the first of several values. -/
def readSeparator {α : Type} (sep : Char) (index : ℕ) (inner : Reader α) : Reader α := fun text =>
  if index > 0 then do
    let (_, text) ← readGivenChar sep text
    inner text
  else inner text

/-- An octet of an IPv4 address. -/
def readOctet (index : ℕ) : Reader UInt8 := fun text => do
  let (value, text) ← readSeparator '.' index (readNumber 10 3 256 false) text
  some (UInt8.ofNat value, text)

/-- `Parser::read_ipv4_addr`. -/
def readIpv4Addr : Reader Ipv4Addr := fun text => do
  let (a, text) ← readOctet 0 text
  let (b, text) ← readOctet 1 text
  let (c, text) ← readOctet 2 text
  let (d, text) ← readOctet 3 text
  some (⟨a, b, c, d⟩, text)

/-- `read_groups`: the groups from the `i`-th to at most the `limit`-th, and whether an IPv4
address ended them. -/
def readGroups (limit : ℕ) : ℕ → ℕ → List Char → (List UInt16 × Bool) × List Char
  | 0, _, text => (([], false), text)
  | fuel + 1, i, text =>
    let embedded := if i < limit - 1 then readSeparator ':' i readIpv4Addr text else none
    match embedded with
    | some (v4, text) => (([fromBeBytes v4.a v4.b, fromBeBytes v4.c v4.d], true), text)
    | none =>
      match readSeparator ':' i (readNumber 16 4 65536 true) text with
      | none => (([], false), text)
      | some (group, text) =>
        let ((groups, isV4), text) := readGroups limit fuel (i + 1) text
        ((UInt16.ofNat group :: groups, isV4), text)

/-- The address of eight segments. -/
def Ipv6Addr.ofSegments (segments : List UInt16) : Ipv6Addr :=
  let at_ := fun i => segments.getD i 0
  ⟨at_ 0, at_ 1, at_ 2, at_ 3, at_ 4, at_ 5, at_ 6, at_ 7⟩

/-- `Parser::read_ipv6_addr`: eight groups, or two runs of groups around `::`. -/
def readIpv6Addr : Reader Ipv6Addr := fun text => do
  let ((head, headIpv4), text) := readGroups 8 8 0 text
  if head.length = 8 then some (.ofSegments head, text)
  else if headIpv4 then none
  else
    let (_, text) ← readGivenChar ':' text
    let (_, text) ← readGivenChar ':' text
    let limit := 8 - (head.length + 1)
    let ((tail, _), text) := readGroups limit limit 0 text
    let gap := List.replicate (8 - head.length - tail.length) 0
    some (.ofSegments (head ++ gap ++ tail), text)

/-- `str::parse::<IpAddr>`: the whole text is one address. -/
def parseIpAddr (text : String) : Option IpAddr :=
  let read := match readIpv4Addr text.toList with
    | some (v4, rest) => some (IpAddr.v4 v4, rest)
    | none => (readIpv6Addr text.toList).map fun (v6, rest) => (IpAddr.v6 v6, rest)
  match read with
  | some (ip, []) => some ip
  | _ => none

/-! ### Reading a displayed address -/

/-- The digits of an octet read back as the octet. -/
theorem digits_octet (n : UInt8) :
    let digits := Nat.toDigits 10 n.toNat
    (∀ c ∈ digits, (toDigit 10 c).isSome) ∧ digits ≠ [] ∧ digits.length ≤ 3 ∧
      (digits.head? = some '0' → digits.length ≤ 1) ∧
      digits.foldl (fun acc c => 10 * acc + (toDigit 10 c).getD 0) 0 = n.toNat := by
  have hall : ∀ k : Fin 256,
      let digits := Nat.toDigits 10 k.val
      (digits.all fun c => (toDigit 10 c).isSome) ∧ digits ≠ [] ∧ digits.length ≤ 3 ∧
        (digits.head? = some '0' → digits.length ≤ 1) ∧
        digits.foldl (fun acc c => 10 * acc + (toDigit 10 c).getD 0) 0 = k.val := by
    decide +kernel
  obtain ⟨hdigits, hrest⟩ := hall ⟨n.toNat, n.toNat_lt⟩
  exact ⟨List.all_eq_true.mp hdigits, hrest⟩

/-- A displayed octet is read, and the reader stops behind it. -/
theorem readNumber_octet (n : UInt8) {rest : List Char}
    (hrest : ∀ c ∈ rest.head?, toDigit 10 c = none) :
    readNumber 10 3 256 false (Nat.toDigits 10 n.toNat ++ rest) = some (n.toNat, rest) := by
  obtain ⟨hdigits, hne, hlength, hzero, hvalue⟩ := digits_octet n
  have htake : (Nat.toDigits 10 n.toNat ++ rest).takeWhile (fun c => (toDigit 10 c).isSome) =
      Nat.toDigits 10 n.toNat := by
    rw [List.takeWhile_append_of_pos hdigits]
    cases rest with
    | nil => rw [List.takeWhile_nil, List.append_nil]
    | cons c rest =>
      rw [List.takeWhile_cons_of_neg (by simp [hrest c rfl]), List.append_nil]
  have hprefix : ¬((Nat.toDigits 10 n.toNat).head? = some '0' ∧
      (Nat.toDigits 10 n.toNat).length > 1) := by
    rintro ⟨hhead, hlong⟩
    have := hzero hhead
    omega
  have hlt : n.toNat < 256 := n.toNat_lt
  simp only [readNumber, htake, hvalue, List.drop_left, hlt, if_true]
  rw [if_neg (by simp [hne]; omega), if_neg (by simpa using hprefix)]

/-- The first octet of an address is read up to what follows it. -/
theorem readOctet_first (n : UInt8) {rest : List Char}
    (hrest : ∀ c ∈ rest.head?, toDigit 10 c = none) :
    readOctet 0 (Nat.toDigits 10 n.toNat ++ rest) = some (n, rest) := by
  simp [readOctet, readSeparator, readNumber_octet n hrest]

/-- A further octet is read behind its dot. -/
theorem readOctet_next (i : ℕ) (n : UInt8) {rest : List Char}
    (hrest : ∀ c ∈ rest.head?, toDigit 10 c = none) :
    readOctet (i + 1) ('.' :: (Nat.toDigits 10 n.toNat ++ rest)) = some (n, rest) := by
  simp [readOctet, readSeparator, readGivenChar, readNumber_octet n hrest]

theorem Ipv4Addr.display_toList (ip : Ipv4Addr) :
    ip.display.toList = Nat.toDigits 10 ip.a.toNat ++ '.' :: (Nat.toDigits 10 ip.b.toNat ++
      '.' :: (Nat.toDigits 10 ip.c.toNat ++ '.' :: (Nat.toDigits 10 ip.d.toNat ++ []))) := by
  have hdot : (toString ".").toList = ['.'] := rfl
  simp [Ipv4Addr.display, Nat.repr, hdot]

/-- A displayed IPv4 address parses to itself. -/
theorem parseIpAddr_display (ip : Ipv4Addr) : parseIpAddr ip.display = some (.v4 ip) := by
  have hdot : ∀ rest : List Char, ∀ c ∈ ('.' :: rest).head?, toDigit 10 c = none := by
    rintro rest c ⟨⟩
    decide
  have hend : ∀ c ∈ ([] : List Char).head?, toDigit 10 c = none := by
    rintro c ⟨⟩
  have hread : readIpv4Addr ip.display.toList = some (ip, []) := by
    simp only [Ipv4Addr.display_toList, readIpv4Addr, readOctet_first _ (hdot _),
      readOctet_next 0 _ (hdot _), readOctet_next 1 _ (hdot _), readOctet_next 2 _ hend,
      Option.bind_eq_bind, Option.bind_some]
  rw [parseIpAddr, hread]

/-- Nothing that starts with a bracket is an address. -/
theorem parseIpAddr_bracket {text : String} {rest : List Char} (h : text.toList = '[' :: rest) :
    parseIpAddr text = none := by
  have hnumber : ∀ radix maxDigits bound allowZeroPrefix, radix ≤ 16 →
      readNumber radix maxDigits bound allowZeroPrefix ('[' :: rest) = none := by
    intro radix maxDigits bound allowZeroPrefix hradix
    have hdigit : toDigit radix '[' = none := rfl
    simp [readNumber, hdigit]
  have hv4 : readIpv4Addr ('[' :: rest) = none := by
    simp [readIpv4Addr, readOctet, readSeparator, hnumber]
  have hgroups : readGroups 8 8 0 ('[' :: rest) = (([], false), '[' :: rest) := by
    simp [readGroups, readSeparator, hnumber, hv4]
  have hv6 : readIpv6Addr ('[' :: rest) = none := by
    simp [readIpv6Addr, hgroups, readGivenChar]
  rw [parseIpAddr, h, hv4, hv6]
  rfl

end Tachyon
