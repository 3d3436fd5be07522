import Tachyon.Core.Error
import Tachyon.Core.IpAddr

/-!
# Which addresses a URL may name

`validate_public_http_url` looks at the text of a URL's host, `reject_forbidden_ip`
at an address. A URL here is what the parser made of it; the text it gives an IPv6
host is bracketed, and what stands between the brackets is left open.
-/

namespace Tachyon

/-- `url::Host`. -/
inductive Host where
  | domain (name : String)
  | ipv4 (ip : Ipv4Addr)
  | ipv6 (ip : Ipv6Addr)
  deriving DecidableEq, Repr

/-- `Url`, the parts the checks read. -/
structure Url where
  scheme : String
  username : String
  password : Option String
  host : Option Host
  port : Option ℕ
  path : String
  deriving DecidableEq, Repr

/-- The URL has a user name or a password. -/
def Url.HasCredentials (url : Url) : Prop := url.username ≠ "" ∨ url.password.isSome = true

instance (url : Url) : Decidable url.HasCredentials :=
  inferInstanceAs (Decidable (url.username ≠ "" ∨ url.password.isSome = true))

/-- `Url::host_str`, where the parser writes an IPv6 address as `text` does. -/
def Url.hostStr (text : Ipv6Addr → String) (url : Url) : Option String :=
  url.host.map fun
    | .domain name => name
    | .ipv4 ip => ip.display
    | .ipv6 ip => "[" ++ text ip ++ "]"

/-- `reject_forbidden_ipv4`. -/
def rejectForbiddenIpv4 (ip : Ipv4Addr) : DownloadResult Unit :=
  let shown := ip.display
  let docRanges : List (UInt8 × UInt8 × UInt8) := [(192, 0, 2), (198, 51, 100), (203, 0, 113)]
  if ip.isLoopback || ip.isPrivate || ip.isLinkLocal || ip.isUnspecified ||
      ip == ⟨169, 254, 169, 254⟩ then
    .error (.config s!"不允许访问受限 IPv4 地址: {shown}")
  else if ip.a ≥ 224 then .error (.config s!"不允许访问受限 IPv4 地址: {shown}")
  else if ip.a == 100 && ip.b &&& 0xC0 == 0x40 then
    .error (.config s!"不允许访问受限 IPv4 地址: {shown}")
  else if docRanges.any fun (a, b, c) => ip.a == a && ip.b == b && ip.c == c then
    .error (.config s!"不允许访问受限 IPv4 地址: {shown} (RFC 5737 文档地址)")
  else if ip.a == 198 && (ip.b == 18 || ip.b == 19) then
    .error (.config s!"不允许访问受限 IPv4 地址: {shown} (RFC 2544 基准测试地址)")
  else if ip.a == 192 && ip.b == 0 && ip.c == 0 then
    .error (.config s!"不允许访问受限 IPv4 地址: {shown} (IETF Protocol Assignments)")
  else .ok ()

/-- `reject_forbidden_ipv6`. -/
def rejectForbiddenIpv6 (ip : Ipv6Addr) : DownloadResult Unit :=
  match ip.toIpv4Mapped with
  | some mapped => rejectForbiddenIpv4 mapped
  | none =>
    let shown := ip.display
    let uniqueLocal := ip.s0 &&& 0xfe00 == 0xfc00
    let linkLocal := ip.s0 &&& 0xffc0 == 0xfe80
    if ip.isLoopback || ip.isUnspecified || ip.isMulticast || uniqueLocal || linkLocal then
      .error (.config s!"不允许访问受限 IPv6 地址: {shown}")
    else if ip.s0 &&& 0xFFC0 == 0xFEC0 then
      .error (.config s!"不允许访问受限 IPv6 地址: {shown}")
    else .ok ()

/-- `reject_forbidden_ip`. -/
def rejectForbiddenIp : IpAddr → DownloadResult Unit
  | .v4 ip => rejectForbiddenIpv4 ip
  | .v6 ip => rejectForbiddenIpv6 ip

/-- `str::trim_end_matches`. -/
def trimEndMatches (s : String) (c : Char) : String := String.ofList (s.toList.rdropWhile (· == c))

/-- `str::eq_ignore_ascii_case`. -/
def eqIgnoreAsciiCase (s t : String) : Bool :=
  s.toList.map Char.toLower == t.toList.map Char.toLower

/-- `validate_public_http_url`. -/
def validatePublicHttpUrl (text : Ipv6Addr → String) (url : Url) : DownloadResult Unit :=
  let scheme := url.scheme
  if scheme ≠ "http" ∧ scheme ≠ "https" then .error (.config s!"不支持的协议: {scheme}")
  else if url.HasCredentials then
    .error (.config "URL 中不允许包含用户名或密码")
  else
    match url.hostStr text with
    | none => .error (.config "URL 主机为空")
    | some host =>
      let normalizedHost := trimEndMatches host '.'
      if eqIgnoreAsciiCase normalizedHost "localhost" then .error (.config "不允许访问 localhost")
      else
        match parseIpAddr normalizedHost with
        | some ip => rejectForbiddenIp ip
        | none => .ok ()

/-- The host that an address is. -/
def IpAddr.host : IpAddr → Host
  | .v4 ip => .ipv4 ip
  | .v6 ip => .ipv6 ip

/-- A text that does not end in the character is trimmed to itself. -/
theorem trimEndMatches_of_last {s : String} {c last : Char} {front : List Char}
    (h : s.toList = front ++ [last]) (hlast : last ≠ c) : trimEndMatches s c = s := by
  have hkept : s.toList.rdropWhile (· == c) = s.toList := by
    rw [h, List.rdropWhile_concat_neg _ _ _ (by simpa using hlast)]
  rw [trimEndMatches, hkept, String.ofList_toList]

theorem trimEndMatches_display (ip : Ipv4Addr) : trimEndMatches ip.display '.' = ip.display := by
  obtain ⟨hdigits, hne, -⟩ := digits_octet ip.d
  have hlast := List.dropLast_append_getLast hne
  have hlist : ip.display.toList = (Nat.toDigits 10 ip.a.toNat ++
      '.' :: (Nat.toDigits 10 ip.b.toNat ++ '.' :: (Nat.toDigits 10 ip.c.toNat ++
      '.' :: (Nat.toDigits 10 ip.d.toNat).dropLast))) ++
      [(Nat.toDigits 10 ip.d.toNat).getLast hne] := by
    rw [Ipv4Addr.display_toList]
    simp only [List.append_assoc, List.cons_append, List.append_nil, hlast]
  apply trimEndMatches_of_last hlist
  · intro hdot
    have hdigit := hdigits _ (List.getLast_mem hne)
    rw [hdot] at hdigit
    exact absurd hdigit (by decide)

theorem trimEndMatches_bracketed (inner : String) :
    trimEndMatches ("[" ++ inner ++ "]") '.' = "[" ++ inner ++ "]" := by
  have hlist : ("[" ++ inner ++ "]").toList = ('[' :: inner.toList) ++ [']'] := by
    simp only [String.toList_append]
    rfl
  exact trimEndMatches_of_last hlist (by decide)

/-- A text with a character that `localhost` does not have is not it. -/
theorem not_localhost {s : String} {c : Char} (hc : c ∈ s.toList)
    (hnot : c.toLower ∉ "localhost".toList.map Char.toLower) :
    eqIgnoreAsciiCase s "localhost" = false := by
  apply beq_false_of_ne
  intro heq
  apply hnot
  rw [← heq]
  exact List.mem_map_of_mem hc

section Literal

variable {text : Ipv6Addr → String} {url : Url}

/-- For an IPv4 literal, `validate_public_http_url` decides as `reject_forbidden_ip` does. -/
theorem validatePublicHttpUrl_ipv4 {ip : Ipv4Addr} (hhost : url.host = some (.ipv4 ip))
    (hscheme : url.scheme = "http" ∨ url.scheme = "https") (hplain : ¬url.HasCredentials) :
    validatePublicHttpUrl text url = rejectForbiddenIp (.v4 ip) := by
  have hdot : '.' ∈ ip.display.toList := by
    rw [Ipv4Addr.display_toList]
    simp
  have hlocal : eqIgnoreAsciiCase ip.display "localhost" = false := not_localhost hdot (by decide)
  have hsupported : ¬(url.scheme ≠ "http" ∧ url.scheme ≠ "https") := by
    rintro ⟨hhttp, hhttps⟩
    exact hscheme.elim hhttp hhttps
  unfold validatePublicHttpUrl
  rw [if_neg hsupported, if_neg hplain]
  simp only [Url.hostStr, hhost, Option.map_some, trimEndMatches_display, hlocal,
    parseIpAddr_display, Bool.false_eq_true, if_false]

/-- For an IPv6 literal, `validate_public_http_url` lets every address pass: the bracketed
text does not parse. -/
theorem validatePublicHttpUrl_ipv6 {ip : Ipv6Addr} (hhost : url.host = some (.ipv6 ip))
    (hscheme : url.scheme = "http" ∨ url.scheme = "https") (hplain : ¬url.HasCredentials) :
    validatePublicHttpUrl text url = .ok () := by
  have hlist : ("[" ++ text ip ++ "]").toList = '[' :: ((text ip).toList ++ [']']) := by
    simp only [String.toList_append]
    rfl
  have hlocal : eqIgnoreAsciiCase ("[" ++ text ip ++ "]") "localhost" = false := by
    have hbracket : '[' ∈ ("[" ++ text ip ++ "]").toList := by
      rw [hlist]
      exact List.mem_cons_self
    exact not_localhost hbracket (by decide)
  have hsupported : ¬(url.scheme ≠ "http" ∧ url.scheme ≠ "https") := by
    rintro ⟨hhttp, hhttps⟩
    exact hscheme.elim hhttp hhttps
  unfold validatePublicHttpUrl
  rw [if_neg hsupported, if_neg hplain]
  simp only [Url.hostStr, hhost, Option.map_some, trimEndMatches_bracketed, hlocal,
    parseIpAddr_bracket hlist, Bool.false_eq_true, if_false]

/-- A URL with credentials never passes. -/
theorem validatePublicHttpUrl_credentials (h : url.HasCredentials) :
    validatePublicHttpUrl text url ≠ .ok () := by
  unfold validatePublicHttpUrl
  by_cases hscheme : url.scheme ≠ "http" ∧ url.scheme ≠ "https"
  · simp [hscheme]
  · simp only [if_neg hscheme, if_pos h]
    exact fun hpassed => nomatch hpassed

end Literal

end Tachyon
