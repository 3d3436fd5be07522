import Tachyon.Core.UrlSafety

/-!
# One verdict on an address

Redirect targets pass `validate_public_http_url`; FTP asks the parsed host itself.
On IP literals the three checks are compared with `reject_forbidden_ip`.
-/

namespace Tachyon

/-- `validate_redirect_target`. -/
def validateRedirectTarget (text : Ipv6Addr → String) (url : Url) : DownloadResult Unit :=
  validatePublicHttpUrl text url

/-- `FtpUrl`. -/
structure FtpUrl where
  host : String
  port : ℕ
  username : String
  password : String
  path : String
  deriving DecidableEq, Repr

/-- The host check of `parse_ftp_url`. -/
def checkFtpHost : Option Host → DownloadResult Unit
  | some (.ipv4 v4) => (rejectForbiddenIp (.v4 v4)).mapError fun e => .protocol e.display
  | some (.ipv6 v6) => (rejectForbiddenIp (.v6 v6)).mapError fun e => .protocol e.display
  | some (.domain domain) =>
    let normalized := trimEndMatches domain '.'
    if eqIgnoreAsciiCase normalized "localhost" then
      .error (.protocol "FTP 不允许访问 localhost")
    else .ok ()
  | none => .error (.protocol "FTP URL 缺少主机名")

/-- `FtpClient::parse_ftp_url`, from what the URL parser gave. -/
def parseFtpUrl (text : Ipv6Addr → String) : Except String Url → DownloadResult FtpUrl
  | .error e => .error (.protocol s!"FTP URL 解析失败: {e}")
  | .ok parsed =>
    let scheme := parsed.scheme
    if scheme ≠ "ftp" then .error (.protocol s!"URL 方案不是 ftp: {scheme}")
    else
      match checkFtpHost parsed.host with
      | .error e => .error e
      | .ok () =>
        match parsed.hostStr text with
        | none => .error (.protocol "FTP URL 缺少主机名")
        | some host => .ok {
            host := host
            port := parsed.port.getD 21
            username := if parsed.username = "" then "anonymous" else parsed.username
            password := parsed.password.getD "anonymous@aimodeldownloader"
            path := parsed.path }

/-- The URL passes only with an address that `reject_forbidden_ip` accepts, and as a redirect
target or with its host in an FTP URL it meets the same verdict. -/
structure OneVerdict (text : Ipv6Addr → String) (url : Url) (ip : IpAddr) : Prop where
  address : validatePublicHttpUrl text url = .ok () → rejectForbiddenIp ip = .ok ()
  redirect : validateRedirectTarget text url = .ok () ↔ validatePublicHttpUrl text url = .ok ()
  ftp : ¬url.HasCredentials → ∀ ftpUrl : Url, ftpUrl.scheme = "ftp" → ftpUrl.host = url.host →
    ((parseFtpUrl text (.ok ftpUrl)).isOk = true ↔ validatePublicHttpUrl text url = .ok ())

section

variable {text : Ipv6Addr → String} {url : Url} {ip : IpAddr}

/-- FTP takes an address exactly when `reject_forbidden_ip` does. -/
theorem parseFtpUrl_literal (hscheme : url.scheme = "ftp") (hhost : url.host = some ip.host) :
    (parseFtpUrl text (.ok url)).isOk = true ↔ rejectForbiddenIp ip = .ok () := by
  have hcheck : checkFtpHost url.host =
      (rejectForbiddenIp ip).mapError fun e => .protocol e.display := by
    rw [hhost]
    cases ip <;> rfl
  have htext : ∃ host, url.hostStr text = some host := by
    rw [Url.hostStr, hhost]
    exact ⟨_, rfl⟩
  obtain ⟨host, htext⟩ := htext
  unfold parseFtpUrl
  dsimp only
  rw [if_neg (not_not.mpr hscheme), hcheck, htext]
  cases hverdict : rejectForbiddenIp ip with
  | error e => simp [Except.mapError, Except.isOk, Except.toBool]
  | ok _ => simp [Except.mapError, Except.isOk, Except.toBool]

/-- On a URL with an IP literal the checks reach one verdict exactly when the URL has
credentials, the address is an IPv4 address, or it is one to accept. -/
theorem one_verdict_iff (text : Ipv6Addr → String)
    (hscheme : url.scheme = "http" ∨ url.scheme = "https") (hhost : url.host = some ip.host) :
    OneVerdict text url ip ↔
      url.HasCredentials ∨ (∃ v4, ip = .v4 v4) ∨ rejectForbiddenIp ip = .ok () := by
  by_cases hcredentials : url.HasCredentials
  · refine iff_of_true ⟨?_, Iff.rfl, fun hplain => absurd hcredentials hplain⟩
      (Or.inl hcredentials)
    exact fun hpassed => absurd hpassed (validatePublicHttpUrl_credentials hcredentials)
  rw [or_iff_right hcredentials]
  cases ip with
  | v4 ip =>
    have hsame := @validatePublicHttpUrl_ipv4 text url ip hhost hscheme hcredentials
    refine iff_of_true ⟨?_, Iff.rfl, fun _ ftpUrl hftp hsameHost => ?_⟩ (Or.inl ⟨ip, rfl⟩)
    · rw [hsame]
      exact id
    · rw [hsame]
      exact parseFtpUrl_literal hftp (hsameHost.trans hhost)
  | v6 ip =>
    have hpasses := @validatePublicHttpUrl_ipv6 text url ip hhost hscheme hcredentials
    constructor
    · intro h
      exact Or.inr (h.address hpasses)
    · rintro (⟨v4, hv4⟩ | haccepted)
      · cases hv4
      · refine ⟨fun _ => haccepted, Iff.rfl, fun _ ftpUrl hftp hsameHost => ?_⟩
        rw [parseFtpUrl_literal hftp (hsameHost.trans hhost)]
        exact iff_of_true haccepted hpasses

end

/-- The URL of a service on the IPv6 loopback address. -/
def loopbackUrl : Url := ⟨"http", "", none, some (.ipv6 ⟨0, 0, 0, 0, 0, 0, 0, 1⟩), none, "/"⟩

/-- The loopback address passes as `http://[::1]/`, though it is forbidden and FTP refuses it. -/
theorem loopback_passes :
    validatePublicHttpUrl Ipv6Addr.display loopbackUrl = .ok () ∧
    (parseFtpUrl Ipv6Addr.display (.ok { loopbackUrl with scheme := "ftp" })).isOk = false ∧
    ¬OneVerdict Ipv6Addr.display loopbackUrl (.v6 ⟨0, 0, 0, 0, 0, 0, 0, 1⟩) := by
  refine ⟨by decide, by decide, fun h => ?_⟩
  exact absurd (h.address (by decide)) (by decide)

/-- The checks agree on the IPv4 loopback address. -/
theorem one_verdict_iff_ipv4_loopback :
    OneVerdict Ipv6Addr.display ⟨"http", "", none, some (.ipv4 ⟨127, 0, 0, 1⟩), none, "/"⟩
        (.v4 ⟨127, 0, 0, 1⟩) ↔
      Url.HasCredentials ⟨"http", "", none, some (.ipv4 ⟨127, 0, 0, 1⟩), none, "/"⟩ ∨
        (∃ v4, IpAddr.v4 ⟨127, 0, 0, 1⟩ = .v4 v4) ∨
        rejectForbiddenIp (.v4 ⟨127, 0, 0, 1⟩) = .ok () :=
  one_verdict_iff Ipv6Addr.display (Or.inl rfl) rfl

end Tachyon
