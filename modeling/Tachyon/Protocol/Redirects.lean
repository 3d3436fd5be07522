import Tachyon.Library.EventRuns
import Tachyon.Protocol.UrlChecks

/-!
# Where a redirected request goes

An HTTP client with its resolver and its redirect policy, over all the requests it makes. The
server chooses every redirect target and the resolver of the system every answer; the state
records which addresses the client then turned to.
-/

namespace Tachyon

open EventRuns

/-- `DNS_CACHE_TTL_SECS`, in nanoseconds. -/
def dnsCacheTtl : ℕ := 60 * 1000000000

/-- `DNS_CACHE_MAX_ENTRIES`. -/
def dnsCacheMaxEntries : ℕ := 10000

/-- The entries of a `DashMap` of lookups: host, addresses and when they were found. -/
abbrev DnsCache := List (String × List IpAddr × ℕ)

/-- `PublicDnsResolver`. -/
structure PublicDnsResolver where
  cache : DnsCache
  deriving DecidableEq

/-- `PublicDnsResolver::new`. -/
def PublicDnsResolver.new : PublicDnsResolver := ⟨[]⟩

/-- The entries that `retain` keeps. -/
def retainFresh (now : ℕ) (cache : DnsCache) : DnsCache :=
  cache.filter fun entry => decide (now - entry.2.2 < dnsCacheTtl)

/-- The loop over the addresses of an answer. -/
def rejectAny : List IpAddr → DownloadResult Unit
  | [] => .ok ()
  | ip :: rest =>
    match rejectForbiddenIp ip with
    | .error err => .error err
    | .ok () => rejectAny rest

/-- The end of `resolve`: the answer is put into the cache if there is room. -/
def cacheAnswer (now : ℕ) (host : String) (addrs : List IpAddr) (cache : DnsCache) : DnsCache :=
  let cache := if cache.length ≥ dnsCacheMaxEntries then retainFresh now cache else cache
  if cache.length < dnsCacheMaxEntries then
    (host, addrs, now) :: cache.filter fun entry => decide (entry.1 ≠ host)
  else cache

/-- `resolve`, given the answer of `to_socket_addrs`. The second part is the cache it has
worked on, which is a clone of the resolver's own. -/
def PublicDnsResolver.resolve (self : PublicDnsResolver) (now : ℕ) (host : String)
    (answer : Except String (List IpAddr)) : Except String (List IpAddr) × DnsCache :=
  let cache := self.cache
  match cache.lookup host with
  | some (addrs, ts) =>
    if now - ts < dnsCacheTtl then (.ok addrs, cache)
    else lookupHost cache
  | none => lookupHost cache
where
  lookupHost (cache : DnsCache) : Except String (List IpAddr) × DnsCache :=
    match answer with
    | .error err => (.error err, cache)
    | .ok addrs =>
      match rejectAny addrs with
      | .error err => (.error err.display, cache)
      | .ok () => (.ok addrs, cacheAnswer now host addrs cache)

/-- `safe_redirect_policy`: the URLs requested so far, and the one to go to. -/
def safeRedirectPolicy (text : Ipv6Addr → String) (previous : List Url) (url : Url) :
    Except String Unit :=
  if previous.length ≥ 10 then .error "重定向次数超过 10 次"
  else
    match validateRedirectTarget text url with
    | .error err => .error err.display
    | .ok () => .ok ()

/-- Where a request is. -/
inductive FetchPhase where
  /-- Before `validate_public_http_url`. -/
  | checking
  /-- On the way to a domain. -/
  | resolving (name : String)
  /-- The addresses to connect to. -/
  | connecting (addrs : List IpAddr)
  /-- The request is sent. -/
  | sent
  | ended (result : Except String Unit)
  deriving DecidableEq

/-- An HTTP client with the request it makes, and what it has done so far: the answers of the
system's resolver, the addresses it connected to for a URL and the URLs it requested. -/
structure Fetch where
  resolver : PublicDnsResolver
  now : ℕ
  url : Url
  /-- `Attempt::previous`. -/
  previous : List Url
  phase : FetchPhase
  answers : List (String × List IpAddr)
  attempts : List (Url × IpAddr)
  requested : List Url
  deriving DecidableEq

/-- What happens to a client. -/
inductive FetchEvent where
  | elapse (nanos : ℕ)
  /-- The next request, of the same client. -/
  | start (url : Url)
  | check
  | resolve (answer : Except String (List IpAddr))
  | connect (ip : IpAddr)
  /-- The request goes out, on a connection made just now or one kept alive. -/
  | send
  | redirect (url : Url)
  | finish

/-- How a request gets to the host of its URL: only a domain is looked up. -/
def toward (url : Url) : FetchPhase :=
  match url.host with
  | some (.domain name) => .resolving name
  | some (.ipv4 ip) => .connecting [.v4 ip]
  | some (.ipv6 ip) => .connecting [.v6 ip]
  | none => .ended (.error "URL 主机为空")

namespace Fetch

/-- A client with its first request. -/
def new (url : Url) : Fetch := ⟨.new, 0, url, [], .checking, [], [], []⟩

/-- The answers of the system with one more. -/
def noteAnswer (answers : List (String × List IpAddr)) (name : String) :
    Except String (List IpAddr) → List (String × List IpAddr)
  | .error _ => answers
  | .ok addrs => answers ++ [(name, addrs)]

/-- A step of a request. -/
def step (text : Ipv6Addr → String) (s : Fetch) : FetchEvent → Option Fetch
  | .elapse nanos => some { s with now := s.now + nanos }
  | .start url =>
    match s.phase with
    | .ended _ => some { s with url := url, previous := [], phase := .checking }
    | _ => none
  | .check =>
    match s.phase with
    | .checking =>
      match validatePublicHttpUrl text s.url with
      | .error err => some { s with phase := .ended (.error err.display) }
      | .ok () => some { s with phase := toward s.url }
    | _ => none
  | .resolve answer =>
    match s.phase with
    | .resolving name =>
      let answers := noteAnswer s.answers name answer
      -- the clone of the cache is dropped with the future
      match (s.resolver.resolve s.now name answer).1 with
      | .error err => some { s with answers := answers, phase := .ended (.error err) }
      | .ok addrs => some { s with answers := answers, phase := .connecting addrs }
    | _ => none
  | .connect ip =>
    match s.phase with
    | .connecting addrs =>
      if ip ∈ addrs then some { s with attempts := s.attempts ++ [(s.url, ip)] } else none
    | _ => none
  | .send =>
    match s.phase with
    | .resolving _ | .connecting _ =>
      if s.url.host ∈ s.attempts.map (·.1.host) then some { s with
        previous := s.previous ++ [s.url], phase := .sent, requested := s.requested ++ [s.url] }
      else none
    | _ => none
  | .redirect url =>
    match s.phase with
    | .sent =>
      match safeRedirectPolicy text s.previous url with
      | .error err => some { s with phase := .ended (.error err) }
      | .ok () => some { s with url := url, phase := toward url }
    | _ => none
  | .finish =>
    match s.phase with
    | .sent => some { s with phase := .ended (.ok ()) }
    | _ => none

/-- An address the client may turn to for a URL: what a domain was resolved to has been checked
as a whole, an IPv4 host has been checked, an IPv6 host is taken as it is. -/
def Vetted (answers : List (String × List IpAddr)) (url : Url) (ip : IpAddr) : Prop :=
  match url.host with
  | some (.domain name) => ∃ answer, (name, answer) ∈ answers ∧ ip ∈ answer ∧
    ∀ a ∈ answer, rejectForbiddenIp a = .ok ()
  | some (.ipv4 v4) => ip = .v4 v4 ∧ rejectForbiddenIp ip = .ok ()
  | some (.ipv6 v6) => ip = .v6 v6
  | none => False

/-- What a client has done: at most ten requests for each fetch, only with URLs that passed,
and only to addresses that were looked at. The resolver never has anything in its cache. -/
structure Sound (text : Ipv6Addr → String) (s : Fetch) : Prop where
  requests : s.previous.length ≤ 10
  requested : ∀ url ∈ s.requested, validatePublicHttpUrl text url = .ok ()
  attempts : ∀ a ∈ s.attempts, validatePublicHttpUrl text a.1 = .ok () ∧ Vetted s.answers a.1 a.2
  cache : s.resolver.cache = []

/-- What is known of a request on its way. -/
def Underway (text : Ipv6Addr → String) (s : Fetch) : Prop :=
  match s.phase with
  | .checking => s.previous = []
  | .resolving name => s.previous.length ≤ 9 ∧ validatePublicHttpUrl text s.url = .ok () ∧
    s.url.host = some (.domain name)
  | .connecting addrs => s.previous.length ≤ 9 ∧ validatePublicHttpUrl text s.url = .ok () ∧
    ∀ ip ∈ addrs, Vetted s.answers s.url ip
  | .sent | .ended _ => True

/-- What every reachable state keeps. -/
structure Inv (text : Ipv6Addr → String) (s : Fetch) : Prop extends Sound text s where
  underway : s.Underway text

section

variable {text : Ipv6Addr → String} {s s' : Fetch} {url : Url} {ip : IpAddr}
  {answers answers' : List (String × List IpAddr)} {e : FetchEvent}

/-! ### What the checks let through -/

theorem rejectAny_ok {addrs : List IpAddr} (h : rejectAny addrs = .ok ()) :
    ∀ ip ∈ addrs, rejectForbiddenIp ip = .ok () := by
  induction addrs with
  | nil => exact fun _ hip => absurd hip List.not_mem_nil
  | cons a rest ih =>
    unfold rejectAny at h
    cases ha : rejectForbiddenIp a with
    | error err =>
      rw [ha] at h
      cases h
    | ok _ =>
      rw [ha] at h
      intro ip hip
      rcases List.mem_cons.mp hip with rfl | hrest
      · exact ha
      · exact ih h ip hrest

/-- With an empty cache `resolve` asks the system, and passes on an answer that was checked as
a whole. -/
theorem resolve_ok {resolver : PublicDnsResolver} {now : ℕ} {name : String}
    {answer : Except String (List IpAddr)} {addrs : List IpAddr} (hcache : resolver.cache = [])
    (h : (resolver.resolve now name answer).1 = .ok addrs) :
    answer = .ok addrs ∧ ∀ ip ∈ addrs, rejectForbiddenIp ip = .ok () := by
  unfold PublicDnsResolver.resolve at h
  rw [hcache] at h
  dsimp only [List.lookup] at h
  unfold PublicDnsResolver.resolve.lookupHost at h
  cases answer with
  | error err => cases h
  | ok found =>
    dsimp only at h
    cases hfound : rejectAny found with
    | error err =>
      rw [hfound] at h
      cases h
    | ok _ =>
      rw [hfound] at h
      obtain rfl := Except.ok.inj h
      exact ⟨rfl, rejectAny_ok hfound⟩

theorem safeRedirectPolicy_ok {previous : List Url}
    (h : safeRedirectPolicy text previous url = .ok ()) :
    previous.length ≤ 9 ∧ validatePublicHttpUrl text url = .ok () := by
  unfold safeRedirectPolicy at h
  split_ifs at h with hmany
  cases hvalid : validateRedirectTarget text url with
  | error err =>
    rw [hvalid] at h
    cases h
  | ok _ => exact ⟨by omega, hvalid⟩

/-- A URL that passes has no credentials and a scheme to request. -/
theorem plain_of_valid (h : validatePublicHttpUrl text url = .ok ()) :
    (url.scheme = "http" ∨ url.scheme = "https") ∧ ¬url.HasCredentials := by
  have hplain : ¬url.HasCredentials := fun hc => validatePublicHttpUrl_credentials hc h
  refine ⟨?_, hplain⟩
  unfold validatePublicHttpUrl at h
  by_contra hscheme
  rw [if_pos (not_or.mp hscheme)] at h
  cases h

/-- On the way to a URL that passed, the addresses to connect to are looked at. -/
theorem underway_toward (hprevious : s.previous.length ≤ 9)
    (hvalid : validatePublicHttpUrl text url = .ok ()) :
    Underway text { s with url := url, phase := toward url } := by
  unfold Underway toward
  obtain ⟨hscheme, hplain⟩ := plain_of_valid hvalid
  cases hhost : url.host with
  | none => trivial
  | some host =>
    cases host with
    | domain name => exact ⟨hprevious, hvalid, rfl⟩
    | ipv4 v4 =>
      refine ⟨hprevious, hvalid, fun ip hip => ?_⟩
      obtain rfl := List.mem_singleton.mp hip
      have haccepted : rejectForbiddenIp (.v4 v4) = .ok () := by
        rw [← validatePublicHttpUrl_ipv4 hhost hscheme hplain]
        exact hvalid
      unfold Vetted
      rw [hhost]
      exact ⟨rfl, haccepted⟩
    | ipv6 v6 =>
      refine ⟨hprevious, hvalid, fun ip hip => ?_⟩
      obtain rfl := List.mem_singleton.mp hip
      unfold Vetted
      rw [hhost]

theorem Vetted.mono (h : Vetted answers url ip) (hsub : answers ⊆ answers') :
    Vetted answers' url ip := by
  unfold Vetted at h ⊢
  cases hhost : url.host with
  | none =>
    rw [hhost] at h
    exact h
  | some host =>
    rw [hhost] at h
    cases host with
    | domain name =>
      obtain ⟨answer, hanswer, hip, haccepted⟩ := h
      exact ⟨answer, hsub hanswer, hip, haccepted⟩
    | ipv4 v4 => exact h
    | ipv6 v6 => exact h

/-- Only an IPv6 host is connected to although it is forbidden. -/
theorem Vetted.forbidden (h : Vetted answers url ip) (hip : rejectForbiddenIp ip ≠ .ok ()) :
    ∃ v6, url.host = some (.ipv6 v6) ∧ ip = .v6 v6 := by
  unfold Vetted at h
  cases hhost : url.host with
  | none =>
    rw [hhost] at h
    exact h.elim
  | some host =>
    rw [hhost] at h
    cases host with
    | domain name =>
      obtain ⟨answer, -, hmem, haccepted⟩ := h
      exact absurd (haccepted ip hmem) hip
    | ipv4 v4 => exact absurd h.2 hip
    | ipv6 v6 => exact ⟨v6, rfl, h⟩

/-! ### Each step -/

/-- A request that comes to another place, with the same URLs requested and connected to. -/
theorem Inv.beside (h : s.Inv text) (hprevious : s'.previous.length ≤ 10)
    (hrequested : s'.requested = s.requested) (hattempts : s'.attempts = s.attempts)
    (hanswers : s.answers ⊆ s'.answers) (hresolver : s'.resolver = s.resolver)
    (hunderway : s'.Underway text) : s'.Inv text where
  requests := hprevious
  requested := by
    rw [hrequested]
    exact h.requested
  attempts a ha := by
    rw [hattempts] at ha
    obtain ⟨hvalid, hvetted⟩ := h.attempts a ha
    exact ⟨hvalid, hvetted.mono hanswers⟩
  cache := by
    rw [hresolver]
    exact h.cache
  underway := hunderway

theorem Inv.resolve (h : s.Inv text) {answer : Except String (List IpAddr)}
    (hs : s.step text (.resolve answer) = some s') : s'.Inv text := by
  have hunderway := h.underway
  unfold Underway at hunderway
  simp only [step] at hs
  cases hphase : s.phase with
  | resolving name =>
    rw [hphase] at hs hunderway
    obtain ⟨hprevious, hvalid, hhost⟩ := hunderway
    have hsub : s.answers ⊆ noteAnswer s.answers name answer := by
      cases answer with
      | error _ => exact fun _ ha => ha
      | ok addrs => exact List.subset_append_left _ _
    dsimp only at hs
    cases hresolved : (s.resolver.resolve s.now name answer).1 with
    | error err =>
      rw [hresolved] at hs
      obtain rfl := Option.some.inj hs
      exact h.beside h.requests rfl rfl hsub rfl trivial
    | ok addrs =>
      rw [hresolved] at hs
      obtain rfl := Option.some.inj hs
      obtain ⟨rfl, haccepted⟩ := resolve_ok h.cache hresolved
      refine h.beside h.requests rfl rfl hsub rfl ⟨hprevious, hvalid, fun ip hip => ?_⟩
      unfold Vetted
      rw [hhost]
      exact ⟨addrs, List.mem_append_right _ (List.mem_singleton.mpr rfl), hip, haccepted⟩
  | _ =>
    rw [hphase] at hs
    cases hs

theorem Inv.connect (h : s.Inv text) (hs : s.step text (.connect ip) = some s') : s'.Inv text := by
  have hunderway := h.underway
  unfold Underway at hunderway
  simp only [step] at hs
  cases hphase : s.phase with
  | connecting addrs =>
    rw [hphase] at hs hunderway
    obtain ⟨hprevious, hvalid, hvetted⟩ := hunderway
    dsimp only at hs
    split_ifs at hs with hip
    obtain rfl := Option.some.inj hs
    refine ⟨⟨h.requests, h.requested, fun a ha => ?_, h.cache⟩, ?_⟩
    · rcases List.mem_append.mp ha with hold | hnew
      · exact h.attempts a hold
      · obtain rfl := List.mem_singleton.mp hnew
        exact ⟨hvalid, hvetted ip hip⟩
    · exact ⟨hprevious, hvalid, hvetted⟩
  | _ =>
    rw [hphase] at hs
    cases hs

theorem Inv.send (h : s.Inv text) (hs : s.step text .send = some s') : s'.Inv text := by
  have hready : s.previous.length ≤ 9 ∧ validatePublicHttpUrl text s.url = .ok () ∧
      s' = { s with
        previous := s.previous ++ [s.url]
        phase := .sent, requested := s.requested ++ [s.url] } := by
    have hunderway := h.underway
    unfold Underway at hunderway
    simp only [step] at hs
    cases hphase : s.phase with
    | resolving name =>
      rw [hphase] at hs hunderway
      dsimp only at hs
      split_ifs at hs
      exact ⟨hunderway.1, hunderway.2.1, (Option.some.inj hs).symm⟩
    | connecting addrs =>
      rw [hphase] at hs hunderway
      dsimp only at hs
      split_ifs at hs
      exact ⟨hunderway.1, hunderway.2.1, (Option.some.inj hs).symm⟩
    | _ =>
      rw [hphase] at hs
      cases hs
  obtain ⟨hprevious, hvalid, rfl⟩ := hready
  refine ⟨⟨?_, fun url hurl => ?_, h.attempts, h.cache⟩, trivial⟩
  · rw [List.length_append]
    exact Nat.add_le_add_right hprevious 1
  · rcases List.mem_append.mp hurl with hold | hnew
    · exact h.requested url hold
    · obtain rfl := List.mem_singleton.mp hnew
      exact hvalid

theorem Inv.check (h : s.Inv text) (hs : s.step text .check = some s') : s'.Inv text := by
  have hunderway := h.underway
  unfold Underway at hunderway
  simp only [step] at hs
  cases hphase : s.phase with
  | checking =>
    rw [hphase] at hs hunderway
    cases hvalid : validatePublicHttpUrl text s.url with
    | error err =>
      rw [hvalid] at hs
      obtain rfl := Option.some.inj hs
      exact h.beside h.requests rfl rfl (fun _ ha => ha) rfl trivial
    | ok _ =>
      rw [hvalid] at hs
      obtain rfl := Option.some.inj hs
      have hfirst : s.previous.length ≤ 9 := by
        rw [hunderway]
        exact Nat.zero_le _
      exact h.beside h.requests rfl rfl (fun _ ha => ha) rfl (underway_toward hfirst hvalid)
  | _ =>
    rw [hphase] at hs
    cases hs

theorem Inv.redirect (h : s.Inv text) (hs : s.step text (.redirect url) = some s') :
    s'.Inv text := by
  simp only [step] at hs
  cases hphase : s.phase with
  | sent =>
    rw [hphase] at hs
    cases hpolicy : safeRedirectPolicy text s.previous url with
    | error err =>
      rw [hpolicy] at hs
      obtain rfl := Option.some.inj hs
      exact h.beside h.requests rfl rfl (fun _ ha => ha) rfl trivial
    | ok _ =>
      rw [hpolicy] at hs
      obtain rfl := Option.some.inj hs
      obtain ⟨hprevious, hvalid⟩ := safeRedirectPolicy_ok hpolicy
      exact h.beside h.requests rfl rfl (fun _ ha => ha) rfl (underway_toward hprevious hvalid)
  | _ =>
    rw [hphase] at hs
    cases hs

theorem Inv.step (h : s.Inv text) (hs : s.step text e = some s') : s'.Inv text := by
  cases e with
  | elapse nanos =>
    obtain rfl := Option.some.inj hs
    exact h.beside h.requests rfl rfl (fun _ ha => ha) rfl h.underway
  | start url =>
    simp only [Fetch.step] at hs
    cases hphase : s.phase with
    | ended result =>
      rw [hphase] at hs
      obtain rfl := Option.some.inj hs
      exact h.beside (Nat.zero_le _) rfl rfl (fun _ ha => ha) rfl rfl
    | _ =>
      rw [hphase] at hs
      cases hs
  | check => exact h.check hs
  | resolve answer => exact h.resolve hs
  | connect ip => exact h.connect hs
  | send => exact h.send hs
  | redirect url => exact h.redirect hs
  | finish =>
    simp only [Fetch.step] at hs
    cases hphase : s.phase with
    | sent =>
      rw [hphase] at hs
      obtain rfl := Option.some.inj hs
      exact h.beside h.requests rfl rfl (fun _ ha => ha) rfl trivial
    | _ =>
      rw [hphase] at hs
      cases hs

/-! ### Whole runs -/

theorem inv_new : (new url).Inv text where
  requests := Nat.zero_le _
  requested _ h := absurd h List.not_mem_nil
  attempts _ h := absurd h List.not_mem_nil
  cache := rfl
  underway := rfl

/-- Whatever the server redirects to and the resolver answers, over all the fetches of a client:
a fetch makes at most ten requests, each of a URL that passed `validate_public_http_url`; an
address is connected to only if it comes from an answer every address of which passed
`reject_forbidden_ip`, is an IPv4 host that passed it, or is the IPv6 host of the URL. -/
theorem redirects_sound (text : Ipv6Addr → String) (url : Url) (events : List FetchEvent) :
    EachState (Fetch.step text) (Sound text) (new url) events := by
  have hstep (s : Fetch) (e : FetchEvent) (s' : Fetch) (h : s.Inv text) (_ : True)
      (hs : s.step text e = some s') : s'.Inv text := h.step hs
  have hall : EachState (Fetch.step text) (Inv text) (new url) events :=
    EachStep.eachState hstep inv_new (.of_forall fun _ _ => trivial)
  exact hall.imp fun _ h => h.toSound

/-- The start of another fetch. -/
def isStart : FetchEvent → Bool
  | .start _ => true
  | _ => false

/-- The URL of an address. -/
def literalUrl (ip : IpAddr) : Url := ⟨"http", "", none, some ip.host, none, "/"⟩

theorem literalUrl_valid (h : rejectForbiddenIp ip = .ok () ∨ ∃ v6, ip = .v6 v6) :
    validatePublicHttpUrl text (literalUrl ip) = .ok () := by
  have hplain : ¬(literalUrl ip).HasCredentials := by simp [Url.HasCredentials, literalUrl]
  cases ip with
  | v4 v4 =>
    rw [validatePublicHttpUrl_ipv4 rfl (.inl rfl) hplain]
    exact h.resolve_right fun ⟨_, hv6⟩ => IpAddr.noConfusion hv6
  | v6 v6 => exact validatePublicHttpUrl_ipv6 rfl (.inl rfl) hplain

theorem toward_literalUrl : toward (literalUrl ip) = .connecting [ip] := by
  cases ip <;> rfl

/-- A request goes out on a new connection. -/
theorem connect_send {addrs : List IpAddr} (hphase : s.phase = .connecting addrs)
    (hip : ip ∈ addrs) : ∃ s', run (Fetch.step text) s [.connect ip, .send] = some s' ∧
      s'.phase = .sent ∧ s'.previous = s.previous ++ [s.url] := by
  have hconnect : s.step text (.connect ip) =
      some { s with attempts := s.attempts ++ [(s.url, ip)] } := by
    simp only [step, hphase, if_pos hip]
  have hsend : step text { s with attempts := s.attempts ++ [(s.url, ip)] } .send =
      some { s with
        attempts := s.attempts ++ [(s.url, ip)], previous := s.previous ++ [s.url]
        phase := .sent, requested := s.requested ++ [s.url] } := by
    simp [step, hphase]
  exact ⟨_, run_cons.mpr ⟨_, hconnect, run_cons.mpr ⟨_, hsend, rfl⟩⟩, rfl, rfl⟩

/-- A URL that passes is requested. -/
theorem first_request (hvalid : validatePublicHttpUrl text url = .ok ()) :
    ∃ events s, (∀ e ∈ events, isStart e = false) ∧
      run (Fetch.step text) (new url) events = some s ∧ s.phase = .sent ∧ s.previous = [url] := by
  let first : Fetch := { new url with phase := toward url }
  have hcheck : (new url).step text .check = some first := by
    simp only [step, new, hvalid, first]
  cases hhost : url.host with
  | none =>
    obtain ⟨hscheme, hplain⟩ := plain_of_valid hvalid
    have hnone : url.hostStr text = none := by rw [Url.hostStr, hhost, Option.map_none]
    unfold validatePublicHttpUrl at hvalid
    rw [hnone, if_neg (by tauto), if_neg hplain] at hvalid
    cases hvalid
  | some host =>
    cases host with
    | domain name =>
      have hphase : first.phase = .resolving name := by simp only [first, toward, hhost]
      let ip : IpAddr := .v4 ⟨1, 1, 1, 1⟩
      let second : Fetch :=
        { first with answers := [(name, [ip])], phase := .connecting [ip] }
      have hanswer : (first.resolver.resolve first.now name (.ok [ip])).1 = .ok [ip] := rfl
      have hresolve : first.step text (.resolve (.ok [ip])) = some second := by
        simp only [step, hphase, hanswer]
        rfl
      have hconnecting : second.phase = .connecting [ip] := rfl
      obtain ⟨s, hrun, hsent, hprevious⟩ :=
        connect_send hconnecting (List.mem_singleton.mpr rfl)
      refine ⟨[.check, .resolve (.ok [ip]), .connect ip, .send], s, by simp [isStart],
        run_cons.mpr ⟨_, hcheck, run_cons.mpr ⟨_, hresolve, hrun⟩⟩, hsent, hprevious⟩
    | ipv4 v4 =>
      have hphase : first.phase = .connecting [.v4 v4] := by simp only [first, toward, hhost]
      obtain ⟨s, hrun, hsent, hprevious⟩ := connect_send hphase (List.mem_singleton.mpr rfl)
      exact ⟨[.check, .connect (.v4 v4), .send], s, by simp [isStart],
        run_cons.mpr ⟨_, hcheck, hrun⟩, hsent, hprevious⟩
    | ipv6 v6 =>
      have hphase : first.phase = .connecting [.v6 v6] := by simp only [first, toward, hhost]
      obtain ⟨s, hrun, hsent, hprevious⟩ := connect_send hphase (List.mem_singleton.mpr rfl)
      exact ⟨[.check, .connect (.v6 v6), .send], s, by simp [isStart],
        run_cons.mpr ⟨_, hcheck, hrun⟩, hsent, hprevious⟩

/-- Which addresses a server can send the client to: whatever URL the user gave, a redirect
leads the client to exactly the addresses `reject_forbidden_ip` accepts and all of IPv6. -/
theorem redirected_to_iff (hvalid : validatePublicHttpUrl text url = .ok ()) :
    (∃ events s, (∀ e ∈ events, isStart e = false) ∧
      run (Fetch.step text) (new url) events = some s ∧ ∃ target, (target, ip) ∈ s.attempts) ↔
      rejectForbiddenIp ip = .ok () ∨ ∃ v6, ip = .v6 v6 := by
  have hstep (s : Fetch) (e : FetchEvent) (s' : Fetch) (h : s.Inv text) (_ : True)
      (hs : s.step text e = some s') : s'.Inv text := h.step hs
  constructor
  · rintro ⟨events, s, -, hrun, target, hattempt⟩
    have hinv := run_invariant hstep inv_new (.of_forall fun _ _ => trivial) hrun
    obtain ⟨-, hvetted⟩ := hinv.attempts _ hattempt
    refine or_iff_not_imp_left.mpr fun hforbidden => ?_
    obtain ⟨v6, -, hip⟩ := hvetted.forbidden hforbidden
    exact ⟨v6, hip⟩
  · intro hip
    obtain ⟨events, s, hevents, hrun, hsent, hprevious⟩ := first_request hvalid
    have htarget : validatePublicHttpUrl text (literalUrl ip) = .ok () := literalUrl_valid hip
    have hpolicy : safeRedirectPolicy text s.previous (literalUrl ip) = .ok () := by
      simp only [safeRedirectPolicy, validateRedirectTarget, hprevious, htarget]
      rfl
    let away : Fetch := { s with url := literalUrl ip, phase := toward (literalUrl ip) }
    have hredirect : s.step text (.redirect (literalUrl ip)) = some away := by
      simp only [step, hsent, hpolicy, away]
    let last : Fetch := { away with attempts := s.attempts ++ [(literalUrl ip, ip)] }
    have hconnect : away.step text (.connect ip) = some last := by
      simp [step, away, last, toward_literalUrl]
    refine ⟨events ++ [.redirect (literalUrl ip), .connect ip], last, ?_, ?_, literalUrl ip,
      List.mem_append_right _ (List.mem_singleton.mpr rfl)⟩
    · intro e he
      rcases List.mem_append.mp he with hfirst | hsecond
      · exact hevents e hfirst
      · simp only [List.mem_cons, List.not_mem_nil, or_false] at hsecond
        rcases hsecond with rfl | rfl <;> rfl
    · rw [run_append, hrun]
      exact run_cons.mpr ⟨_, hredirect, run_cons.mpr ⟨_, hconnect, rfl⟩⟩

/-- From a host on the internet a redirect leads to the loopback address of the user. -/
theorem redirected_to_iff_loopback :
    (∃ events s, (∀ e ∈ events, isStart e = false) ∧
      run (Fetch.step Ipv6Addr.display)
        (new ⟨"https", "", none, some (.domain "example.com"), none, "/f"⟩) events = some s ∧
      ∃ target, (target, IpAddr.v6 ⟨0, 0, 0, 0, 0, 0, 0, 1⟩) ∈ s.attempts) ↔
      rejectForbiddenIp (.v6 ⟨0, 0, 0, 0, 0, 0, 0, 1⟩) = .ok () ∨
        ∃ v6, IpAddr.v6 ⟨0, 0, 0, 0, 0, 0, 0, 1⟩ = .v6 v6 :=
  redirected_to_iff (by decide)

end

end Fetch

end Tachyon
