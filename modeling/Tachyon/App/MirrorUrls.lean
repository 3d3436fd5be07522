import Tachyon.Library.Replacement

/-!
# Mirror URLs

A download from the hub goes to a mirror: `rewrite_hf_url` puts the mirror wherever the
origin of the hub stands in the text of the URL. That is right for a URL of the hub in its
usual spelling, whose path, query and fragment do not name the origin again, and for a URL
elsewhere that does not have the origin in its text.
-/

namespace Tachyon

open Replacement

/-- The host of the hub. -/
def hubHost : List Char := "huggingface.co".toList

/-- The text that is replaced. -/
def hfOrigin : List Char := "https://huggingface.co".toList

/-- The endpoint that `HF_ENDPOINT` names, or the usual mirror where it is not set or empty. -/
def mirrorOf (hfEndpoint : Option (List Char)) : List Char :=
  (hfEndpoint.filter fun s => !s.isEmpty).getD "https://hf-mirror.com".toList

/-- `rewrite_hf_url`. -/
def rewriteHfUrl (hfEndpoint : Option (List Char)) (url : List Char) : List Char :=
  if ¬hubHost <:+: url then url
  else replaceAll hfOrigin (mirrorOf hfEndpoint) url

/-! ### The text of a URL -/

/-- What stands between the two slashes and the path. -/
structure AuthorityText where
  userinfo : Option (List Char)
  host : List Char
  port : Option (List Char)
  userinfo_valid : ∀ text ∈ userinfo, ∀ c ∈ text, c ∉ ['/', '?', '#', '@']
  host_valid : ∀ c ∈ host, c ∉ ['/', '?', '#', '@']
  /-- Colons are those of an address between brackets. -/
  host_brackets : ':' ∈ host → '[' ∈ host
  port_valid : ∀ text ∈ port, ∀ c ∈ text, c.isDigit = true

/-- A URL with a scheme, an authority or none, and the text of its path, query and fragment. -/
structure UrlText where
  scheme : List Char
  authority : Option AuthorityText
  rest : List Char
  scheme_valid : ∃ c cs, scheme = c :: cs ∧ c.isAlpha = true ∧
    ∀ d ∈ cs, d.isAlphanum = true ∨ d ∈ ['+', '-', '.']
  /-- The authority ends with the path, the query or the fragment; without one the path does not
  begin with two slashes. -/
  rest_valid : if authority.isSome then ∀ c ∈ rest.head?, c ∈ ['/', '?', '#']
    else ¬['/', '/'] <+: rest

namespace AuthorityText

/-- The text of the authority. -/
def text (a : AuthorityText) : List Char :=
  (match a.userinfo with
    | none => []
    | some userinfo => userinfo ++ ['@']) ++ a.host ++
  match a.port with
    | none => []
    | some port => ':' :: port

/-- No port, or that of the scheme `https`. -/
def DefaultPort (a : AuthorityText) : Prop :=
  ∀ port ∈ a.port, port = [] ∨ Nat.ofDigitChars 10 port 0 = 443

end AuthorityText

namespace UrlText

/-- What stands before the path. -/
def origin (u : UrlText) : List Char :=
  u.scheme ++ ':' :: match u.authority with
    | none => []
    | some a => '/' :: '/' :: a.text

/-- The whole text. -/
def text (u : UrlText) : List Char := u.origin ++ u.rest

variable (parseHost : List Char → Option (List Char))

/-- The host of the URL is that of the hub, whatever its spelling. -/
def OfHub (u : UrlText) : Prop := ∃ a ∈ u.authority, parseHost a.host = some hubHost

/-- The URL is one of the hub, with the scheme `https` and its port. -/
def OfSecureHub (u : UrlText) : Prop :=
  u.scheme.map Char.toLower = "https".toList ∧
    ∃ a ∈ u.authority, parseHost a.host = some hubHost ∧ a.DefaultPort

/-- Only a URL of the hub is rewritten, to the same path, query and fragment at the endpoint. -/
def OnlyHubRewritten (hfEndpoint : Option (List Char)) (u : UrlText) : Prop :=
  (¬u.OfHub parseHost → rewriteHfUrl hfEndpoint u.text = u.text) ∧
    (u.OfSecureHub parseHost → rewriteHfUrl hfEndpoint u.text = mirrorOf hfEndpoint ++ u.rest)

end UrlText

theorem hfOrigin_ne_nil : hfOrigin ≠ [] := by decide

/-- The test for the host in front of the replacement makes no difference. -/
theorem rewriteHfUrl_eq (hfEndpoint : Option (List Char)) (url : List Char) :
    rewriteHfUrl hfEndpoint url = replaceAll hfOrigin (mirrorOf hfEndpoint) url := by
  unfold rewriteHfUrl
  by_cases hhost : hubHost <:+: url
  · rw [if_neg (not_not_intro hhost)]
  · have hsuffix : hubHost <:+: hfOrigin := by decide
    rw [if_pos hhost, replaceAll_of_absent fun hoccurs => hhost (hsuffix.trans hoccurs)]

/-- The letters of the hub's origin are small. -/
theorem toLower_of_mem_hfOrigin {c : Char} (h : c ∈ hfOrigin) : c.toLower = c := by
  have hall : hfOrigin.all fun c => c.toLower == c := by decide
  exact beq_iff_eq.mp (List.all_eq_true.mp hall c h)

/-- They are letters, but for the marks of a URL. -/
theorem isLower_of_mem_hfOrigin {c : Char} (h : c ∈ hfOrigin) (hslash : c ≠ '/')
    (hcolon : c ≠ ':') : c.isLower = true ∨ c = '.' := by
  have hall : hfOrigin.all fun c => c.isLower || c == '.' || c == '/' || c == ':' := by decide
  have hc := List.all_eq_true.mp hall c h
  rw [Bool.or_eq_true, Bool.or_eq_true, Bool.or_eq_true, beq_iff_eq, beq_iff_eq, beq_iff_eq] at hc
  rcases hc with ((hc | hc) | hc) | hc
  · exact .inl hc
  · exact .inr hc
  · exact absurd hc hslash
  · exact absurd hc hcolon

section

variable {parseHost : List Char → Option (List Char)}
  (hparse : ∀ name host, (∀ c ∈ name, c.isLower = true ∨ c = '.') → parseHost name = some host →
    host = name)
  {u : UrlText} {mirror : List Char}

/-- If the origin of a URL makes way for the endpoint and an occurrence was replaced, the origin is
made of the letters of the hub's. -/
theorem mem_hfOrigin_of_replaced (hoccurs : hfOrigin <:+: u.text)
    (h : replaceAll hfOrigin mirror u.text = mirror ++ u.rest) :
    ∀ c ∈ u.origin, c ∈ hfOrigin := by
  obtain ⟨k, hk, hcount⟩ := @exists_countP_replaceAll _ _ _ mirror hfOrigin_ne_nil u.text
  have hpos : k ≠ 0 := fun hzero => hk hzero hoccurs
  have hcount := hcount fun c => decide (c ∉ hfOrigin)
  have hnone : hfOrigin.countP (fun c => decide (c ∉ hfOrigin)) = 0 :=
    List.countP_eq_zero.mpr fun c hc => by simpa using hc
  rw [h, hnone, UrlText.text, List.countP_append, List.countP_append] at hcount
  have hle := Nat.le_mul_of_pos_left (mirror.countP fun c => decide (c ∉ hfOrigin))
    (Nat.pos_of_ne_zero hpos)
  have horigin : u.origin.countP (fun c => decide (c ∉ hfOrigin)) = 0 := by omega
  intro c hc
  simpa using List.countP_eq_zero.mp horigin c hc

include hparse

/-- A URL of the hub with an origin of such letters has the hub's, and possibly the mark of an empty
port. -/
theorem origin_of_mem_hfOrigin (hhub : u.OfSecureHub parseHost)
    (h : ∀ c ∈ u.origin, c ∈ hfOrigin) :
    u.origin = hfOrigin ∨ u.origin = hfOrigin ++ [':'] ∧ ∀ c ∈ u.rest.head?, c ≠ ':' := by
  obtain ⟨hscheme, a, ha, hhost, -⟩ := hhub
  have hauthority : u.authority = some a := ha
  have horigin : u.origin = u.scheme ++ ':' :: '/' :: '/' :: a.text := by
    rw [UrlText.origin, hauthority]
  have htext (c : Char) (hc : c ∈ a.text) : c ∈ hfOrigin := h c (by rw [horigin]; simp [hc])
  have hscheme : u.scheme = "https".toList := by
    rw [← hscheme, List.map_congr_left fun c hc => toLower_of_mem_hfOrigin
      (h c (by rw [horigin]; exact List.mem_append_left _ hc)), List.map_id']
  have huserinfo : a.userinfo = none := by
    cases hsome : a.userinfo with
    | none => rfl
    | some userinfo =>
      refine absurd (htext '@' ?_) (by decide)
      rw [AuthorityText.text, hsome]
      simp
  have hmem (c : Char) (hc : c ∈ a.host) : c ∈ hfOrigin := by
    refine htext c ?_
    rw [AuthorityText.text, huserinfo]
    exact List.mem_append_left _ hc
  have hname : a.host = hubHost := by
    refine (hparse a.host hubHost (fun c hc => ?_) hhost).symm
    refine isLower_of_mem_hfOrigin (hmem c hc) ?_ ?_
    · rintro rfl
      exact a.host_valid _ hc (by decide)
    · rintro rfl
      exact absurd (hmem _ (a.host_brackets hc)) (by decide)
  cases hport : a.port with
  | none =>
    left
    rw [horigin, AuthorityText.text, huserinfo, hport, hscheme, hname]
    rfl
  | some port =>
    have hempty : port = [] := by
      refine List.eq_nil_iff_forall_not_mem.mpr fun c hc => ?_
      have hdigit := a.port_valid port hport c hc
      have hall : hfOrigin.all fun c => !c.isDigit := by decide
      have hc := List.all_eq_true.mp hall c (htext c (by
        rw [AuthorityText.text, hport]
        simp [hc]))
      rw [hdigit] at hc
      cases hc
    right
    constructor
    · rw [horigin, AuthorityText.text, huserinfo, hport, hscheme, hname, hempty]
      rfl
    · have hrest := u.rest_valid
      rw [hauthority, Option.isSome_some, if_pos rfl] at hrest
      rintro c hc rfl
      exact absurd (hrest _ hc) (by decide)

/-- The text of a URL of the hub becomes the endpoint and the rest in one of two ways: it begins
with the origin that is replaced and does not have it again, or the endpoint is just another
spelling of its own origin and nothing is replaced. -/
theorem replaceAll_eq_append_iff (hhub : u.OfSecureHub parseHost) :
    replaceAll hfOrigin mirror u.text = mirror ++ u.rest ↔
      (u.origin = hfOrigin ∧ (¬hfOrigin <:+: u.rest ∨ mirror = hfOrigin)) ∨
        (u.origin = mirror ∧ ¬hfOrigin <:+: u.text) := by
  constructor
  · intro h
    by_cases hoccurs : hfOrigin <:+: u.text
    · left
      rcases origin_of_mem_hfOrigin hparse hhub (mem_hfOrigin_of_replaced hoccurs h) with
        horigin | ⟨horigin, hcolon⟩
      · rw [UrlText.text, horigin, replaceAll_append hfOrigin_ne_nil] at h
        exact ⟨horigin, (replaceAll_eq_self_iff hfOrigin_ne_nil).mp (List.append_cancel_left h)⟩
      · -- the mark of an empty port would stand at the front of the path
        have hfront : ¬hfOrigin <+: ':' :: u.rest := fun hprefix => by
          obtain ⟨after, hafter⟩ := hprefix
          exact absurd (List.cons.inj hafter).1 (by decide)
        rw [UrlText.text, horigin, List.append_assoc, replaceAll_append hfOrigin_ne_nil,
          List.singleton_append, replaceAll_cons hfront] at h
        have hrest := List.append_cancel_left h
        exact absurd rfl (hcolon ':' (by rw [← hrest]; rfl))
    · rw [replaceAll_of_absent hoccurs, UrlText.text] at h
      exact .inr ⟨List.append_cancel_right h, hoccurs⟩
  · rintro (⟨horigin, hrest⟩ | ⟨horigin, hoccurs⟩)
    · rw [UrlText.text, horigin, replaceAll_append hfOrigin_ne_nil,
        (replaceAll_eq_self_iff hfOrigin_ne_nil).mpr hrest]
    · rw [replaceAll_of_absent hoccurs, UrlText.text, horigin]

/-- A URL elsewhere is left alone exactly when the origin of the hub does not occur in its text or
is the endpoint itself. One of the hub is sent to the endpoint exactly when it begins with that
origin and does not have it again, or the endpoint is its own origin in another spelling. -/
theorem onlyHubRewritten_iff (hfEndpoint : Option (List Char)) (u : UrlText) :
    u.OnlyHubRewritten parseHost hfEndpoint ↔
      (¬u.OfHub parseHost → ¬hfOrigin <:+: u.text ∨ mirrorOf hfEndpoint = hfOrigin) ∧
        (u.OfSecureHub parseHost →
          (u.origin = hfOrigin ∧ (¬hfOrigin <:+: u.rest ∨ mirrorOf hfEndpoint = hfOrigin)) ∨
            (u.origin = mirrorOf hfEndpoint ∧ ¬hfOrigin <:+: u.text)) := by
  unfold UrlText.OnlyHubRewritten
  rw [rewriteHfUrl_eq, replaceAll_eq_self_iff hfOrigin_ne_nil]
  exact and_congr_right fun _ => imp_congr_right fun hhub => replaceAll_eq_append_iff hparse hhub

end

/-- A host parser for names in ASCII. -/
def asciiHost (name : List Char) : Option (List Char) := some (name.map Char.toLower)

theorem asciiHost_of_isLower {name host : List Char}
    (h : ∀ c ∈ name, c.isLower = true ∨ c = '.') (hhost : asciiHost name = some host) :
    host = name := by
  have hsame : name.map Char.toLower = name.map id := by
    refine List.map_congr_left fun c hc => ?_
    rcases h c hc with hlower | rfl
    · have hbounds : (decide (c.val ≥ 'a'.val) && decide (c.val ≤ 'z'.val)) = true := hlower
      rw [Bool.and_eq_true, decide_eq_true_eq, decide_eq_true_eq] at hbounds
      have hupper : ¬(c.val ≥ 'A'.val ∧ c.val ≤ 'Z'.val) := fun hupper =>
        absurd (UInt32.le_trans hbounds.1 hupper.2) (by decide)
      exact dif_neg hupper
    · rfl
  rw [asciiHost, hsame, List.map_id, Option.some.injEq] at hhost
  exact hhost.symm

/-- An authority that is a name alone. -/
def AuthorityText.ofName (host : List Char) (host_valid : ∀ c ∈ host, c ∉ ['/', '?', '#', '@'])
    (host_brackets : ':' ∈ host → '[' ∈ host) : AuthorityText where
  userinfo := none
  host := host
  port := none
  userinfo_valid := fun _ h => absurd h.symm (Option.some_ne_none _)
  host_valid := host_valid
  host_brackets := host_brackets
  port_valid := fun _ h => absurd h.symm (Option.some_ne_none _)

theorem https_valid : ∃ c cs, "https".toList = c :: cs ∧ c.isAlpha = true ∧
    ∀ d ∈ cs, d.isAlphanum = true ∨ d ∈ ['+', '-', '.'] :=
  ⟨'h', "ttps".toList, by decide, by decide, List.forall_iff_forall_mem.mp (by decide)⟩

/-- A host that begins like the hub's. -/
def lookalikeUrl : UrlText where
  scheme := "https".toList
  authority := some (.ofName "huggingface.co.evil.com".toList
    (List.forall_iff_forall_mem.mp (by decide)) (by decide))
  rest := "/m?sig=1".toList
  scheme_valid := https_valid
  rest_valid := by simp

/-- A file of the hub. -/
def hubUrl : UrlText where
  scheme := "https".toList
  authority := some (.ofName hubHost (List.forall_iff_forall_mem.mp (by decide)) (by decide))
  rest := "/m/resolve/main/f?download=true".toList
  scheme_valid := https_valid
  rest_valid := by simp

/-- A host that begins like the hub's is sent to one that begins like the mirror's. -/
theorem rewriteHfUrl_lookalike :
    rewriteHfUrl none "https://huggingface.co.evil.com/m?sig=1".toList =
        "https://hf-mirror.com.evil.com/m?sig=1".toList ∧
      ¬lookalikeUrl.OnlyHubRewritten asciiHost none := by
  have hrewritten : rewriteHfUrl none "https://huggingface.co.evil.com/m?sig=1".toList =
      "https://hf-mirror.com.evil.com/m?sig=1".toList := by decide
  refine ⟨hrewritten, fun h => ?_⟩
  have hnot : ¬lookalikeUrl.OfHub asciiHost := by
    rintro ⟨a, ha, hhost⟩
    cases ha
    exact absurd hhost (by decide)
  have htext : lookalikeUrl.text = "https://huggingface.co.evil.com/m?sig=1".toList := by decide
  have hsame := h.1 hnot
  rw [htext, hrewritten] at hsame
  exact absurd hsame (by decide)

/-- A file of the hub is fetched from the mirror. -/
theorem onlyHubRewritten_hubUrl : hubUrl.OnlyHubRewritten asciiHost none := by
  refine (onlyHubRewritten_iff (fun _ _ => asciiHost_of_isLower) none hubUrl).mpr ⟨?_, ?_⟩
  · exact fun hnot => absurd ⟨_, rfl, by decide⟩ hnot
  · exact fun _ => .inl ⟨by decide, .inl (by decide)⟩

end Tachyon
