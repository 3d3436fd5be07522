import Tachyon.App.Sniffer
import Tachyon.Core.Error
import Tachyon.Library.FormQuery

/-!
# Captures while filters are added

`add_sniffer_resource` reads the filters, lets them go, and takes the store later; other captures
and new filters come in between. What is shown of the captures is the same whatever the values of
their sensitive parameters are.
-/

namespace Tachyon

/-- `add_sniffer_filter_inner` -/
def addSnifferFilter (filters : List String) (filter : String) : Except AppError (List String) :=
  if filter.isEmpty then .error (.config "过滤规则不能为空")
  else if filters.contains filter then .error (.config "过滤规则已存在")
  else .ok (filters ++ [filter])

/-- The filters and the store of `AppState`, with the calls of `add_sniffer_resource` that have
passed the filters. -/
structure CaptureSession where
  filters : List String
  store : List SnifferResource
  passed : List Capture

/-- What happens to the filters and the store. -/
inductive CaptureEvent where
  | addFilter (filter : String)
  /-- `add_sniffer_resource` reads the filters. -/
  | check (url id : String) (now : ℕ)
  /-- A call of `add_sniffer_resource` takes the store. -/
  | keep (call : ℕ)

namespace CaptureSession

def new : CaptureSession := ⟨[], [], []⟩

/-- `get_sniffer_resources_inner` -/
def resources (s : CaptureSession) : List SnifferResource := s.store.reverse

def step (crate : UrlCrate) (s : CaptureSession) : CaptureEvent → CaptureSession
  | .addFilter filter =>
    match addSnifferFilter s.filters filter with
    | .ok filters => { s with filters := filters }
    | .error _ => s
  | .check url id now =>
    let c : Capture := ⟨url, s.filters, id, now⟩
    if c.passes then { s with passed := s.passed ++ [c] } else s
  | .keep call =>
    match s.passed[call]? with
    | some c => { s with
        store := addSnifferResource crate s.store c
        passed := s.passed.eraseIdx call }
    | none => s

def run (crate : UrlCrate) (events : List CaptureEvent) : CaptureSession :=
  events.foldl (step crate) new

end CaptureSession

/-! ### Secrets of a URL -/

/-- A sensitive parameter of the URL has a value that is not redacted. -/
def HasSecret (crate : UrlCrate) (url : String) : Prop :=
  ∃ parsed, crate.parse url = .ok parsed ∧
    ∃ pair ∈ crate.queryPairs parsed, isSensitive pair.1 = true ∧ pair.2 ≠ "[REDACTED]"

/-- Two URLs with secrets that differ in nothing else. -/
structure SecretsApart (crate : UrlCrate) (url url' : String) : Prop where
  secret : HasSecret crate url
  secret' : HasSecret crate url'
  same : ∃ parsed parsed', crate.parse url = .ok parsed ∧ crate.parse url' = .ok parsed' ∧
    crate.parts parsed = crate.parts parsed' ∧
    crate.setQueryNone parsed = crate.setQueryNone parsed' ∧
    (crate.queryPairs parsed).map redactPair = (crate.queryPairs parsed').map redactPair

/-- The same URL, or one that differs in its secrets. -/
def AlikeUrls (crate : UrlCrate) (url url' : String) : Prop :=
  url = url' ∨ SecretsApart crate url url'

/-- Two events that differ at most in the secrets of a captured URL, which the filters of the
session do not tell apart. -/
inductive CaptureEvent.Alike (crate : UrlCrate) (filters : List String) :
    CaptureEvent → CaptureEvent → Prop
  | addFilter {filter : String} (h : filter ∈ filters) :
      Alike crate filters (.addFilter filter) (.addFilter filter)
  | check {url url' id : String} {now : ℕ} (h : AlikeUrls crate url url')
      (hfilters : ∀ filter ∈ filters, hasText url filter = hasText url' filter) :
      Alike crate filters (.check url id now) (.check url' id now)
  | keep {call : ℕ} : Alike crate filters (.keep call) (.keep call)

section

variable {crate : UrlCrate} {url url' : String}

/-- Redaction leaves no secret. -/
theorem not_hasSecret_redactSensitiveParams (hdoc : crate.Documented) (url : String) :
    ¬HasSecret crate (redactSensitiveParams crate url) := by
  rintro ⟨parsed', hparse', pair, hpair, hsensitive, hvalue⟩
  unfold redactSensitiveParams at hparse'
  cases hparse : crate.parse url with
  | error e =>
    rw [hparse] at hparse'
    dsimp only at hparse'
    rw [hparse] at hparse'
    cases hparse'
  | ok parsed =>
    rw [hparse] at hparse'
    dsimp only at hparse'
    by_cases hany : (crate.queryPairs parsed).any (fun pair => isSensitive pair.1) = true
    · rw [if_pos hany] at hparse'
      have hne : (crate.queryPairs parsed).map redactPair ≠ [] := by
        intro hnil
        rw [List.map_eq_nil_iff.mp hnil] at hany
        cases hany
      rw [hdoc.parse_foldl hne] at hparse'
      obtain rfl := Except.ok.inj hparse'
      rw [hdoc.queryPairs_foldl, hdoc.queryPairs_setQueryNone, List.nil_append] at hpair
      obtain ⟨before, -, rfl⟩ := List.mem_map.mp hpair
      rw [isSensitive_redactPair] at hsensitive
      refine hvalue ?_
      rw [redactPair, if_pos hsensitive]
    · rw [if_neg hany, hparse] at hparse'
      obtain rfl := Except.ok.inj hparse'
      exact hany (List.any_eq_true.mpr ⟨pair, hpair, hsensitive⟩)

theorem HasSecret.any_isSensitive (h : HasSecret crate url) {parsed : crate.Parsed}
    (hparse : crate.parse url = .ok parsed) :
    (crate.queryPairs parsed).any (fun pair => isSensitive pair.1) = true := by
  obtain ⟨parsed', hparse', pair, hpair, hsensitive, -⟩ := h
  obtain rfl := Except.ok.inj (hparse.symm.trans hparse')
  exact List.any_eq_true.mpr ⟨pair, hpair, hsensitive⟩

/-- What is stored of a capture does not tell its secrets. -/
theorem AlikeUrls.resource {filters filters' : List String} {id : String} {now : ℕ}
    (h : AlikeUrls crate url url') : Capture.resource crate ⟨url, filters, id, now⟩ =
      Capture.resource crate ⟨url', filters', id, now⟩ := by
  rcases h with rfl | ⟨hsecret, hsecret', parsed, parsed', hparse, hparse', hparts, hnone, hpairs⟩
  · rfl
  · have hurl : redactSensitiveParams crate url = redactSensitiveParams crate url' := by
      simp only [redactSensitiveParams, hparse, hparse', hsecret.any_isSensitive hparse,
        hsecret'.any_isSensitive hparse', if_true, hnone, hpairs]
    have hname : (crate.parse url).map crate.parts = (crate.parse url').map crate.parts := by
      rw [hparse, hparse']
      exact congrArg Except.ok hparts
    have htype : identifyResource crate url = identifyResource crate url' := by
      simp only [identifyResource, hparse, hparse', hparts]
    simp only [Capture.resource, hurl, hname, htype]

end

/-! ### Sessions side by side -/

/-- Calls that differ at most in the secrets of their URLs. -/
structure Capture.Alike (crate : UrlCrate) (c c' : Capture) : Prop where
  url : AlikeUrls crate c.url c'.url
  filters : c.filters = c'.filters
  id : c.id = c'.id
  now : c.now = c'.now
  passes : c.passes = true
  passes' : c'.passes = true

/-- What two sessions over alike events have in common. -/
structure CaptureSession.Alike (crate : UrlCrate) (filters : List String)
    (s s' : CaptureSession) : Prop where
  known : ∀ filter ∈ s.filters, filter ∈ filters
  filters : s.filters = s'.filters
  store : s.store = s'.store
  passed : List.Forall₂ (Capture.Alike crate) s.passed s'.passed
  /-- Nothing stored has a secret. -/
  discreet : ∀ r ∈ s.store, ¬HasSecret crate r.url

section

variable {crate : UrlCrate} {filters : List String} {c c' : Capture} {s s' : CaptureSession}
  {e e' : CaptureEvent} {events events' : List CaptureEvent}

/-- A URL with a secret is none of those stored, so that neither of two alike captures is taken for
a resource that is there. -/
theorem Capture.Alike.addSnifferResource (h : c.Alike crate c') {store : List SnifferResource}
    (hdiscreet : ∀ r ∈ store, ¬HasSecret crate r.url) :
    Tachyon.addSnifferResource crate store c = Tachyon.addSnifferResource crate store c' := by
  obtain ⟨url, filters, id, now⟩ := c
  obtain ⟨url', filters', id', now'⟩ := c'
  obtain ⟨hurl, rfl, rfl, rfl, hpasses, hpasses'⟩ := h
  dsimp only at hurl
  have hknown : (store.any fun r => r.url == url) = (store.any fun r => r.url == url') := by
    rcases hurl with rfl | ⟨hsecret, hsecret', -⟩
    · rfl
    · have hnew {u : String} (hu : HasSecret crate u) :
          (store.any fun r => r.url == u) = false := by
        refine List.any_eq_false.mpr fun r hr heq => hdiscreet r hr ?_
        rwa [beq_iff_eq.mp heq]
      rw [hnew hsecret, hnew hsecret']
  have hresource : Capture.resource crate ⟨url, filters, id, now⟩ =
      Capture.resource crate ⟨url', filters, id, now⟩ := hurl.resource
  simp only [Tachyon.addSnifferResource, hpasses, hpasses', hknown, hresource]

theorem discreet_addSnifferResource (hdoc : crate.Documented) {store : List SnifferResource}
    (hdiscreet : ∀ r ∈ store, ¬HasSecret crate r.url) (c : Capture) :
    ∀ r ∈ addSnifferResource crate store c, ¬HasSecret crate r.url := by
  have hpush {kept : List SnifferResource} (hkept : ∀ r ∈ kept, ¬HasSecret crate r.url) :
      ∀ r ∈ kept ++ [c.resource crate], ¬HasSecret crate r.url := by
    intro r hr
    rcases List.mem_append.mp hr with hold | hnew
    · exact hkept r hold
    · rw [List.mem_singleton.mp hnew]
      exact not_hasSecret_redactSensitiveParams hdoc c.url
  unfold addSnifferResource
  split
  · exact hdiscreet
  · split
    · exact hdiscreet
    · split
      · exact hpush fun r hr => hdiscreet r (List.mem_of_mem_tail hr)
      · exact hpush hdiscreet

theorem forall₂_getElem? {α β : Type} {R : α → β → Prop} {xs : List α} {ys : List β}
    (h : List.Forall₂ R xs ys) (n : ℕ) : xs[n]? = none ∧ ys[n]? = none ∨
      ∃ x y, xs[n]? = some x ∧ ys[n]? = some y ∧ R x y := by
  induction h generalizing n with
  | nil => exact Or.inl ⟨rfl, rfl⟩
  | cons hxy _ ih =>
    cases n with
    | zero => exact Or.inr ⟨_, _, rfl, rfl, hxy⟩
    | succ n => exact ih n

theorem forall₂_eraseIdx {α β : Type} {R : α → β → Prop} {xs : List α} {ys : List β}
    (h : List.Forall₂ R xs ys) (n : ℕ) : List.Forall₂ R (xs.eraseIdx n) (ys.eraseIdx n) := by
  induction h generalizing n with
  | nil => exact .nil
  | cons hxy htail ih =>
    cases n with
    | zero => exact htail
    | succ n => exact .cons hxy (ih n)

theorem addSnifferFilter_known {before after : List String} {filter : String}
    (h : addSnifferFilter before filter = .ok after) (hknown : ∀ f ∈ before, f ∈ filters)
    (hnew : filter ∈ filters) : ∀ f ∈ after, f ∈ filters := by
  unfold addSnifferFilter at h
  split at h
  · cases h
  · split at h
    · cases h
    · obtain rfl := Except.ok.inj h
      intro f hf
      rcases List.mem_append.mp hf with hold | hlast
      · exact hknown f hold
      · rwa [List.mem_singleton.mp hlast]

/-- One step of both sessions. -/
theorem CaptureSession.Alike.step (hdoc : crate.Documented) (h : s.Alike crate filters s')
    (he : e.Alike crate filters e') : (s.step crate e).Alike crate filters (s'.step crate e') := by
  obtain ⟨hknown, hfilters, hstore, hpassed, hdiscreet⟩ := h
  cases he with
  | @addFilter filter hmem =>
    unfold CaptureSession.step
    dsimp only
    rw [← hfilters]
    cases hadd : addSnifferFilter s.filters filter with
    | error e => exact ⟨hknown, hfilters, hstore, hpassed, hdiscreet⟩
    | ok after =>
      exact ⟨addSnifferFilter_known hadd hknown hmem, rfl, hstore, hpassed, hdiscreet⟩
  | @check url url' id now hurl hsame =>
    have hpasses : Capture.passes ⟨url, s.filters, id, now⟩ =
        Capture.passes ⟨url', s'.filters, id, now⟩ := by
      unfold Capture.passes
      dsimp only
      rw [← hfilters]
      have hany : s.filters.any (hasText url) = s.filters.any (hasText url') := by
        rw [Bool.eq_iff_iff, List.any_eq_true, List.any_eq_true]
        refine exists_congr fun filter => and_congr_right fun hfilter => ?_
        rw [hsame filter (hknown filter hfilter)]
      rw [hany]
    unfold CaptureSession.step
    dsimp only
    by_cases hpass : Capture.passes ⟨url, s.filters, id, now⟩ = true
    · rw [if_pos hpass, if_pos (hpasses ▸ hpass)]
      refine ⟨hknown, hfilters, hstore, List.rel_append hpassed (.cons ?_ .nil), hdiscreet⟩
      exact ⟨hurl, hfilters, rfl, rfl, hpass, hpasses ▸ hpass⟩
    · rw [if_neg hpass, if_neg (hpasses ▸ hpass)]
      exact ⟨hknown, hfilters, hstore, hpassed, hdiscreet⟩
  | @keep call =>
    unfold CaptureSession.step
    dsimp only
    rcases forall₂_getElem? hpassed call with ⟨hnone, hnone'⟩ | ⟨c, c', hc, hc', hcalls⟩
    · rw [hnone, hnone']
      exact ⟨hknown, hfilters, hstore, hpassed, hdiscreet⟩
    · rw [hc, hc', ← hstore]
      exact ⟨hknown, hfilters, hcalls.addSnifferResource hdiscreet,
        forall₂_eraseIdx hpassed call, discreet_addSnifferResource hdoc hdiscreet c⟩

/-- Both sessions, from alike ones on. -/
theorem CaptureSession.Alike.foldl (hdoc : crate.Documented) (h : s.Alike crate filters s')
    (hevents : List.Forall₂ (CaptureEvent.Alike crate filters) events events') :
    (events.foldl (CaptureSession.step crate) s).Alike crate filters
      (events'.foldl (CaptureSession.step crate) s') := by
  induction hevents generalizing s s' with
  | nil => exact h
  | cons he _ ih => exact ih (h.step hdoc he)

end

/-! ### Two sessions with different tokens -/

/-- What every URL of `formCrate` begins with. -/
def formOrigin : List Char := "http://example.com/f.zip?".toList

/-- The crate on the URLs of one file, whatever their query. -/
def formCrate : UrlCrate where
  Parsed := List (String × String)
  parse := fun text =>
    if formOrigin <+: text.toList then
      .ok ((FormQuery.read (text.toList.drop formOrigin.length)).map
        (Prod.map String.ofList String.ofList))
    else .error "relative URL without a base"
  parts := fun _ => ⟨"http", "", none, some (.domain "example.com"), none, "/f.zip"⟩
  queryPairs := id
  setQueryNone := fun _ => []
  appendPair := fun pairs pair => pairs ++ [pair]
  text := fun pairs => String.ofList
    (formOrigin ++ FormQuery.write (pairs.map (Prod.map String.toList String.toList)))

theorem formCrate_parse_text (pairs : List (String × String)) :
    formCrate.parse (formCrate.text pairs) = .ok pairs := by
  have hback : Prod.map String.ofList String.ofList ∘ Prod.map String.toList String.toList =
      id := by
    funext ⟨name, value⟩
    simp
  simp only [formCrate, String.toList_ofList, List.prefix_append, if_true, List.drop_left,
    FormQuery.read_write, List.map_map, hback, List.map_id]

theorem formCrate_documented : formCrate.Documented where
  queryPairs_setQueryNone := fun _ => rfl
  queryPairs_appendPair := fun _ _ => rfl
  setQueryNone_setQueryNone := fun _ => rfl
  setQueryNone_appendPair := fun _ _ => rfl
  parse_text := fun (url : List (String × String)) pair => formCrate_parse_text (url ++ [pair])

/-- The URL with the given token. -/
def tokenUrl (token : String) : String := formCrate.text [("token", token)]

/-- A filter is added, and a URL with the given token is captured. -/
def capturedToken (token : String) : List CaptureEvent :=
  [.addFilter "example.com", .check (tokenUrl token) "1" 0, .keep 0]

theorem hasSecret_tokenUrl {token : String} (h : token ≠ "[REDACTED]") :
    HasSecret formCrate (tokenUrl token) := by
  have hname : isSensitive "token" = true := by decide
  exact ⟨_, formCrate_parse_text _, ("token", token), List.mem_singleton_self _, hname, h⟩

example : (CaptureSession.run formCrate (capturedToken "abc")).resources.map SnifferResource.url =
    ["http://example.com/f.zip?token=%5BREDACTED%5D"] := by decide +kernel

end Tachyon
