import Tachyon.App.TaskOrigins

/-!
# Duplicate downloads

`create_task_inner` looks for the log form of the new URL among those of the tasks in the map. Two
URLs of one scheme, host and last segment have one log form.
-/

namespace Tachyon

open EventRuns

/-- A URL with what the checks do not read of it. The parser leaves no slash in a host. -/
structure WebUrl (text : Ipv6Addr → String) where
  url : Url
  query : Option String
  fragment : Option String
  host_slash : ∀ host, url.hostStr text = some host → '/' ∉ host.toList

/-- The URLs have one scheme, host and last segment. -/
def Url.Alike (text : Ipv6Addr → String) (url url' : Url) : Prop :=
  url.scheme = url'.scheme ∧ url.hostStr text = url'.hostStr text ∧ url.basename = url'.basename

/-- `create_task` would take the task for a download of its URL that is still wanted. -/
def TaskInfo.Unfinished (task : TaskInfo) : Prop :=
  task.status ≠ .cancelled ∧ task.status ≠ .completed ∧ task.status ≠ .failed

theorem Tasks.hasUrl_iff {tasks : Tasks} {redactedUrl : String} :
    tasks.hasUrl redactedUrl = true ↔
      ∃ id task, tasks.lookup id = some task ∧ task.Unfinished ∧ task.url = redactedUrl := by
  simp only [hasUrl, decide_eq_true_eq, Multiset.countP_pos]
  constructor
  · rintro ⟨⟨id, task⟩, hentry, hurl, hunfinished⟩
    exact ⟨id, task, Finmap.mem_lookup_iff.mpr hentry, hunfinished, hurl⟩
  · rintro ⟨id, task, htask, hunfinished, hurl⟩
    exact ⟨⟨id, task⟩, Finmap.mem_lookup_iff.mp htask, hurl, hunfinished⟩

/-- A URL that passes `validate_download_url` is an HTTP or HTTPS URL with a host. -/
theorem validateDownloadUrl_ok {text : Ipv6Addr → String} {url : Url}
    (h : validateDownloadUrl text (.ok url) = .ok ()) :
    (url.scheme = "http" ∨ url.scheme = "https") ∧ ∃ host, url.hostStr text = some host := by
  obtain ⟨⟨⟩, hpublic, -⟩ := bind_eq_ok.mp h
  cases hchecked : validatePublicHttpUrl text url with
  | error e =>
    rw [hchecked] at hpublic
    cases hpublic
  | ok result =>
    simp only [validatePublicHttpUrl] at hchecked
    split at hchecked
    · cases hchecked
    case isFalse hscheme =>
      refine ⟨by grind, ?_⟩
      split at hchecked
      · cases hchecked
      · split at hchecked
        · cases hchecked
        case h_2 host hhost => exact ⟨host, hhost⟩

/-- A valid request is for a valid URL. -/
theorem validateDownloadUrl_of_validate {text : Ipv6Addr → String} {request : CreateRequest}
    {url : Url} {downloadDir : String} (hurl : request.url = .ok url)
    (h : request.validate text = .ok downloadDir) :
    validateDownloadUrl text (.ok url) = .ok () := by
  obtain ⟨⟨⟩, hvalid, -⟩ := bind_eq_ok.mp h
  rwa [hurl] at hvalid

namespace AppState

/-- The error of `create_task` for a duplicate. -/
def alreadyExists : AppError := .taskAlreadyExists "相同 URL 的下载任务已存在"

/-- An unfinished task was created for the URL. -/
def HasTaskFor {text : Ipv6Addr → String} (urlOf : String → WebUrl text) (s : AppState)
    (u : WebUrl text) : Prop :=
  ∃ id task, s.tasks.lookup id = some task ∧ task.Unfinished ∧ urlOf id = u

/-- The request for the URL is refused as a duplicate exactly when an unfinished task was created
for the URL. -/
def RefusalExact {text : Ipv6Addr → String} (urlOf : String → WebUrl text) (s : AppState)
    (u : WebUrl text) (id : String) (request : CreateRequest) : Prop :=
  s.create text id request = .error alreadyExists ↔ s.HasTaskFor urlOf u

/-- An unfinished task was created for the URL, or none was for one like it. -/
def Unambiguous {text : Ipv6Addr → String} (urlOf : String → WebUrl text) (s : AppState)
    (u : WebUrl text) : Prop :=
  s.HasTaskFor urlOf u ∨ ∀ id task, s.tasks.lookup id = some task → task.Unfinished →
    ¬(urlOf id).url.Alike text u.url

end AppState

/-- The steps of the application over several of its lives, on one store. -/
inductive LifeEvent where
  | app (e : AppEvent)
  /-- The process ends and starts again. -/
  | restart

namespace AppState

def lifeStep (text : Ipv6Addr → String) (s : AppState) : LifeEvent → Option AppState
  | .app e => s.step text .copied e
  | .restart => some (.new s.store)

section Steps

variable {text : Ipv6Addr → String} {urlOf : String → WebUrl text} {s s' : AppState}

/-- What a task is made with: a valid URL, and its log form. -/
def Made (urlOf : String → WebUrl text) (id shown : String) : Prop :=
  validateDownloadUrl text (.ok (urlOf id).url) = .ok () ∧
    shown = redactUrlForLog text (.ok (urlOf id).url)

theorem Keeps.lifeStep {e : LifeEvent} (h : s.Keeps (Made urlOf))
    (hcreated : ∀ id request, e = .app (.create id request) → request.url = .ok (urlOf id).url)
    (hstep : s.lifeStep text e = some s') : s'.Keeps (Made urlOf) := by
  cases e with
  | app e =>
    refine h.step (fun id request downloadDir he hvalid => ?_) hstep
    have hurl := hcreated id request (he ▸ rfl)
    exact ⟨validateDownloadUrl_of_validate hurl hvalid, by rw [hurl]⟩
  | restart =>
    obtain rfl := Option.some.inj hstep
    exact keeps_new h.store

/-- In every state, over all lives of the application, every record of a task is made with the
URL of its request. -/
theorem keeps_of_created (text : Ipv6Addr → String) (urlOf : String → WebUrl text)
    (events : List LifeEvent)
    (hcreated : ∀ id request, .app (.create id request) ∈ events →
      request.url = .ok (urlOf id).url) :
    EachState (AppState.lifeStep text) (fun s => s.Keeps (Made urlOf))
      (AppState.new fun _ => none) events := by
  have hsteps : EachStep (AppState.lifeStep text) (fun _ e => ∀ id request,
      e = .app (.create id request) → request.url = .ok (urlOf id).url)
      (AppState.new fun _ => none) events := by
    refine .of_mem fun e he s id request heq => hcreated id request ?_
    rwa [heq] at he
  exact hsteps.eachState (fun s e s' h hc hstep => h.lifeStep hc hstep) (keeps_new (by simp))

/-- A valid request is refused as a duplicate where an unfinished task shows the log form of its
URL. -/
theorem create_alreadyExists {id : String} {request : CreateRequest} {downloadDir : String}
    (hvalid : request.validate text = .ok downloadDir) :
    s.create text id request = .error alreadyExists ↔
      s.tasks.hasUrl (redactUrlForLog text request.url) = true := by
  simp only [AppState.create, hvalid, bind, Except.bind]
  split
  case isTrue hurl => exact ⟨fun _ => hurl, fun _ => rfl⟩
  case isFalse hurl =>
    refine iff_of_false ?_ hurl
    split <;> simp [alreadyExists]

/-- Two valid URLs have one log form if and only if they are alike. -/
theorem redact_eq_iff_alike {u v : WebUrl text}
    (hu : validateDownloadUrl text (.ok u.url) = .ok ())
    (hv : validateDownloadUrl text (.ok v.url) = .ok ()) :
    redactUrlForLog text (.ok u.url) = redactUrlForLog text (.ok v.url) ↔
      u.url.Alike text v.url := by
  obtain ⟨hscheme, host, hhost⟩ := validateDownloadUrl_ok hu
  obtain ⟨hscheme', host', hhost'⟩ := validateDownloadUrl_ok hv
  have hcolon {url : Url} (h : url.scheme = "http" ∨ url.scheme = "https") :
      ':' ∉ url.scheme.toList := by
    obtain h | h := h <;> rw [h] <;> decide
  rw [redactUrlForLog_eq_iff hhost hhost' (hcolon hscheme) (hcolon hscheme')
    (u.host_slash host hhost) (v.host_slash host' hhost'), Url.Alike, hhost, hhost',
    Option.some.injEq]

/-- A valid request is refused as a duplicate where an unfinished task was created for a URL like
its own. -/
theorem Keeps.refused_iff {id : String} {request : CreateRequest} {downloadDir : String}
    {u : WebUrl text} (h : s.Keeps (Made urlOf)) (hurl : request.url = .ok u.url)
    (hvalid : request.validate text = .ok downloadDir) :
    s.create text id request = .error alreadyExists ↔
      ∃ j task, s.tasks.lookup j = some task ∧ task.Unfinished ∧
        (urlOf j).url.Alike text u.url := by
  have hvalidUrl := validateDownloadUrl_of_validate hurl hvalid
  rw [create_alreadyExists hvalid, Tasks.hasUrl_iff, hurl]
  refine exists_congr fun j => exists_congr fun task => and_congr_right fun htask =>
    and_congr_right fun _ => ?_
  obtain ⟨-, hmade, hshown⟩ := h.tasks j task htask
  rw [hshown, redact_eq_iff_alike hmade hvalidUrl]

end Steps

/-- In every state, over all lives of the application, the refusal of a valid request as a duplicate
is exact if and only if its URL is not ambiguous. -/
theorem duplicate_refusal_exact_iff (text : Ipv6Addr → String) (urlOf : String → WebUrl text)
    (events : List LifeEvent)
    (hcreated : ∀ id request, .app (.create id request) ∈ events →
      request.url = .ok (urlOf id).url) :
    EachState (lifeStep text) (fun s => ∀ u id request downloadDir, request.url = .ok u.url →
        request.validate text = .ok downloadDir →
        (s.RefusalExact urlOf u id request ↔ s.Unambiguous urlOf u))
      (AppState.new fun _ => none) events := by
  have hstates := keeps_of_created text urlOf events hcreated
  refine hstates.imp fun s h u id request downloadDir hurl hvalid => ?_
  rw [RefusalExact, h.refused_iff hurl hvalid]
  have hsame : s.HasTaskFor urlOf u → ∃ j task, s.tasks.lookup j = some task ∧
      task.Unfinished ∧ (urlOf j).url.Alike text u.url := by
    rintro ⟨j, task, htask, hunfinished, rfl⟩
    exact ⟨j, task, htask, hunfinished, rfl, rfl, rfl⟩
  constructor
  · intro hexact
    by_cases hhas : s.HasTaskFor urlOf u
    · exact .inl hhas
    · exact .inr fun j task htask hunfinished halike =>
        hhas (hexact.mp ⟨j, task, htask, hunfinished, halike⟩)
  · rintro (hhas | hnone)
    · exact ⟨fun _ => hhas, hsame⟩
    · refine ⟨?_, hsame⟩
      rintro ⟨j, task, htask, hunfinished, halike⟩
      exact absurd halike (hnone j task htask hunfinished)

/-- An HTTPS URL of one host. -/
def exampleUrl (port : Option ℕ) (path : String) (query : Option String) :
    WebUrl fun _ => "" where
  url := ⟨"https", "", none, some (.domain "example.com"), port, path⟩
  query := query
  fragment := none
  host_slash host h := by
    obtain rfl := Option.some.inj h
    decide

def requestFor (u : WebUrl fun _ => "") : CreateRequest :=
  { exampleRequest "example.com" with url := .ok u.url }

/-- A task is created, and the application restarts. -/
theorem duplicate_refusal_exact_iff_restarted :
    EachState (lifeStep fun _ => "") (fun s => ∀ u id request downloadDir,
        request.url = .ok u.url → request.validate (fun _ => "") = .ok downloadDir →
        (s.RefusalExact (fun _ => exampleUrl none "/models/model.bin" none) u id request ↔
          s.Unambiguous (fun _ => exampleUrl none "/models/model.bin" none) u))
      (AppState.new fun _ => none)
      ((created "a" "example.com").map .app ++ [.restart, .app (.recover ["a"])]) := by
  refine duplicate_refusal_exact_iff _ _ _ fun id request hmem => ?_
  simp [created] at hmem
  rw [hmem.2]
  rfl

/-- After a task was created for one URL, URLs with another path, another port and another query are
refused as duplicates. -/
theorem other_urls_refused :
    ∃ s, run (lifeStep fun _ => "") (AppState.new fun _ => none)
        [.app (.create "a" (requestFor (exampleUrl none "/v1/model.bin" none)))] = some s ∧
      ∀ u ∈ [exampleUrl none "/v2/model.bin" none, exampleUrl (some 8443) "/v1/model.bin" none,
          exampleUrl none "/v1/model.bin" (some "revision=2")],
        (requestFor u).validate (fun _ => "") = .ok "/downloads" ∧
          ¬s.RefusalExact (fun _ => exampleUrl none "/v1/model.bin" none) u "b" (requestFor u) := by
  have hrun : ((run (lifeStep fun _ => "") (AppState.new fun _ => none)
      [.app (.create "a" (requestFor (exampleUrl none "/v1/model.bin" none)))]).any fun s =>
        s.tasks.hasUrl "https://example.com/model.bin") = true := by
    decide +kernel
  obtain ⟨s, hs, hurl⟩ := (Option.any_eq_true _ _).mp hrun
  have hrefused (u : WebUrl fun _ => "") (hne : exampleUrl none "/v1/model.bin" none ≠ u)
      (hchecked : ((requestFor u).validate fun _ => "").toOption = some "/downloads")
      (hshown : redactUrlForLog (fun _ => "") (.ok u.url) = "https://example.com/model.bin") :
      (requestFor u).validate (fun _ => "") = .ok "/downloads" ∧
        ¬s.RefusalExact (fun _ => exampleUrl none "/v1/model.bin" none) u "b" (requestFor u) := by
    have hvalid := toOption_eq_some.mp hchecked
    refine ⟨hvalid, fun hexact => ?_⟩
    obtain ⟨j, task, -, -, heq⟩ :=
      hexact.mp ((create_alreadyExists hvalid).mpr (by rwa [requestFor, hshown]))
    exact hne heq
  refine ⟨s, hs, fun u hu => ?_⟩
  simp only [List.mem_cons, List.not_mem_nil, or_false] at hu
  obtain rfl | rfl | rfl := hu
  · exact hrefused _ (by simp [exampleUrl]) (by decide +kernel) (by decide +kernel)
  · exact hrefused _ (by simp [exampleUrl]) (by decide +kernel) (by decide +kernel)
  · exact hrefused _ (by simp [exampleUrl]) (by decide +kernel) (by decide +kernel)

end AppState

end Tachyon
