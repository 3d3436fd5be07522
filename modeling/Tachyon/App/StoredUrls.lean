import Tachyon.App.DuplicateUrls

/-!
# Stored URLs

The records of a task hold the log form of its URL, and after a restart the application knows no
other. The log form names the resource of the URL where it leaves nothing out.
-/

namespace Tachyon

open EventRuns

namespace WebUrl

variable {text : Ipv6Addr → String}

/-- The port of the URL, as the URL writes it. -/
def portText (u : WebUrl text) : String :=
  match u.url.port with
  | none => ""
  | some port => s!":{port}"

/-- The query of the URL, as the URL writes it. -/
def queryText (u : WebUrl text) : String :=
  match u.query with
  | none => ""
  | some query => s!"?{query}"

/-- What the URL has between its host and its fragment. -/
def target (u : WebUrl text) : String := u.portText ++ u.url.path ++ u.queryText

/-- The text of a URL with the scheme of this one, the host and the target. -/
def address (u : WebUrl text) (host target : String) : String :=
  s!"{u.url.scheme}://{host}{target}"

/-- The text is that of a URL with the same scheme, host, port, path and query. Without a target it
is that of the root. -/
def NamedBy (u : WebUrl text) (shown : String) : Prop :=
  ∃ host, u.url.hostStr text = some host ∧
    (shown = u.address host u.target ∨ u.target = "/" ∧ shown = u.address host "")

/-- The URL has nothing but a scheme, a host and one segment. -/
def Flat (u : WebUrl text) : Prop :=
  u.url.port = none ∧ u.query = none ∧
    (u.url.path = "" ∨ u.url.path = "/" ++ u.url.basename)

end WebUrl

/-- A path that is not empty is longer than what the log form keeps of it. -/
theorem Url.basename_length_lt {url : Url} (hpath : url.path ≠ "") :
    url.basename.toList.length < url.path.toList.length := by
  have hpos : 0 < url.path.toList.length := by
    simpa [Nat.pos_iff_ne_zero, String.toList_eq_nil_iff] using hpath
  unfold basename
  split
  case isTrue hslash =>
    obtain ⟨rest, hrest⟩ := String.startsWith_string_iff.mp hslash
    have hsuffix := List.rtakeWhile_suffix (· ≠ '/') url.path.toList
    have hmem : '/' ∈ url.path.toList := by simp [← hrest]
    have hne : url.path.toList.rtakeWhile (· ≠ '/') ≠ url.path.toList := by
      intro heq
      simpa using List.rtakeWhile_eq_self_iff.mp heq '/' hmem
    have hlength := hsuffix.length_le
    have hlt := mt hsuffix.eq_of_length hne
    rw [lastSegment, String.toList_ofList]
    omega
  case isFalse => simpa using hpos

namespace WebUrl

variable {text : Ipv6Addr → String} {u : WebUrl text}

theorem target_eq_empty_iff :
    u.target = "" ↔ u.url.port = none ∧ u.query = none ∧ u.url.path = "" := by
  cases hport : u.url.port with
  | some port => simp [target, portText, hport, toString]
  | none =>
    cases hquery : u.query with
    | some query => simp [target, queryText, hquery, toString]
    | none => simp [target, portText, queryText, hport, hquery]

/-- The target is one segment no longer than the path's only without a port and a query. -/
theorem target_eq_segment_iff {segment : String}
    (hsegment : u.url.path ≠ "" → segment.toList.length < u.url.path.toList.length) :
    u.target = "/" ++ segment ↔
      u.url.port = none ∧ u.query = none ∧ u.url.path = "/" ++ segment := by
  cases hport : u.url.port with
  | some port => simp [target, portText, hport, ← String.toList_inj, toString]
  | none =>
    cases hquery : u.query with
    | none => simp [target, portText, queryText, hport, hquery]
    | some query =>
      refine iff_of_false (fun htarget => ?_) (by simp)
      have hchars := congrArg String.toList htarget
      simp [target, portText, queryText, hport, hquery, toString] at hchars
      by_cases hpath : u.url.path = ""
      · simp [hpath] at hchars
      · have hlength := congrArg List.length hchars
        simp at hlength hsegment
        have := hsegment hpath
        omega

theorem address_inj {host target target' : String} :
    u.address host target = u.address host target' ↔ target = target' := by
  simp [address, toString]

theorem redact_eq_address {host : String} (hhost : u.url.hostStr text = some host) :
    redactUrlForLog text (.ok u.url) =
      u.address host (if u.url.basename.isEmpty then "" else "/" ++ u.url.basename) := by
  rw [← String.toList_inj, toList_redactUrlForLog hhost]
  split <;> simp [address, toString]

/-- The log form of the URL names its resource if and only if the URL is flat. -/
theorem namedBy_redact_iff (hvalid : validateDownloadUrl text (.ok u.url) = .ok ()) :
    u.NamedBy (redactUrlForLog text (.ok u.url)) ↔ u.Flat := by
  obtain ⟨-, host, hhost⟩ := validateDownloadUrl_ok hvalid
  have hempty (htarget : u.target = "") : u.url.basename.isEmpty = true := by
    rw [Url.basename, (target_eq_empty_iff.mp htarget).2.2]
    rfl
  have hnamed : u.NamedBy (redactUrlForLog text (.ok u.url)) ↔
      u.target = "" ∨ u.target = "/" ++ u.url.basename := by
    simp only [NamedBy, hhost, Option.some.injEq, exists_eq_left', redact_eq_address hhost,
      address_inj]
    by_cases hbase : u.url.basename.isEmpty = true
    · rw [if_pos hbase, String.isEmpty_iff.mp hbase, eq_comm (b := u.target), String.append_empty]
      simp only [and_true]
    · have hne := mt hempty hbase
      rw [if_neg hbase, eq_comm (b := u.target)]
      simp [hne]
  rw [hnamed, target_eq_empty_iff, target_eq_segment_iff Url.basename_length_lt]
  unfold Flat
  tauto

end WebUrl

namespace AppState

/-- In every state, over all lives of the application, the records of a task name the resource of
its URL if and only if the URL is flat. -/
theorem url_survives_iff (text : Ipv6Addr → String) (urlOf : String → WebUrl text)
    (events : List LifeEvent)
    (hcreated : ∀ id request, .app (.create id request) ∈ events →
      request.url = .ok (urlOf id).url) :
    EachState (lifeStep text) (fun s => ∀ id,
        (∀ snapshot, s.store id = some snapshot →
          ((urlOf id).NamedBy snapshot.url ↔ (urlOf id).Flat)) ∧
        ∀ task, s.tasks.lookup id = some task →
          ((urlOf id).NamedBy task.url ↔ (urlOf id).Flat))
      (AppState.new fun _ => none) events := by
  have hstates := keeps_of_created text urlOf events hcreated
  refine hstates.imp fun s h id => ⟨fun snapshot hsnapshot => ?_, fun task htask => ?_⟩
  · obtain ⟨-, hvalid, hshown⟩ := h.store id snapshot hsnapshot
    rw [hshown, WebUrl.namedBy_redact_iff hvalid]
  · obtain ⟨-, hvalid, hshown⟩ := h.tasks id task htask
    rw [hshown, WebUrl.namedBy_redact_iff hvalid]

/-- A task is created for a flat URL, and the application restarts. -/
theorem url_survives_iff_restarted :
    EachState (lifeStep fun _ => "") (fun s => ∀ id,
        (∀ snapshot, s.store id = some snapshot →
          ((exampleUrl none "/model.bin" none).NamedBy snapshot.url ↔
            (exampleUrl none "/model.bin" none).Flat)) ∧
        ∀ task, s.tasks.lookup id = some task →
          ((exampleUrl none "/model.bin" none).NamedBy task.url ↔
            (exampleUrl none "/model.bin" none).Flat))
      (AppState.new fun _ => none)
      [.app (.create "a" (requestFor (exampleUrl none "/model.bin" none))), .restart] := by
  refine url_survives_iff _ (fun _ => exampleUrl none "/model.bin" none) _ fun id request hmem => ?_
  simp at hmem
  rw [hmem.2]
  rfl

/-- A task is created for the URL and paused. -/
def pausedAfter (u : WebUrl fun _ => "") : List AppEvent :=
  .create "a" (requestFor u) :: (created "a" "example.com").tail ++
    [.command .pause "a", .persist 0 .copy, .persist 0 (.load true),
      .persist 0 (.save "2026-05-29T00:00:01Z" "/downloads" true)]

/-- The application restarts after that, and recovers the task. -/
def recovered (u : WebUrl fun _ => "") : List LifeEvent :=
  (pausedAfter u).map .app ++ [.restart, .app (.recover ["a"])]

/-- A download with a port, a directory and a query comes back as one without them. -/
theorem url_lost :
    ∃ s snapshot task, run (lifeStep fun _ => "") (AppState.new fun _ => none)
        (recovered (exampleUrl (some 8443) "/v1/model.bin" (some "revision=2"))) = some s ∧
      s.store "a" = some snapshot ∧ s.tasks.lookup "a" = some task ∧
      ¬(exampleUrl (some 8443) "/v1/model.bin" (some "revision=2")).NamedBy snapshot.url ∧
      ¬(exampleUrl (some 8443) "/v1/model.bin" (some "revision=2")).NamedBy task.url := by
  have hrun : ((run (lifeStep fun _ => "") (AppState.new fun _ => none)
      (recovered (exampleUrl (some 8443) "/v1/model.bin" (some "revision=2")))).any fun s =>
        (s.store "a").any (fun snapshot => snapshot.url = "https://example.com/model.bin") &&
        (s.tasks.lookup "a").any fun task =>
          task.url = "https://example.com/model.bin") = true := by
    decide +kernel
  have hlost : ¬(exampleUrl (some 8443) "/v1/model.bin" (some "revision=2")).NamedBy
      "https://example.com/model.bin" := by
    rintro ⟨host, hhost, h⟩
    obtain rfl := Option.some.inj hhost
    revert h
    decide +kernel
  obtain ⟨s, hs, hrecords⟩ := (Option.any_eq_true _ _).mp hrun
  obtain ⟨hstored, hshown⟩ := Bool.and_eq_true_iff.mp hrecords
  obtain ⟨snapshot, hsnapshot, hurl⟩ := (Option.any_eq_true _ _).mp hstored
  obtain ⟨task, htask, hurl'⟩ := (Option.any_eq_true _ _).mp hshown
  refine ⟨s, snapshot, task, hs, hsnapshot, htask, ?_, ?_⟩
  · rwa [of_decide_eq_true hurl]
  · rwa [of_decide_eq_true hurl']

end AppState

end Tachyon
