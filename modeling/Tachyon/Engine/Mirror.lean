import Tachyon.Engine.Requests
import Tachyon.Library.EventRuns

/-!
# Mirrors

`MirrorProtocol` stands before a primary source and its mirrors. A probe asks all of them at once
and the first success is remembered; a download asks the remembered protocol, or the primary for
half a second and then all mirrors at once. What the sources answer, when, and in which order is the
environment's.
-/

namespace Tachyon

open EventRuns

/-- `PRIMARY_FAST_TIMEOUT`, in milliseconds. -/
def primaryFastTimeout : ℕ := 500

/-- A source of one of `n` mirrors, or the primary. -/
inductive Source (n : ℕ) where
  | primary
  | mirror (i : Fin n)
  deriving DecidableEq

/-- The downloads that `race_download` carries out. -/
inductive Operation where
  | range (start end_ : ℕ)
  | rangeStream (start end_ : ℕ)
  | full
  deriving DecidableEq

/-- What a download gives. -/
@[reducible] def Operation.Payload : Operation → Type
  | .range _ _ | .full => Bytes
  | .rangeStream _ _ => List Item

/-- `error_label`. -/
def Operation.label : Operation → String
  | .range _ _ => ""
  | .rangeStream _ _ => "(流式)"
  | .full => "(全量)"

/-- What the sources answer to a download: the one that is asked first, after a time in
milliseconds, and the mirrors, in the order in which they are joined. -/
structure Answers (n : ℕ) (α : Type) where
  latency : ℕ
  first : DownloadResult α
  joined : List (Fin n × DownloadResult α)

/-- The error of a race that no mirror wins and none loses. -/
def allFailed (label : String) : DownloadError := .protocol s!"所有镜像源均失败{label}"

/-- The loop over the joined mirrors, with `first_err`. -/
def firstSuccess {α : Type} (label : String) (firstErr : Option DownloadError) :
    List (DownloadResult α) → DownloadResult α
  | [] => .error (firstErr.getD (allFailed label))
  | .ok data :: _ => .ok data
  | .error e :: rest => firstSuccess label (firstErr <|> some e) rest

/-- `MirrorProtocol`. A protocol is known by its handle. -/
structure MirrorProtocol (Handle : Type) where
  primary : Handle
  mirrors : List (String × Handle)

namespace MirrorProtocol

variable {Handle : Type} (m : MirrorProtocol Handle)

/-- The sources of the protocol. -/
abbrev Source := Tachyon.Source m.mirrors.length

def handle : m.Source → Handle
  | .primary => m.primary
  | .mirror i => (m.mirrors.get i).2

/-- A source's own URL: a mirror's, or for the primary the caller's. -/
def ownUrl (url : String) : m.Source → String
  | .primary => url
  | .mirror i => (m.mirrors.get i).1

/-- `selected`, and which source it was when it was set. -/
structure State where
  selected : Option Handle
  winner : Option m.Source

/-- `race_download`: what it asks, as protocols and URLs, and what it returns. -/
def raceDownload {α : Type} (selected : Option Handle) (url label : String)
    (answers : Answers m.mirrors.length α) : List (Handle × String) × DownloadResult α :=
  match selected with
  | some sel => ([(sel, url)], answers.first)
  | none =>
    let race := ((m.primary, url) :: m.mirrors.map Prod.swap,
      firstSuccess label none (answers.joined.map Prod.snd))
    if answers.latency ≤ primaryFastTimeout then
      match answers.first with
      | .ok data => ([(m.primary, url)], .ok data)
      | .error _ => race
    else race

/-- The loop over the joined probes, with `last_err`. -/
def probeLoop (s : m.State) (answers : m.Source → DownloadResult FileMetadata)
    (lastErr : Option DownloadError) : List m.Source → m.State × DownloadResult FileMetadata
  | [] => (s, .error (lastErr.getD (.protocol "所有源探测均失败")))
  | source :: rest =>
    match answers source with
    | .ok metadata => (⟨some (m.handle source), some source⟩, .ok metadata)
    | .error e => probeLoop s answers (some e) rest

/-- `probe`, from what the sources answer and the order in which they are joined. -/
def probe (s : m.State) (answers : m.Source → DownloadResult FileMetadata)
    (joined : List m.Source) : m.State × DownloadResult FileMetadata :=
  if m.mirrors.isEmpty then
    match answers .primary with
    | .ok metadata => (⟨some m.primary, some .primary⟩, .ok metadata)
    | .error e => (s, .error e)
  else m.probeLoop s answers none joined

/-- The calls of the trait. A call of `download_full_stream` also says what the primary's own
`download_full_stream` would answer. -/
inductive Event where
  | probe (url : String) (answers : m.Source → DownloadResult FileMetadata)
    (joined : List m.Source)
  | download (op : Operation) (url : String) (answers : Answers m.mirrors.length op.Payload)
  | downloadFullStream (url : String) (answers : Answers m.mirrors.length Bytes)
    (direct : DownloadResult (List Item))

def step (s : m.State) : m.Event → Option m.State
  | .probe _ answers joined => some (m.probe s answers joined).1
  | .download _ _ _ | .downloadFullStream _ _ _ => some s

/-- The URL that a download is called with. -/
def Event.downloadUrl {m : MirrorProtocol Handle} : m.Event → Option String
  | .probe _ _ _ => none
  | .download _ url _ | .downloadFullStream url _ _ => some url

/-- What a download asks, as protocols and URLs. The trait's `download_full_stream` is a
`download_full`. -/
def asked (s : m.State) : m.Event → List (Handle × String)
  | .probe _ _ _ => []
  | .download op url answers => (m.raceDownload s.selected url op.label answers).1
  | .downloadFullStream url answers _ =>
    (m.raceDownload s.selected url Operation.full.label answers).1

/-! ### The remembered source -/

section Selection

variable {m : MirrorProtocol Handle} {s s' : m.State}

/-- What is remembered is the winner's protocol. -/
def Remembers (s : m.State) : Prop := s.selected = s.winner.map m.handle

theorem probeLoop_spec {answers : m.Source → DownloadResult FileMetadata}
    {lastErr : Option DownloadError} {joined : List m.Source} :
    (∃ source metadata, answers source = .ok metadata ∧ m.probeLoop s answers lastErr joined =
        (⟨some (m.handle source), some source⟩, .ok metadata)) ∨
      ∃ e, m.probeLoop s answers lastErr joined = (s, .error e) := by
  induction joined generalizing lastErr with
  | nil => exact .inr ⟨_, rfl⟩
  | cons source rest ih =>
    unfold probeLoop
    cases hanswer : answers source with
    | ok metadata => exact .inl ⟨source, metadata, hanswer, rfl⟩
    | error e => exact ih

/-- A probe succeeds with the answer of the source it remembers, or fails and remembers nothing
new. -/
theorem probe_spec {answers : m.Source → DownloadResult FileMetadata} {joined : List m.Source} :
    (∃ source metadata, answers source = .ok metadata ∧
        m.probe s answers joined = (⟨some (m.handle source), some source⟩, .ok metadata)) ∨
      ∃ e, m.probe s answers joined = (s, .error e) := by
  unfold probe
  split
  · cases hanswer : answers .primary with
    | ok metadata => exact .inl ⟨.primary, metadata, hanswer, rfl⟩
    | error e => exact .inr ⟨e, rfl⟩
  · exact probeLoop_spec

theorem Remembers.step {e : m.Event} (h : Remembers s) (hstep : m.step s e = some s') :
    Remembers s' := by
  cases e with
  | probe url answers joined =>
    obtain rfl := Option.some.inj hstep
    obtain ⟨source, metadata, -, heq⟩ | ⟨e, heq⟩ := probe_spec
    · rw [heq]
      rfl
    · rw [heq]
      exact h
  | download | downloadFullStream =>
    obtain rfl := Option.some.inj hstep
    exact h

/-- With a remembered source every download asks its protocol, for the caller's URL. -/
theorem asked_eq {e : m.Event} {source : m.Source} {url : String} (h : Remembers s)
    (hwinner : s.winner = some source) (hurl : e.downloadUrl = some url) :
    m.asked s e = [(m.handle source, url)] := by
  have hselected : s.selected = some (m.handle source) := by rw [h, hwinner, Option.map_some]
  cases e with
  | probe => cases hurl
  | download op url' answers =>
    obtain rfl := Option.some.inj hurl
    simp only [asked, raceDownload, hselected]
  | downloadFullStream url' answers direct =>
    obtain rfl := Option.some.inj hurl
    simp only [asked, raceDownload, hselected]

end Selection

/-- After a probe has succeeded through a source, a download asks that source for its own URL if and
only if that is the caller's. -/
theorem selection_consistent_iff (events : List m.Event) :
    EachStep m.step (fun s e => ∀ source url, s.winner = some source → e.downloadUrl = some url →
        (m.asked s e = [(m.handle source, m.ownUrl url source)] ↔ m.ownUrl url source = url))
      ⟨none, none⟩ events := by
  have hsteps : EachStep m.step (fun _ _ => True) ⟨none, none⟩ events :=
    .of_forall fun _ _ => trivial
  have hinitial : Remembers (⟨none, none⟩ : m.State) := rfl
  refine hsteps.imp (fun s e s' h _ hstep => ⟨fun source url hwinner hurl => ?_, h.step hstep⟩)
    hinitial
  rw [asked_eq h hwinner hurl, List.singleton_inj, Prod.mk.injEq]
  exact ⟨fun h => h.2.symm, fun h => ⟨rfl, h.symm⟩⟩

/-- A primary and one mirror. -/
def mirrored : MirrorProtocol ℕ := ⟨0, [("https://mirror.example/file", 1)]⟩

def exampleMetadata : FileMetadata := ⟨"file", some 4, none, true, none, none⟩

/-- Its mirror. -/
def onlyMirror : mirrored.Source := .mirror ⟨0, by decide⟩

/-- The mirror's probe comes first, and a range is downloaded after it. -/
def mirrorWins : List mirrored.Event :=
  [.probe "https://example.com/file" (fun _ => .ok exampleMetadata) [onlyMirror, .primary],
    .download (.range 0 3) "https://example.com/file" ⟨10, .ok [1, 2, 3, 4], []⟩]

/-- The mirror is asked for the primary's URL. -/
theorem mirror_asked_for_other_url :
    ¬EachStep mirrored.step (fun s e => ∀ source url, s.winner = some source →
        e.downloadUrl = some url →
          mirrored.asked s e = [(mirrored.handle source, mirrored.ownUrl url source)])
      ⟨none, none⟩ mirrorWins := by
  intro h
  have hdownload := ((h _ rfl).2 _ rfl).1
  have hasked := hdownload onlyMirror "https://example.com/file" rfl rfl
  revert hasked
  decide

/-! ### Without mirrors -/

/-- `stream::once` of the data. -/
def once (data : Bytes) : List Item := [.ok data]

/-- What a reader gets of a stream: its bytes up to the first error, and the error. -/
def contents : List Item → Bytes × Option DownloadError
  | [] => ([], none)
  | .ok chunk :: rest => (chunk ++ (contents rest).1, (contents rest).2)
  | .error e :: _ => ([], some e)

/-- Both are the same error, or streams of the same contents. -/
def SameStream (x y : DownloadResult (List Item)) : Prop := x.map contents = y.map contents

/-- The answer of the source that is asked first is the answer of the download. -/
def Reached {α : Type} (selected : Option Handle) {n : ℕ} (answers : Answers n α) : Prop :=
  selected.isSome = true ∨ answers.latency ≤ primaryFastTimeout ∧ ∃ data, answers.first = .ok data

/-- The call gives what the primary gives. -/
def Transparent (s : m.State) : m.Event → Prop
  | .probe _ answers joined => (m.probe s answers joined).2 = answers .primary
  | .download op url answers =>
    (m.raceDownload s.selected url op.label answers).2 = answers.first
  | .downloadFullStream url answers direct =>
    SameStream ((m.raceDownload s.selected url Operation.full.label answers).2.map once) direct

/-- When that is so. -/
def Unaltered (s : m.State) : m.Event → Prop
  | .probe _ _ _ => True
  | .download op _ answers =>
    Reached s.selected answers ∨ answers.first = .error (allFailed op.label)
  | .downloadFullStream _ answers direct =>
    (Reached s.selected answers ∧ SameStream (answers.first.map once) direct) ∨
      (¬Reached s.selected answers ∧ SameStream (.error (allFailed Operation.full.label)) direct)

theorem raceDownload_of_reached {α : Type} {selected : Option Handle} {url label : String}
    {answers : Answers m.mirrors.length α} (h : Reached selected answers) :
    (m.raceDownload selected url label answers).2 = answers.first := by
  unfold raceDownload
  cases selected with
  | some sel => rfl
  | none =>
    obtain hselected | ⟨hlatency, data, hfirst⟩ := h
    · cases hselected
    · simp only [if_pos hlatency, hfirst]

/-- Without mirrors nobody is left to ask. -/
theorem raceDownload_of_not_reached {α : Type} {selected : Option Handle} {url label : String}
    {answers : Answers m.mirrors.length α} (hmirrors : m.mirrors = [])
    (h : ¬Reached selected answers) :
    (m.raceDownload selected url label answers).2 = .error (allFailed label) := by
  have hjoined : answers.joined = [] := by
    cases hjoined : answers.joined with
    | nil => rfl
    | cons answer rest =>
      have hlt := answer.1.isLt
      have hlength : m.mirrors.length = 0 := by rw [hmirrors, List.length_nil]
      omega
  unfold raceDownload
  cases selected with
  | some sel => exact absurd (.inl rfl) h
  | none =>
    simp only [hjoined]
    split
    case isTrue hlatency =>
      split
      case h_1 data hfirst => exact absurd (.inr ⟨hlatency, data, hfirst⟩) h
      case h_2 => rfl
    case isFalse => rfl

/-- A primary without mirrors. -/
def alone (primary : Handle) : MirrorProtocol Handle := ⟨primary, []⟩

/-- Without mirrors every call gives what the primary gives if and only if it is a probe, a download
that is answered by a remembered source or in time, or one with the very error of the race; and for
`download_full_stream` the primary's `download_full` and `download_full_stream` agree. -/
theorem transparent_iff (primary : Handle) (events : List (alone primary).Event) :
    EachStep (alone primary).step
      (fun s e => (alone primary).Transparent s e ↔ (alone primary).Unaltered s e)
      ⟨none, none⟩ events := by
  refine .of_forall fun s e => ?_
  cases e with
  | probe url answers joined =>
    have hempty : (alone primary).mirrors.isEmpty = true := rfl
    refine iff_of_true ?_ trivial
    rw [Transparent, probe, if_pos hempty]
    cases answers .primary with
    | ok metadata => rfl
    | error e => rfl
  | download op url answers =>
    rw [Transparent, Unaltered]
    by_cases hreached : Reached s.selected answers
    · rw [raceDownload_of_reached _ hreached]
      simp [hreached]
    · rw [raceDownload_of_not_reached _ rfl hreached]
      simp [hreached, eq_comm]
  | downloadFullStream url answers direct =>
    rw [Transparent, Unaltered]
    by_cases hreached : Reached s.selected answers
    · rw [raceDownload_of_reached _ hreached]
      simp [hreached]
    · rw [raceDownload_of_not_reached _ rfl hreached]
      simp only [hreached, false_and, not_false_eq_true, true_and, false_or]
      rfl

/-- Before a probe, a download that the primary answers after 600 ms or refuses in time gives
another error; after it, so does a stream of a file that is too large for `download_full`. -/
theorem not_transparent :
    ¬(alone 0).Transparent ⟨none, none⟩
        (.download (.range 0 3) "https://example.com/file" ⟨600, .ok [1, 2, 3, 4], []⟩) ∧
      ¬(alone 0).Transparent ⟨none, none⟩
        (.download (.range 0 3) "https://example.com/file" ⟨10, .error (.forbidden 403), []⟩) ∧
      ¬(alone 0).Transparent ⟨some 0, some .primary⟩
        (.downloadFullStream "https://example.com/file"
          ⟨10, .error (.protocol "响应体过大: 10485761 > 最大允许 10485760 字节"), []⟩
          (.ok [.ok (List.replicate 10485761 7)])) := by
  refine ⟨fun h => ?_, fun h => ?_, fun h => ?_⟩
  · cases h
  · cases h
  · cases h

end MirrorProtocol

end Tachyon
