import Tachyon.Engine.DownloadTask
import Tachyon.Engine.FullIntegrity

/-!
# The file a successful run leaves

With a storage that writes whole and a server that is right about the entity, a run
that returns Ok has written the entity over the old content from the start of the
file on. The old content is cut off only where `allocate` sets the length, so what
lay beyond the entity's end may survive.
-/

namespace Tachyon

open Resumption ByteFile

/-- The storage takes every write whole, and the server describes and delivers the entity:
the probed size is its length, a full stream that ends cleanly is the entity and a stream
of a range that ends cleanly is the range; a stream cut short is a beginning. -/
structure Correct (entity : Bytes) (metadata : FileMetadata) (env : Environment) : Prop where
  whole : ∀ offset data n, env.writes offset data (.ok n) → n = data.length
  size : ∀ size, metadata.fileSize = some size → size.toNat = entity.length
  fulls : ∀ items, env.fulls items → deliveredBytes items <+: entity
  full_clean : ∀ items, env.fulls items → EndsCleanly items → deliveredBytes items = entity
  ranges : ∀ start end_ items, env.ranges start end_ items → EndsCleanly items →
    deliveredBytes items = (entity.drop start).take (end_ - start + 1)

/-- A reliable environment is correct about its entity. -/
theorem reliable_correct {entity : Bytes} {metadata : FileMetadata}
    (hsize : ∀ size, metadata.fileSize = some size → size.toNat = entity.length) :
    Correct entity metadata (.reliable entity) := by
  have hwhole : ∀ data : Bytes, deliveredBytes ([.ok data] : List Item) = data :=
    fun data => List.append_nil data
  refine ⟨fun _ data n hn => Except.ok.inj hn, hsize, ?_, ?_, ?_⟩
  · rintro items rfl
    exact (hwhole entity).symm ▸ List.prefix_rfl
  · rintro items rfl -
    exact hwhole entity
  · rintro start end_ items rfl -
    exact hwhole _

section Full

variable {env : Environment} {expectedSize : Option UInt64} {maxFullStreamBytes : UInt64}
  {items : List Item} {w w' : World} {file written : Bytes} {pos pos' : ℕ}

/-- The full loop replaces the beginning of the file by the stream. -/
theorem fullLoop_replaces
    (hwhole : ∀ offset data n, env.writes offset data (.ok n) → n = data.length)
    (hfile : w.file = written ++ file.drop written.length) (hpos : pos = written.length)
    (hbound : expectedSize.isSome → pos + (deliveredBytes items).length < u64Bound)
    (hrun : Yields (Handles env) (fullLoop expectedSize maxFullStreamBytes items pos) w (.ok pos')
      w') :
    EndsCleanly items ∧ w'.file = (written ++ deliveredBytes items) ++
      file.drop (written ++ deliveredBytes items).length := by
  induction items generalizing w pos written with
  | nil =>
    obtain ⟨-, rfl⟩ := yields_pure.mp hrun
    refine ⟨fun item hitem => absurd hitem List.not_mem_nil, ?_⟩
    rw [hfile, deliveredBytes, List.append_nil]
  | cons item items ih =>
    unfold fullLoop at hrun
    simp only [yields_bind, yields_request, yields_fromResult, yields_orThrow] at hrun
    obtain ⟨control, w₁, hcontrol, _, _, ⟨_, rfl⟩, hrun⟩ := hrun
    obtain ⟨chunk, _, ⟨hitem, rfl⟩, len, _, ⟨hlen, rfl⟩, _, _, ⟨hlimit, rfl⟩, hrun⟩ := hrun
    obtain ⟨result, w₂, hwrite, n, _, ⟨hresult, rfl⟩, _, w₃, hlimiter, hrest⟩ := hrun
    subst hitem hresult
    have hidle : w₁ = w := hcontrol
    have hidle' : w₃ = w₂ := hlimiter
    subst w₁ w₃
    obtain ⟨hallowed, k, -, hk, rfl⟩ := hwrite
    obtain rfl := hk n rfl
    obtain rfl := hwhole _ _ _ hallowed
    obtain ⟨-, rfl⟩ := tryFromUsize_eq_some.mp hlen
    rw [List.take_length] at hrest
    have hbytes : deliveredBytes (.ok chunk :: items) = chunk ++ deliveredBytes items := rfl
    have hnowrap : wrappingAdd pos chunk.length = (written ++ chunk).length := by
      rw [List.length_append, ← hpos]
      refine wrappingAdd_of_lt ?_
      cases expectedSize with
      | some size =>
        have hlt := hbound rfl
        rw [hbytes, List.length_append] at hlt
        omega
      | none =>
        have hadmits := (@admits_iff none maxFullStreamBytes pos chunk.length).mpr ⟨hlen, hlimit⟩
        have hmax : maxFullStreamBytes.toNat < u64Bound := maxFullStreamBytes.toNat_lt
        simp only [admits, Option.isSome_none, Bool.false_or, Bool.and_eq_true,
          decide_eq_true_eq] at hadmits
        omega
    have hwritten : (w.write pos chunk).file =
        (written ++ chunk) ++ file.drop (written ++ chunk).length := by
      rw [World.write_file, hfile, hpos, pwrite_replaced]
    have hbound' : expectedSize.isSome →
        wrappingAdd pos chunk.length + (deliveredBytes items).length < u64Bound := by
      intro hsome
      have hlt := hbound hsome
      rw [hbytes, List.length_append] at hlt
      rw [hnowrap, List.length_append]
      omega
    obtain ⟨hclean, hfinal⟩ := ih hwritten hnowrap hbound' hrest
    constructor
    · intro item hitem
      rcases List.mem_cons.mp hitem with rfl | hitem
      · exact ⟨chunk, rfl⟩
      · exact hclean item hitem
    · rw [hfinal, hbytes, ← List.append_assoc]

/-- Completing the first record leaves the file alone. -/
theorem completeFirst_yields {fragments records : List FragmentRecord}
    (hrun : Yields (Handles env) (completeFirst fragments pos) w (.ok records) w') : w = w' := by
  cases fragments with
  | nil => exact (yields_pure.mp hrun).2
  | cons frag rest =>
    unfold completeFirst at hrun
    by_cases hpending : frag.state = .pending
    · simp only [if_pos hpending, yields_bind, yields_request, yields_fromResult,
        yields_pure] at hrun
      obtain ⟨frag', _, ⟨-, rfl⟩, elapsed, w₁, helapsed, frag'', _, ⟨-, rfl⟩, -, rfl⟩ := hrun
      exact Eq.symm helapsed
    · simp only [if_neg hpending, ok_bind, yields_bind, yields_request, yields_fromResult,
        yields_pure] at hrun
      obtain ⟨elapsed, w₁, helapsed, frag'', _, ⟨-, rfl⟩, -, rfl⟩ := hrun
      exact Eq.symm helapsed

theorem finishFullDownload_yields {fragments records : List FragmentRecord}
    (hrun : Yields (Handles env) (finishFullDownload expectedSize fragments pos) w (.ok records)
      w') : w = w' := by
  cases expectedSize with
  | none => exact completeFirst_yields hrun
  | some size =>
    unfold finishFullDownload at hrun
    dsimp only at hrun
    split at hrun
    · exact absurd hrun not_yields_throw
    · exact completeFirst_yields hrun

/-- A full download that returns Ok replaced the beginning of the file by the entity. -/
theorem executeFull_replaces {entity : Bytes} {metadata : FileMetadata}
    {host : DownloadResult String} {storageReady : Bool}
    {fragments records : List FragmentRecord} (hcorrect : Correct entity metadata env)
    (hrun : Yields (Handles env) (executeFullDownload metadata.fileSize maxFullStreamBytes host
      storageReady fragments) (.initial file) (.ok records) w') :
    w'.file = entity ++ file.drop entity.length := by
  unfold executeFullDownload at hrun
  simp only [yields_bind, yields_request, yields_fromResult, yields_fromSelected] at hrun
  obtain ⟨control, w₁, hcontrol, _, _, ⟨_, rfl⟩, _, _, ⟨_, rfl⟩, hrun⟩ := hrun
  obtain ⟨permit, w₂, hpermit, _, _, ⟨_, rfl⟩, hrun⟩ := hrun
  obtain ⟨opened, w₃, hopen, items, _, ⟨hopened, rfl⟩, hrun⟩ := hrun
  subst hopened
  have hidle : w₁ = .initial file := hcontrol
  have hidle' : w₂ = w₁ := hpermit
  subst w₂ w₁
  obtain ⟨hfulls, rfl⟩ := hopen
  cases storageReady with
  | false => exact absurd hrun not_yields_throw
  | true =>
    rw [Bool.not_true, if_neg Bool.false_ne_true] at hrun
    obtain ⟨pos, w₄, hloop, hfinish⟩ := yields_bind.mp hrun
    have hbound : metadata.fileSize.isSome → 0 + (deliveredBytes items).length < u64Bound := by
      intro hsome
      obtain ⟨size, hsize⟩ := Option.isSome_iff_exists.mp hsome
      have hle := (hcorrect.fulls items hfulls).length_le
      have hlength := hcorrect.size size hsize
      have hlt : size.toNat < u64Bound := size.toNat_lt
      omega
    obtain ⟨hclean, hfile⟩ := @fullLoop_replaces env metadata.fileSize maxFullStreamBytes items _ w₄
      file [] 0 pos hcorrect.whole rfl rfl hbound hloop
    rw [List.nil_append, hcorrect.full_clean items hfulls hclean] at hfile
    rw [← hfile, finishFullDownload_yields hfinish]

end Full

section Task

variable {platform : Platform} {env : Environment} {metadata : FileMetadata} {entity : Bytes}
  {t t' : DownloadTask} {file file' : Option Bytes} {content : Bytes}

theorem probe_yields (hcached : ∀ m, t.metadata = some m → m = metadata)
    (hrun : Yields (TaskHandles platform env metadata) t.probe file (.ok t') file') :
    file' = file ∧ t' = { t with metadata := some metadata } := by
  unfold DownloadTask.probe at hrun
  cases hmetadata : t.metadata with
  | some m =>
    simp only [hmetadata] at hrun
    obtain ⟨rfl, rfl⟩ := yields_pure.mp hrun
    obtain rfl := hcached m hmetadata
    exact ⟨rfl, by rw [← hmetadata]⟩
  | none =>
    simp only [hmetadata, yields_bind, yields_request, yields_pure] at hrun
    obtain ⟨x, file₁, ⟨hfile, hprobed⟩, m, _, hraced, rfl, rfl⟩ := hrun
    obtain ⟨rfl, rfl⟩ := yields_fromRaced.mp hraced
    exact ⟨hfile, by rw [hprobed m rfl]⟩

theorem initStorage_yields (hclosed : t.storage = none) (hprobed : t.metadata = some metadata)
    (hrun : Yields (TaskHandles platform env metadata) t.initStorage file (.ok t') file') :
    file' = some (file.getD []) ∧ ∃ path, t' = { t with storage := some path } := by
  unfold DownloadTask.initStorage at hrun
  simp only [hclosed, Option.isSome_none, Bool.false_eq_true, if_false, hprobed, orThrow_some,
    ok_bind, yields_bind, yields_request, yields_fromResult, yields_pure] at hrun
  obtain ⟨x, file₁, hvalidate, path, _, ⟨-, rfl⟩, hrun⟩ := hrun
  obtain ⟨opened, file₂, hopen, _, _, ⟨rfl, rfl⟩, rfl, rfl⟩ := hrun
  have hidle : file₁ = file := hvalidate
  subst file₁
  exact ⟨hopen, path, by rw [hprobed]⟩

theorem plan_of_nothing_completed (hresume : t.completedFragments = [])
    (hprobed : t.metadata = some metadata)
    (hrun : Yields (TaskHandles platform env metadata)
      (orPanic t.plan >>= fun planned => fromResult planned) file (.ok t') file') :
    file' = file ∧ ∃ plan, t.plannedFragments metadata = some plan ∧
      t' = { t with fragments := freshRecords t.config.maxRetries plan } := by
  obtain ⟨planned, file₁, hplanned, hresult⟩ := yields_bind.mp hrun
  obtain ⟨rfl, rfl⟩ := yields_fromResult.mp hresult
  cases hplan : t.plannedFragments metadata with
  | none =>
    have hpanic : t.plan = none := by simp [DownloadTask.plan, hprobed, hplan]
    rw [hpanic] at hplanned
    obtain ⟨x, -⟩ := yields_bind.mp hplanned
    exact x.elim
  | some plan =>
    have hok : t.plan = some (.ok { t with
        fragments := freshRecords t.config.maxRetries plan }) := by
      simp only [DownloadTask.plan, hprobed, hplan, hresume, markCompleted]
      rfl
    rw [hok] at hplanned
    obtain ⟨heq, rfl⟩ := yields_pure.mp hplanned
    exact ⟨rfl, plan, rfl, Except.ok.inj heq⟩

/-- The content a download starts writing to: allocated where the size is known and positive. -/
def prepared (platform : Platform) (metadata : FileMetadata) (content : Bytes) : Bytes :=
  if (metadata.fileSize.getD 0).toNat > 0 then
    platform.allocate content (metadata.fileSize.getD 0).toNat
  else content

theorem prepareStorage_yields (hprobed : t.metadata = some metadata)
    (hrun : Yields (TaskHandles platform env metadata) t.prepareStorage (some content) (.ok ())
      file') : file' = some (prepared platform metadata content) := by
  unfold DownloadTask.prepareStorage at hrun
  simp only [hprobed, orThrow_some, ok_bind] at hrun
  obtain ⟨path, _, hpath, hrun⟩ := yields_bind.mp hrun
  obtain ⟨-, rfl⟩ := yields_orThrow.mp hpath
  unfold prepared
  by_cases hsize : (metadata.fileSize.getD 0).toNat > 0
  · rw [if_pos hsize] at hrun ⊢
    obtain ⟨x, file₁, hallocate, hraced⟩ := yields_bind.mp hrun
    obtain ⟨rfl, rfl⟩ := yields_fromRaced.mp hraced
    exact yields_request.mp hallocate
  · rw [if_neg hsize] at hrun ⊢
    obtain ⟨x, file₁, hskip, hraced⟩ := yields_bind.mp hrun
    obtain ⟨rfl, rfl⟩ := yields_fromRaced.mp hraced
    exact yields_request.mp hskip

/-- A fragmented download that returns Ok replaced the beginning of the file by the entity. -/
theorem executeFragmented_replaces (hcorrect : Correct entity metadata env) {size : UInt64}
    (hsize : metadata.fileSize = some size) {bandwidthBps : ℕ} {config : SchedulerConfig}
    {supportsRange : Bool} {suggestedFragSize : Option ℕ} {plan : List FragmentInfo}
    (hplan : planFragments bandwidthBps config size.toNat supportsRange suggestedFragSize =
      some plan) {maxConcurrentFragments maxRetries : ℕ} {host : DownloadResult String}
    {url : String} {s₀ s : Fragmented (fragmentSpecs (freshRecords maxRetries plan))}
    (hstart : startFragmented maxConcurrentFragments maxRetries host url (some content)
      (freshRecords maxRetries plan) = .ok s₀)
    (hrun : Relation.ReflTransGen (FragmentedStep env) s₀ s)
    (hok : s.outcome = some (.ok ())) :
    s.world.file = entity ++ content.drop entity.length := by
  have hinv := fragmented_invariant hplan hstart hrun
  have hlength := hcorrect.size size hsize
  have hserved : ServedAllowed env s.world := by
    refine servedAllowed_run ?_ hrun
    obtain ⟨file, -, hworld, -⟩ := startFragmented_ok hstart
    rw [hworld]
    exact fun _ _ => Or.inl rfl
  refine file_of_ok hplan hinv hok hlength.symm fun f hf => ?_
  have hdelivered := delivered_of_ok hinv hok hf
  have hsizef := planFragments_size hplan hf
  rcases hserved f.start f.end_ with hnone | hallowed
  · have hbytes := hdelivered.length_eq
    rw [hnone] at hbytes
    cases hbytes
  · rw [hcorrect.ranges _ _ _ hallowed hdelivered.clean, hsizef]

theorem executeFragmented_handled (hcorrect : Correct entity metadata env) {size : UInt64}
    (hsize : metadata.fileSize = some size) {bandwidthBps : ℕ} {config : SchedulerConfig}
    {supportsRange storageReady : Bool} {suggestedFragSize : Option ℕ} {plan : List FragmentInfo}
    (hplan : planFragments bandwidthBps config size.toNat supportsRange suggestedFragSize =
      some plan) {maxConcurrentFragments maxRetries : ℕ} {host : DownloadResult String}
    {url : String} {records : List FragmentRecord}
    (h : TaskHandles platform env metadata (.executeFragmented maxConcurrentFragments maxRetries
      host url storageReady (freshRecords maxRetries plan)) (some content) (.ok records) file') :
    file' = some (entity ++ content.drop entity.length) := by
  unfold TaskHandles at h
  dsimp only at h
  split at h
  · exact absurd h.1 (by simp)
  · rename_i s₀ hstart
    obtain ⟨s, hrun, hok, -, rfl⟩ := h
    cases storageReady with
    | false =>
      obtain ⟨file, hnone, -⟩ := startFragmented_ok hstart
      cases hnone
    | true => rw [executeFragmented_replaces hcorrect hsize hplan hstart hrun hok]

/-- Executing a freshly planned task that returns Ok replaced the beginning of the file by
the entity. -/
theorem execute_replaces (hcorrect : Correct entity metadata env)
    (hprobed : t.metadata = some metadata) {plan : List FragmentInfo}
    (hplan : t.plannedFragments metadata = some plan)
    (hfragments : t.fragments = freshRecords t.config.maxRetries plan)
    (hrun : Yields (TaskHandles platform env metadata) t.execute (some content) (.ok t') file') :
    file' = some (entity ++ content.drop entity.length) ∧ t'.config = t.config := by
  unfold DownloadTask.execute at hrun
  simp only [hprobed, orThrow_some, ok_bind] at hrun
  by_cases hempty : metadata.fileSize = some 0
  · rw [if_pos hempty] at hrun
    obtain ⟨rfl, rfl⟩ := yields_pure.mp hrun
    have hnil : entity = [] := List.length_eq_zero_iff.mp (hcorrect.size 0 hempty).symm
    subst hnil
    exact ⟨rfl, rfl⟩
  rw [if_neg hempty] at hrun
  by_cases hfull : (!metadata.supportsRange || decide (t.fragments.length ≤ 1)) = true
  · rw [if_pos hfull] at hrun
    simp only [yields_bind, yields_request, yields_fromResult, yields_pure] at hrun
    obtain ⟨x, file₁, ⟨w, hyields, rfl⟩, records, _, ⟨rfl, rfl⟩, rfl, rfl⟩ := hrun
    have hfile := executeFull_replaces hcorrect hyields
    exact ⟨by rw [Option.map_some, hfile, Option.getD_some], rfl⟩
  · rw [if_neg hfull] at hrun
    simp only [yields_bind, yields_request, yields_fromResult, yields_pure] at hrun
    obtain ⟨x, file₁, hhandled, records, _, ⟨rfl, rfl⟩, rfl, rfl⟩ := hrun
    refine ⟨?_, rfl⟩
    have hfresh : TaskHandles platform env metadata (.executeFragmented
        t.config.maxConcurrentFragments t.config.maxRetries t.host t.url t.storage.isSome
        (freshRecords t.config.maxRetries plan)) (some content) (.ok records) file₁ := by
      rw [← hfragments]
      exact hhandled
    unfold DownloadTask.plannedFragments at hplan
    cases hsize : metadata.fileSize with
    | some size =>
      rw [hsize] at hplan
      exact executeFragmented_handled hcorrect hsize hplan hfresh
    | none =>
      -- an unknown size plans no fragment, which is one stream
      have hnil : plan = [] := by
        simpa [hsize, planFragments, eq_comm] using hplan
      simp [hfragments, hnil, freshRecords] at hfull

/-- After a run that returned Ok, the entity stands before what was behind its length in
the prepared file. -/
theorem runInner_replaces {old final : Option Bytes} (hcorrect : Correct entity metadata env)
    (hverify : t.config.verifyChecksum = false) (hclosed : t.storage = none)
    (hcached : ∀ m, t.metadata = some m → m = metadata) (hresume : t.completedFragments = [])
    (hrun : Yields (TaskHandles platform env metadata) t.runInner old (.ok t') final) :
    final = some (entity ++ (prepared platform metadata (old.getD [])).drop entity.length) := by
  unfold DownloadTask.runInner at hrun
  obtain ⟨t₁, file₁, hprobe, hrun⟩ := yields_bind.mp hrun
  obtain ⟨hsame, ht₁⟩ := probe_yields hcached hprobe
  subst file₁
  have hmetadata₁ : t₁.metadata = some metadata := by rw [ht₁]
  obtain ⟨t₂, file₂, hinit, hrun⟩ := yields_bind.mp hrun
  obtain ⟨rfl, path, ht₂⟩ := initStorage_yields (by rw [ht₁]; exact hclosed) hmetadata₁ hinit
  have hmetadata₂ : t₂.metadata = some metadata := by rw [ht₂]; exact hmetadata₁
  obtain ⟨x, file₃, hcheck, hrun⟩ := yields_bind.mp hrun
  have hidle : file₃ = some (old.getD []) := yields_request.mp hcheck
  subst file₃
  obtain ⟨_, file₄, hresult, hrun⟩ := yields_bind.mp hrun
  obtain ⟨-, rfl⟩ := yields_fromResult.mp hresult
  obtain ⟨planned, file₅, hplanned, hrun⟩ := yields_bind.mp hrun
  obtain ⟨t₃, file₆, hplan, hrun⟩ := yields_bind.mp hrun
  obtain ⟨rfl, plan, hfragments, ht₃⟩ := plan_of_nothing_completed
    (by rw [ht₂, ht₁]; exact hresume) hmetadata₂ (yields_bind.mpr ⟨planned, file₅, hplanned, hplan⟩)
  have hmetadata₃ : t₃.metadata = some metadata := by rw [ht₃]; exact hmetadata₂
  obtain ⟨_, file₇, hprepare, hrun⟩ := yields_bind.mp hrun
  obtain rfl := prepareStorage_yields hmetadata₃ hprepare
  obtain ⟨t₄, file₈, hexecute, hrun⟩ := yields_bind.mp hrun
  have hplan₃ : t₃.plannedFragments metadata = some plan := by rw [ht₃]; exact hfragments
  obtain ⟨rfl, hconfig⟩ := execute_replaces hcorrect hmetadata₃ hplan₃ (by rw [ht₃]) hexecute
  obtain ⟨_, file₉, hverified, hrun⟩ := yields_bind.mp hrun
  have hskipped : t₄.verify = pure () := by
    unfold DownloadTask.verify
    rw [hconfig, ht₃, ht₂, ht₁, if_pos (by rw [hverify]; rfl)]
  rw [hskipped] at hverified
  obtain ⟨-, rfl⟩ := yields_pure.mp hverified
  obtain ⟨y, file₁₀, hrace, hrun⟩ := yields_bind.mp hrun
  obtain ⟨_, file₁₁, hraced, hrun⟩ := yields_bind.mp hrun
  obtain ⟨-, rfl⟩ := yields_fromRaced.mp hraced
  obtain ⟨-, rfl⟩ := yields_pure.mp hrun
  exact yields_request.mp hrace

/-- A run that returned Ok, with a whole-writing storage, a correct server, no checksum and
nothing restored, left exactly the entity if and only if the old file was no longer than
the entity, or `allocate` sets the length, the size is known and the entity is not empty. -/
theorem output_file_iff {old final : Option Bytes} (hcorrect : Correct entity metadata env)
    (hverify : t.config.verifyChecksum = false) (hclosed : t.storage = none)
    (hcached : ∀ m, t.metadata = some m → m = metadata) (hresume : t.completedFragments = [])
    (hrun : Yields (TaskHandles platform env metadata) t.runInner old (.ok t') final) :
    final = some entity ↔ (old.getD []).length ≤ entity.length ∨
      (platform = .other ∧ metadata.fileSize.isSome ∧ entity ≠ []) := by
  have hfinal := runInner_replaces hcorrect hverify hclosed hcached hresume hrun
  have hexact : final = some entity ↔
      (prepared platform metadata (old.getD [])).length ≤ entity.length := by
    rw [hfinal, Option.some.injEq, List.append_right_eq_self, List.drop_eq_nil_iff]
  rw [hexact]
  cases hsize : metadata.fileSize with
  | none => simp [prepared, hsize]
  | some size =>
    have hlength := hcorrect.size size hsize
    simp only [prepared, hsize, Option.getD_some, Option.isSome_some, true_and, hlength]
    by_cases hnil : entity = []
    · simp [hnil]
    · have hpos : entity.length > 0 := List.length_pos_iff.mpr hnil
      rw [if_pos hpos]
      cases platform with
      | linux => simp [Platform.allocate]
      | other => simp [Platform.allocate, hnil]

end Task

/-- A task without ranges for a file of one byte. -/
def oneByteTask : DownloadTask where
  url := "url"
  host := .ok "host"
  config := { DownloadConfig.default "dir" with verifyChecksum := false }
  storage := none
  bandwidthBps := 0
  schedulerConfig := .default
  recommend := fun _ _ => ⟨1, 0, 0⟩
  state := .pending
  metadata := none
  fragments := []
  completedFragments := []

/-- What the server says about the file of one byte. -/
def oneByteMetadata : FileMetadata := ⟨"file", some 1, none, false, none, none⟩

/-- The record of the byte once it is downloaded. -/
def oneByteRecord : FragmentRecord := ⟨⟨0, 0, 0, 1, 1, none⟩, .done, 0, 3, some 0⟩

/-- On Linux the one byte replaces the first of three old ones. -/
theorem oneByteTask_run :
    Yields (TaskHandles .linux (.reliable [7]) oneByteMetadata) oneByteTask.runInner
      (some [1, 2, 3]) (.ok { oneByteTask with
        storage := some "dir/file"
        metadata := some oneByteMetadata
        fragments := [oneByteRecord]
        state := .completed }) (some [7, 2, 3]) := by
  have hfull : Yields (Handles (.reliable [7])) (executeFullDownload (some 1)
      defaultMaxFullStreamBytes (.ok "host") true [.new ⟨0, 0, 0, 1, 0, none⟩ 3])
      (.initial [1, 2, 3]) (.ok [oneByteRecord]) ((World.initial [1, 2, 3]).write 0 [7]) :=
    Prog.exec_returns (reliable_handles [7]) _ _
  refine .call (x := .finished (.ok oneByteMetadata)) ⟨rfl, ?_⟩ ?_
  · rintro m ⟨⟩
    rfl
  refine .call (x := .ok "dir/file") rfl (.call (x := .ok ()) rfl (.call (x := .ok ()) rfl ?_))
  have hallocate : TaskHandles .linux (.reliable [7]) oneByteMetadata (.allocate 1)
      (some [1, 2, 3]) (.finished (.ok ())) (some [1, 2, 3]) := rfl
  have hexecute : TaskHandles .linux (.reliable [7]) oneByteMetadata
      (.executeFull (some 1) defaultMaxFullStreamBytes (.ok "host") true
        [.new ⟨0, 0, 0, 1, 0, none⟩ 3])
      (some [1, 2, 3]) (.ok [oneByteRecord]) (some [7, 2, 3]) := ⟨_, hfull, rfl⟩
  have hverified : TaskHandles .linux (.reliable [7]) oneByteMetadata .verified
      (some [7, 2, 3]) (.finished (.ok ())) (some [7, 2, 3]) := rfl
  exact .call hallocate (.call hexecute (.call hverified (.done _ _)))

/-- The run of the one byte over three: it returns Ok and the tail of the old file is still
there. -/
theorem output_keeps_old_tail :
    ∃ t' final, Yields (TaskHandles .linux (.reliable [7]) oneByteMetadata) oneByteTask.runInner
      (some [1, 2, 3]) (.ok t') final ∧ final = some [7, 2, 3] ∧ final ≠ some [7] :=
  ⟨_, _, oneByteTask_run, rfl, by decide⟩

/-- The old file of three bytes is what keeps the run of the one byte from being exact. -/
theorem output_file_iff_one_byte :
    (some [7, 2, 3] : Option Bytes) = some [7] ↔ ([1, 2, 3] : Bytes).length ≤ [7].length ∨
      (Platform.linux = .other ∧ oneByteMetadata.fileSize.isSome ∧ ([7] : Bytes) ≠ []) :=
  output_file_iff (reliable_correct (by rintro size ⟨⟩; rfl)) rfl rfl (by rintro m ⟨⟩) rfl
    oneByteTask_run

end Tachyon
