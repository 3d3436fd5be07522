import Tachyon.Engine.Fragmented

/-!
# What a fragmented download leaves in the file

Every run over a planned fragment list, with any streams, any partial or failing
writes, any retries and any interleaving: writes stay inside their fragments, and
success means that each fragment holds what its last stream delivered.
-/

namespace Tachyon

open Resumption ByteFile

/-- The records `plan` makes of a fragment list, all Pending. -/
def freshRecords (maxRetries : ℕ) (plan : List FragmentInfo) : List FragmentRecord :=
  plan.map fun info => FragmentRecord.new info maxRetries

theorem fragmentSpecs_freshRecords (maxRetries : ℕ) (plan : List FragmentInfo) :
    fragmentSpecs (freshRecords maxRetries plan) = plan.map FragmentInfo.spec := by
  unfold fragmentSpecs freshRecords
  rw [List.filter_eq_self.mpr, List.map_map]
  · rfl
  · intro record hrecord
    obtain ⟨info, -, rfl⟩ := List.mem_map.mp hrecord
    simp [FragmentRecord.new]

/-- The ranges of a planned list are separated and lie within the file. -/
theorem planFragments_separated {bandwidthBps : ℕ} {config : SchedulerConfig} {fileSize : UInt64}
    {supportsRange : Bool} {suggestedFragSize : Option ℕ} {plan : List FragmentInfo}
    (hplan : planFragments bandwidthBps config fileSize.toNat supportsRange suggestedFragSize =
      some plan) :
    Separated (plan.map FragmentInfo.spec) ∧
      (∀ spec ∈ plan.map FragmentInfo.spec, spec.end_ < fileSize.toNat) ∧
      ∀ x < fileSize.toNat, ∃ f ∈ plan, f.start ≤ x ∧ x < f.start + f.size := by
  rcases Nat.eq_zero_or_pos fileSize.toNat with hzero | hpos
  · have hnil : plan = [] := by
      rw [hzero] at hplan
      simpa [planFragments, eq_comm] using hplan
    subst hnil
    refine ⟨⟨fun _ h => absurd h List.not_mem_nil, List.Pairwise.nil⟩,
      fun _ h => absurd h List.not_mem_nil, fun x hx => by omega⟩
  · rw [planFragments_eq_cutInto hpos fileSize.toNat_lt] at hplan
    obtain ⟨size, hcut, rfl⟩ := Option.map_eq_some_iff.mp hplan
    have hsize := cutSize_pos hpos hcut
    refine ⟨cutInto_separated hsize, ?_, fun x hx => exists_mem_cutInto hsize hx⟩
    intro spec hspec
    obtain ⟨f, hf, rfl⟩ := List.mem_map.mp hspec
    obtain ⟨i, hi, rfl⟩ := mem_cutInto.mp hf
    obtain ⟨-, hend, -⟩ := fragmentAt_bounds ((lt_divCeil_iff hsize).mp hi) hsize
    simp only [FragmentInfo.spec]
    omega

/-- A planned fragment is as long as its range. -/
theorem planFragments_size {bandwidthBps : ℕ} {config : SchedulerConfig} {fileSize : UInt64}
    {supportsRange : Bool} {suggestedFragSize : Option ℕ} {plan : List FragmentInfo}
    (hplan : planFragments bandwidthBps config fileSize.toNat supportsRange suggestedFragSize =
      some plan) {f : FragmentInfo} (hf : f ∈ plan) : f.end_ - f.start + 1 = f.size := by
  rcases Nat.eq_zero_or_pos fileSize.toNat with hzero | hpos
  · have hnil : plan = [] := by
      rw [hzero] at hplan
      simpa [planFragments, eq_comm] using hplan
    subst hnil
    cases hf
  · rw [planFragments_eq_cutInto hpos fileSize.toNat_lt] at hplan
    obtain ⟨size, hcut, rfl⟩ := Option.map_eq_some_iff.mp hplan
    have hsize := cutSize_pos hpos hcut
    obtain ⟨i, hi, rfl⟩ := mem_cutInto.mp hf
    obtain ⟨hstart, hend, hlength⟩ := fragmentAt_bounds ((lt_divCeil_iff hsize).mp hi) hsize
    have hlt := (lt_divCeil_iff hsize).mp hi
    omega

section Run

variable {env : Environment} {bandwidthBps : ℕ} {config : SchedulerConfig} {fileSize : UInt64}
  {supportsRange : Bool} {suggestedFragSize : Option ℕ} {plan : List FragmentInfo}
  {maxConcurrentFragments maxRetries : ℕ} {host : DownloadResult String} {url : String}
  {file : Bytes} {s₀ s : Fragmented (fragmentSpecs (freshRecords maxRetries plan))}

theorem fragmented_invariant
    (hplan : planFragments bandwidthBps config fileSize.toNat supportsRange suggestedFragSize =
      some plan)
    (hstart : startFragmented maxConcurrentFragments maxRetries host url (some file)
      (freshRecords maxRetries plan) = .ok s₀)
    (hrun : Relation.ReflTransGen (FragmentedStep env) s₀ s) :
    FragmentedInvariant env fileSize.toNat file s := by
  obtain ⟨hsep, hend, -⟩ := planFragments_separated hplan
  rw [← fragmentSpecs_freshRecords maxRetries plan] at hsep hend
  exact (startFragmented_invariant env fileSize.toNat hsep hstart).run hsep hend hrun

/-- A successful run over a planned list has delivered every fragment of it. -/
theorem delivered_of_ok (hinv : FragmentedInvariant env fileSize.toNat file s)
    (hok : s.outcome = some (.ok ())) {f : FragmentInfo} (hf : f ∈ plan) :
    Delivered f.start f.end_ s.world := by
  have hmem : f.spec ∈ fragmentSpecs (freshRecords maxRetries plan) := by
    rw [fragmentSpecs_freshRecords]
    exact List.mem_map_of_mem hf
  obtain ⟨i, hi, hget⟩ := List.getElem_of_mem hmem
  have hspec := hinv.delivered hok ⟨i, hi⟩
  simp only [Fin.getElem_fin, hget] at hspec
  exact hspec

/-- Where the fragments' streams are the source's bytes, the source replaces the beginning
of the file. -/
theorem file_of_ok
    (hplan : planFragments bandwidthBps config fileSize.toNat supportsRange suggestedFragSize =
      some plan)
    (hinv : FragmentedInvariant env fileSize.toNat file s) (hok : s.outcome = some (.ok ()))
    {source : Bytes} (hlength : source.length = fileSize.toNat)
    (hsource : ∀ f ∈ plan, deliveredBytes (s.world.served f.start f.end_) =
      (source.drop f.start).take f.size) :
    s.world.file = source ++ file.drop source.length := by
  obtain ⟨-, -, hcover⟩ := planFragments_separated hplan
  have hstored : StoredAt s.world.file 0 source := by
    refine storedAt_of_slices fun x hx => ?_
    obtain ⟨f, hf, hlo, hhi⟩ := hcover x (by omega)
    refine ⟨f.start, f.size, hlo, hhi, ?_⟩
    rw [← hsource f hf]
    exact (delivered_of_ok hinv hok hf).stored
  rw [hstored.eq_append_drop]
  congr 1
  apply List.ext_getElem?
  intro x
  rw [List.getElem?_drop, List.getElem?_drop]
  exact hinv.tail _ (by omega)

/-- Every state of every run of a fragmented download over a planned list: a task that
writes does so inside its fragment, and once the run returned Ok every fragment holds
exactly the bytes of its last stream, which are as many as the fragment has. Where those
are the source's bytes, the source stands in the file, and is the file if nothing longer
was there before. -/
theorem fragmented_integrity
    (hplan : planFragments bandwidthBps config fileSize.toNat supportsRange suggestedFragSize =
      some plan)
    (hstart : startFragmented maxConcurrentFragments maxRetries host url (some file)
      (freshRecords maxRetries plan) = .ok s₀)
    (hrun : Relation.ReflTransGen (FragmentedStep env) s₀ s) :
    (∀ (i : Fin (fragmentSpecs (freshRecords maxRetries plan)).length) (op : Request)
      (k : Answer op → Prog Answer FragmentTaskResult), s.threads i = .call op k →
      WritesWithin (fragmentSpecs (freshRecords maxRetries plan))[i].start
        (fragmentSpecs (freshRecords maxRetries plan))[i].end_ op) ∧
    (s.outcome = some (.ok ()) →
      (∀ f ∈ plan, Delivered f.start f.end_ s.world) ∧
      ∀ source : Bytes, source.length = fileSize.toNat →
        (∀ f ∈ plan, deliveredBytes (s.world.served f.start f.end_) =
          (source.drop f.start).take f.size) →
        StoredAt s.world.file 0 source ∧
          (file.length ≤ fileSize.toNat → s.world.file = source)) := by
  have hinv := fragmented_invariant hplan hstart hrun
  refine ⟨fun i op k hi => hinv.writesWithin hi, fun hok => ?_⟩
  refine ⟨fun f hf => delivered_of_ok hinv hok hf, fun source hlength hsource => ?_⟩
  have hfile := file_of_ok hplan hinv hok hlength hsource
  have hstored := storedAt_append_left source (file.drop source.length)
  rw [← hfile] at hstored
  refine ⟨hstored, fun hshort => ?_⟩
  rw [hfile, List.drop_eq_nil_of_le (by omega), List.append_nil]

end Run

/-- A file of three bytes cut in two, downloaded into an empty file. -/
theorem fragmented_integrity_three_bytes :
    ∃ s : Fragmented (fragmentSpecs (freshRecords 0 (cutInto 3 2))),
      s.outcome = some (.ok ()) ∧ s.world.file = [10, 20, 30] := by
  have hplan : planFragments 0 .default (3 : UInt64).toNat true (some 2) = some (cutInto 3 2) := by
    decide
  let s₀ := (startFragmented 2 0 (.ok "host") "url" (some [])
    (freshRecords 0 (cutInto 3 2))).toOption.get (by decide)
  have hstart : startFragmented 2 0 (.ok "host") "url" (some [])
    (freshRecords 0 (cutInto 3 2)) = .ok s₀ := rfl
  let joined (s : Fragmented (fragmentSpecs (freshRecords 0 (cutInto 3 2)))) : Prop :=
    s.outcome.isNone ∧ (∀ i, s.live i = false) ∧ ∀ f ∈ cutInto 3 2,
      deliveredBytes (s.world.served f.start f.end_) = ([10, 20, 30].drop f.start).take f.size
  have hdrive : (s₀.drive (reliable [10, 20, 30]) [⟨0, by decide⟩, ⟨1, by decide⟩]).any
      (fun s => decide (joined s)) = true := by decide +kernel
  obtain ⟨s, hs, hjoined⟩ := (Option.any_eq_true _ _).mp hdrive
  obtain ⟨hrunning, hall, hserved⟩ := of_decide_eq_true hjoined
  have hrun := Fragmented.drive_run (reliable_handles [10, 20, 30]) hs
  have hend := hrun.tail
    (@FragmentedStep.sync _ _ _ (.ok ()) (Option.isNone_iff_eq_none.mp hrunning) hall)
  obtain ⟨-, hok⟩ := fragmented_integrity hplan hstart hend
  exact ⟨_, rfl, ((hok rfl).2 [10, 20, 30] rfl hserved).2 (by decide)⟩

end Tachyon
