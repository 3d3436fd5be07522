import Tachyon.Library.Simulations
import Tachyon.Scheduler.Versions
import Mathlib.Data.Finset.Max

/-!
# Schedulers with the same results

What the heap holds of outdated entries, and under which versions, cannot be told from the
results of later calls, as long as there are version numbers. Which of several greatest
entries a heap gives first is left open.
-/

namespace Tachyon

open MaxHeap Simulations

variable {Id F : Type} [LinearOrder Id] [LinearOrder F] [Zero F]

/-- One call, with the heap arranged in some way. -/
def Scheduler.CanStep (s : Scheduler Id F) (op : SchedulerOp Id F) (out : SchedulerOut Id F)
    (s' : Scheduler Id F) : Prop := ∃ heap : TaskHeap Id F, s.step heap op = (out, s')

/-- Two schedulers return the same in every later sequence of calls, as long as there are version
numbers. -/
def Scheduler.SameResults (s t : Scheduler Id F) : Prop :=
  ∀ ops : List (SchedulerOp Id F), ∀ outs,
    s.nextVersion.toNat + (ops.map SchedulerOp.cost).sum < 2 ^ 64 →
    t.nextVersion.toNat + (ops.map SchedulerOp.cost).sum < 2 ^ 64 →
    (CanRun Scheduler.CanStep s ops outs ↔ CanRun Scheduler.CanStep t ops outs)

/-- What `pop` may return of a live id, without its version. -/
def Scheduler.Top (s : Scheduler Id F) (taskId : Id) (x : ScheduledTask Id F) : Prop :=
  ∃ t, s.Live t ∧ t.taskId = taskId ∧ t.plain = x ∧ ∀ u, s.Live u → u.taskId = taskId → u.Le t

/-- Two schedulers that differ in versions and outdated entries only. -/
structure Scheduler.Alike (s t : Scheduler Id F) : Prop where
  index : ∀ id, (s.index.lookup id).map ScheduledTask.plain =
    (t.index.lookup id).map ScheduledTask.plain
  top : ∀ id x, s.Top id x ↔ t.Top id x

/-- Alike schedulers, as long as there are version numbers. -/
structure Scheduler.AlikeFor (budget : ℕ) (s t : Scheduler Id F) : Prop where
  left : s.Issued
  right : t.Issued
  leftLeft : s.nextVersion.toNat + budget < 2 ^ 64
  rightLeft : t.nextVersion.toNat + budget < 2 ^ 64
  alike : s.Alike t

variable {heap : TaskHeap Id F} {s s' t t' : Scheduler Id F} {id : Id}
  {u v x : ScheduledTask Id F}

/-! ### Schedulers that are alike -/

omit [LinearOrder Id] [LinearOrder F] [Zero F] in
theorem ScheduledTask.taskId_eq_of_plain (h : u.plain = v.plain) : u.taskId = v.taskId := by
  rw [← ScheduledTask.plain_taskId, h, ScheduledTask.plain_taskId]

theorem ScheduledTask.le_of_plain_eq (h : u.plain = v.plain) : u.Le v := by
  rw [← ScheduledTask.plain_le_plain, h]
  exact ScheduledTask.le_refl _

theorem Scheduler.top_congr (h : ∀ u, u.taskId = id → (s.Live u ↔ t.Live u)) :
    s.Top id x ↔ t.Top id x := by
  constructor
  · rintro ⟨u, hu, hid, hx, hmax⟩
    exact ⟨u, (h u hid).mp hu, hid, hx, fun w hw hwid => hmax w ((h w hwid).mpr hw) hwid⟩
  · rintro ⟨u, hu, hid, hx, hmax⟩
    exact ⟨u, (h u hid).mpr hu, hid, hx, fun w hw hwid => hmax w ((h w hwid).mp hw) hwid⟩

theorem Scheduler.Replaces.top (h : s.Replaces u s') :
    s'.Top id x ↔ if id = u.taskId then u.plain = x else s.Top id x := by
  split
  · rename_i hid
    constructor
    · rintro ⟨w, hw, hwid, hx, -⟩
      rcases (h.live w).mp hw with rfl | ⟨hne, -⟩
      · exact hx
      · exact absurd (hwid.trans hid) hne
    · intro hx
      refine ⟨u, (h.live u).mpr (Or.inl rfl), hid.symm, hx, fun w hw hwid => ?_⟩
      rcases (h.live w).mp hw with rfl | ⟨hne, -⟩
      · exact ScheduledTask.le_refl w
      · exact absurd (hwid.trans hid) hne
  · rename_i hid
    refine top_congr fun w hw => ?_
    have hne : w.taskId ≠ u.taskId := fun heq => hid (hw.symm.trans heq)
    have hneq : w ≠ u := fun heq => hne (heq ▸ rfl)
    rw [h.live w]
    simp only [hneq, hne, false_or, ne_eq, not_false_eq_true, true_and]

theorem Scheduler.Drops.top {taskId : Id} (h : s.Drops taskId s') :
    s'.Top id x ↔ id ≠ taskId ∧ s.Top id x := by
  constructor
  · rintro ⟨u, hu, hid, hx, hmax⟩
    obtain ⟨hne, hlive⟩ := (h.live u).mp hu
    refine ⟨hid ▸ hne, u, hlive, hid, hx, fun w hw hwid => hmax w ?_ hwid⟩
    exact (h.live w).mpr ⟨hwid.trans hid.symm ▸ hne, hw⟩
  · rintro ⟨hne, u, hu, hid, hx, hmax⟩
    refine ⟨u, (h.live u).mpr ⟨hid ▸ hne, hu⟩, hid, hx, fun w hw hwid => ?_⟩
    exact hmax w ((h.live w).mp hw).2 hwid

theorem Scheduler.Alike.replaces (h : s.Alike t) (hs : s.Replaces u s') (ht : t.Replaces v t')
    (huv : u.plain = v.plain) : s'.Alike t' where
  index := by
    intro id
    have hid := ScheduledTask.taskId_eq_of_plain huv
    rw [hs.index, ht.index, hid]
    split
    · rw [Option.map_some, Option.map_some, huv]
    · exact h.index id
  top := by
    intro id x
    have hid := ScheduledTask.taskId_eq_of_plain huv
    rw [hs.top, ht.top, hid, huv, h.top]

theorem Scheduler.Alike.drops {taskId : Id} (h : s.Alike t) (hs : s.Drops taskId s')
    (ht : t.Drops taskId t') : s'.Alike t' where
  index := by
    intro id
    rw [hs.index, ht.index]
    split
    · rfl
    · exact h.index id
  top := by
    intro id x
    rw [hs.top, ht.top, h.top]

theorem Scheduler.Alike.symm (h : s.Alike t) : t.Alike s where
  index := fun id => (h.index id).symm
  top := fun id x => (h.top id x).symm

theorem Scheduler.alike_of_bare (hs : ∀ id, s.index.lookup id = none)
    (ht : ∀ id, t.index.lookup id = none) : s.Alike t where
  index := fun id => by rw [hs, ht]
  top := by
    intro id x
    constructor
    · rintro ⟨u, hu, -⟩
      exact absurd hu (not_live_of_bare hs)
    · rintro ⟨u, hu, -⟩
      exact absurd hu (not_live_of_bare ht)

theorem Scheduler.Alike.lookup_eq_some (h : s.Alike t) (hu : s.index.lookup id = some u) :
    ∃ v, t.index.lookup id = some v ∧ u.plain = v.plain := by
  have hplain := h.index id
  rw [hu, Option.map_some] at hplain
  obtain ⟨v, hv, heq⟩ := Option.map_eq_some_iff.mp hplain.symm
  exact ⟨v, hv, heq.symm⟩

theorem Scheduler.Alike.lookup_eq_none (h : s.Alike t) (hs : s.index.lookup id = none) :
    t.index.lookup id = none := by
  have hplain := h.index id
  rw [hs, Option.map_none] at hplain
  exact Option.map_eq_none_iff.mp hplain.symm

theorem Scheduler.Alike.isSome_lookup (h : s.Alike t) :
    (s.index.lookup id).isSome = (t.index.lookup id).isSome := by
  rw [← Option.isSome_map, h.index, Option.isSome_map]

theorem Scheduler.Alike.mem_iff (h : s.Alike t) : id ∈ s.index ↔ id ∈ t.index := by
  rw [← Finmap.lookup_isSome, ← Finmap.lookup_isSome, h.isSome_lookup]

theorem Scheduler.Alike.keys_eq (h : s.Alike t) : s.index.keys = t.index.keys := by
  ext id
  rw [Finmap.mem_keys, Finmap.mem_keys, h.mem_iff]

/-- Every live entry has a greatest one of its id above it. -/
theorem Scheduler.exists_top (hu : s.Live u) : ∃ v, s.Live v ∧ v.taskId = u.taskId ∧ u.Le v ∧
    ∀ w, s.Live w → w.taskId = u.taskId → w.Le v := by
  classical
  let copies := s.queue.toFinset.filter fun w => s.Live w ∧ w.taskId = u.taskId
  have hcopies : ∀ w, w ∈ copies ↔ s.Live w ∧ w.taskId = u.taskId := by
    intro w
    rw [Finset.mem_filter, List.mem_toFinset]
    exact ⟨fun h => h.2, fun h => ⟨h.1.1, h⟩⟩
  obtain ⟨v, hv, hmax⟩ := copies.exists_max_image ScheduledTask.key ⟨u, (hcopies u).mpr ⟨hu, rfl⟩⟩
  obtain ⟨hlive, hid⟩ := (hcopies v).mp hv
  refine ⟨v, hlive, hid, ?_, fun w hw hwid => ?_⟩
  · exact (ScheduledTask.le_iff u v).mpr (hmax u ((hcopies u).mpr ⟨hu, rfl⟩))
  · exact (ScheduledTask.le_iff w v).mpr (hmax w ((hcopies w).mpr ⟨hw, hwid⟩))

/-- What one of them may return, the other may. -/
theorem Scheduler.Alike.exists_greatest (h : s.Alike t) (hu : s.Live u)
    (hmax : ∀ w, s.Live w → w.Le u) :
    ∃ v, t.Live v ∧ u.plain = v.plain ∧ ∀ w, t.Live w → w.Le v := by
  have htop : s.Top u.taskId u.plain := ⟨u, hu, rfl, rfl, fun w hw _ => hmax w hw⟩
  obtain ⟨v, hv, -, hplain, -⟩ := (h.top _ _).mp htop
  refine ⟨v, hv, hplain.symm, fun w hw => ?_⟩
  obtain ⟨w', hw', hid, hle, hgreatest⟩ := exists_top hw
  have hother : t.Top w.taskId w'.plain := ⟨w', hw', hid, rfl, hgreatest⟩
  obtain ⟨w'', hw'', -, heq, -⟩ := (h.top _ _).mpr hother
  have hle' : w'.Le w'' := ScheduledTask.le_of_plain_eq heq.symm
  have huv : u.Le v := ScheduledTask.le_of_plain_eq hplain.symm
  exact ScheduledTask.le_trans (ScheduledTask.le_trans hle hle')
    (ScheduledTask.le_trans (hmax w'' hw'') huv)

/-! ### Alike schedulers return the same -/

theorem Scheduler.AlikeFor.queue {budget : ℕ} (h : s.AlikeFor (1 + budget) t)
    (huv : u.plain = v.plain) : (s.queued heap u).AlikeFor budget (t.queued heap v) := by
  have hleft := h.leftLeft
  have hright := h.rightLeft
  obtain ⟨hs, hnexts, hreplaces⟩ := h.left.queue heap (by omega) u
  obtain ⟨ht, hnextt, hreplacet⟩ := h.right.queue heap (by omega) v
  exact {
    left := hs
    right := ht
    leftLeft := by omega
    rightLeft := by omega
    alike := h.alike.replaces hreplaces hreplacet huv }

theorem Scheduler.AlikeFor.erase {budget : ℕ} (h : s.AlikeFor budget t) (taskId : Id) :
    AlikeFor budget { s with index := s.index.erase taskId }
      { t with index := t.index.erase taskId } where
  left := h.left.erase taskId
  right := h.right.erase taskId
  leftLeft := h.leftLeft
  rightLeft := h.rightLeft
  alike := h.alike.drops (s.drops_erase taskId) (t.drops_erase taskId)

theorem Scheduler.AlikeFor.edit {budget : ℕ} (h : s.AlikeFor (1 + budget) t) (edit : TaskEdit F)
    {out : SchedulerOut Id F} (hstep : s.step heap (edit.call id) = (out, s')) :
    ∃ t', t.CanStep (edit.call id) out t' ∧ s'.AlikeFor budget t' := by
  cases hlookup : s.index.lookup id with
  | none =>
    rw [step_edit_none edit hlookup] at hstep
    cases hstep
    refine ⟨t, ⟨heap, step_edit_none edit (h.alike.lookup_eq_none hlookup)⟩, ?_⟩
    have hleft := h.leftLeft
    have hright := h.rightLeft
    exact { h with leftLeft := by omega, rightLeft := by omega }
  | some u =>
    obtain ⟨v, hv, huv⟩ := h.alike.lookup_eq_some hlookup
    rw [step_edit h.left edit hlookup] at hstep
    cases hstep
    refine ⟨t.queued heap (edit.apply v), ⟨heap, ?_⟩, h.queue ?_⟩
    · rw [step_edit h.right edit hv, huv]
    · rw [edit.apply_plain, edit.apply_plain, huv]

theorem Scheduler.AlikeFor.pop {budget : ℕ} (h : s.AlikeFor budget t)
    {out : SchedulerOut Id F} (hstep : s.step heap .pop = (out, s')) :
    ∃ t', t.CanStep .pop out t' ∧ s'.AlikeFor budget t' := by
  have hleft := h.leftLeft
  have hright := h.rightLeft
  have hanswer : ∀ heap' : TaskHeap Id F,
      (t.pop heap').1.map ScheduledTask.plain = (s.pop heap).1.map ScheduledTask.plain →
      t.CanStep .pop out (t.pop heap').2 := by
    intro heap' heq
    cases hstep
    exact ⟨heap', congrArg (fun found => (SchedulerOut.task found, (t.pop heap').2)) heq⟩
  obtain rfl : (s.pop heap).2 = s' := congrArg Prod.snd hstep
  obtain ⟨hs, hnexts, ⟨hbare, hnone, hindex⟩ | ⟨u, hu, hmax, hsome, hdrops⟩⟩ := h.left.pop heap
  · have hbaret : ∀ id, t.index.lookup id = none := fun id => h.alike.lookup_eq_none (hbare id)
    obtain ⟨ht, hnextt, ⟨-, hnonet, hindext⟩ | ⟨v, hv, -⟩⟩ := h.right.pop heap
    · refine ⟨(t.pop heap).2, hanswer heap ?_, hs, ht, ?_, ?_, alike_of_bare ?_ ?_⟩
      · rw [hnone, hnonet]
      · rwa [hnexts]
      · rwa [hnextt]
      · exact fun id => (congrArg (Finmap.lookup id) hindex).trans (hbare id)
      · exact fun id => (congrArg (Finmap.lookup id) hindext).trans (hbaret id)
    · exact absurd hv (not_live_of_bare hbaret)
  · obtain ⟨v, hv, huv, hgreatest⟩ := h.alike.exists_greatest hu hmax
    let heap' : TaskHeap Id F := preferring ScheduledTask.Le ScheduledTask.le_total
      (fun _ _ _ => ScheduledTask.le_trans) v
    have hpopped : (t.pop heap').1 = some v := exists_popLoop hv hgreatest le_rfl
    obtain ⟨ht, hnextt, ⟨-, hnonet, -⟩ | ⟨w, -, -, hsomet, hdropt⟩⟩ := h.right.pop heap'
    · exact absurd (hpopped.symm.trans hnonet) (Option.some_ne_none v)
    · obtain rfl : v = w := Option.some.inj (hpopped.symm.trans hsomet)
      refine ⟨(t.pop heap').2, hanswer heap' ?_, hs, ht, ?_, ?_, ?_⟩
      · rw [hsome, hsomet, Option.map_some, Option.map_some, huv]
      · rwa [hnexts]
      · rwa [hnextt]
      · rw [ScheduledTask.taskId_eq_of_plain huv] at hdrops
        exact h.alike.drops hdrops hdropt

theorem Scheduler.canStep_follows :
    Follows (@Scheduler.CanStep Id F _ _ _) SchedulerOp.cost Scheduler.AlikeFor := by
  rintro budget op out s s' t h ⟨heap, hstep⟩
  cases op with
  | push taskId priority fileSize progress =>
    cases hstep
    exact ⟨_, ⟨heap, rfl⟩, h.queue rfl⟩
  | pop =>
    simp only [SchedulerOp.cost, Nat.zero_add] at h
    exact h.pop hstep
  | remove taskId =>
    simp only [SchedulerOp.cost, Nat.zero_add] at h
    cases hstep
    refine ⟨{ t with index := t.index.erase taskId }, ⟨heap, ?_⟩, h.erase taskId⟩
    exact congrArg (fun found => (SchedulerOut.task found,
      { t with index := t.index.erase taskId })) (h.alike.index taskId).symm
  | cancel taskId =>
    simp only [SchedulerOp.cost, Nat.zero_add] at h
    cases hstep
    refine ⟨{ t with index := t.index.erase taskId }, ⟨heap, ?_⟩, h.erase taskId⟩
    exact congrArg (fun found => (SchedulerOut.bool found,
      { t with index := t.index.erase taskId })) h.alike.isSome_lookup.symm
  | updatePriority taskId newPriority => exact h.edit (.priority newPriority) hstep
  | updateProgress taskId newProgress => exact h.edit (.progress newProgress) hstep
  | len =>
    simp only [SchedulerOp.cost, Nat.zero_add] at h
    cases hstep
    refine ⟨t, ⟨heap, ?_⟩, h⟩
    exact congrArg (fun keys => (SchedulerOut.nat keys.card, t)) h.alike.keys_eq.symm
  | isEmpty =>
    simp only [SchedulerOp.cost, Nat.zero_add] at h
    cases hstep
    refine ⟨t, ⟨heap, ?_⟩, h⟩
    exact congrArg (fun keys => (SchedulerOut.bool (keys.card = 0), t)) h.alike.keys_eq.symm
  | contains taskId =>
    simp only [SchedulerOp.cost, Nat.zero_add] at h
    cases hstep
    refine ⟨t, ⟨heap, ?_⟩, h⟩
    exact congrArg (fun found => (SchedulerOut.bool found, t)) (decide_eq_decide.mpr
      h.alike.mem_iff.symm)
  | get taskId =>
    simp only [SchedulerOp.cost, Nat.zero_add] at h
    cases hstep
    refine ⟨t, ⟨heap, ?_⟩, h⟩
    exact congrArg (fun found => (SchedulerOut.task found, t)) (h.alike.index taskId).symm

/-- Alike schedulers return the same in every sequence of calls. -/
theorem Scheduler.Alike.sameResults (h : s.Alike t) (hs : s.Issued) (ht : t.Issued) :
    s.SameResults t := by
  intro ops outs hlefts hleftt
  have hboth : AlikeFor ((ops.map SchedulerOp.cost).sum + 0) s t := ⟨hs, ht, hlefts, hleftt, h⟩
  have hback : AlikeFor ((ops.map SchedulerOp.cost).sum + 0) t s :=
    ⟨ht, hs, hleftt, hlefts, h.symm⟩
  exact ⟨fun hrun => hrun.follow canStep_follows hboth,
    fun hrun => hrun.follow canStep_follows hback⟩

/-! ### Telling two schedulers apart -/

theorem Scheduler.canRun_remove (heap : TaskHeap Id F) {taskId : Id} {ops : List (SchedulerOp Id F)}
    {outs : List (SchedulerOut Id F)} :
    CanRun Scheduler.CanStep s (.remove taskId :: ops) outs ↔
      ∃ rest, outs = .task ((s.index.lookup taskId).map .plain) :: rest ∧
        CanRun Scheduler.CanStep { s with index := s.index.erase taskId } ops rest := by
  constructor
  · intro hrun
    cases hrun with
    | cons first rest =>
      obtain ⟨_, hstep⟩ := first
      cases hstep
      exact ⟨_, rfl, rest⟩
  · rintro ⟨rest, rfl, hrest⟩
    exact .cons ⟨heap, rfl⟩ hrest

/-- Schedulers with the same results have the same results after a removal. -/
theorem Scheduler.SameResults.erase (heap : TaskHeap Id F) (h : s.SameResults t) (taskId : Id) :
    Scheduler.SameResults { s with index := s.index.erase taskId }
      { t with index := t.index.erase taskId } := by
  intro ops outs hlefts hleftt
  have hcost : (((.remove taskId :: ops : List (SchedulerOp Id F))).map SchedulerOp.cost).sum =
      (ops.map SchedulerOp.cost).sum := Nat.zero_add _
  have hboth := fun outs => h (.remove taskId :: ops) outs (hcost ▸ hlefts) (hcost ▸ hleftt)
  simp only [canRun_remove heap] at hboth
  constructor
  · intro hrun
    obtain ⟨rest, heq, hrest⟩ := (hboth _).mp ⟨outs, rfl, hrun⟩
    exact (List.cons.inj heq).2 ▸ hrest
  · intro hrun
    obtain ⟨rest, heq, hrest⟩ := (hboth _).mpr ⟨outs, rfl, hrun⟩
    exact (List.cons.inj heq).2 ▸ hrest

/-- With the same results, one id at a time can be looked at. -/
theorem Scheduler.SameResults.erase_all (heap : TaskHeap Id F) (h : s.SameResults t)
    (ids : List Id) : ∃ s' t' : Scheduler Id F, s'.SameResults t' ∧
      (∀ u, s'.Live u ↔ u.taskId ∉ ids ∧ s.Live u) ∧
      ∀ u, t'.Live u ↔ u.taskId ∉ ids ∧ t.Live u := by
  induction ids with
  | nil => exact ⟨s, t, h, fun u => by simp, fun u => by simp⟩
  | cons taskId ids ih =>
    obtain ⟨s', t', hsame, hs, ht⟩ := ih
    refine ⟨_, _, hsame.erase heap taskId, fun u => ?_, fun u => ?_⟩
    · rw [live_erase, hs, List.mem_cons, not_or, and_assoc]
    · rw [live_erase, ht, List.mem_cons, not_or, and_assoc]

/-- What the one may return of an id, the other may. -/
theorem Scheduler.SameResults.exists_live (heap : TaskHeap Id F) (h : s.SameResults t)
    (hx : s.Top id x) : ∃ v, t.Live v ∧ v.taskId = id ∧ v.plain = x := by
  obtain ⟨u, hu, hid, hplain, hmax⟩ := hx
  obtain ⟨s', t', hsame, hs, ht⟩ := h.erase_all heap (s.index.keys.erase id).toList
  have hothers : ∀ w, s'.Live w → w.taskId = id := by
    intro w hw
    obtain ⟨hnot, hlive⟩ := (hs w).mp hw
    by_contra hne
    refine hnot (Finset.mem_toList.mpr (Finset.mem_erase.mpr ⟨hne, ?_⟩))
    rw [Finmap.mem_keys, ← Finmap.lookup_isSome, ← Option.isSome_map, hlive.2]
    rfl
  have hlive : s'.Live u := (hs u).mpr ⟨fun hmem => by
    rw [hid, Finset.mem_toList, Finset.mem_erase] at hmem
    exact hmem.1 rfl, hu⟩
  have hpop := exists_popLoop hlive (fun w hw => hmax w ((hs w).mp hw).2 (hothers w hw)) le_rfl
  have hrun : CanRun Scheduler.CanStep s' [.pop] [.task (some u.plain)] :=
    .cons ⟨_, congrArg (fun found => (SchedulerOut.task (found.map .plain), _)) hpop⟩ (.nil _)
  have hrun' := (hsame [.pop] _ (UInt64.toNat_lt _) (UInt64.toNat_lt _)).mp hrun
  cases hrun' with
  | cons first rest =>
    obtain ⟨heap', hstep⟩ := first
    have hfound := SchedulerOut.task.inj (congrArg Prod.fst hstep)
    obtain ⟨v, hv, hvu⟩ := Option.map_eq_some_iff.mp hfound
    refine ⟨v, ((ht v).mp (live_of_popLoop hv)).2, ?_, hvu.trans hplain⟩
    exact (ScheduledTask.taskId_eq_of_plain hvu).trans hid

end Tachyon
