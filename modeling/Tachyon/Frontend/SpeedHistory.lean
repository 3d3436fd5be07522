import Tachyon.Library.RollingWindow
import Mathlib.Algebra.BigOperators.Group.List.Basic
import Mathlib.Algebra.Order.Ring.Rat

/-!
# The speeds of the last minute

The store `speedHistory` keeps the speeds in a buffer that is written round and round, and keeps
their sum and peak up to date as it goes. Numbers are taken as exact, as they are for whole bytes
per second below 2^53.
-/

namespace Tachyon.Frontend

open RollingWindow

/-- `HISTORY_SIZE` -/
def historySize : ℕ := 60

/-- The store `speedHistory` -/
structure SpeedHistory where
  buffer : List ℚ
  writeIndex : ℕ
  count : ℕ
  sum : ℚ
  peak : ℚ
  deriving DecidableEq

/-- `clearHistory`, which is also how the store begins -/
def SpeedHistory.clearHistory : SpeedHistory := ⟨List.replicate historySize 0, 0, 0, 0, 0⟩

/-- The loop of `pushSpeed` over the places other than the one to be written -/
def peakOfOthers (buffer : List ℚ) (writeIndex : ℕ) (speed : ℚ) : ℚ :=
  (List.range historySize).foldl (fun peak i =>
    if i ≠ writeIndex ∧ buffer.getD i 0 > peak then buffer.getD i 0 else peak) speed

/-- `pushSpeed` -/
def SpeedHistory.pushSpeed (s : SpeedHistory) (speed : ℚ) : SpeedHistory :=
  let oldVal := s.buffer.getD s.writeIndex 0
  let full := s.count = historySize
  let sum := if full then s.sum - oldVal else s.sum
  let peak :=
    if full ∧ oldVal ≥ s.peak then peakOfOthers s.buffer s.writeIndex speed else s.peak
  { buffer := s.buffer.set s.writeIndex speed
    writeIndex := (s.writeIndex + 1) % historySize
    count := if full then s.count else s.count + 1
    sum := sum + speed
    peak := if speed > peak then speed else peak }

/-- `getHistory` -/
def SpeedHistory.getHistory (s : SpeedHistory) : List ℚ :=
  let start := if s.count = historySize then s.writeIndex else 0
  (List.range s.count).map fun i => s.buffer.getD ((start + i) % historySize) 0

/-- `getAverageSpeed` -/
def SpeedHistory.getAverageSpeed (s : SpeedHistory) : ℚ :=
  if s.count = 0 then 0 else s.sum / s.count

/-- `getPeakSpeed` -/
def SpeedHistory.getPeakSpeed (s : SpeedHistory) : ℚ := s.peak

/-- `getCurrentSpeed` -/
def SpeedHistory.getCurrentSpeed (s : SpeedHistory) : ℚ :=
  if s.count = 0 then 0
  else s.buffer.getD ((s.writeIndex + (historySize - 1)) % historySize) 0

/-- A call of the store -/
inductive SpeedCall where
  | push (speed : ℚ)
  | clear

/-- The store after some calls -/
def SpeedHistory.after : List SpeedCall → SpeedHistory → SpeedHistory
  | [], s => s
  | .push speed :: calls, s => after calls (s.pushSpeed speed)
  | .clear :: calls, _ => after calls .clearHistory

/-- The speeds pushed since the last clear, after those of `speeds` -/
def speedsSince : List SpeedCall → List ℚ → List ℚ
  | [], speeds => speeds
  | .push speed :: calls, speeds => speedsSince calls (speeds ++ [speed])
  | .clear :: calls, _ => speedsSince calls []

/-- The largest speed, 0 if there is none -/
structure IsPeak (peak : ℚ) (speeds : List ℚ) : Prop where
  upper : ∀ speed ∈ speeds, speed ≤ peak
  attained : peak ∈ speeds ∨ speeds = [] ∧ peak = 0

/-- What the store says is what the window of the latest speeds says. -/
structure SpeedHistory.Shows (s : SpeedHistory) (speeds : List ℚ) : Prop where
  history : s.getHistory = lastValues historySize speeds
  average : s.getAverageSpeed =
    if speeds = [] then 0
    else (lastValues historySize speeds).sum / (lastValues historySize speeds).length
  peak : IsPeak s.getPeakSpeed (lastValues historySize speeds)
  current : s.getCurrentSpeed = speeds.getLastD 0

/-- What every reachable state keeps -/
structure SpeedHistory.Inv (s : SpeedHistory) (speeds : List ℚ) : Prop where
  holds : Holds historySize s.buffer s.writeIndex s.count speeds
  sum : s.sum = (lastValues historySize speeds).sum
  peak : IsPeak s.peak (lastValues historySize speeds)

section

variable {s : SpeedHistory} {speeds : List ℚ} {speed : ℚ}

theorem historySize_pos : 0 < historySize := Nat.succ_pos _

/-- The loop gives the largest of the speed and the other places. -/
theorem peakOfOthers_spec (buffer : List ℚ) (writeIndex : ℕ) (speed : ℚ) :
    speed ≤ peakOfOthers buffer writeIndex speed ∧
    (∀ i < historySize, i ≠ writeIndex →
      buffer.getD i 0 ≤ peakOfOthers buffer writeIndex speed) ∧
    (peakOfOthers buffer writeIndex speed = speed ∨ ∃ i < historySize, i ≠ writeIndex ∧
      buffer.getD i 0 = peakOfOthers buffer writeIndex speed) := by
  have hloop (places : List ℕ) (peak : ℚ) :
      let last := places.foldl (fun peak i =>
        if i ≠ writeIndex ∧ buffer.getD i 0 > peak then buffer.getD i 0 else peak) peak
      peak ≤ last ∧ (∀ i ∈ places, i ≠ writeIndex → buffer.getD i 0 ≤ last) ∧
        (last = peak ∨ ∃ i ∈ places, i ≠ writeIndex ∧ buffer.getD i 0 = last) := by
    induction places generalizing peak with
    | nil => exact ⟨le_refl _, fun _ hi => absurd hi List.not_mem_nil, .inl rfl⟩
    | cons i places ih =>
      simp only [List.foldl_cons]
      split
      · rename_i hmore
        obtain ⟨hle, hall, hattained⟩ := ih (buffer.getD i 0)
        refine ⟨hmore.2.le.trans hle, fun k hk hne => ?_, .inr ?_⟩
        · rcases List.mem_cons.mp hk with rfl | hk
          · exact hle
          · exact hall k hk hne
        · rcases hattained with hsame | ⟨k, hk, hne, hv⟩
          · exact ⟨i, List.mem_cons_self, hmore.1, hsame.symm⟩
          · exact ⟨k, List.mem_cons_of_mem i hk, hne, hv⟩
      · rename_i hnot
        obtain ⟨hle, hall, hattained⟩ := ih peak
        refine ⟨hle, fun k hk hne => ?_, hattained.imp_right fun ⟨k, hk, h⟩ => ?_⟩
        · rcases List.mem_cons.mp hk with rfl | hk
          · exact (not_lt.mp fun hlt => hnot ⟨hne, hlt⟩).trans hle
          · exact hall k hk hne
        · exact ⟨k, List.mem_cons_of_mem i hk, h⟩
  obtain ⟨hle, hall, hattained⟩ := hloop (List.range historySize) speed
  refine ⟨hle, fun i hi => hall i (List.mem_range.mpr hi), hattained.imp_right ?_⟩
  rintro ⟨i, hi, h⟩
  exact ⟨i, List.mem_range.mp hi, h⟩

theorem IsPeak.concat {peak : ℚ} {window : List ℚ} (h : IsPeak peak window) (hspeed : 0 ≤ speed) :
    IsPeak (if speed > peak then speed else peak) (window ++ [speed]) := by
  split
  · rename_i hmore
    refine ⟨fun x hx => ?_, .inl (List.mem_append_right _ List.mem_cons_self)⟩
    rcases List.mem_append.mp hx with hold | hnew
    · exact (h.upper x hold).trans hmore.le
    · exact (List.mem_singleton.mp hnew).le
  · rename_i hle
    refine ⟨fun x hx => ?_, .inl ?_⟩
    · rcases List.mem_append.mp hx with hold | hnew
      · exact h.upper x hold
      · exact (List.mem_singleton.mp hnew).trans_le (not_lt.mp hle)
    · rcases h.attained with hmem | ⟨rfl, rfl⟩
      · exact List.mem_append_left _ hmem
      · exact List.mem_singleton.mpr (le_antisymm hspeed (not_lt.mp hle))

/-- The peak is found again when the oldest speed was the peak, and stays otherwise. -/
theorem IsPeak.slide (h : s.Inv speeds) (hfull : s.count = historySize) {old : ℚ}
    {rest : List ℚ} (hwindow : lastValues historySize speeds = old :: rest) (hspeed : 0 ≤ speed) :
    IsPeak (let peak := if old ≥ s.peak then peakOfOthers s.buffer s.writeIndex speed else s.peak
      if speed > peak then speed else peak) (rest ++ [speed]) := by
  have hothers (v : ℚ) : (∃ i < historySize, i ≠ s.writeIndex ∧ s.buffer.getD i 0 = v) ↔
      v ∈ rest := by
    have hrest := @Holds.others ℚ _ _ _ _ _ h.holds hfull historySize_pos v
    rw [hwindow, List.tail_cons] at hrest
    rw [← hrest]
    refine exists_congr fun i => and_congr_right fun hi => and_congr_right fun _ => ?_
    have hlt : i < s.buffer.length := hi.trans_eq h.holds.length.symm
    rw [List.getD_eq_getElem?_getD, List.getElem?_eq_getElem hlt, Option.getD_some]
    exact ⟨fun heq => congrArg some heq, fun heq => Option.some.inj heq⟩
  dsimp only
  split
  · obtain ⟨hle, hall, hattained⟩ := peakOfOthers_spec s.buffer s.writeIndex speed
    rw [if_neg (not_lt.mpr hle)]
    refine ⟨fun x hx => ?_, .inl ?_⟩
    · rcases List.mem_append.mp hx with hold | hnew
      · obtain ⟨i, hi, hne, rfl⟩ := (hothers x).mpr hold
        exact hall i hi hne
      · exact (List.mem_singleton.mp hnew).trans_le hle
    · rcases hattained with hsame | hplace
      · exact List.mem_append_right _ (List.mem_singleton.mpr hsame)
      · exact List.mem_append_left _ ((hothers _).mp hplace)
  · rename_i hbelow
    have hpeak := h.peak
    rw [hwindow] at hpeak
    have hkept : IsPeak s.peak rest := by
      refine ⟨fun x hx => hpeak.upper x (List.mem_cons_of_mem old hx), .inl ?_⟩
      rcases hpeak.attained with hmem | ⟨hnil, -⟩
      · rcases List.mem_cons.mp hmem with hsame | hin
        · exact absurd hsame.le hbelow
        · exact hin
      · cases hnil
    exact hkept.concat hspeed

theorem SpeedHistory.Inv.push (h : s.Inv speeds) (hspeed : 0 ≤ speed) :
    (s.pushSpeed speed).Inv (speeds ++ [speed]) := by
  have hcount := h.holds.count
  by_cases hfull : s.count = historySize
  · have holdest := h.holds.oldest hfull historySize_pos
    have hsize : historySize ≤ speeds.length := by omega
    cases hwindow : lastValues historySize speeds with
    | nil =>
      have hlength := congrArg List.length hwindow
      rw [length_lastValues, List.length_nil] at hlength
      have hpos := historySize_pos
      omega
    | cons old rest =>
      rw [hwindow, List.head?_cons] at holdest
      have hold : s.buffer.getD s.writeIndex 0 = old := by
        rw [List.getD_eq_getElem?_getD, holdest, Option.getD_some]
      have hnext : lastValues historySize (speeds ++ [speed]) = rest ++ [speed] := by
        rw [lastValues_concat hsize historySize_pos, hwindow, List.tail_cons]
      refine ⟨h.holds.push historySize_pos, ?_, ?_⟩
      · have hsum := h.sum
        rw [hwindow, List.sum_cons] at hsum
        simp only [pushSpeed, hfull, if_true, hold, hnext, List.sum_append, List.sum_singleton,
          hsum, add_sub_cancel_left]
      · have hslide := IsPeak.slide h hfull hwindow hspeed
        simp only [pushSpeed, hfull, true_and, hold, hnext]
        exact hslide
  · have hpart : (speeds ++ [speed]).length ≤ historySize := by
      rw [List.length_append, List.length_singleton]
      omega
    have hwindow : lastValues historySize speeds = speeds := lastValues_of_le (by omega)
    have hsum := h.sum
    have hpeak := h.peak
    rw [hwindow] at hsum hpeak
    refine ⟨h.holds.push historySize_pos, ?_, ?_⟩
    · simp only [pushSpeed, hfull, if_false, lastValues_of_le hpart, List.sum_append,
        List.sum_singleton, hsum]
    · simp only [pushSpeed, hfull, false_and, if_false, lastValues_of_le hpart]
      exact hpeak.concat hspeed

theorem SpeedHistory.inv_clear : clearHistory.Inv [] where
  holds := holds_nil (List.length_replicate ..)
  sum := rfl
  peak := ⟨fun _ hspeed => absurd hspeed List.not_mem_nil, .inr ⟨rfl, rfl⟩⟩

theorem SpeedHistory.Inv.after {calls : List SpeedCall} (h : s.Inv speeds)
    (hcalls : ∀ speed, .push speed ∈ calls → 0 ≤ speed) :
    (SpeedHistory.after calls s).Inv (speedsSince calls speeds) := by
  induction calls generalizing s speeds with
  | nil => exact h
  | cons call calls ih =>
    have hrest : ∀ speed, .push speed ∈ calls → 0 ≤ speed :=
      fun speed hin => hcalls speed (List.mem_cons_of_mem call hin)
    cases call with
    | push speed => exact ih (h.push (hcalls speed List.mem_cons_self)) hrest
    | clear => exact ih inv_clear hrest

theorem SpeedHistory.Inv.shows (h : s.Inv speeds) : s.Shows speeds := by
  have hcount := h.holds.count
  have hlength : (lastValues historySize speeds).length = s.count := by
    rw [length_lastValues, hcount]
  have hnone : s.count = 0 ↔ speeds = [] := by
    rw [hcount, ← List.length_eq_zero_iff]
    have hpos := historySize_pos
    omega
  refine ⟨?_, ?_, h.peak, ?_⟩
  · refine List.ext_getElem? fun i => ?_
    unfold getHistory
    by_cases hi : i < s.count
    · have hread := h.holds.read hi
      rw [List.getElem?_map, List.getElem?_range hi, Option.map_some,
        List.getD_eq_getElem?_getD, hread, List.getElem?_eq_getElem (hi.trans_eq hlength.symm),
        Option.getD_some]
    · rw [List.getElem?_eq_none, List.getElem?_eq_none (by omega)]
      rw [List.length_map, List.length_range]
      omega
  · unfold getAverageSpeed
    rw [hlength, h.sum]
    exact if_congr hnone rfl rfl
  · unfold getCurrentSpeed
    by_cases hsome : speeds = []
    · rw [if_pos (hnone.mpr hsome), hsome]
      rfl
    · rw [if_neg (mt hnone.mp hsome), List.getD_eq_getElem?_getD,
        h.holds.newest hsome historySize_pos, List.getLastD_eq_getLast?]

end

end Tachyon.Frontend
