import Mathlib.Algebra.GroupWithZero.Nat
import Mathlib.Algebra.Order.BigOperators.Group.Finset
import Mathlib.Data.Finset.Max
import Mathlib.Order.Interval.Finset.Nat

/-!
# Intervals served in time

Requests take intervals of a line one behind the other, and each is served at a time that its place
on the line determines up to an error. Then only so much is served in a window of time.
-/

namespace DisjointIntervals

variable {ι : Type} {start length time : ι → ℕ} {l : List ι}

/-- Neither of the intervals reaches into the other. -/
def Apart (start length : ι → ℕ) (i j : ι) : Prop :=
  start i + length i ≤ start j ∨ start j + length j ≤ start i

/-- The points of all intervals. -/
def points (start length : ι → ℕ) (l : List ι) : Finset ℕ :=
  l.foldr (fun i s => Finset.Ico (start i) (start i + length i) ∪ s) ∅

theorem mem_points {x : ℕ} :
    x ∈ points start length l ↔ ∃ i ∈ l, start i ≤ x ∧ x < start i + length i := by
  induction l with
  | nil => simp [points]
  | cons i l ih =>
    have hcons : x ∈ points start length (i :: l) ↔
        (start i ≤ x ∧ x < start i + length i) ∨ x ∈ points start length l := by
      simp [points]
    rw [hcons, ih]
    simp

/-- Intervals apart from each other have as many points as their lengths add up to. -/
theorem card_points (h : l.Pairwise (Apart start length)) :
    (points start length l).card = (l.map length).sum := by
  induction l with
  | nil => rfl
  | cons i l ih =>
    obtain ⟨hi, hrest⟩ := List.pairwise_cons.mp h
    have hdisjoint : Disjoint (Finset.Ico (start i) (start i + length i))
        (points start length l) := by
      rw [Finset.disjoint_left]
      intro x hx hmem
      obtain ⟨j, hj, hlo, hhi⟩ := mem_points.mp hmem
      rw [Finset.mem_Ico] at hx
      have happart := hi j hj
      unfold Apart at happart
      omega
    change (Finset.Ico (start i) (start i + length i) ∪ points start length l).card = _
    rw [Finset.card_union_of_disjoint hdisjoint, ih hrest, Nat.card_Ico]
    simp

/-- Intervals apart from each other between two bounds. -/
theorem sum_length_le {lo hi : ℕ} (h : l.Pairwise (Apart start length))
    (hlo : ∀ i ∈ l, lo ≤ start i) (hhi : ∀ i ∈ l, start i + length i ≤ hi) :
    (l.map length).sum ≤ hi - lo := by
  rw [← card_points h, ← Nat.card_Ico]
  refine Finset.card_le_card fun x hx => ?_
  obtain ⟨i, hi, hle, hlt⟩ := mem_points.mp hx
  have := hlo i hi
  have := hhi i hi
  rw [Finset.mem_Ico]
  omega

/-- The interval is served when a rate, from a head start on, has come to its end, to a unit of
time, and has not gone beyond its start by more than a margin. -/
structure Timely (rate scale head margin : ℕ) (start length time : ι → ℕ) (i : ι) : Prop where
  notEarly : (start i + length i) * scale < (time i + 1 + head) * rate
  notLate : (time i + head) * rate < (start i + margin) * scale

/-- What is served in a window of time is less than the rate times the window, a unit longer, and
the margin. -/
theorem sum_length_lt {rate scale head margin width : ℕ} (hrate : 0 < rate)
    (h : l.Pairwise (Apart start length))
    (htimely : ∀ i ∈ l, Timely rate scale head margin start length time i)
    (hwindow : ∀ i ∈ l, ∀ j ∈ l, time j ≤ time i + width) :
    (l.map length).sum * scale < (width + 1) * rate + margin * scale := by
  by_cases hnil : l = []
  · subst hnil
    have hpos : 0 < (width + 1) * rate := Nat.mul_pos (Nat.succ_pos width) hrate
    simp only [List.map_nil, List.sum_nil, Nat.zero_mul]
    omega
  · classical
    have hne : l.toFinset.Nonempty := List.toFinset_nonempty_iff l |>.mpr hnil
    obtain ⟨first, hfirst, hmin⟩ := Finset.exists_min_image l.toFinset start hne
    obtain ⟨last, hlast, hmax⟩ :=
      Finset.exists_max_image l.toFinset (fun i => start i + length i) hne
    simp only [List.mem_toFinset] at hfirst hmin hlast hmax
    have hsum := sum_length_le h hmin hmax
    have hend := (htimely last hlast).notEarly
    have hstart := (htimely first hfirst).notLate
    have htime : (time last + 1 + head) * rate ≤ (time first + width + 1 + head) * rate :=
      Nat.mul_le_mul_right rate (by have := hwindow first hfirst last hlast; omega)
    have hscaled : (l.map length).sum * scale + start first * scale ≤
        (start last + length last) * scale := by
      rw [← Nat.add_mul]
      have := hmax first hfirst
      exact Nat.mul_le_mul_right scale (by omega)
    rw [Nat.add_mul] at hstart
    have hsplit : (time first + width + 1 + head) * rate =
        (time first + head) * rate + (width + 1) * rate := by
      rw [← Nat.add_mul]
      congr 1
      omega
    rw [Nat.add_mul] at hstart
    rw [Nat.add_mul (time first)] at hsplit
    omega

end DisjointIntervals
