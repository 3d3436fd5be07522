import Mathlib.Logic.Function.Iterate
import Mathlib.Tactic.NormNum

/-!
# The Gregorian calendar

The dates of the proleptic Gregorian calendar from the year 1 on, the day after a
date, and the number of days between two dates, counted one by one. A function of
dates that grows by one from each day to the next counts the days between any two
(`daysBetween_iff`), since every date is reached from the first.
-/

namespace Calendar

/-- A leap year: every fourth, of the centuries every fourth. -/
def IsLeapYear (year : ℕ) : Prop := 4 ∣ year ∧ (100 ∣ year → 400 ∣ year)

instance (year : ℕ) : Decidable (IsLeapYear year) := inferInstanceAs (Decidable (_ ∧ _))

/-- The number of days of a month, counted from January as 1. -/
def monthLength (year month : ℕ) : ℕ :=
  if month = 2 then if IsLeapYear year then 29 else 28
  else if month = 4 ∨ month = 6 ∨ month = 9 ∨ month = 11 then 30
  else 31

theorem monthLength_pos (year month : ℕ) : 1 ≤ monthLength year month := by
  unfold monthLength
  split_ifs <;> omega

theorem monthLength_le (year month : ℕ) : monthLength year month ≤ 31 := by
  unfold monthLength
  split_ifs <;> omega

theorem january_mem : 1 ≤ 1 ∧ 1 ≤ 12 := by decide

/-- A calendar date. -/
@[ext]
structure Date where
  year : ℕ
  month : ℕ
  day : ℕ
  year_pos : 1 ≤ year
  month_mem : 1 ≤ month ∧ month ≤ 12
  day_mem : 1 ≤ day ∧ day ≤ monthLength year month
  deriving DecidableEq

namespace Date

/-- The first date. -/
def first : Date := ⟨1, 1, 1, le_rfl, january_mem, by decide⟩

/-- The day after. -/
def next (d : Date) : Date :=
  if hday : d.day < monthLength d.year d.month then
    ⟨d.year, d.month, d.day + 1, d.year_pos, d.month_mem, Nat.le_add_left _ _, hday⟩
  else if hmonth : d.month < 12 then
    ⟨d.year, d.month + 1, 1, d.year_pos, ⟨Nat.le_add_left _ _, hmonth⟩, le_rfl,
      monthLength_pos _ _⟩
  else ⟨d.year + 1, 1, 1, Nat.le_add_left _ _, january_mem, le_rfl, monthLength_pos _ _⟩

/-- The day before, of every date but the first. -/
theorem exists_next_eq {d : Date} (h : d ≠ first) :
    ∃ p : Date, p.next = d ∧
      372 * p.year + 31 * p.month + p.day < 372 * d.year + 31 * d.month + d.day := by
  obtain ⟨year, month, day, hyear, hmonth, hday⟩ := d
  dsimp only
  by_cases hfirst : day = 1
  · subst hfirst
    by_cases hjanuary : month = 1
    · subst hjanuary
      have hlt : 1 < year := by
        refine lt_of_le_of_ne hyear fun heq => h ?_
        subst heq
        rfl
      refine ⟨⟨year - 1, 12, 31, by omega, by decide, by decide, le_rfl⟩, ?_, by dsimp only; omega⟩
      ext
      · exact Nat.sub_add_cancel hyear
      · rfl
      · rfl
    · have hle := monthLength_le year (month - 1)
      refine ⟨⟨year, month - 1, monthLength year (month - 1), hyear, by omega,
        monthLength_pos _ _, le_rfl⟩, ?_, by dsimp only; omega⟩
      rw [next, dif_neg (lt_irrefl _), dif_pos (by dsimp only; omega)]
      ext
      · rfl
      · exact Nat.sub_add_cancel hmonth.1
      · rfl
  · refine ⟨⟨year, month, day - 1, hyear, hmonth, by omega⟩, ?_, by dsimp only; omega⟩
    rw [next, dif_pos (by dsimp only; omega)]
    ext
    · rfl
    · rfl
    · exact Nat.sub_add_cancel hday.1

/-- Every date is reached from the first, one day after the other. -/
theorem exists_iterate (d : Date) : ∃ n, next^[n] first = d := by
  by_cases hfirst : d = first
  · exact ⟨0, hfirst.symm⟩
  · obtain ⟨p, hnext, hlt⟩ := exists_next_eq hfirst
    obtain ⟨n, hn⟩ := exists_iterate p
    exact ⟨n + 1, by rw [Function.iterate_succ_apply', hn, hnext]⟩
  termination_by 372 * d.year + 31 * d.month + d.day

end Date

/-- `b` is `k` days after `a`, counted one by one: on from `a` to `b`, or for a negative count
on from `b` to `a`. -/
def DaysBetween (a b : Date) (k : ℤ) : Prop :=
  ∃ n : ℕ, (k = n ∧ Date.next^[n] a = b) ∨ (k = -n ∧ Date.next^[n] b = a)

section

variable {f : Date → ℤ}

theorem iterate_next (hf : ∀ d : Date, f d.next = f d + 1) (n : ℕ) (d : Date) :
    f (Date.next^[n] d) = f d + n := by
  induction n with
  | zero => simp
  | succ n ih =>
    rw [Function.iterate_succ_apply', hf, ih]
    push_cast
    omega

/-- A function that grows by one each day counts the days between any two dates. -/
theorem daysBetween_iff (hf : ∀ d : Date, f d.next = f d + 1) {a b : Date} {k : ℤ} :
    DaysBetween a b k ↔ f b - f a = k := by
  constructor
  · rintro ⟨n, ⟨rfl, rfl⟩ | ⟨rfl, rfl⟩⟩
    · rw [iterate_next hf]
      omega
    · rw [iterate_next hf]
      omega
  · rintro rfl
    obtain ⟨i, rfl⟩ := a.exists_iterate
    obtain ⟨j, rfl⟩ := b.exists_iterate
    rw [iterate_next hf, iterate_next hf]
    rcases Nat.le_total i j with hle | hle
    · refine ⟨j - i, .inl ⟨by omega, ?_⟩⟩
      rw [← Function.iterate_add_apply, Nat.sub_add_cancel hle]
    · refine ⟨i - j, .inr ⟨by omega, ?_⟩⟩
      rw [← Function.iterate_add_apply, Nat.sub_add_cancel hle]

end

end Calendar
