import Mathlib.Tactic.IntervalCases
import Tachyon.Library.Calendar

/-!
# The day count

The date of a Retry-After header is turned into days since 1970 by a closed formula, with
years that begin in March and eras of 400 years. It counts the days of the calendar, for
every year a `u32` holds.
-/

namespace Tachyon

/-- `as i64` on a `u32`. -/
def u32AsI64 (n : UInt32) : Int64 := n.toUInt64.toInt64

/-- `days_from_epoch`: the days from 1970-01-01 to a date. -/
def daysFromEpoch (year month day : UInt32) : Int64 :=
  let y := if month ≤ 2 then u32AsI64 year - 1 else u32AsI64 year
  let m := if month ≤ 2 then month + 9 else month - 3
  let era := (if y ≥ 0 then y else y - 399) / 400
  let yoe := y - era * 400
  let doy := (153 * u32AsI64 m + 2) / 5 + u32AsI64 day - 1
  let doe := yoe * 365 + yoe / 4 - yoe / 100 + doy
  era * 146097 + doe - 719468

/-- The formula on integers: a year that begins in March, its months counted from 0. -/
def marchDays (y m day : ℤ) : ℤ :=
  let era := y / 400
  let yoe := y - era * 400
  let doy := (153 * m + 2) / 5 + day - 1
  let doe := yoe * 365 + yoe / 4 - yoe / 100 + doy
  era * 146097 + doe - 719468

section

variable {a b : Int64}

theorem toInt_u32AsI64 (n : UInt32) : (u32AsI64 n).toInt = n.toNat := by
  have hlt : n.toUInt64.toNat < 2 ^ 63 := by
    rw [UInt32.toNat_toUInt64]
    exact lt_trans n.toNat_lt (by decide)
  calc (u32AsI64 n).toInt = (Int64.ofNat n.toUInt64.toNat).toInt := by
        rw [u32AsI64, ← UInt64.toInt64_ofNat', UInt64.ofNat_toNat]
    _ = n.toNat := by rw [Int64.toInt_ofNat_of_lt hlt, UInt32.toNat_toUInt64]

theorem bmod_eq_self {n : ℤ} (hlow : -2 ^ 63 ≤ n) (hhigh : n < 2 ^ 63) : n.bmod (2 ^ 64) = n :=
  Int.bmod_eq_of_le (by norm_num; omega) (by norm_num; omega)

theorem toInt_div_nonneg (ha : 0 ≤ a.toInt) (hb : 0 < b.toInt) :
    (a / b).toInt = a.toInt / b.toInt := by
  have hne : b ≠ -1 := by
    rintro rfl
    exact absurd hb (by decide)
  rw [Int64.toInt_div_of_ne_right _ _ hne, Int.tdiv_eq_ediv_of_nonneg ha]

end

/-- No step of the formula leaves the 64 bits for the years of a `u32`. -/
theorem toInt_marchDays {y m day era yoe doy doe : Int64} (hera : era = y / 400)
    (hyoe : yoe = y - era * 400) (hdoy : doy = (153 * m + 2) / 5 + day - 1)
    (hdoe : doe = yoe * 365 + yoe / 4 - yoe / 100 + doy)
    (hy : 0 ≤ y.toInt ∧ y.toInt < 2 ^ 33) (hm : 0 ≤ m.toInt ∧ m.toInt < 12)
    (hday : 0 ≤ day.toInt ∧ day.toInt < 32) :
    (era * 146097 + doe - 719468).toInt = marchDays y.toInt m.toInt day.toInt := by
  have hera' : era.toInt = y.toInt / 400 := by
    rw [hera]
    exact toInt_div_nonneg hy.1 (by decide)
  have hmul : (era * 400).toInt = y.toInt / 400 * 400 := by
    rw [Int64.toInt_mul, hera', show (400 : Int64).toInt = 400 from rfl]
    exact bmod_eq_self (by omega) (by omega)
  have hyoe' : yoe.toInt = y.toInt - y.toInt / 400 * 400 := by
    rw [hyoe, Int64.toInt_sub, hmul]
    exact bmod_eq_self (by omega) (by omega)
  have hmonths : (153 * m + 2).toInt = 153 * m.toInt + 2 := by
    simp (disch := omega) only [Int64.toInt_add, Int64.toInt_mul, bmod_eq_self,
      show (153 : Int64).toInt = 153 from rfl, show (2 : Int64).toInt = 2 from rfl]
  have hdays : ((153 * m + 2) / 5).toInt = (153 * m.toInt + 2) / 5 := by
    rw [toInt_div_nonneg (by omega) (by decide), hmonths]
    rfl
  have hdoy' : doy.toInt = (153 * m.toInt + 2) / 5 + day.toInt - 1 := by
    rw [hdoy]
    simp (disch := omega) only [Int64.toInt_sub, Int64.toInt_add, hdays, bmod_eq_self,
      show (1 : Int64).toInt = 1 from rfl]
  have hfour : (yoe / 4).toInt = yoe.toInt / 4 := toInt_div_nonneg (by omega) (by decide)
  have hhundred : (yoe / 100).toInt = yoe.toInt / 100 := toInt_div_nonneg (by omega) (by decide)
  have hdoe' : doe.toInt = yoe.toInt * 365 + yoe.toInt / 4 - yoe.toInt / 100 + doy.toInt := by
    rw [hdoe]
    simp (disch := omega) only [Int64.toInt_sub, Int64.toInt_add, Int64.toInt_mul, hfour, hhundred,
      bmod_eq_self, show (365 : Int64).toInt = 365 from rfl]
  unfold marchDays
  simp (disch := omega) only [Int64.toInt_sub, Int64.toInt_add, Int64.toInt_mul, bmod_eq_self,
    hera', hdoe', hdoy', hyoe', show (146097 : Int64).toInt = 146097 from rfl,
    show (719468 : Int64).toInt = 719468 from rfl]

/-- The year a month belongs to where the year begins in March. -/
def marchYear (year month : ℕ) : ℤ := if month ≤ 2 then (year : ℤ) - 1 else year

/-- The month counted from March. -/
def marchMonth (month : ℕ) : ℤ := if month ≤ 2 then (month : ℤ) + 9 else (month : ℤ) - 3

/-- The day of a date by the formula. -/
def dayNumber (date : Calendar.Date) : ℤ :=
  marchDays (marchYear date.year date.month) (marchMonth date.month) date.day

/-- Within a month the formula counts the days. -/
theorem marchDays_succ (y m day : ℤ) : marchDays y m (day + 1) = marchDays y m day + 1 := by
  unfold marchDays
  dsimp only
  omega

/-- The linear term counts the days before a month. -/
theorem marchDays_succ_month (y m : ℤ) :
    marchDays y (m + 1) 1 =
      marchDays y m ((153 * (m + 1) + 2) / 5 - (153 * m + 2) / 5) + 1 := by
  unfold marchDays
  dsimp only
  omega

/-- What the linear term gains in a month is the length of the month, but for February. -/
theorem monthLength_eq {year month : ℕ} (hmonth : 1 ≤ month ∧ month ≤ 12) (hne : month ≠ 2) :
    (Calendar.monthLength year month : ℤ) =
      (153 * (marchMonth month + 1) + 2) / 5 - (153 * marchMonth month + 2) / 5 := by
  obtain ⟨hlow, hhigh⟩ := hmonth
  unfold Calendar.monthLength
  rw [if_neg hne]
  interval_cases month
  all_goals first | rfl | exact absurd rfl hne

/-- February is the last month of the formula's year, with the leap day at its end. -/
theorem marchDays_succ_year (year : ℕ) :
    marchDays year 0 1 = marchDays (year - 1) 11 (Calendar.monthLength year 2) + 1 := by
  unfold marchDays Calendar.monthLength
  rw [if_pos rfl]
  by_cases hleap : Calendar.IsLeapYear year
  · rw [if_pos hleap]
    unfold Calendar.IsLeapYear at hleap
    dsimp only
    omega
  · rw [if_neg hleap]
    unfold Calendar.IsLeapYear at hleap
    dsimp only
    omega

/-- Any other month is followed by the next of the same year of the formula. -/
theorem marchDays_next_month {year month : ℕ} {y m : ℤ} (hmonth : 1 ≤ month ∧ month ≤ 12)
    (hne : month ≠ 2) (hy : y = marchYear year month) (hm : m = marchMonth month + 1) :
    marchDays y m 1 =
      marchDays (marchYear year month) (marchMonth month) (Calendar.monthLength year month) +
        1 := by
  rw [monthLength_eq hmonth hne, hy, hm]
  exact marchDays_succ_month _ _

/-- From each date to the next the formula grows by one. -/
theorem dayNumber_next (date : Calendar.Date) : dayNumber date.next = dayNumber date + 1 := by
  obtain ⟨year, month, day, hyear, hmonth, hday⟩ := date
  unfold Calendar.Date.next dayNumber
  dsimp only
  split_ifs with hinside hdecember
  · exact marchDays_succ _ _ day
  · have hlength : day = Calendar.monthLength year month := by omega
    subst hlength
    by_cases hfebruary : month = 2
    · subst hfebruary
      exact marchDays_succ_year year
    · refine marchDays_next_month hmonth hfebruary ?_ ?_
      · unfold marchYear
        dsimp only
        split_ifs <;> omega
      · unfold marchMonth
        dsimp only
        split_ifs <;> omega
  · have hlength : day = Calendar.monthLength year month := by omega
    obtain rfl : month = 12 := by omega
    subst hlength
    refine marchDays_next_month hmonth (by decide) ?_ rfl
    unfold marchYear
    dsimp only
    rw [if_pos (by decide), if_neg (by decide)]
    omega

section

variable {year month : ℕ} (hyear : 1 ≤ year ∧ year < 2 ^ 32) (hmonth : 1 ≤ month ∧ month ≤ 12)

include hmonth in
theorem ofNat_le_two_iff : UInt32.ofNat month ≤ 2 ↔ month ≤ 2 := by
  rw [UInt32.le_iff_toNat_le, UInt32.toNat_ofNat_of_lt' (by dsimp only [UInt32.size]; omega)]
  rfl

include hyear hmonth in
/-- The year of the code's formula. -/
theorem toInt_marchYear :
    (if UInt32.ofNat month ≤ 2 then u32AsI64 (.ofNat year) - 1 else u32AsI64 (.ofNat year)).toInt =
      marchYear year month := by
  have hy : (u32AsI64 (.ofNat year)).toInt = year := by
    rw [toInt_u32AsI64, UInt32.toNat_ofNat_of_lt' hyear.2]
  unfold marchYear
  by_cases hle : month ≤ 2
  · rw [if_pos ((ofNat_le_two_iff hmonth).mpr hle), if_pos hle, Int64.toInt_sub, hy]
    rw [Int64.toInt_one]
    exact bmod_eq_self (by omega) (by omega)
  · rw [if_neg (mt (ofNat_le_two_iff hmonth).mp hle), if_neg hle, hy]

include hmonth in
/-- The month of the code's formula. -/
theorem toInt_marchMonth :
    (u32AsI64 (if UInt32.ofNat month ≤ 2 then .ofNat month + 9 else .ofNat month - 3)).toInt =
      marchMonth month := by
  obtain ⟨hlow, hhigh⟩ := hmonth
  interval_cases month
  all_goals rfl

end

/-- For the years of a `u32` the code's number is the formula's. -/
theorem toInt_daysFromEpoch (date : Calendar.Date) (hyear : date.year < 2 ^ 32) :
    (daysFromEpoch (.ofNat date.year) (.ofNat date.month) (.ofNat date.day)).toInt =
      dayNumber date := by
  have hle := Calendar.monthLength_le date.year date.month
  have hmonth := date.month_mem
  have hday := date.day_mem
  have hpos := date.year_pos
  have hy := toInt_marchYear ⟨date.year_pos, hyear⟩ date.month_mem
  have hm := toInt_marchMonth date.month_mem
  have hd : (u32AsI64 (.ofNat date.day)).toInt = date.day := by
    rw [toInt_u32AsI64, UInt32.toNat_ofNat_of_lt' (by dsimp only [UInt32.size]; omega)]
  have hyb : 0 ≤ marchYear date.year date.month ∧ marchYear date.year date.month < 2 ^ 33 := by
    unfold marchYear
    split_ifs <;> omega
  have hmb : 0 ≤ marchMonth date.month ∧ marchMonth date.month < 12 := by
    unfold marchMonth
    split_ifs <;> omega
  unfold daysFromEpoch dayNumber
  rw [← hy, ← hm, ← hd]
  rw [← hy] at hyb
  rw [← hm] at hmb
  generalize (if UInt32.ofNat date.month ≤ 2 then u32AsI64 (.ofNat date.year) - 1
    else u32AsI64 (.ofNat date.year)) = y at hyb ⊢
  have hnonneg : y ≥ 0 := Int64.le_iff_toInt_le.mpr (by rw [Int64.toInt_zero]; exact hyb.1)
  simp only [if_pos hnonneg]
  exact toInt_marchDays rfl rfl rfl rfl hyb hmb (by omega)

/-- 1970-01-01. -/
def unixEpoch : Calendar.Date := ⟨1970, 1, 1, by decide, Calendar.january_mem, by decide⟩

/-- For every date of a year that fits `u32` the code's number is the number of days from
1970-01-01 to that date, counted one by one. -/
theorem daysFromEpoch_counts (date : Calendar.Date) (hyear : date.year < 2 ^ 32) (k : ℤ) :
    (daysFromEpoch (.ofNat date.year) (.ofNat date.month) (.ofNat date.day)).toInt = k ↔
      Calendar.DaysBetween unixEpoch date k := by
  have hepoch : dayNumber unixEpoch = 0 := by decide +kernel
  rw [toInt_daysFromEpoch date hyear, Calendar.daysBetween_iff dayNumber_next, hepoch,
    Int.sub_zero]

/-- 1969-12-31 and 2000-03-01. -/
theorem daysFromEpoch_counts_examples :
    Calendar.DaysBetween unixEpoch ⟨1969, 12, 31, by decide, by decide, by decide⟩ (-1) ∧
      Calendar.DaysBetween unixEpoch ⟨2000, 3, 1, by decide, by decide, by decide⟩ 11017 :=
  ⟨(daysFromEpoch_counts _ (by decide) _).mp (by decide +kernel),
    (daysFromEpoch_counts _ (by decide) _).mp (by decide +kernel)⟩

end Tachyon
