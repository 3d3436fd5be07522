import Tachyon.Protocol.DayCount
import Tachyon.Protocol.Numbers

/-!
# Retry-After

A server that asks for a pause names it in seconds or as a date. The seconds are read as
they stand, and a date from 1970 on as its distance from the clock. The days of an
earlier date are negative, and their cast to `u64` makes the pause a huge one.
-/

namespace Tachyon

/-- `month_num`. -/
def monthNum (name : List Char) : Option UInt32 :=
  match String.ofList name with
  | "Jan" => some 1
  | "Feb" => some 2
  | "Mar" => some 3
  | "Apr" => some 4
  | "May" => some 5
  | "Jun" => some 6
  | "Jul" => some 7
  | "Aug" => some 8
  | "Sep" => some 9
  | "Oct" => some 10
  | "Nov" => some 11
  | "Dec" => some 12
  | _ => none

/-- `duration_since(UNIX_EPOCH)` in seconds, for a clock given in seconds from there; an error
before it. -/
def secsSinceEpoch (now : Int64) : Option UInt64 := if 0 ≤ now then some now.toUInt64 else none

/-- `u64::saturating_sub`. -/
def saturatingSub (a b : UInt64) : UInt64 := if b ≤ a then a - b else 0

/-- The seconds from 1970 on of a date and a time of day, as `u64` arithmetic of a release build
has them. -/
def targetEpoch (year month day hour minute second : UInt32) : UInt64 :=
  (daysFromEpoch year month day).toUInt64 * 86400 + hour.toUInt64 * 3600 + minute.toUInt64 * 60 +
    second.toUInt64

/-- `parse_http_date_to_secs`. -/
def parseHttpDateToSecs (now : Int64) (dateStr : List Char) : Option UInt64 := do
  let parts := splitWhitespace dateStr
  if parts.length < 6 then none
  else do
    let day ← parts[1]?.bind parseU32
    let month ← parts[2]?.bind monthNum
    let year ← parts[3]?.bind parseU32
    let timeStr ← parts[4]?
    match timeStr.splitOn ':' with
    | [hourStr, minuteStr, secondStr] => do
      let hour ← parseU32 hourStr
      let minute ← parseU32 minuteStr
      let second ← parseU32 secondStr
      let nowEpoch ← secsSinceEpoch now
      some (saturatingSub (targetEpoch year month day hour minute second) nowEpoch)
    | _ => none

/-- `parse_retry_after` of a header that arrives at some time. -/
def parseRetryAfter (now : Int64) (value : List Char) : Option UInt64 :=
  match parseU64 (String.ofList (trim value)) with
  | some secs => some secs
  | none => parseHttpDateToSecs now (trim value)

/-- The month of a date in a header. -/
def monthName : ℕ → List Char
  | 1 => "Jan".toList
  | 2 => "Feb".toList
  | 3 => "Mar".toList
  | 4 => "Apr".toList
  | 5 => "May".toList
  | 6 => "Jun".toList
  | 7 => "Jul".toList
  | 8 => "Aug".toList
  | 9 => "Sep".toList
  | 10 => "Oct".toList
  | 11 => "Nov".toList
  | _ => "Dec".toList

/-- A number with zeros in front. -/
def padded (width n : ℕ) : List Char := (Nat.toDigits 10 n).leftpad width '0'

/-- A date in the preferred format of HTTP: a weekday, a date of a year of four digits, and a
time of day with its leap second. -/
structure ImfFixdate where
  dayName : List Char
  date : Calendar.Date
  hour : ℕ
  minute : ℕ
  second : ℕ
  dayName_mem : dayName ∈ ["Mon", "Tue", "Wed", "Thu", "Fri", "Sat", "Sun"].map String.toList
  year_le : date.year ≤ 9999
  hour_lt : hour < 24
  minute_lt : minute < 60
  second_le : second ≤ 60

namespace ImfFixdate

/-- The parts between the spaces. -/
def parts (d : ImfFixdate) : List (List Char) :=
  [d.dayName ++ [','], padded 2 d.date.day, monthName d.date.month, padded 4 d.date.year,
    padded 2 d.hour ++ ':' :: (padded 2 d.minute ++ ':' :: padded 2 d.second), "GMT".toList]

/-- The text of the header. -/
def text (d : ImfFixdate) : List Char := [' '].intercalate d.parts

/-- The seconds from 1970-01-01 on, if it is the day of the given number. -/
def secs (d : ImfFixdate) (days : ℤ) : ℤ := 86400 * days + 3600 * d.hour + 60 * d.minute + d.second

end ImfFixdate

section

variable {a b : UInt64} {x : Int64}

theorem toNat_saturatingSub : (saturatingSub a b).toNat = a.toNat - b.toNat := by
  unfold saturatingSub
  by_cases hle : b ≤ a
  · rw [if_pos hle, UInt64.toNat_sub_of_le _ _ hle]
  · have hlt := UInt64.le_iff_toNat_le.not.mp hle
    rw [if_neg hle, UInt64.toNat_zero]
    omega

/-- The cast to `u64` adds `2 ^ 64` to a negative number. -/
theorem toNat_toUInt64_cases (x : Int64) :
    (0 ≤ x.toInt ∧ (x.toUInt64.toNat : ℤ) = x.toInt) ∨
      (x.toInt < 0 ∧ (x.toUInt64.toNat : ℤ) = x.toInt + 2 ^ 64) := by
  have hcond : x.toInt = if 2 * x.toUInt64.toNat < 2 ^ 64 then (x.toUInt64.toNat : ℤ)
      else x.toUInt64.toNat - (2 ^ 64 : ℕ) := BitVec.toInt_eq_toNat_cond x.toBitVec
  have hlt := x.toUInt64.toNat_lt
  split_ifs at hcond
  · exact .inl ⟨by omega, hcond.symm⟩
  · exact .inr ⟨by omega, by omega⟩

theorem secsSinceEpoch_of_nonneg (h : 0 ≤ x) : secsSinceEpoch x = some x.toUInt64 := if_pos h

end

section

variable {width n : ℕ}

theorem ofDigitChars_padded : Nat.ofDigitChars 10 (padded width n) 0 = n := by
  unfold padded List.leftpad
  rw [Nat.ofDigitChars_append, Nat.ofDigitChars_replicate_zero, Nat.mul_zero,
    Nat.ofDigitChars_ten_toDigits]

theorem isDigit_of_mem_padded {c : Char} (hc : c ∈ padded width n) : c.isDigit = true := by
  unfold padded List.leftpad at hc
  rcases List.mem_append.mp hc with hzero | hdigit
  · rw [List.eq_of_mem_replicate hzero]
    decide
  · exact Nat.isDigit_of_mem_toDigits (by decide) (by decide) hdigit

theorem padded_ne_nil : padded width n ≠ [] := by
  unfold padded List.leftpad
  exact List.append_ne_nil_of_right_ne_nil _ Nat.toDigits_ne_nil

theorem parseU32_padded (h : n < 2 ^ 32) : parseU32 (padded width n) = some (.ofNat n) := by
  unfold parseU32
  rw [parseUnsigned_digits padded_ne_nil (fun _ hc => isDigit_of_mem_padded hc)
    (by rwa [ofDigitChars_padded]), ofDigitChars_padded, Option.map_some]

end

theorem colon_not_mem_padded {width n : ℕ} : ':' ∉ padded width n := fun hmem =>
  absurd (isDigit_of_mem_padded hmem) (by decide)

theorem token_padded {width n : ℕ} : Token (padded width n) :=
  ⟨padded_ne_nil, fun _ hc => isDigit_not_isWhitespace (isDigit_of_mem_padded hc)⟩

section

variable {month : ℕ} (hmonth : 1 ≤ month ∧ month ≤ 12)

include hmonth

theorem monthNum_monthName : monthNum (monthName month) = some (.ofNat month) := by
  obtain ⟨hlow, hhigh⟩ := hmonth
  interval_cases month
  all_goals rfl

theorem token_monthName : Token (monthName month) := by
  obtain ⟨hlow, hhigh⟩ := hmonth
  interval_cases month
  all_goals exact ⟨by decide, List.forall_iff_forall_mem.mp (by decide)⟩

end

namespace ImfFixdate

variable (d : ImfFixdate)

theorem dayName_cases : d.dayName = "Mon".toList ∨ d.dayName = "Tue".toList ∨
    d.dayName = "Wed".toList ∨ d.dayName = "Thu".toList ∨ d.dayName = "Fri".toList ∨
      d.dayName = "Sat".toList ∨ d.dayName = "Sun".toList := by
  simpa only [List.map_cons, List.map_nil, List.mem_cons, List.not_mem_nil, or_false] using
    d.dayName_mem

/-- The weekday begins with a letter. -/
theorem dayName_eq_cons : ∃ c rest, d.dayName = c :: rest ∧ c ≠ '+' ∧ c.isDigit = false := by
  rcases d.dayName_cases with h | h | h | h | h | h | h
  all_goals
    rw [h]
    exact ⟨_, _, rfl, by decide, by decide⟩

theorem token_dayName : Token (d.dayName ++ [',']) := by
  rcases d.dayName_cases with h | h | h | h | h | h | h
  all_goals
    rw [h]
    exact ⟨by decide, List.forall_iff_forall_mem.mp (by decide)⟩

/-- The time of day is read number by number. -/
theorem splitOn_time :
    (padded 2 d.hour ++ ':' :: (padded 2 d.minute ++ ':' :: padded 2 d.second)).splitOn ':' =
      [padded 2 d.hour, padded 2 d.minute, padded 2 d.second] := by
  have hcolon : ∀ {n : ℕ}, ∀ c ∈ padded 2 n, (c == ':') = false := fun c hc =>
    beq_false_of_ne fun heq => colon_not_mem_padded (heq ▸ hc)
  unfold List.splitOn
  rw [List.splitOnP_append_cons_of_forall_mem hcolon ':' rfl,
    List.splitOnP_append_cons_of_forall_mem hcolon ':' rfl, List.splitOnP_eq_singleton hcolon]

theorem token_of_mem_parts : ∀ part ∈ d.parts, Token part := by
  have htime : Token
      (padded 2 d.hour ++ ':' :: (padded 2 d.minute ++ ':' :: padded 2 d.second)) := by
    refine ⟨List.append_ne_nil_of_right_ne_nil _ (List.cons_ne_nil _ _), fun c hc => ?_⟩
    simp only [List.mem_append, List.mem_cons] at hc
    rcases hc with hc | rfl | hc | rfl | hc
    · exact token_padded.visible c hc
    · decide
    · exact token_padded.visible c hc
    · decide
    · exact token_padded.visible c hc
  intro part hmem
  simp only [parts, List.mem_cons, List.not_mem_nil, or_false] at hmem
  rcases hmem with rfl | rfl | rfl | rfl | rfl | rfl
  · exact d.token_dayName
  · exact token_padded
  · exact token_monthName d.date.month_mem
  · exact token_padded
  · exact htime
  · exact ⟨by decide, List.forall_iff_forall_mem.mp (by decide)⟩

theorem trim_text : trim d.text = d.text := by
  unfold trim text
  rw [dropWhile_intercalate d.token_of_mem_parts, rdropWhile_intercalate d.token_of_mem_parts]

theorem splitWhitespace_text : splitWhitespace d.text = d.parts := by
  have hne : d.parts ≠ [] := List.cons_ne_nil _ _
  unfold splitWhitespace text
  rw [splitWhitespace_intercalate hne d.token_of_mem_parts, List.filter_eq_self]
  intro part hmem
  rw [List.isEmpty_eq_false_iff.mpr (d.token_of_mem_parts part hmem).ne_nil]
  rfl

/-- A date is no number. -/
theorem parseU64_text : parseU64 (String.ofList d.text) = none := by
  obtain ⟨c, rest, hname, hplus, hdigit⟩ := d.dayName_eq_cons
  have htext : ∃ rest', d.text = c :: rest' := by
    unfold text parts
    rw [hname, List.intercalate_cons_cons]
    exact ⟨_, rfl⟩
  obtain ⟨rest', htext⟩ := htext
  rw [parseU64_eq, htext, parseUnsigned_eq_none hplus hdigit, Option.map_none]

/-- Every number of the date is read as it is. -/
theorem parseRetryAfter_text (now : Int64) :
    parseRetryAfter now d.text = (secsSinceEpoch now).map
      (saturatingSub (targetEpoch (.ofNat d.date.year) (.ofNat d.date.month) (.ofNat d.date.day)
        (.ofNat d.hour) (.ofNat d.minute) (.ofNat d.second))) := by
  have hday := d.date.day_mem
  have hlength := Calendar.monthLength_le d.date.year d.date.month
  have hyear := d.year_le
  have hhour := d.hour_lt
  have hminute := d.minute_lt
  have hsecond := d.second_le
  unfold parseRetryAfter
  rw [d.trim_text, d.parseU64_text]
  dsimp only
  unfold parseHttpDateToSecs
  have hlen : ¬d.parts.length < 6 := lt_irrefl 6
  rw [d.splitWhitespace_text]
  dsimp only
  rw [if_neg hlen]
  unfold parts
  simp only [List.getElem?_cons_succ, List.getElem?_cons_zero, Option.bind_eq_bind,
    Option.bind_some, d.splitOn_time, monthNum_monthName d.date.month_mem,
    parseU32_padded (show d.date.day < 2 ^ 32 by omega),
    parseU32_padded (show d.date.year < 2 ^ 32 by omega),
    parseU32_padded (show d.hour < 2 ^ 32 by omega),
    parseU32_padded (show d.minute < 2 ^ 32 by omega),
    parseU32_padded (show d.second < 2 ^ 32 by omega)]
  cases secsSinceEpoch now with
  | none => rfl
  | some nowEpoch => rfl

/-- A date of a year of four digits is within three million days of 1970. -/
theorem dayNumber_bounds : -719162 ≤ dayNumber d.date ∧ dayNumber d.date ≤ 2932896 := by
  have hyear := d.year_le
  have hpos := d.date.year_pos
  have hmonth := d.date.month_mem
  have hday := d.date.day_mem
  have hlength := Calendar.monthLength_le d.date.year d.date.month
  unfold dayNumber marchDays marchYear marchMonth
  dsimp only
  split_ifs
  · omega
  · omega

/-- The seconds of the code: those of the date, or `2 ^ 64` more for a date before 1970. -/
theorem toNat_targetEpoch :
    let target := (targetEpoch (.ofNat d.date.year) (.ofNat d.date.month) (.ofNat d.date.day)
      (.ofNat d.hour) (.ofNat d.minute) (.ofNat d.second)).toNat
    (0 ≤ d.secs (dayNumber d.date) ∧ (target : ℤ) = d.secs (dayNumber d.date)) ∨
      (d.secs (dayNumber d.date) < 0 ∧ (target : ℤ) = d.secs (dayNumber d.date) + 2 ^ 64) := by
  have hyear := d.year_le
  have hhour := d.hour_lt
  have hminute := d.minute_lt
  have hsecond := d.second_le
  have hbounds := d.dayNumber_bounds
  have hdays := toInt_daysFromEpoch d.date (by omega)
  have hcast := toNat_toUInt64_cases
    (daysFromEpoch (.ofNat d.date.year) (.ofNat d.date.month) (.ofNat d.date.day))
  rw [hdays] at hcast
  have hsmall : ∀ {n : ℕ}, n < 2 ^ 32 → (UInt32.ofNat n).toUInt64.toNat = n := fun hlt => by
    rw [UInt32.toNat_toUInt64, UInt32.toNat_ofNat_of_lt' hlt]
  unfold targetEpoch secs
  simp only [UInt64.toNat_add, UInt64.toNat_mul, hsmall (show d.hour < 2 ^ 32 by omega),
    hsmall (show d.minute < 2 ^ 32 by omega), hsmall (show d.second < 2 ^ 32 by omega),
    UInt64.reduceToNat]
  omega

end ImfFixdate

/-- A number of seconds is read as it stands. -/
theorem parseRetryAfter_digits (now : Int64) {digits : List Char} (hne : digits ≠ [])
    (hdigits : ∀ c ∈ digits, c.isDigit = true) (hlt : Nat.ofDigitChars 10 digits 0 < 2 ^ 64) :
    (parseRetryAfter now digits).map UInt64.toNat = some (Nat.ofDigitChars 10 digits 0) := by
  have htoken : Token digits := ⟨hne, fun c hc => isDigit_not_isWhitespace (hdigits c hc)⟩
  unfold parseRetryAfter
  rw [trim_token htoken, parseU64_eq, parseUnsigned_digits hne hdigits hlt, Option.map_some]
  dsimp only
  rw [Option.map_some, UInt64.toNat_ofNat_of_lt' hlt]

/-- The pause until a date, for a clock that is not before 1970: what is between the two, and
`2 ^ 64` seconds more for a date before 1970. -/
theorem parseRetryAfter_date {now : Int64} (hnow : 0 ≤ now.toInt) (d : ImfFixdate) :
    (parseRetryAfter now d.text).map UInt64.toNat =
      some (if 0 ≤ d.secs (dayNumber d.date) then d.secs (dayNumber d.date) - now.toInt
        else d.secs (dayNumber d.date) + 2 ^ 64 - now.toInt).toNat := by
  have hnonneg : 0 ≤ now := Int64.le_iff_toInt_le.mpr (by rwa [Int64.toInt_zero])
  have htarget := d.toNat_targetEpoch
  dsimp only at htarget
  rw [d.parseRetryAfter_text, secsSinceEpoch_of_nonneg hnonneg, Option.map_some, Option.map_some,
    toNat_saturatingSub]
  rcases toNat_toUInt64_cases now with ⟨_, hcast⟩ | ⟨hneg, _⟩
  · rcases htarget with ⟨hsecs, htarget⟩ | ⟨hsecs, htarget⟩
    · rw [if_pos hsecs]
      exact congrArg some (by omega)
    · rw [if_neg (by omega)]
      exact congrArg some (by omega)
  · omega

/-- Before 1970 the clock has no seconds to give. -/
theorem parseRetryAfter_eq_none {now : Int64} (hnow : now.toInt < 0) (d : ImfFixdate) :
    parseRetryAfter now d.text = none := by
  have hneg : ¬0 ≤ now := fun hle => by
    have hle := Int64.le_iff_toInt_le.mp hle
    rw [Int64.toInt_zero] at hle
    omega
  rw [d.parseRetryAfter_text, secsSinceEpoch, if_neg hneg, Option.map_none]

/-- A number of seconds is the pause. A date is one of as many seconds as it is ahead of the
clock, none if it is past, exactly when neither the date nor the clock is before 1970. -/
theorem parseRetryAfter_iff (now : Int64) :
    (∀ digits : List Char, digits ≠ [] → (∀ c ∈ digits, c.isDigit = true) →
      Nat.ofDigitChars 10 digits 0 < 2 ^ 64 →
        (parseRetryAfter now digits).map UInt64.toNat = some (Nat.ofDigitChars 10 digits 0)) ∧
    ∀ (d : ImfFixdate) (days : ℤ), Calendar.DaysBetween unixEpoch d.date days →
      ((parseRetryAfter now d.text).map UInt64.toNat = some (d.secs days - now.toInt).toNat ↔
        0 ≤ d.secs days ∧ 0 ≤ now.toInt) := by
  refine ⟨fun digits hne hdigits hlt => parseRetryAfter_digits now hne hdigits hlt,
    fun d days hdays => ?_⟩
  have hepoch : dayNumber unixEpoch = 0 := by decide +kernel
  rw [Calendar.daysBetween_iff dayNumber_next, hepoch, Int.sub_zero] at hdays
  subst hdays
  rcases lt_or_ge now.toInt 0 with hnow | hnow
  · rw [parseRetryAfter_eq_none hnow]
    refine ⟨fun h => absurd h (Option.some_ne_none _).symm, fun h => ?_⟩
    omega
  · have hbounds := d.dayNumber_bounds
    have hlt := now.toInt_lt
    rw [parseRetryAfter_date hnow, Option.some.injEq]
    constructor
    · intro h
      refine ⟨by_contra fun hneg => ?_, hnow⟩
      rw [if_neg hneg] at h
      unfold ImfFixdate.secs at h hneg
      omega
    · rintro ⟨hsecs, _⟩
      rw [if_pos hsecs]

/-- The last second before 1970. -/
def lastSecond : ImfFixdate where
  dayName := "Wed".toList
  date := ⟨1969, 12, 31, by decide, by decide, by decide⟩
  hour := 23
  minute := 59
  second := 59
  dayName_mem := List.mem_map_of_mem (by decide)
  year_le := by decide
  hour_lt := by decide
  minute_lt := by decide
  second_le := by decide

/-- The last second before 1970, long past, asks for a pause of more than `2 ^ 63` seconds. -/
theorem parseRetryAfter_lastSecond :
    lastSecond.text = "Wed, 31 Dec 1969 23:59:59 GMT".toList ∧
      Calendar.DaysBetween unixEpoch lastSecond.date (-1) ∧
      (lastSecond.secs (-1) - (1800000000 : Int64).toInt).toNat = 0 ∧
      (parseRetryAfter 1800000000 lastSecond.text).map UInt64.toNat =
        some 18446744071909551615 := by
  refine ⟨by decide, ?_, by decide, ?_⟩
  · rw [Calendar.daysBetween_iff dayNumber_next]
    decide +kernel
  · rw [parseRetryAfter_date (by decide)]
    decide +kernel

/-- The end of the first day of 1970. -/
def firstMidnight : ImfFixdate where
  dayName := "Fri".toList
  date := unixEpoch.next
  hour := 0
  minute := 0
  second := 0
  dayName_mem := List.mem_map_of_mem (by decide)
  year_le := by decide
  hour_lt := by decide
  minute_lt := by decide
  second_le := by decide

/-- Two minutes in seconds, and a day as a date. -/
theorem parseRetryAfter_two_minutes_and_a_day :
    (parseRetryAfter 0 "120".toList).map UInt64.toNat = some 120 ∧
      (parseRetryAfter 0 firstMidnight.text).map UInt64.toNat =
        some (firstMidnight.secs 1 - (0 : Int64).toInt).toNat :=
  ⟨(parseRetryAfter_iff 0).1 "120".toList (by decide) (List.forall_iff_forall_mem.mp (by decide))
      (by decide),
    ((parseRetryAfter_iff 0).2 firstMidnight 1 ⟨1, .inl ⟨by decide, by decide⟩⟩).mpr
      ⟨by decide, by decide⟩⟩

end Tachyon
