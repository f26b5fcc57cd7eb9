import Zinzhi.Coordinate
import Zinzhi.Dates
import Mathlib.Tactic.IntervalCases

/-!
The modified Julian day number as a coordinate on dates.

The two formulas of each class are compared with the calendar itself, where the next day is the
next one of the month or else the first of the next month. From the year 401 (`Gregorian`) and
-4712 (`Julian`) on, `jd` counts days and `adjust_date_from_mjd` inverts it. `mod_julian_day`
then adds a rounding of its own, which is right from the epoch on only.
-/

namespace Zinzhi.DayNumber

open Zinzhi.Trunc Zinzhi.Coordinate Zinzhi.Dates

/-! ### The calendar, day by day -/

def Valid (c : CalSystem) (d : Ymd) : Prop :=
  (1 ≤ d.currMonth ∧ d.currMonth ≤ 12) ∧
    1 ≤ d.currDay ∧ d.currDay ≤ daysOfMonth c.leapYear d.currMonth d.currYear

/-- The next day of the calendar, without day numbers. -/
def nextDay (c : CalSystem) (d : Ymd) : Ymd :=
  if d.currDay < daysOfMonth c.leapYear d.currMonth d.currYear then
    ⟨d.currYear, d.currMonth, d.currDay + 1⟩
  else if d.currMonth < 12 then ⟨d.currYear, d.currMonth + 1, 1⟩
  else ⟨d.currYear + 1, 1, 1⟩

lemma leapYear_gregorian_iff (y : ℤ) :
    Gregorian.leapYear y = true ↔ y % 4 = 0 ∧ (y % 100 ≠ 0 ∨ y % 400 = 0) := by
  simp [Gregorian.leapYear]

lemma leapYear_julian_iff (y : ℤ) : Julian.leapYear y = true ↔ y % 4 = 0 := by
  simp [Julian.leapYear]

lemma four_of_leapYear {c : CalSystem} {y : ℤ} (h : c.leapYear y = true) : y % 4 = 0 := by
  cases c
  · exact ((leapYear_gregorian_iff y).mp h).1
  · exact (leapYear_julian_iff y).mp h

/-! ### From the day number to the fields -/

/-- `fieldsOf` finds the date of the day `x` of the year `C - 4716`, counted on from the
`0`th of November and through the next February. -/
lemma fieldsOf_eq {C E x : ℤ} (hC : 0 ≤ C) (hE : 0 ≤ E) (hx : 123 ≤ x)
    (hx' : x ≤ 487 ∨ x = 488 ∧ C % 4 = 3) (hm : 306001 * E ≤ 10000 * x)
    (hm' : 10000 * x < 306001 * (E + 1)) :
    fieldsOf (365 * C + C / 4 + x - 1524) 0 =
      ⟨if (if E < 14 then E - 1 else E - 13) > 2 then C - 4716 else C - 4715,
        if E < 14 then E - 1 else E - 13, x - 306001 * E / 10000⟩ := by
  have hB : 365 * C + C / 4 + x - 1524 + 1524 = 365 * C + C / 4 + x := by omega
  have h1 : (20 * (365 * C + C / 4 + x) - 2442).tdiv 7305 = C := by
    rw [tdiv_of_nonneg _ (by omega)]; omega
  have h2 : (1461 * C).tdiv 4 = 365 * C + C / 4 := by
    rw [tdiv_of_nonneg _ (by omega)]; omega
  have h3 : (10000 * x).tdiv 306001 = E := by
    rw [tdiv_of_nonneg _ (by omega)]; omega
  have h4 : (306001 * E).tdiv 10000 = 306001 * E / 10000 := tdiv_of_nonneg _ (by omega)
  simp only [fieldsOf_zero, hB, h1, h2, add_sub_cancel_left, h3, h4]

/-- The formula of `Julian` in any year, with the year cut towards zero. -/
lemma julian_jd_tdiv {m : ℤ} (y d : ℤ) (hm : 1 ≤ m) :
    Julian.jd ⟨y, m, d⟩ =
      if m < 3 then
        (y + 4799) * 365 + (y + 4799).tdiv 4 + 30 * (m + 9) + (m * 3 + 29) / 5 + d - 32083
      else (y + 4800) * 365 + (y + 4800).tdiv 4 + 30 * (m - 3) + (m * 3 - 7) / 5 + d - 32083 := by
  unfold Julian.jd
  split_ifs with h
  · simp only [if_pos h]
    have hyear : y - 1 + 4800 = y + 4799 := by omega
    rw [tdiv_of_nonneg (a := (m + 12 - 3) * 3 + 2) _ (by omega), hyear]
    omega
  · simp only [if_neg h]
    rw [tdiv_of_nonneg (a := (m - 3) * 3 + 2) _ (by omega)]
    omega

lemma julian_jd {y m d : ℤ} (hy : -4712 ≤ y) (hm : 1 ≤ m) :
    Julian.jd ⟨y, m, d⟩ =
      if m < 3 then (y + 4799) * 365 + (y + 4799) / 4 + 30 * (m + 9) + (m * 3 + 29) / 5 + d - 32083
      else (y + 4800) * 365 + (y + 4800) / 4 + 30 * (m - 3) + (m * 3 - 7) / 5 + d - 32083 := by
  rw [julian_jd_tdiv y d hm, tdiv_of_nonneg _ (by omega), tdiv_of_nonneg _ (by omega)]

/-- The months from March on begin `30.6001 * E` days, truncated, after the end of October. -/
lemma monthStart {m : ℤ} (hm : 3 ≤ m) (hm' : m ≤ 12) :
    306001 * (m + 1) / 10000 = 30 * (m - 3) + (m * 3 - 7) / 5 + 122 := by
  interval_cases m <;> rfl

lemma daysOfMonth_le {leapYear : ℤ → Bool} {m y : ℤ} (hm : 3 ≤ m) (hm' : m ≤ 12) :
    daysOfMonth leapYear m y ≤ 306001 * (m + 2) / 10000 - 306001 * (m + 1) / 10000 := by
  interval_cases m <;> simp [daysOfMonth]

lemma valid_winter {c : CalSystem} {y m day : ℤ} (hday : day ≤ daysOfMonth c.leapYear m y)
    (hm : 1 ≤ m) (hm' : m < 3) :
    m = 1 ∧ day ≤ 31 ∨ m = 2 ∧ day ≤ 28 ∨ m = 2 ∧ day = 29 ∧ y % 4 = 0 := by
  obtain rfl | rfl : m = 1 ∨ m = 2 := by omega
  · exact .inl ⟨rfl, hday⟩
  · simp only [daysOfMonth] at hday
    split_ifs at hday with h
    · have := four_of_leapYear h
      omega
    · omega

def marchYear (d : Ymd) : ℤ := if d.currMonth < 3 then d.currYear - 1 else d.currYear

/-- The two calendars number the same fields apart by the leap days that only one of them has. -/
lemma gregorian_jd {d : Ymd} (hy : -4712 ≤ d.currYear) (hm : 1 ≤ d.currMonth) :
    Gregorian.jd d = Julian.jd d + 2 - marchYear d / 100 + marchYear d / 400 := by
  obtain ⟨y, m, day⟩ := d
  dsimp only at hy hm
  rw [julian_jd hy hm]
  unfold Gregorian.jd marchYear
  split_ifs with h
  all_goals
    simp only [h, if_true, if_false]
    rw [tdiv_of_nonneg _ (by omega), tdiv_of_nonneg _ (by omega), tdiv_of_nonneg _ (by omega),
      tdiv_of_nonneg _ (by omega)]
    omega

/-- A date as `fieldsOf` counts it: the day `x` of its year, in the month `E`. -/
structure Counted (c : CalSystem) (d : Ymd) (E x : ℤ) : Prop where
  jd : Julian.jd d = 365 * (marchYear d + 4716) + (marchYear d + 4716) / 4 + x - 1524
  lo : 123 ≤ x
  hi : x ≤ 487 ∨ x = 488 ∧ c.leapYear (marchYear d + 1) = true
  month : 306001 * E ≤ 10000 * x ∧ 10000 * x < 306001 * (E + 1)
  year_eq : d.currYear = if E < 14 then marchYear d else marchYear d + 1
  month_eq : d.currMonth = if E < 14 then E - 1 else E - 13
  day_eq : d.currDay = x - 306001 * E / 10000

lemma counted_winter {c : CalSystem} {y m day : ℤ} (hy : -4712 ≤ y) (hm : 1 ≤ m) (h : m < 3)
    (hday : 1 ≤ day) (hday' : day ≤ daysOfMonth c.leapYear m y) :
    Counted c ⟨y, m, day⟩ (m + 13) (306001 * (m + 13) / 10000 + day) := by
  have hlen := valid_winter hday' hm h
  have hY : marchYear ⟨y, m, day⟩ = y - 1 := if_pos h
  refine ⟨?_, ?_, ?_, ?_, ?_, ?_, ?_⟩
  · rw [julian_jd hy hm, if_pos h, hY]; omega
  · omega
  · rw [hY, sub_add_cancel]
    obtain hw | hw | hw := hlen
    · omega
    · omega
    · obtain ⟨rfl, rfl, -⟩ := hw
      refine .inr ⟨rfl, ?_⟩
      by_contra hleap
      simp [daysOfMonth, hleap] at hday'
  · omega
  · rw [hY]; dsimp only; omega
  · dsimp only; omega
  · dsimp only; omega

lemma counted_summer {c : CalSystem} {y m day : ℤ} (hy : -4712 ≤ y) (hm : 3 ≤ m) (hm' : m ≤ 12)
    (hday : 1 ≤ day) (hday' : day ≤ daysOfMonth c.leapYear m y) :
    Counted c ⟨y, m, day⟩ (m + 1) (306001 * (m + 1) / 10000 + day) := by
  have hlt : ¬m < 3 := by omega
  have hstart := monthStart hm hm'
  have hlen := hday'.trans (daysOfMonth_le hm hm')
  have hY : marchYear ⟨y, m, day⟩ = y := if_neg hlt
  refine ⟨?_, ?_, ?_, ?_, ?_, ?_, ?_⟩
  · rw [julian_jd hy (by omega), if_neg hlt, hY]; omega
  · omega
  · exact .inl (by omega)
  · omega
  · rw [hY]; dsimp only; omega
  · dsimp only; omega
  · dsimp only; omega

lemma exists_counted {c : CalSystem} {d : Ymd} (hd : Valid c d) (hy : -4712 ≤ d.currYear) :
    ∃ E x, Counted c d E x := by
  obtain ⟨y, m, day⟩ := d
  obtain ⟨⟨hm, hm'⟩, hday, hday'⟩ := hd
  by_cases h : m < 3
  · exact ⟨_, _, counted_winter hy hm h hday hday'⟩
  · exact ⟨_, _, counted_summer hy (not_lt.mp h) hm' hday hday'⟩

/-- Its day number of the Julian calendar leads back to a date of either calendar. -/
lemma fieldsOf_jd {c : CalSystem} {d : Ymd} (hd : Valid c d) (hy : -4712 ≤ d.currYear) :
    fieldsOf (Julian.jd d) 0 = d := by
  obtain ⟨E, x, h⟩ := exists_counted hd hy
  have hlo := h.lo
  have hE := h.month
  have hx : x ≤ 487 ∨ x = 488 ∧ (marchYear d + 4716) % 4 = 3 := by
    refine h.hi.imp_right fun hleap => ⟨hleap.1, ?_⟩
    have := four_of_leapYear hleap.2
    omega
  have hY : 0 ≤ marchYear d + 4716 := by unfold marchYear; split_ifs <;> omega
  rw [h.jd, fieldsOf_eq hY (by omega) hlo hx hE.1 hE.2]
  have hyear := h.year_eq
  have hmonth := h.month_eq
  have hday := h.day_eq
  have hm := hd.1
  ext <;> dsimp only <;> omega

/-- The century of a Gregorian date from its day number. -/
lemma century_eq {d : Ymd} (hd : Valid .gregorian d) (hy : 401 ≤ d.currYear) :
    (4 * Gregorian.jd d - 7468865).tdiv 146097 = marchYear d / 100 - 4 := by
  obtain ⟨E, x, hx, hlo, hhi, -⟩ := exists_counted hd (by omega)
  rw [gregorian_jd (by omega) hd.1.1, hx]
  have hY : 400 ≤ marchYear d := by unfold marchYear; split_ifs <;> omega
  simp only [CalSystem.leapYear, leapYear_gregorian_iff] at hhi
  obtain ⟨c, r, hc, hr, hr'⟩ : ∃ c r, marchYear d = 100 * c + r ∧ 0 ≤ r ∧ r < 100 :=
    ⟨marchYear d / 100, marchYear d % 100, by omega, by omega, by omega⟩
  have h4 : (marchYear d + 4716) / 4 = 25 * c + 1179 + r / 4 := by omega
  have h100 : marchYear d / 100 = c := by omega
  have h400 : marchYear d / 400 = c / 4 := by omega
  -- the last day of a century is a leap day only in every fourth of them
  have hlast : x ≤ 487 ∨ x = 488 ∧ r ≤ 98 ∨ x = 488 ∧ c % 4 = 3 := by omega
  rw [h4, h100, h400, tdiv_of_nonneg _ (by omega)]
  omega

lemma gregorian_adjust_jd {d : Ymd} (hd : Valid .gregorian d) (hy : 401 ≤ d.currYear) :
    Gregorian.adjustDateFromMjd (Gregorian.jd d - 2400001) = fieldsOf (Julian.jd d) 0 := by
  have hY : 400 ≤ marchYear d := by unfold marchYear; split_ifs <;> omega
  rw [Gregorian.adjustDateFromMjd_eq]
  dsimp only
  rw [sub_add_cancel, century_eq hd hy, tdiv_of_nonneg _ (by omega),
    gregorian_jd (by omega) hd.1.1]
  congr 1
  omega

/-! ### The day number counts days -/

/-- The year from which on the two formulas of a class are inverse to each other. -/
def firstYear : CalSystem → ℤ
  | .gregorian => 401
  | .julian => -4712

/-- A date of the calendar in the years where its day number is exact. -/
def Numbered (c : CalSystem) (d : Ymd) : Prop := Valid c d ∧ firstYear c ≤ d.currYear

/-- Days since the epoch, without the rounding of `mod_julian_day`. -/
def dayNumber (c : CalSystem) (d : Ymd) : ℤ := c.jd d - 2400001

lemma firstYear_le (c : CalSystem) : -4712 ≤ firstYear c := by cases c <;> decide

lemma daysOfMonth_ge_28 {leapYear : ℤ → Bool} {m : ℤ} (hm : 1 ≤ m) (hm' : m ≤ 12) (y : ℤ) :
    28 ≤ daysOfMonth leapYear m y := by
  interval_cases m
  case «2» => simp only [daysOfMonth]; split_ifs <;> decide
  all_goals simp [daysOfMonth]

lemma daysOfMonth_pos {leapYear : ℤ → Bool} {m : ℤ} (hm : 1 ≤ m) (hm' : m ≤ 12) (y : ℤ) :
    1 ≤ daysOfMonth leapYear m y :=
  le_trans (by decide) (daysOfMonth_ge_28 hm hm' y)

lemma valid_nextDay {c : CalSystem} {d : Ymd} (hd : Valid c d) : Valid c (nextDay c d) := by
  obtain ⟨⟨hm, hm'⟩, hday, hday'⟩ := hd
  unfold nextDay
  split_ifs with h h12
  · refine ⟨⟨hm, hm'⟩, ?_, ?_⟩ <;> dsimp only <;> omega
  · refine ⟨⟨?_, ?_⟩, le_rfl, daysOfMonth_pos ?_ ?_ _⟩ <;> dsimp only <;> omega
  · exact ⟨⟨le_rfl, by simp⟩, le_rfl, daysOfMonth_pos le_rfl (by simp) _⟩

/-- The day number before March of the year `Y`, up to a constant. -/
def yearStart : CalSystem → ℤ → ℤ
  | .gregorian, Y => 365 * (Y + 4800) + (Y + 4800) / 4 + 2 - Y / 100 + Y / 400 - 32083
  | .julian, Y => 365 * (Y + 4800) + (Y + 4800) / 4 - 32083

lemma yearStart_succ (c : CalSystem) (Y : ℤ) :
    yearStart c (Y + 1) = yearStart c Y + if c.leapYear (Y + 1) then 366 else 365 := by
  cases c
  · simp only [yearStart, CalSystem.leapYear, leapYear_gregorian_iff]
    split_ifs <;> omega
  · simp only [yearStart, CalSystem.leapYear, leapYear_julian_iff]
    split_ifs <;> omega

lemma jd_winter {c : CalSystem} {y m day : ℤ} (hy : -4712 ≤ y) (hm : 1 ≤ m) (h : m < 3) :
    c.jd ⟨y, m, day⟩ = yearStart c (y - 1) + 30 * (m + 9) + (m * 3 + 29) / 5 + day := by
  cases c
  · have hg := @gregorian_jd ⟨y, m, day⟩ hy hm
    simp only [julian_jd hy hm, marchYear, if_pos h] at hg
    simp only [CalSystem.jd, yearStart]
    omega
  · simp only [CalSystem.jd, julian_jd hy hm, yearStart, if_pos h]
    omega

lemma jd_summer {c : CalSystem} {y m day : ℤ} (hy : -4712 ≤ y) (h : 3 ≤ m) :
    c.jd ⟨y, m, day⟩ = yearStart c y + 30 * (m - 3) + (m * 3 - 7) / 5 + day := by
  have hm : 1 ≤ m := by omega
  have hlt : ¬m < 3 := by omega
  cases c
  · have hg := @gregorian_jd ⟨y, m, day⟩ hy hm
    simp only [julian_jd hy hm, marchYear, if_neg hlt] at hg
    simp only [CalSystem.jd, yearStart]
    omega
  · simp only [CalSystem.jd, julian_jd hy hm, yearStart, if_neg hlt]
    omega

lemma jd_winter_own {c : CalSystem} {y m day : ℤ} (hy : -4712 ≤ y) (hm : 1 ≤ m) (h : m < 3) :
    c.jd ⟨y, m, day⟩ = yearStart c y + 31 * (m - 1) + day - if c.leapYear y then 60 else 59 := by
  have hyear := yearStart_succ c (y - 1)
  rw [sub_add_cancel] at hyear
  rw [jd_winter hy hm h, hyear]
  split_ifs <;> omega

lemma jd_day {c : CalSystem} {y m : ℤ} (hy : -4712 ≤ y) (hm : 1 ≤ m) (day day' : ℤ) :
    c.jd ⟨y, m, day⟩ = c.jd ⟨y, m, day'⟩ + (day - day') := by
  by_cases h : m < 3
  · rw [jd_winter hy hm h, jd_winter hy hm h]
    omega
  · rw [jd_summer hy (by omega), jd_summer hy (by omega)]
    omega

/-- From the last day of a month to the first of the next one in the same year. -/
lemma jd_nextMonth {c : CalSystem} {y m : ℤ} (hy : -4712 ≤ y) (hm : 1 ≤ m) (hm' : m < 12) :
    c.jd ⟨y, m + 1, 1⟩ = c.jd ⟨y, m, daysOfMonth c.leapYear m y⟩ + 1 := by
  interval_cases m
  case «1» =>
    rw [jd_winter hy (by omega) (by omega), jd_winter hy le_rfl (by omega)]
    simp only [daysOfMonth]
    omega
  case «2» =>
    rw [jd_summer hy (by omega), jd_winter_own hy (by omega) (by omega)]
    simp only [daysOfMonth]
    split_ifs <;> omega
  all_goals
    rw [jd_summer hy (by omega), jd_summer hy (by omega)]
    simp only [daysOfMonth]
    omega

lemma jd_nextDay {c : CalSystem} {d : Ymd} (hd : Numbered c d) :
    c.jd (nextDay c d) = c.jd d + 1 := by
  obtain ⟨y, m, day⟩ := d
  obtain ⟨⟨⟨hm, hm'⟩, hday, hday'⟩, hy⟩ := hd
  replace hy := (firstYear_le c).trans hy
  dsimp only at hm hm' hday hday' hy
  unfold nextDay
  dsimp only
  split_ifs with h h12
  · rw [jd_day hy hm _ day, add_sub_cancel_left]
  · obtain rfl : day = daysOfMonth c.leapYear m y := by omega
    exact jd_nextMonth hy hm h12
  · obtain rfl : m = 12 := by omega
    obtain rfl : day = 31 := le_antisymm hday' (not_lt.mp h)
    rw [jd_summer hy (by omega), jd_winter (by omega) le_rfl (by omega), add_sub_cancel_right]
    omega

lemma adjust_dayNumber {c : CalSystem} {d : Ymd} (hd : Numbered c d) :
    c.adjustDateFromMjd (dayNumber c d) = d := by
  have hj := fieldsOf_jd hd.1 ((firstYear_le c).trans hd.2)
  cases c
  · exact (gregorian_adjust_jd hd.1 hd.2).trans hj
  · simp only [CalSystem.adjustDateFromMjd, dayNumber, Julian.adjustDateFromMjd_eq, sub_add_cancel]
    exact hj

/-- **The day number is a coordinate**: in both calendars the closed formulas count the days of
the calendar, and the formula back inverts the count. -/
theorem isCoordinate (c : CalSystem) :
    IsCoordinate (Numbered c) (nextDay c) (dayNumber c) c.adjustDateFromMjd where
  next_mem := by
    rintro d ⟨hd, hy⟩
    refine ⟨valid_nextDay hd, hy.trans ?_⟩
    unfold nextDay
    split_ifs <;> dsimp only <;> omega
  num_next hd := by
    unfold dayNumber
    rw [jd_nextDay hd]; ring
  den_num := adjust_dayNumber

/-! ### The order of the dates -/

/-- The fields of `d`, the year first, are not after those of `e`. -/
def NotAfter (d e : Ymd) : Prop :=
  d.currYear < e.currYear ∨ d.currYear = e.currYear ∧
    (d.currMonth < e.currMonth ∨ d.currMonth = e.currMonth ∧ d.currDay ≤ e.currDay)

lemma Counted.notAfter_iff {c : CalSystem} {d e : Ymd} {E E' x x' : ℤ} (hd : Counted c d E x)
    (he : Counted c e E' x') :
    NotAfter d e ↔ marchYear d < marchYear e ∨ marchYear d = marchYear e ∧ x ≤ x' := by
  obtain ⟨-, hlo, hhi, hmonth, hyear_eq, hmonth_eq, hday_eq⟩ := hd
  obtain ⟨-, hlo', hhi', hmonth', hyear_eq', hmonth_eq', hday_eq'⟩ := he
  have h488 : x ≤ 488 := by omega
  have h488' : x' ≤ 488 := by omega
  clear hhi hhi'
  unfold NotAfter
  rw [hyear_eq, hmonth_eq, hday_eq, hyear_eq', hmonth_eq', hday_eq']
  rcases lt_trichotomy E E' with h | rfl | h
  · omega
  · omega
  · omega

lemma yearStart_le {c : CalSystem} {Y Y' : ℤ} (h : Y ≤ Y') : yearStart c Y ≤ yearStart c Y' := by
  cases c <;> simp only [yearStart] <;> omega

lemma Counted.jd_eq {c : CalSystem} {d : Ymd} {E x : ℤ} (h : Counted c d E x)
    (hd : Numbered c d) : c.jd d = yearStart c (marchYear d) + x - 122 := by
  have hjd := h.jd
  cases c
  · have hg := gregorian_jd ((firstYear_le _).trans hd.2) hd.1.1.1
    simp only [CalSystem.jd, yearStart]
    omega
  · simp only [CalSystem.jd, yearStart]
    omega

/-- A year has ended, also with its leap day, when the next one begins. -/
lemma Counted.jd_lt {c : CalSystem} {d e : Ymd} {E E' x x' : ℤ} (hd : Counted c d E x)
    (he : Counted c e E' x') (h : marchYear d < marchYear e) :
    yearStart c (marchYear d) + x < yearStart c (marchYear e) + x' := by
  have hstart := yearStart_le (c := c) (Int.add_one_le_iff.mpr h)
  have hlo := he.lo
  rw [yearStart_succ] at hstart
  obtain hx | ⟨hx, hleap⟩ := hd.hi
  · split_ifs at hstart <;> omega
  · rw [if_pos hleap] at hstart
    omega

/-- **Day numbers are in the order of the fields.** -/
theorem notAfter_iff {c : CalSystem} {d e : Ymd} (hd : Numbered c d) (he : Numbered c e) :
    NotAfter d e ↔ dayNumber c d ≤ dayNumber c e := by
  obtain ⟨E, x, hx⟩ := exists_counted hd.1 ((firstYear_le c).trans hd.2)
  obtain ⟨E', x', hx'⟩ := exists_counted he.1 ((firstYear_le c).trans he.2)
  rw [hx.notAfter_iff hx', dayNumber, dayNumber, hx.jd_eq hd, hx'.jd_eq he]
  rcases lt_trichotomy (marchYear d) (marchYear e) with h | h | h
  · have := hx.jd_lt hx' h
    omega
  · rw [h]
    omega
  · have := hx'.jd_lt hx h
    omega

/-! ### From the epoch on -/

def epoch : CalSystem → Ymd
  | .gregorian => ⟨1858, 11, 17⟩
  | .julian => ⟨1858, 11, 5⟩

lemma numbered_epoch (c : CalSystem) : Numbered c (epoch c) := by
  unfold Numbered Valid
  cases c <;> decide

@[simp] lemma dayNumber_epoch (c : CalSystem) : dayNumber c (epoch c) = 0 := by cases c <;> rfl

/-- `mod_julian_day` is the day number from the epoch on, and one too large before it. -/
lemma modJulianDay_eq (c : CalSystem) (d : Ymd) :
    c.modJulianDay d = if 0 ≤ dayNumber c d then dayNumber c d else dayNumber c d + 1 := by
  rw [CalSystem.modJulianDay_eq]
  unfold dayNumber
  split_ifs <;> omega

/-- **Closed-form arithmetic agrees with the calendar**: the day `n` is the one reached from
the epoch in `n` single days, and `n` is its day number. -/
theorem adjustDateFromMjd_eq_iterate (c : CalSystem) (n : ℕ) :
    c.adjustDateFromMjd n = (nextDay c)^[n] (epoch c) ∧
      c.modJulianDay ((nextDay c)^[n] (epoch c)) = n := by
  have hden := (isCoordinate c).den_add (numbered_epoch c) n
  have hnum := (isCoordinate c).num_iterate (numbered_epoch c) n
  rw [dayNumber_epoch, zero_add] at hden hnum
  refine ⟨hden, ?_⟩
  rw [modJulianDay_eq, hnum, if_pos (Int.natCast_nonneg n)]

/-! ### Every accepted date -/

/-- The dates the constructors accept, those of the Julian calendar from the year 1 on. -/
def Accepted (c : CalSystem) (d : Ymd) : Prop :=
  c.isValidDate d.currYear d.currMonth d.currDay = .ok true ∧ (c = .julian → 1 ≤ d.currYear)

/-- The year, the month and the day are not before those of the epoch. -/
def FromEpoch (c : CalSystem) (d : Ymd) : Prop := NotAfter (epoch c) d

lemma valid_of_isValidDate {c : CalSystem} {d : Ymd} {b : Bool}
    (h : c.isValidDate d.currYear d.currMonth d.currDay = .ok b) : Valid c d := by
  cases c
  · simp only [CalSystem.isValidDate, Gregorian.isValidDate] at h
    split_ifs at h with hm hd
    exact ⟨⟨by omega, by omega⟩, by omega, by simp only [CalSystem.leapYear]; omega⟩
  · simp only [CalSystem.isValidDate, Julian.isValidDate] at h
    split_ifs at h with hm hd
    exact ⟨⟨by omega, by omega⟩, by omega, by simp only [CalSystem.leapYear]; omega⟩

def minYear : CalSystem → ℤ
  | .gregorian => 1858
  | .julian => 1

lemma Accepted.minYear_le {c : CalSystem} {d : Ymd} (h : Accepted c d) :
    minYear c ≤ d.currYear := by
  cases c
  · have := h.1
    simp only [CalSystem.isValidDate, Gregorian.isValidDate] at this
    split_ifs at this
    simp only [minYear]
    omega
  · exact h.2 rfl

lemma Accepted.numbered {c : CalSystem} {d : Ymd} (h : Accepted c d) : Numbered c d := by
  refine ⟨valid_of_isValidDate h.1, le_trans ?_ h.minYear_le⟩
  cases c <;> decide

lemma daysOfMonth_le_31 (leapYear : ℤ → Bool) (m y : ℤ) : daysOfMonth leapYear m y ≤ 31 := by
  unfold daysOfMonth
  split
  case h_2 => split_ifs <;> decide
  all_goals decide

lemma daysOfMonth_of_ne {leapYear : ℤ → Bool} {m : ℤ} (hm : m ≠ 2) (y y' : ℤ) :
    daysOfMonth leapYear m y = daysOfMonth leapYear m y' := by
  unfold daysOfMonth
  split
  case h_2 => exact absurd rfl hm
  all_goals rfl

lemma fromEpoch_iff {c : CalSystem} {d : Ymd} (hd : Numbered c d) :
    FromEpoch c d ↔ 0 ≤ dayNumber c d := by
  rw [FromEpoch, notAfter_iff (numbered_epoch c) hd, dayNumber_epoch]

lemma FromEpoch.year_le {c : CalSystem} {d : Ymd} (h : FromEpoch c d) : 1858 ≤ d.currYear := by
  unfold FromEpoch NotAfter at h
  cases c <;> simp only [epoch] at h <;> omega

lemma FromEpoch.minYear_le {c : CalSystem} {d : Ymd} (h : FromEpoch c d) :
    minYear c ≤ d.currYear := by
  refine le_trans ?_ h.year_le
  cases c <;> decide

lemma FromEpoch.numbered {c : CalSystem} {d : Ymd} (h : FromEpoch c d) (hd : Valid c d) :
    Numbered c d := by
  refine ⟨hd, le_trans ?_ h.year_le⟩
  cases c <;> decide

lemma FromEpoch.modJulianDay_eq {c : CalSystem} {d : Ymd} (h : FromEpoch c d) (hd : Valid c d) :
    c.modJulianDay d = dayNumber c d ∧ 0 ≤ dayNumber c d := by
  have hnum := (fromEpoch_iff (h.numbered hd)).mp h
  exact ⟨by rw [DayNumber.modJulianDay_eq, if_pos hnum], hnum⟩

lemma year_fieldsOf_le (A : ℤ) : (fieldsOf A 0).currYear ≤ (20 * A + 28038) / 7305 - 4714 := by
  have hC : (20 * (A + 1524) - 2442).tdiv 7305 ≤ (20 * A + 28038) / 7305 + 1 := by
    by_cases h : 0 ≤ 20 * (A + 1524) - 2442
    · rw [tdiv_of_nonneg _ h]; omega
    · rw [tdiv_of_neg _ (by omega)]; omega
  rw [fieldsOf_zero]
  dsimp only
  omega

/-- Before the years of exact day numbers there is no accepted date to find. -/
lemma year_adjust_lt {c : CalSystem} {k : ℤ} (hk : k < dayNumber c ⟨firstYear c, 1, 1⟩) :
    (c.adjustDateFromMjd k).currYear < minYear c := by
  cases c
  · replace hk : k < 1867523 - 2400001 := hk
    simp only [CalSystem.adjustDateFromMjd, Gregorian.adjustDateFromMjd_eq, minYear]
    refine (year_fieldsOf_le _).trans_lt ?_
    have hW : (4 * (k + 2400001) - 7468865).tdiv 146097 ≤ 0 := by
      by_cases h : 0 ≤ 4 * (k + 2400001) - 7468865
      · rw [tdiv_of_nonneg _ h]; omega
      · rw [tdiv_of_neg _ (by omega)]; omega
    generalize (4 * (k + 2400001) - 7468865).tdiv 146097 = W at hW
    have hX : W ≤ W.tdiv 4 := by
      rw [show W = -(-W) by ring, Int.neg_tdiv, tdiv_of_nonneg _ (by omega)]; omega
    omega
  · replace hk : k < -2400001 := hk
    simp only [CalSystem.adjustDateFromMjd, Julian.adjustDateFromMjd_eq, minYear]
    refine (year_fieldsOf_le _).trans_lt ?_
    omega

lemma numbered_first (c : CalSystem) : Numbered c ⟨firstYear c, 1, 1⟩ := by
  unfold Numbered Valid
  cases c <;> decide

/-- An accepted date has the number it was found by. -/
lemma dayNumber_adjust {c : CalSystem} {k : ℤ} (h : Accepted c (c.adjustDateFromMjd k)) :
    dayNumber c (c.adjustDateFromMjd k) = k := by
  by_cases hk : dayNumber c ⟨firstYear c, 1, 1⟩ ≤ k
  · exact ((isCoordinate c).num_den (numbered_first c) hk).2
  · exact absurd h.minYear_le (not_le.mpr (year_adjust_lt (not_le.mp hk)))

def eve : CalSystem → Ymd
  | .gregorian => ⟨1858, 11, 16⟩
  | .julian => ⟨1858, 11, 4⟩

lemma numbered_eve (c : CalSystem) : Numbered c (eve c) := by
  unfold Numbered Valid
  cases c <;> decide

@[simp] lemma dayNumber_eve (c : CalSystem) : dayNumber c (eve c) = -1 := by cases c <;> rfl

lemma adjust_add_ne {c : CalSystem} {d : Ymd} (hd : Numbered c d) {n : ℕ} (hn : 0 < n) :
    c.adjustDateFromMjd (dayNumber c d + n) ≠ d := by
  intro h
  have := ((isCoordinate c).num_den hd (k := dayNumber c d + n) (by omega)).2
  rw [h] at this
  omega

lemma roundTrip_iff {c : CalSystem} {d : Ymd} (hd : Numbered c d) :
    c.adjustDateFromMjd (c.modJulianDay d) = d ↔ 0 ≤ dayNumber c d := by
  rw [modJulianDay_eq]
  split_ifs with h
  · exact iff_of_true (adjust_dayNumber hd) h
  · exact iff_of_false (adjust_add_ne hd Nat.one_pos) h

lemma eq_imp_iff {c : CalSystem} {d e : Ymd} (hd : Numbered c d) (he : Numbered c e) :
    (Date.eq c d e = true → d = e) ↔
      ¬(d = epoch c ∧ e = eve c) ∧ ¬(d = eve c ∧ e = epoch c) := by
  have hinj {a b : Ymd} := @IsCoordinate.num_inj _ _ _ _ _ a b (isCoordinate c)
  have hne : epoch c ≠ eve c := fun h => by
    have := congrArg (dayNumber c) h
    simp at this
  simp only [Date.eq, beq_iff_eq, modJulianDay_eq]
  constructor
  · rintro h
    refine ⟨?_, ?_⟩
    · rintro ⟨rfl, rfl⟩
      exact hne (h (by simp))
    · rintro ⟨rfl, rfl⟩
      exact hne.symm (h (by simp))
  · rintro ⟨h1, h2⟩ h
    split_ifs at h with hd0 he0 he0
    · -- both from the epoch on
      exact hinj hd he h
    · -- on the two sides of the epoch only the epoch and its eve agree
      exact absurd ⟨hinj hd (numbered_epoch c) (by rw [dayNumber_epoch]; omega),
        hinj he (numbered_eve c) (by rw [dayNumber_eve]; omega)⟩ h1
    · exact absurd ⟨hinj hd (numbered_eve c) (by rw [dayNumber_eve]; omega),
        hinj he (numbered_epoch c) (by rw [dayNumber_epoch]; omega)⟩ h2
    · -- both before it
      exact hinj hd he (by omega)

lemma addSub_iff {c : CalSystem} {d : Ymd} {n : ℤ} (hd : Numbered c d)
    (hn : Accepted c (Date.addDays c d n)) :
    Date.subDays c (Date.addDays c d n) n = d ↔
      0 ≤ dayNumber c d ∧ 0 ≤ c.modJulianDay d + n := by
  have hnum : dayNumber c (Date.addDays c d n) = c.modJulianDay d + n := dayNumber_adjust hn
  unfold Date.subDays
  rw [modJulianDay_eq c (Date.addDays c d n), hnum]
  split_ifs with h
  · rw [add_sub_cancel_right, roundTrip_iff hd]
    exact (and_iff_left h).symm
  · refine iff_of_false ?_ fun hc => h hc.2
    rw [modJulianDay_eq]
    split_ifs
    · rw [show dayNumber c d + n + 1 - n = dayNumber c d + (1 : ℕ) by push_cast; ring]
      exact adjust_add_ne hd Nat.one_pos
    · rw [show dayNumber c d + 1 + n + 1 - n = dayNumber c d + (2 : ℕ) by push_cast; ring]
      exact adjust_add_ne hd Nat.two_pos

end Zinzhi.DayNumber
