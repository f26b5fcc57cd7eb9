import Zinzhi.Trunc
import Mathlib.Tactic.NormNum
import Mathlib.Tactic.Ring

/-!
The dates of the `lab2` library: a year, a month and a day, read either as a `Gregorian` or as a
`Julian` date.

`Date` is the common base of the two classes. Its operators go through the modified Julian day
number, so they are the same for both, with `mod_julian_day` and `adjust_date_from_mjd` the two
virtual functions that tell the calendars apart. `int` is unbounded here, and `DateInt` says up
to which dates that makes no difference. A `double` is an exact rational, and a conversion to
`int` drops the fraction.
-/

namespace Zinzhi.Dates

open Zinzhi.Trunc

@[ext] structure Ymd where
  currYear : ℤ
  currMonth : ℤ
  currDay : ℤ
deriving DecidableEq, Repr

/-- `days_of_month`, which the two classes share up to their `leap_year`. -/
def daysOfMonth (leapYear : ℤ → Bool) (month year : ℤ) : ℤ :=
  match month with
  | 1 => 31
  | 2 => if leapYear year then 29 else 28
  | 3 => 31
  | 4 => 30
  | 5 => 31
  | 6 => 30
  | 7 => 31
  | 8 => 31
  | 9 => 30
  | 10 => 31
  | 11 => 30
  | 12 => 31
  | _ => 0

/-- The end of `adjust_date_from_mjd`, where the two classes agree: the fields from the day
number `A` of the Julian calendar. -/
def fieldsOf (A : ℤ) (dayFrac : ℚ) : Ymd :=
  let B := A + 1524
  let C := toInt ((B - 122.1) / 365.25)
  let D := toInt (365.25 * C)
  let E := toInt ((B - D : ℤ) / 30.6001)
  let currDay := toInt ((B - D - toInt (30.6001 * E) : ℤ) + dayFrac)
  let currMonth := if E < 14 then E - 1 else E - 13
  ⟨if currMonth > 2 then C - 4716 else C - 4715, currMonth, currDay⟩

namespace Gregorian

def leapYear (year : ℤ) : Bool := year % 4 == 0 && (year % 100 != 0 || year % 400 == 0)

def isValidDate (year month day : ℤ) : Except String Bool :=
  if month < 1 ∨ month > 12 then .error "Month out of range"
  else if day < 1 ∨ day > daysOfMonth leapYear month year then .error "Day out of range"
  else if year < 1858 ∨ year > 2558 then .error "Year out of range"
  else .ok true

def adjustDateFromMjd (mjd : ℤ) : Ymd :=
  let Q : ℚ := mjd + 2400000.5 + 0.5
  let Z : ℚ := toInt Q
  let dayFrac := Q - Z
  let W := toInt ((Z - 1867216.25) / 36524.25)
  let X : ℚ := W.tdiv 4
  let A := toInt (Z + 1 + W - X)
  fieldsOf A dayFrac

/-- The Julian day number `jd` on the way to `mod_julian_day`. -/
def jd (date : Ymd) : ℤ :=
  let y := date.currYear + 8000
  let m := date.currMonth
  let d := date.currDay
  let (y, m) := if m < 3 then (y - 1, m + 12) else (y, m)
  y * 365 + y.tdiv 4 - y.tdiv 100 + y.tdiv 400 - 1200820 + (m * 153 + 3).tdiv 5 - 92 + d - 1

end Gregorian

namespace Julian

def leapYear (year : ℤ) : Bool := year % 4 == 0

def isValidDate (year month day : ℤ) : Except String Bool :=
  if month < 1 ∨ month > 12 then .error "Month out of range"
  else if day < 1 ∨ day > daysOfMonth leapYear month year then .error "Day out of range"
  else .ok true

def adjustDateFromMjd (mjd : ℤ) : Ymd :=
  let Q : ℚ := mjd + 2400000.5 + 0.5
  let Z : ℚ := toInt Q
  let dayFrac := Q - Z
  let A := toInt Z
  fieldsOf A dayFrac

/-- The Julian day number `jd` on the way to `mod_julian_day`. -/
def jd (date : Ymd) : ℤ :=
  let y := date.currYear
  let m := date.currMonth
  let d := date.currDay
  let (y, m) := if m < 3 then (y - 1, m + 12) else (y, m)
  let y := y + 4800
  let m := m - 3
  y * 365 + y.tdiv 4 + 30 * m + (m * 3 + 2).tdiv 5 + d - 32083

end Julian

/-- The two classes derived from `Date`. -/
inductive CalSystem where
  | gregorian
  | julian
deriving DecidableEq, Repr

namespace CalSystem

def leapYear : CalSystem → ℤ → Bool
  | gregorian => Gregorian.leapYear
  | julian => Julian.leapYear

def isValidDate : CalSystem → ℤ → ℤ → ℤ → Except String Bool
  | gregorian => Gregorian.isValidDate
  | julian => Julian.isValidDate

def adjustDateFromMjd : CalSystem → ℤ → Ymd
  | gregorian => Gregorian.adjustDateFromMjd
  | julian => Julian.adjustDateFromMjd

def jd : CalSystem → Ymd → ℤ
  | gregorian => Gregorian.jd
  | julian => Julian.jd

def modJulianDay (c : CalSystem) (date : Ymd) : ℤ := toInt (c.jd date - 2400000.5)

/-- The constructor from a year, a month and a day. -/
def ofYmd (c : CalSystem) (year month day : ℤ) : Except String Ymd := do
  let _ ← c.isValidDate year month day
  return ⟨year, month, day⟩

end CalSystem

/-! ### Operators of `Date` -/

namespace Date

/-- `operator==` -/
def eq (c : CalSystem) (a b : Ymd) : Bool := c.modJulianDay a == c.modJulianDay b

/-- `operator+=` -/
def addDays (c : CalSystem) (a : Ymd) (n : ℤ) : Ymd := c.adjustDateFromMjd (c.modJulianDay a + n)

/-- `operator-=` -/
def subDays (c : CalSystem) (a : Ymd) (n : ℤ) : Ymd := c.adjustDateFromMjd (c.modJulianDay a - n)

end Date

/-! ### The rationals evaluated -/

lemma toInt_date (k : ℤ) : toInt ((k : ℚ) + 2400000.5 + 0.5) = k + 2400001 := by
  have h : (k : ℚ) + 2400000.5 + 0.5 = ((k + 2400001 : ℤ) : ℚ) := by push_cast; norm_num; ring
  rw [h, toInt_intCast]

/-- `dayFrac` is always zero. -/
lemma dayFrac_eq (k : ℤ) : (k : ℚ) + 2400000.5 + 0.5 - ((k + 2400001 : ℤ) : ℚ) = 0 := by
  push_cast; norm_num; ring

lemma toInt_years (B : ℤ) : toInt ((B - 122.1) / 365.25) = (20 * B - 2442).tdiv 7305 :=
  toInt_of_mul_eq _ (b := 7305) (by omega) (by push_cast; ring)

lemma toInt_yearDays (C : ℤ) : toInt (365.25 * C) = (1461 * C).tdiv 4 :=
  toInt_of_mul_eq _ (b := 4) (by omega) (by push_cast; ring)

lemma toInt_months (x : ℤ) : toInt ((x : ℚ) / 30.6001) = (10000 * x).tdiv 306001 :=
  toInt_of_mul_eq _ (b := 306001) (by omega) (by push_cast; ring)

lemma toInt_monthDays (E : ℤ) : toInt (30.6001 * E) = (306001 * E).tdiv 10000 :=
  toInt_of_mul_eq _ (b := 10000) (by omega) (by push_cast; ring)

lemma toInt_centuries (Z : ℤ) :
    toInt (((Z : ℚ) - 1867216.25) / 36524.25) = (4 * Z - 7468865).tdiv 146097 :=
  toInt_of_mul_eq _ (b := 146097) (by omega) (by push_cast; ring)

lemma toInt_sum (Z W X : ℤ) : toInt ((Z : ℚ) + 1 + W - X) = Z + 1 + W - X := by
  rw [← toInt_intCast (Z + 1 + W - X)]; push_cast; rfl

/-- `fieldsOf` in integer arithmetic. -/
lemma fieldsOf_zero (A : ℤ) :
    fieldsOf A 0 =
      let B := A + 1524
      let C := (20 * B - 2442).tdiv 7305
      let D := (1461 * C).tdiv 4
      let E := (10000 * (B - D)).tdiv 306001
      let currMonth := if E < 14 then E - 1 else E - 13
      ⟨if currMonth > 2 then C - 4716 else C - 4715, currMonth,
        B - D - (306001 * E).tdiv 10000⟩ := by
  simp only [fieldsOf, toInt_years, toInt_yearDays, toInt_months, toInt_monthDays, add_zero,
    toInt_intCast]

lemma Julian.adjustDateFromMjd_eq (k : ℤ) :
    Julian.adjustDateFromMjd k = fieldsOf (k + 2400001) 0 := by
  simp only [Julian.adjustDateFromMjd, toInt_date, toInt_intCast, dayFrac_eq]

lemma Gregorian.adjustDateFromMjd_eq (k : ℤ) :
    Gregorian.adjustDateFromMjd k =
      let Z := k + 2400001
      let W := (4 * Z - 7468865).tdiv 146097
      fieldsOf (Z + 1 + W - W.tdiv 4) 0 := by
  simp only [Gregorian.adjustDateFromMjd, toInt_date, dayFrac_eq, toInt_centuries, toInt_sum]

/-- The conversion of `jd-2400000.5` to `int` rounds down from the epoch on and up before it. -/
lemma CalSystem.modJulianDay_eq (c : CalSystem) (date : Ymd) :
    c.modJulianDay date =
      if 2400001 ≤ c.jd date then c.jd date - 2400001 else c.jd date - 2400000 := by
  have h : c.modJulianDay date = (2 * c.jd date - 4800001).tdiv 2 :=
    toInt_of_mul_eq _ (b := 2) (by omega) (by push_cast; norm_num; ring)
  rw [h]
  split_ifs with hd
  · rw [tdiv_of_nonneg _ (by omega)]; omega
  · rw [tdiv_of_neg _ (by omega)]; omega

end Zinzhi.Dates
