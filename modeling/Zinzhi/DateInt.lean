import Zinzhi.DayNumber
import Zinzhi.Overflow

/-!
Day numbers in `int` arithmetic.

`Dates` reads the formulas of the two classes over all integers. Here they are as the code
computes them, where every sum and product has to fit an `int`: the number of a date then exists
up to a last date of each calendar, in the year 5871490 (`Gregorian`) and 5874689 (`Julian`), and
up to there the two readings agree. `Julian` accepts dates of every year, so the last date is
part of what the operators of `Date` need.
-/

namespace Zinzhi.DateInt

open Zinzhi.Trunc Zinzhi.Overflow Zinzhi.Dates Zinzhi.DayNumber

/-- The end of `adjust_date_from_mjd`, where the two classes agree. -/
def fieldsOf (A : ℤ) (dayFrac : ℚ) : Option Ymd := do
  let B ← int (A + 1524)
  let C ← int (toInt ((B - 122.1) / 365.25))
  let D ← int (toInt (365.25 * C))
  let x ← int (B - D)
  let E ← int (toInt (x / 30.6001))
  let start ← int (toInt (30.6001 * E))
  let day ← int (x - start)
  let currDay ← int (toInt (day + dayFrac))
  let currMonth ← int (if E < 14 then E - 1 else E - 13)
  let currYear ← int (if currMonth > 2 then C - 4716 else C - 4715)
  return ⟨currYear, currMonth, currDay⟩

namespace Gregorian

def adjustDateFromMjd (mjd : ℤ) : Option Ymd := do
  let Q : ℚ := mjd + 2400000.5 + 0.5
  let Z : ℚ := toInt Q
  let dayFrac := Q - Z
  let W ← int (toInt ((Z - 1867216.25) / 36524.25))
  let X : ℚ := W.tdiv 4
  let A ← int (toInt (Z + 1 + W - X))
  fieldsOf A dayFrac

/-- The sum `jd` of `mod_julian_day`, from left to right. -/
def jd (date : Ymd) : Option ℤ := do
  let y ← int (date.currYear + 8000)
  let y ← int (if date.currMonth < 3 then y - 1 else y)
  let m ← int (if date.currMonth < 3 then date.currMonth + 12 else date.currMonth)
  let s ← int (y * 365)
  let s ← int (s + y.tdiv 4)
  let s ← int (s - y.tdiv 100)
  let s ← int (s + y.tdiv 400)
  let s ← int (s - 1200820)
  let t ← int (m * 153)
  let t ← int (t + 3)
  let s ← int (s + t.tdiv 5)
  let s ← int (s - 92)
  let s ← int (s + date.currDay)
  int (s - 1)

end Gregorian

namespace Julian

def adjustDateFromMjd (mjd : ℤ) : Option Ymd := do
  let Q : ℚ := mjd + 2400000.5 + 0.5
  let Z : ℚ := toInt Q
  let dayFrac := Q - Z
  let A ← int (toInt Z)
  fieldsOf A dayFrac

/-- The sum `jd` of `mod_julian_day`, from left to right. -/
def jd (date : Ymd) : Option ℤ := do
  let y ← int (if date.currMonth < 3 then date.currYear - 1 else date.currYear)
  let m ← int (if date.currMonth < 3 then date.currMonth + 12 else date.currMonth)
  let y ← int (y + 4800)
  let m ← int (m - 3)
  let s ← int (y * 365)
  let s ← int (s + y.tdiv 4)
  let t ← int (30 * m)
  let s ← int (s + t)
  let t ← int (m * 3)
  let t ← int (t + 2)
  let s ← int (s + t.tdiv 5)
  let s ← int (s + date.currDay)
  int (s - 32083)

end Julian

def adjustDateFromMjd : CalSystem → ℤ → Option Ymd
  | .gregorian => Gregorian.adjustDateFromMjd
  | .julian => Julian.adjustDateFromMjd

def jd : CalSystem → Ymd → Option ℤ
  | .gregorian => Gregorian.jd
  | .julian => Julian.jd

def modJulianDay (c : CalSystem) (date : Ymd) : Option ℤ := do
  let jd ← jd c date
  int (toInt (jd - 2400000.5))

/-! ### Operators of `Date` -/

namespace Date

def eq (c : CalSystem) (a b : Ymd) : Option Bool := do
  let x ← modJulianDay c a
  let y ← modJulianDay c b
  return x == y

def addDays (c : CalSystem) (a : Ymd) (n : ℤ) : Option Ymd := do
  let mjd ← modJulianDay c a
  let mjd ← int (mjd + n)
  adjustDateFromMjd c mjd

def subDays (c : CalSystem) (a : Ymd) (n : ℤ) : Option Ymd := do
  let mjd ← modJulianDay c a
  let mjd ← int (mjd - n)
  adjustDateFromMjd c mjd

end Date

/-! ### What is computed is exact -/

lemma fieldsOf_eq_some {A : ℤ} {f : ℚ} {d : Ymd} (h : fieldsOf A f = some d) :
    Dates.fieldsOf A f = d := by
  simp only [fieldsOf, int_bind_eq_some_iff, Option.pure_def, Option.some.injEq] at h
  obtain ⟨-, -, -, -, -, -, -, -, -, -, h⟩ := h
  exact h

lemma adjustDateFromMjd_eq_some {c : CalSystem} {k : ℤ} {d : Ymd}
    (h : adjustDateFromMjd c k = some d) : c.adjustDateFromMjd k = d := by
  cases c
  · simp only [adjustDateFromMjd, Gregorian.adjustDateFromMjd, int_bind_eq_some_iff] at h
    exact fieldsOf_eq_some h.2.2
  · simp only [adjustDateFromMjd, Julian.adjustDateFromMjd, int_bind_eq_some_iff] at h
    exact fieldsOf_eq_some h.2

lemma jd_eq_some {c : CalSystem} {d : Ymd} {k : ℤ} (h : jd c d = some k) : c.jd d = k := by
  cases c
  · simp only [jd, Gregorian.jd, int_bind_eq_some_iff, int_eq_some_iff] at h
    obtain ⟨-, -, -, -, -, -, -, -, -, -, -, -, -, -, h⟩ := h
    rw [← h]
    by_cases hm : d.currMonth < 3
    · simp only [CalSystem.jd, Dates.Gregorian.jd, if_pos hm]
    · simp only [CalSystem.jd, Dates.Gregorian.jd, if_neg hm]
  · simp only [jd, Julian.jd, int_bind_eq_some_iff, int_eq_some_iff] at h
    obtain ⟨-, -, -, -, -, -, -, -, -, -, -, -, -, h⟩ := h
    rw [← h]
    by_cases hm : d.currMonth < 3
    · simp only [CalSystem.jd, Dates.Julian.jd, if_pos hm]
    · simp only [CalSystem.jd, Dates.Julian.jd, if_neg hm]

lemma modJulianDay_eq_some {c : CalSystem} {d : Ymd} {k : ℤ} (h : modJulianDay c d = some k) :
    c.modJulianDay d = k := by
  obtain ⟨j, hj, h⟩ := Option.bind_eq_some_iff.mp h
  rw [CalSystem.modJulianDay, jd_eq_some hj]
  exact (int_eq_some_iff.mp h).2

/-! ### The last date that has a number -/

/-- Every partial sum of `Julian` is at most the last one, before the subtraction. -/
lemma Julian.jd_eq_some_iff {y m day k : ℤ} (hy : 0 ≤ y) (hm : 1 ≤ m ∧ m ≤ 12)
    (hday : 1 ≤ day ∧ day ≤ 31) :
    Julian.jd ⟨y, m, day⟩ = some k ↔
      Dates.Julian.jd ⟨y, m, day⟩ + 32083 ≤ 2147483647 ∧ Dates.Julian.jd ⟨y, m, day⟩ = k := by
  rw [julian_jd (show -4712 ≤ y by omega) hm.1]
  by_cases h : m < 3
  · have h4 : (y - 1 + 4800).tdiv 4 = (y + 4799) / 4 := by
      rw [tdiv_of_nonneg _ (by omega)]; omega
    have h5 : ((m + 12 - 3) * 3 + 2).tdiv 5 = (m * 3 + 29) / 5 := by
      rw [tdiv_of_nonneg _ (by omega)]; omega
    simp only [Julian.jd, int_bind_eq_some_iff, int_eq_some_iff, Fits, if_pos h, h4, h5]
    omega
  · have h4 : (y + 4800).tdiv 4 = (y + 4800) / 4 := tdiv_of_nonneg _ (by omega)
    have h5 : ((m - 3) * 3 + 2).tdiv 5 = (m * 3 - 7) / 5 := by
      rw [tdiv_of_nonneg _ (by omega)]; omega
    simp only [Julian.jd, int_bind_eq_some_iff, int_eq_some_iff, Fits, if_neg h, h4, h5]
    omega

/-- The largest partial sum of `Gregorian` is the second one, which the year alone decides. -/
lemma Gregorian.jd_eq_some_iff {y m day k : ℤ} (hy : 0 ≤ y) (hm : 1 ≤ m ∧ m ≤ 12)
    (hday : 1 ≤ day ∧ day ≤ 31) :
    Gregorian.jd ⟨y, m, day⟩ = some k ↔
      marchYear ⟨y, m, day⟩ ≤ 5871489 ∧ Dates.Gregorian.jd ⟨y, m, day⟩ = k := by
  by_cases h : m < 3
  · simp only [Gregorian.jd, Dates.Gregorian.jd, marchYear, int_bind_eq_some_iff,
      int_eq_some_iff, Fits, if_pos h]
    rw [tdiv_of_nonneg _ (by omega), tdiv_of_nonneg _ (by omega), tdiv_of_nonneg _ (by omega),
      tdiv_of_nonneg _ (by omega)]
    omega
  · simp only [Gregorian.jd, Dates.Gregorian.jd, marchYear, int_bind_eq_some_iff,
      int_eq_some_iff, Fits, if_neg h]
    rw [tdiv_of_nonneg _ (by omega), tdiv_of_nonneg _ (by omega), tdiv_of_nonneg _ (by omega),
      tdiv_of_nonneg _ (by omega)]
    omega

def lastDate : CalSystem → Ymd
  | .gregorian => ⟨5871490, 2, 28⟩
  | .julian => ⟨5874689, 12, 15⟩

def InRange (c : CalSystem) (d : Ymd) : Prop := NotAfter d (lastDate c)

def lastDay : CalSystem → ℤ
  | .gregorian => 2143838804
  | .julian => 2145051563

lemma numbered_lastDate (c : CalSystem) : Numbered c (lastDate c) := by
  unfold Numbered Valid
  cases c <;> decide

lemma dayNumber_lastDate (c : CalSystem) : dayNumber c (lastDate c) = lastDay c := by
  cases c <;> rfl

lemma inRange_iff {c : CalSystem} {d : Ymd} (hd : Numbered c d) :
    InRange c d ↔ dayNumber c d ≤ lastDay c := by
  rw [InRange, notAfter_iff hd (numbered_lastDate c), dayNumber_lastDate]

/-- The last February before the largest year of `Gregorian` has 28 days. -/
lemma inRange_gregorian_iff {d : Ymd} (hd : Valid .gregorian d) :
    InRange .gregorian d ↔ marchYear d ≤ 5871489 := by
  obtain ⟨y, m, day⟩ := d
  obtain ⟨⟨hm, hm'⟩, hday, hday'⟩ := hd
  dsimp only at hm hm' hday hday'
  unfold InRange NotAfter lastDate marchYear
  dsimp only
  split_ifs with h
  · have hlen := valid_winter hday' hm h
    omega
  · omega

lemma numbered_of_minYear_le {c : CalSystem} {d : Ymd} (hd : Valid c d)
    (hy : minYear c ≤ d.currYear) : Numbered c d := by
  refine ⟨hd, le_trans ?_ hy⟩
  cases c <;> decide

lemma notAfter_first {c : CalSystem} {d : Ymd} (hd : Numbered c d) :
    NotAfter ⟨firstYear c, 1, 1⟩ d := by
  obtain ⟨⟨⟨hm, -⟩, hday, -⟩, hy⟩ := hd
  unfold NotAfter
  dsimp only
  omega

lemma jd_eq_some_iff {c : CalSystem} {d : Ymd} {k : ℤ} (hd : Valid c d)
    (hy : minYear c ≤ d.currYear) : jd c d = some k ↔ InRange c d ∧ c.jd d = k := by
  have hday := hd.2.2.trans (daysOfMonth_le_31 _ _ _)
  obtain ⟨y, m, day⟩ := d
  cases c
  · rw [inRange_gregorian_iff hd]
    exact Gregorian.jd_eq_some_iff (le_trans (by decide) hy) hd.1 ⟨hd.2.1, hday⟩
  · rw [inRange_iff (numbered_of_minYear_le hd hy), jd,
      Julian.jd_eq_some_iff (le_trans (by decide) hy) hd.1 ⟨hd.2.1, hday⟩]
    simp only [dayNumber, CalSystem.jd, lastDay]
    omega

lemma modJulianDay_eq_some_iff {c : CalSystem} {d : Ymd} {k : ℤ} (hd : Valid c d)
    (hy : minYear c ≤ d.currYear) :
    modJulianDay c d = some k ↔ InRange c d ∧ c.modJulianDay d = k := by
  constructor
  · intro h
    obtain ⟨j, hj, -⟩ := Option.bind_eq_some_iff.mp h
    exact ⟨((jd_eq_some_iff hd hy).mp hj).1, modJulianDay_eq_some h⟩
  · rintro ⟨hr, rfl⟩
    have hn := numbered_of_minYear_le hd hy
    have hlast := (inRange_iff hn).mp hr
    have hfirst := (notAfter_iff (numbered_first c) hn).mp (notAfter_first hn)
    refine Option.bind_eq_some_iff.mpr ⟨_, (jd_eq_some_iff hd hy).mpr ⟨hr, rfl⟩, ?_⟩
    refine int_of_fits ?_
    change Fits (c.modJulianDay d)
    rw [DayNumber.modJulianDay_eq]
    unfold Fits
    cases c
    · replace hfirst : -532478 ≤ dayNumber .gregorian d := hfirst
      simp only [lastDay] at hlast
      omega
    · replace hfirst : -2400001 ≤ dayNumber .julian d := hfirst
      simp only [lastDay] at hlast
      omega

/-- No intermediate value of `fieldsOf` is larger than `B`. -/
lemma fieldsOf_of_le {A : ℤ} (h0 : 0 ≤ A) (h : A + 1524 ≤ 2147483647) :
    fieldsOf A 0 = some (Dates.fieldsOf A 0) := by
  obtain ⟨B, hB⟩ : ∃ B, B = A + 1524 := ⟨_, rfl⟩
  obtain ⟨C, hC⟩ : ∃ C, C = (20 * B - 2442).tdiv 7305 := ⟨_, rfl⟩
  obtain ⟨D, hD⟩ : ∃ D, D = (1461 * C).tdiv 4 := ⟨_, rfl⟩
  obtain ⟨E, hE⟩ : ∃ E, E = (10000 * (B - D)).tdiv 306001 := ⟨_, rfl⟩
  obtain ⟨F, hF⟩ : ∃ F, F = (306001 * E).tdiv 10000 := ⟨_, rfl⟩
  rw [fieldsOf_zero]
  simp only [fieldsOf, toInt_years, toInt_yearDays, toInt_months, toInt_monthDays, add_zero,
    toInt_intCast, int_bind_eq_some_iff, ← hB, ← hC, ← hD, ← hE, ← hF]
  rw [tdiv_of_nonneg _ (by omega)] at hC
  rw [tdiv_of_nonneg _ (by omega)] at hD
  rw [tdiv_of_nonneg _ (by omega)] at hE
  rw [tdiv_of_nonneg _ (by omega)] at hF
  unfold Fits
  refine ⟨?_, ?_, ?_, ?_, ?_, ?_, ?_, ?_, ?_, ?_, rfl⟩ <;> omega

lemma adjustDateFromMjd_of_le {c : CalSystem} {k : ℤ} (h0 : 0 ≤ k) (h : k ≤ lastDay c) :
    adjustDateFromMjd c k = some (c.adjustDateFromMjd k) := by
  cases c
  · simp only [lastDay] at h
    have hW : (4 * (k + 2400001) - 7468865).tdiv 146097 = (4 * (k + 2400001) - 7468865) / 146097 :=
      tdiv_of_nonneg _ (by omega)
    have hX : ((4 * (k + 2400001) - 7468865) / 146097).tdiv 4 =
        (4 * (k + 2400001) - 7468865) / 146097 / 4 := tdiv_of_nonneg _ (by omega)
    rw [CalSystem.adjustDateFromMjd, Dates.Gregorian.adjustDateFromMjd_eq]
    simp only [adjustDateFromMjd, Gregorian.adjustDateFromMjd, toInt_date, dayFrac_eq,
      toInt_centuries, toInt_sum, int_bind_eq_some_iff, hW, hX]
    exact ⟨by unfold Fits; omega, by unfold Fits; omega, fieldsOf_of_le (by omega) (by omega)⟩
  · simp only [lastDay] at h
    rw [CalSystem.adjustDateFromMjd, Dates.Julian.adjustDateFromMjd_eq]
    simp only [adjustDateFromMjd, Julian.adjustDateFromMjd, toInt_date, toInt_intCast, dayFrac_eq,
      int_bind_eq_some_iff]
    refine ⟨by unfold Fits; omega, fieldsOf_of_le (by omega) (by omega)⟩

/-! ### Every accepted date -/

lemma accepted_modJulianDay_iff {c : CalSystem} {d : Ymd} {k : ℤ} (hd : Accepted c d) :
    modJulianDay c d = some k ↔ InRange c d ∧ c.modJulianDay d = k :=
  modJulianDay_eq_some_iff hd.numbered.1 hd.minYear_le

/-- The numbers from the epoch to the last date lead back to their dates. -/
lemma adjust_modJulianDay {c : CalSystem} {d : Ymd} (hd : Numbered c d) (he : FromEpoch c d)
    (hr : InRange c d) : adjustDateFromMjd c (c.modJulianDay d) = some d := by
  obtain ⟨hmjd, h0⟩ := he.modJulianDay_eq hd.1
  rw [hmjd, adjustDateFromMjd_of_le h0 ((inRange_iff hd).mp hr), adjust_dayNumber hd]

lemma roundTrip_eq_some_iff {c : CalSystem} {d : Ymd} (hd : Accepted c d) :
    (do adjustDateFromMjd c (← modJulianDay c d)) = some d ↔ FromEpoch c d ∧ InRange c d := by
  constructor
  · intro h
    obtain ⟨k, hk, h⟩ := Option.bind_eq_some_iff.mp h
    obtain ⟨hr, rfl⟩ := (accepted_modJulianDay_iff hd).mp hk
    refine ⟨(fromEpoch_iff hd.numbered).mpr ?_, hr⟩
    exact (roundTrip_iff hd.numbered).mp (adjustDateFromMjd_eq_some h)
  · rintro ⟨he, hr⟩
    exact Option.bind_eq_some_iff.mpr
      ⟨_, (accepted_modJulianDay_iff hd).mpr ⟨hr, rfl⟩, adjust_modJulianDay hd.numbered he hr⟩

lemma eq_eq_some_iff {c : CalSystem} {d e : Ymd} {b : Bool} (hd : Accepted c d)
    (he : Accepted c e) :
    Date.eq c d e = some b ↔ (InRange c d ∧ InRange c e) ∧ Dates.Date.eq c d e = b := by
  simp only [Date.eq, Option.bind_eq_bind, Option.bind_eq_some_iff, accepted_modJulianDay_iff hd,
    accepted_modJulianDay_iff he, Option.pure_def, Option.some.injEq, Dates.Date.eq]
  constructor
  · rintro ⟨-, ⟨hr, rfl⟩, -, ⟨hr', rfl⟩, h⟩
    exact ⟨⟨hr, hr'⟩, h⟩
  · rintro ⟨⟨hr, hr'⟩, h⟩
    exact ⟨_, ⟨hr, rfl⟩, _, ⟨hr', rfl⟩, h⟩

lemma addDays_eq_some {c : CalSystem} {d f : Ymd} {n : ℤ} (hd : Accepted c d)
    (h : Date.addDays c d n = some f) : InRange c d ∧ Dates.Date.addDays c d n = f := by
  obtain ⟨k, hk, h⟩ := Option.bind_eq_some_iff.mp h
  obtain ⟨hr, rfl⟩ := (accepted_modJulianDay_iff hd).mp hk
  exact ⟨hr, adjustDateFromMjd_eq_some (int_bind_eq_some_iff.mp h).2⟩

lemma subDays_eq_some {c : CalSystem} {d f : Ymd} {n : ℤ} (hd : Accepted c d)
    (h : Date.subDays c d n = some f) : InRange c d ∧ Dates.Date.subDays c d n = f := by
  simp only [Date.subDays, Dates.Date.subDays, sub_eq_add_neg] at h ⊢
  exact addDays_eq_some hd h

lemma fits_modJulianDay {c : CalSystem} {d : Ymd} (hd : Accepted c d) (hr : InRange c d) :
    Fits (c.modJulianDay d) := by
  obtain ⟨j, hj, h⟩ := Option.bind_eq_some_iff.mp ((accepted_modJulianDay_iff hd).mpr ⟨hr, rfl⟩)
  rw [← (int_eq_some_iff.mp h).2]
  exact (int_eq_some_iff.mp h).1

lemma addSub_eq_some_iff {c : CalSystem} {d f : Ymd} {n : ℤ} (hd : Accepted c d)
    (hf : Accepted c f) (hsum : Dates.Date.addDays c d n = f) :
    (do Date.subDays c (← Date.addDays c d n) n) = some d ↔
      (FromEpoch c d ∧ InRange c d) ∧ FromEpoch c f ∧ InRange c f := by
  have hnum : dayNumber c f = c.modJulianDay d + n := by
    subst hsum
    exact dayNumber_adjust hf
  constructor
  · intro h
    obtain ⟨f', hadd, hsub⟩ := Option.bind_eq_some_iff.mp h
    obtain ⟨hr, rfl⟩ := addDays_eq_some hd hadd
    obtain rfl := hsum
    obtain ⟨hrf, hback⟩ := subDays_eq_some hf hsub
    obtain ⟨h0, h0'⟩ := (addSub_iff hd.numbered hf).mp hback
    exact ⟨⟨(fromEpoch_iff hd.numbered).mpr h0, hr⟩,
      (fromEpoch_iff hf.numbered).mpr (h0'.trans_eq hnum.symm), hrf⟩
  · rintro ⟨⟨he, hr⟩, hef, hrf⟩
    obtain ⟨hmjd, -⟩ := hef.modJulianDay_eq hf.numbered.1
    rw [hnum] at hmjd
    have hadd : Date.addDays c d n = some f := by
      refine Option.bind_eq_some_iff.mpr ⟨_, (accepted_modJulianDay_iff hd).mpr ⟨hr, rfl⟩, ?_⟩
      refine int_bind_eq_some_iff.mpr ⟨hmjd ▸ fits_modJulianDay hf hrf, ?_⟩
      rw [← hmjd]
      exact adjust_modJulianDay hf.numbered hef hrf
    refine Option.bind_eq_some_iff.mpr ⟨f, hadd, ?_⟩
    refine Option.bind_eq_some_iff.mpr ⟨_, (accepted_modJulianDay_iff hf).mpr ⟨hrf, rfl⟩, ?_⟩
    rw [hmjd, add_sub_cancel_right]
    exact int_bind_eq_some_iff.mpr ⟨fits_modJulianDay hd hr, adjust_modJulianDay hd.numbered he hr⟩

/-- **Day numbers name accepted dates exactly from the epoch to the last date.** Before the
epoch `mod_julian_day` rounds to the next day: a date then does not come back from its day
number, the day before the epoch is equal to the epoch, and adding and subtracting `n` days
loses a day when either the date or the sum lies there. After the last date the number of a date
overflows. -/
theorem dayNumber_faithful_iff (c : CalSystem) (d e f : Ymd) (n : ℤ) (hd : Accepted c d)
    (he : Accepted c e) :
    ((do adjustDateFromMjd c (← modJulianDay c d)) = some d ↔ FromEpoch c d ∧ InRange c d) ∧
      ((∃ b, Date.eq c d e = some b ∧ (b = true → d = e)) ↔
        (InRange c d ∧ InRange c e) ∧
          ¬(d = epoch c ∧ e = eve c) ∧ ¬(d = eve c ∧ e = epoch c)) ∧
      (Dates.Date.addDays c d n = f → Accepted c f →
        ((do Date.subDays c (← Date.addDays c d n) n) = some d ↔
          (FromEpoch c d ∧ InRange c d) ∧ FromEpoch c f ∧ InRange c f)) := by
  refine ⟨roundTrip_eq_some_iff hd, ?_, fun hsum hf => addSub_eq_some_iff hd hf hsum⟩
  rw [← eq_imp_iff hd.numbered he.numbered]
  simp only [eq_eq_some_iff hd he]
  constructor
  · rintro ⟨b, ⟨hr, rfl⟩, h⟩
    exact ⟨hr, h⟩
  · rintro ⟨hr, h⟩
    exact ⟨_, ⟨hr, rfl⟩, h⟩

/-- The theorem on the leap day of 2000 and the new year after it, 307 days on. -/
theorem dayNumber_faithful_leap :
    let d : Ymd := ⟨2000, 2, 29⟩
    let e : Ymd := ⟨2001, 1, 1⟩
    (do adjustDateFromMjd .gregorian (← modJulianDay .gregorian d)) = some d ∧
      Date.eq .gregorian d e = some false ∧
      (do Date.subDays .gregorian (← Date.addDays .gregorian d 307) 307) = some d := by
  intro d e
  have hd : Accepted .gregorian d := ⟨rfl, nofun⟩
  have he : Accepted .gregorian e := ⟨rfl, nofun⟩
  have hdr : FromEpoch .gregorian d ∧ InRange .gregorian d :=
    ⟨.inl (by decide), .inl (by decide)⟩
  have her : FromEpoch .gregorian e ∧ InRange .gregorian e :=
    ⟨.inl (by decide), .inl (by decide)⟩
  have hsum : Dates.Date.addDays .gregorian d 307 = e := by
    have hnum : CalSystem.modJulianDay .gregorian d = 51603 := by
      rw [DayNumber.modJulianDay_eq]; rfl
    rw [Dates.Date.addDays, hnum]
    exact adjust_dayNumber he.numbered
  obtain ⟨h1, h2, h3⟩ := dayNumber_faithful_iff .gregorian d e e 307 hd he
  refine ⟨h1.mpr hdr, ?_, (h3 hsum he).mpr ⟨hdr, her⟩⟩
  obtain ⟨b, hb, h⟩ := h2.mpr ⟨⟨hdr.2, her.2⟩, by decide, by decide⟩
  rw [hb]
  cases b
  · rfl
  · exact absurd (h rfl) (by decide)

/-- On the eve of the epoch none of the three holds, and a date may be too late to have a
number. -/
theorem dayNumber_not_faithful :
    let d : Ymd := ⟨1858, 11, 16⟩
    let e : Ymd := ⟨1858, 11, 17⟩
    let f : Ymd := ⟨1858, 11, 22⟩
    let late : Ymd := ⟨6000000, 1, 1⟩
    Accepted .gregorian d ∧ Accepted .gregorian e ∧ d ≠ e ∧
      (do adjustDateFromMjd .gregorian (← modJulianDay .gregorian d)) = some e ∧
      Date.eq .gregorian d e = some true ∧
      Date.addDays .gregorian d 5 = some f ∧ Accepted .gregorian f ∧
      Date.subDays .gregorian f 5 = some e ∧
      Accepted .julian late ∧ modJulianDay .julian late = none := by
  intro d e f late
  have hd : Accepted .gregorian d := ⟨rfl, nofun⟩
  have he : Accepted .gregorian e := ⟨rfl, nofun⟩
  have hf : Accepted .gregorian f := ⟨rfl, nofun⟩
  have hmd : modJulianDay .gregorian d = some 0 :=
    (accepted_modJulianDay_iff hd).mpr ⟨.inl (by decide), by rw [DayNumber.modJulianDay_eq]; rfl⟩
  have hme : modJulianDay .gregorian e = some 0 :=
    (accepted_modJulianDay_iff he).mpr ⟨.inl (by decide), by rw [DayNumber.modJulianDay_eq]; rfl⟩
  have hmf : modJulianDay .gregorian f = some 5 :=
    (accepted_modJulianDay_iff hf).mpr ⟨.inl (by decide), by rw [DayNumber.modJulianDay_eq]; rfl⟩
  have hzero : adjustDateFromMjd .gregorian 0 = some e := by
    rw [adjustDateFromMjd_of_le le_rfl (by decide), ← adjust_dayNumber he.numbered]
    rfl
  have hfive : adjustDateFromMjd .gregorian 5 = some f := by
    rw [adjustDateFromMjd_of_le (by decide) (by decide), ← adjust_dayNumber hf.numbered]
    rfl
  refine ⟨hd, he, by decide, ?_, ?_, ?_, hf, ?_, ⟨rfl, fun _ => by decide⟩, by decide⟩
  · exact Option.bind_eq_some_iff.mpr ⟨_, hmd, hzero⟩
  · rw [Date.eq, hmd, hme]; rfl
  · exact Option.bind_eq_some_iff.mpr ⟨_, hmd, int_bind_eq_some_iff.mpr ⟨by decide, hfive⟩⟩
  · exact Option.bind_eq_some_iff.mpr ⟨_, hmf, int_bind_eq_some_iff.mpr ⟨by decide, hzero⟩⟩

end Zinzhi.DateInt
