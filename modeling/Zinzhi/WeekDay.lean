import Zinzhi.DateMutators

/-!
The day of the week, which both classes look up in tables of offsets, without the day number.
-/

namespace Zinzhi.WeekDay

open Zinzhi.Trunc Zinzhi.Dates Zinzhi.DayNumber Zinzhi.DateMutators

/-! ### The tables -/

/-- The array of both functions, which has no meaning for the month 0. -/
def monthTableOffset (month : ℤ) : ℤ :=
  match month with
  | 0 => -1
  | 1 => 0
  | 2 => 3
  | 3 => 3
  | 4 => 6
  | 5 => 1
  | 6 => 4
  | 7 => 6
  | 8 => 2
  | 9 => 5
  | 10 => 0
  | 11 => 3
  | 12 => 5
  | _ => 0

/-- `yearOffset` with its correction, which is the same in both classes. -/
def yearOffset (leapYear : ℤ → Bool) (date : Ymd) : ℤ :=
  let centuryYear := date.currYear.tmod 100
  let yearOffset := (centuryYear + centuryYear.tdiv 4).tmod 7
  if leapYear date.currYear ∧ date.currMonth < 3 then yearOffset - 1 else yearOffset

/-- `while (weekday < 1) { weekday+=7; }` -/
def addWeeks (weekday : ℤ) : ℤ :=
  if weekday < 1 then addWeeks (weekday + 7) else weekday
termination_by (1 - weekday).toNat
decreasing_by omega

def Gregorian.weekDay (date : Ymd) : ℤ :=
  let century := date.currYear.tdiv 100
  let centuryOffset := (39 - century).tmod 4 * 2
  let dayOffset := date.currDay.tmod 7
  let weekday := (centuryOffset + yearOffset Gregorian.leapYear date +
    monthTableOffset date.currMonth + dayOffset).tmod 7
  let weekday := addWeeks weekday
  if weekday = 0 then 7 else weekday

def Julian.weekDay (date : Ymd) : ℤ :=
  let century := date.currYear.tdiv 100
  let centuryOffset := 7 - (century + 3).tmod 7
  let dayOffset := date.currDay.tmod 7
  let weekday := (centuryOffset + yearOffset Julian.leapYear date +
    monthTableOffset date.currMonth + dayOffset).tmod 7
  if weekday = 0 then 7 else weekday

def weekDay : CalSystem → Ymd → ℤ
  | .gregorian => Gregorian.weekDay
  | .julian => Julian.weekDay

/-! ### The remainders -/

lemma tmod_of_nonneg {a : ℤ} (b : ℤ) (h : 0 ≤ a) : a.tmod b = a % b := by
  rw [Int.tmod_def, Int.emod_def, tdiv_of_nonneg b h]

/-- The loop ends on the first number from 1 on that is a whole number of weeks away. -/
lemma addWeeks_eq (weekday : ℤ) (h : -7 < weekday) (h' : weekday < 7) :
    addWeeks weekday = (weekday - 1) % 7 + 1 := by
  rw [addWeeks]
  split_ifs with h1
  · rw [addWeeks, if_neg (by omega)]
    omega
  · omega

/-- The months begin as the table says, up to whole weeks and to the leap day, which the months
before it do not see. -/
lemma jd_monthTableOffset {c : CalSystem} {y m day : ℤ} (hy : -4712 ≤ y) (hm : 1 ≤ m)
    (hm' : m ≤ 12) :
    (c.jd ⟨y, m, day⟩ - (yearStart c y + monthTableOffset m + day -
      if c.leapYear y ∧ m < 3 then 1 else 0)) % 7 = 4 := by
  interval_cases m
  case «1» =>
    rw [jd_winter_own hy le_rfl (by omega)]
    cases c.leapYear y <;> simp [monthTableOffset]
  case «2» =>
    rw [jd_winter_own hy (by omega) (by omega)]
    cases c.leapYear y <;> simp [monthTableOffset] <;> omega
  all_goals
    rw [jd_summer hy (by omega), if_neg (by omega)]
    simp only [monthTableOffset]
    omega

/-- The leap years of the Julian calendar up to a year, by its century and its year in it. -/
lemma quarter_eq (y : ℤ) : (y + 4800) / 4 = 25 * (y / 100) + y % 100 / 4 + 1200 := by omega

lemma gregorian_centuryOffset {y : ℤ} (hy : 0 ≤ y) (hy' : y < 4000) :
    ((39 - y.tdiv 100).tmod 4 * 2 + (y.tmod 100 + (y.tmod 100).tdiv 4).tmod 7 -
      yearStart .gregorian y) % 7 = 5 := by
  have hcenturies : y / 400 = y / 100 / 4 := by omega
  have hoffset : (39 - y / 100) % 4 = 3 - y / 100 % 4 := by omega
  rw [tdiv_of_nonneg _ hy, tmod_of_nonneg _ hy, tmod_of_nonneg _ (by omega),
    tdiv_of_nonneg _ (by omega), tmod_of_nonneg _ (by omega), yearStart, quarter_eq, hcenturies,
    hoffset]
  omega

lemma julian_centuryOffset {y : ℤ} (hy : 0 ≤ y) :
    (7 - (y.tdiv 100 + 3).tmod 7 + (y.tmod 100 + (y.tmod 100).tdiv 4).tmod 7 -
      yearStart .julian y) % 7 = 5 := by
  rw [tdiv_of_nonneg _ hy, tmod_of_nonneg _ hy, tmod_of_nonneg _ (by omega),
    tdiv_of_nonneg _ (by omega), tmod_of_nonneg _ (by omega), yearStart, quarter_eq]
  omega

/-- The number of the sum of offsets, in both classes the same remainder as the day number. -/
lemma offsets_emod {c : CalSystem} {d : Ymd} {century : ℤ} (hd : Valid c d)
    (hy : -4712 ≤ d.currYear) (hcentury : (century + (d.currYear.tmod 100 +
      (d.currYear.tmod 100).tdiv 4).tmod 7 - yearStart c d.currYear) % 7 = 5) :
    (century + yearOffset c.leapYear d + monthTableOffset d.currMonth + d.currDay.tmod 7 - 1) % 7 =
      (dayNumber c d + 2) % 7 := by
  obtain ⟨y, m, day⟩ := d
  obtain ⟨⟨hm, hm'⟩, hday, -⟩ := hd
  dsimp only at hm hm' hday hy hcentury ⊢
  have hmonth := @jd_monthTableOffset c y m day hy hm hm'
  rw [tmod_of_nonneg _ (by omega)]
  unfold yearOffset dayNumber
  dsimp only
  split_ifs at hmonth ⊢ <;> omega

lemma tmod_seven (a : ℤ) :
    -7 < a.tmod 7 ∧ a.tmod 7 < 7 ∧ (a.tmod 7 - 1) % 7 = (a - 1) % 7 := by
  rcases lt_or_ge a 0 with h | h
  · rw [Int.tmod_def, tdiv_of_neg _ h]
    omega
  · rw [tmod_of_nonneg _ h]
    omega

lemma monthTableOffset_nonneg {m : ℤ} (hm : 1 ≤ m) (hm' : m ≤ 12) : 0 ≤ monthTableOffset m := by
  interval_cases m <;> simp [monthTableOffset]

/-! ### The day of the week -/

lemma gregorian_weekDay_eq {d : Ymd} (hd : Valid .gregorian d) (hy : 0 ≤ d.currYear)
    (hy' : d.currYear < 4000) : Gregorian.weekDay d = (dayNumber .gregorian d + 2) % 7 + 1 := by
  have hoffsets := offsets_emod hd (by omega) (gregorian_centuryOffset hy hy')
  unfold Gregorian.weekDay
  dsimp only
  generalize hsum : (39 - d.currYear.tdiv 100).tmod 4 * 2 + yearOffset Gregorian.leapYear d +
    monthTableOffset d.currMonth + d.currDay.tmod 7 = sum
  simp only [CalSystem.leapYear, hsum] at hoffsets
  obtain ⟨hlo, hhi, hmod⟩ := tmod_seven sum
  rw [addWeeks_eq _ hlo hhi, hmod, hoffsets, if_neg (by omega)]

/-- Without the loop, the sum is never negative. -/
lemma julian_weekDay_eq {d : Ymd} (hd : Valid .julian d) (hy : 0 ≤ d.currYear) :
    Julian.weekDay d = (dayNumber .julian d + 2) % 7 + 1 := by
  have hoffsets := offsets_emod hd (by omega) (julian_centuryOffset hy)
  have hmonth := monthTableOffset_nonneg hd.1.1 hd.1.2
  have hyear : -1 ≤ yearOffset Julian.leapYear d := by
    unfold yearOffset
    dsimp only
    rw [tmod_of_nonneg _ hy, tdiv_of_nonneg _ (by omega), tmod_of_nonneg _ (by omega)]
    split_ifs <;> omega
  have hcentury : 1 ≤ 7 - (d.currYear.tdiv 100 + 3).tmod 7 := by
    rw [tdiv_of_nonneg _ hy, tmod_of_nonneg _ (by omega)]
    omega
  have hday : 0 ≤ d.currDay.tmod 7 := by
    rw [tmod_of_nonneg _ (zero_le_one.trans hd.2.1)]
    omega
  unfold Julian.weekDay
  dsimp only
  generalize hsum : 7 - (d.currYear.tdiv 100 + 3).tmod 7 + yearOffset Julian.leapYear d +
    monthTableOffset d.currMonth + d.currDay.tmod 7 = sum
  simp only [CalSystem.leapYear, hsum] at hoffsets
  rw [tmod_of_nonneg _ (by omega)]
  split_ifs <;> omega

lemma weekDay_eq {c : CalSystem} {d : Ymd} (hd : Valid c d) (hy : 0 ≤ d.currYear)
    (hc : c = .gregorian → d.currYear < 4000) :
    weekDay c d = (dayNumber c d + 2) % 7 + 1 := by
  cases c with
  | gregorian => exact gregorian_weekDay_eq hd hy (hc rfl)
  | julian => exact julian_weekDay_eq hd hy

lemma inc_eq_nextDay {c : CalSystem} {d : Ymd} (hd : Valid c d) (he : FromEpoch c d) :
    inc c d = nextDay c d := by
  rw [inc, (he.modJulianDay_eq hd).1, ← (isCoordinate c).num_next (he.numbered hd)]
  exact adjust_dayNumber ((isCoordinate c).next_mem (he.numbered hd))

/-- **The tables agree with the day number** from the epoch on, in the Gregorian calendar to the
last year it accepts and in the Julian one without end. So the day of the week goes from 1 to 7 and
on by one with each day. -/
theorem weekDay_agrees (c : CalSystem) (d : Ymd) (hd : Valid c d) (he : FromEpoch c d)
    (hy : c = .gregorian → d.currYear ≤ 2558) :
    weekDay c d = (c.modJulianDay d + 2) % 7 + 1 ∧
      (1 ≤ weekDay c d ∧ weekDay c d ≤ 7) ∧
      weekDay c (inc c d) = weekDay c d % 7 + 1 := by
  have hyear := he.year_le
  have heq : weekDay c d = (dayNumber c d + 2) % 7 + 1 :=
    weekDay_eq hd (by omega) fun h => by
      have := hy h
      omega
  have hnext : weekDay c (nextDay c d) = (dayNumber c (nextDay c d) + 2) % 7 + 1 := by
    have hyear' : d.currYear ≤ (nextDay c d).currYear ∧
        (nextDay c d).currYear ≤ d.currYear + 1 := by
      unfold nextDay
      split_ifs <;> dsimp only <;> omega
    refine weekDay_eq (valid_nextDay hd) (by omega) fun h => ?_
    have := hy h
    omega
  rw [(isCoordinate c).num_next (he.numbered hd)] at hnext
  rw [inc_eq_nextDay hd he, (he.modJulianDay_eq hd).1]
  omega

/-- The leap day of 2000 in both calendars. -/
theorem weekDay_agrees_leap :
    weekDay .gregorian ⟨2000, 2, 29⟩ =
        (CalSystem.modJulianDay .gregorian ⟨2000, 2, 29⟩ + 2) % 7 + 1 ∧
      weekDay .julian ⟨2000, 2, 29⟩ =
        (CalSystem.modJulianDay .julian ⟨2000, 2, 29⟩ + 2) % 7 + 1 := by
  have hvalid : ∀ c, Valid c ⟨2000, 2, 29⟩ := by
    intro c
    unfold Valid
    cases c <;> decide
  have hepoch : ∀ c, FromEpoch c ⟨2000, 2, 29⟩ := by
    intro c
    refine .inl ?_
    cases c <;> decide
  exact ⟨(weekDay_agrees .gregorian _ (hvalid _) (hepoch _) (by decide)).1,
    (weekDay_agrees .julian _ (hvalid _) (hepoch _) (by decide)).1⟩

end Zinzhi.WeekDay
