import Zinzhi.DateMutators

/-!
How far `add_month(n)` moves a date.

A month that lacks the day is given up for a step of 30 days, which may skip a month going forward
or stay in the month going back. The day is then one of the first three, which every month has, so
that this happens once at most.
-/

namespace Zinzhi.MonthShift

open Zinzhi.Trunc Zinzhi.Dates Zinzhi.DayNumber Zinzhi.DateMutators

/-- The months counted through the years. -/
def monthIndex (d : Ymd) : ℤ := 12 * d.currYear + d.currMonth

lemma eq_of_monthIndex_eq {c : CalSystem} {d e : Ymd} (hd : Valid c d) (he : Valid c e)
    (hindex : monthIndex d = monthIndex e) (hday : d.currDay = e.currDay) : d = e := by
  have hm := hd.1
  have hm' := he.1
  unfold monthIndex at hindex
  ext
  · omega
  · omega
  · exact hday

/-! ### The body of the loops -/

def nextMonth (a : Ymd) : Ymd :=
  if a.currMonth + 1 > 12 then { a with currMonth := 1, currYear := a.currYear + 1 }
  else { a with currMonth := a.currMonth + 1 }

def prevMonth (a : Ymd) : Ymd :=
  if a.currMonth - 1 < 1 then { a with currMonth := 12, currYear := a.currYear - 1 }
  else { a with currMonth := a.currMonth - 1 }

/-- Both bodies: the fields are moved by a month, unless that month lacks the day. -/
def monthStep (c : CalSystem) (moved given : Ymd → Ymd) (a : Ymd) : Ymd :=
  if (moved a).currDay > daysThisMonth c (moved a) then given a else moved a

lemma addMonth_eq (c : CalSystem) :
    addMonth c = monthStep c nextMonth fun a => Date.addDays c a 30 := rfl

lemma subMonth_eq (c : CalSystem) :
    subMonth c = monthStep c prevMonth fun a => Date.subDays c a 30 := rfl

/-- The fields are moved by `s` months. -/
structure Moves (s : ℤ) (a a' : Ymd) : Prop where
  month : 1 ≤ a'.currMonth ∧ a'.currMonth ≤ 12
  index : monthIndex a' = monthIndex a + s
  day : a'.currDay = a.currDay

lemma moves_nextMonth {a : Ymd} (ha : 1 ≤ a.currMonth ∧ a.currMonth ≤ 12) :
    Moves 1 a (nextMonth a) := by
  unfold nextMonth
  split_ifs with h
  · refine ⟨⟨le_rfl, by simp⟩, ?_, rfl⟩
    simp only [monthIndex]
    omega
  · refine ⟨⟨?_, ?_⟩, ?_, rfl⟩ <;> simp only [monthIndex] <;> omega

lemma moves_prevMonth {a : Ymd} (ha : 1 ≤ a.currMonth ∧ a.currMonth ≤ 12) :
    Moves (-1) a (prevMonth a) := by
  unfold prevMonth
  split_ifs with h
  · refine ⟨⟨by simp, le_rfl⟩, ?_, rfl⟩
    simp only [monthIndex]
    omega
  · refine ⟨⟨?_, ?_⟩, ?_, rfl⟩ <;> simp only [monthIndex] <;> omega

section Loops

variable {c : CalSystem} {s : ℤ} {moved given : Ymd → Ymd}
  (hmoves : ∀ {a : Ymd}, 1 ≤ a.currMonth ∧ a.currMonth ≤ 12 → Moves s a (moved a))

include hmoves

/-! ### Days that every month has -/

/-- A day that every month has is kept, and the months are those of the moves. -/
lemma monthStep_short {a : Ymd} (ha : Valid c a) (h28 : a.currDay ≤ 28) :
    Valid c (monthStep c moved given a) ∧ Moves s a (monthStep c moved given a) := by
  have hm := hmoves ha.1
  have hday := hm.day
  have hlong : 28 ≤ daysOfMonth c.leapYear (moved a).currMonth (moved a).currYear :=
    daysOfMonth_ge_28 hm.month.1 hm.month.2 _
  have hkept : monthStep c moved given a = moved a :=
    if_neg (by unfold daysThisMonth; omega)
  rw [hkept]
  exact ⟨⟨hm.month, ha.2.1.trans_eq hday.symm, (hday.trans_le h28).trans hlong⟩, hm⟩

lemma iterate_short {a : Ymd} (ha : Valid c a) (h28 : a.currDay ≤ 28) (k : ℕ) :
    Valid c ((monthStep c moved given)^[k] a) ∧
      Moves (k * s) a ((monthStep c moved given)^[k] a) := by
  induction k with
  | zero => exact ⟨ha, ha.1, by simp, rfl⟩
  | succ k ih =>
    obtain ⟨hvalid, hm⟩ := ih
    rw [Function.iterate_succ_apply']
    generalize (monthStep c moved given)^[k] a = b at hvalid hm
    obtain ⟨hvalid', hm'⟩ : Valid c (monthStep c moved given b) ∧ _ :=
      monthStep_short hmoves hvalid (hm.day.trans_le h28)
    refine ⟨hvalid', hm'.month, ?_, hm'.day.trans hm.day⟩
    rw [hm'.index, hm.index]
    push_cast
    ring

/-! ### Any day -/

/-- By `s` months, or by one more and then to a day that every month has. -/
def Drifts (s : ℤ) (a a' : Ymd) : Prop :=
  monthIndex a' = monthIndex a + s ∨ monthIndex a' = monthIndex a + s + 1 ∧ a'.currDay ≤ 28

omit hmoves in
lemma rounds_init {body : Ymd → Ymd} {k : ℕ} {a : Ymd} {P : Ymd → Prop}
    (h : ∀ e ∈ rounds body (k + 1) a, P e) :
    (∀ e ∈ rounds body k a, P e) ∧ P (body^[k + 1] a) := by
  simp only [rounds, List.range_succ, List.map_append, List.forall_mem_append] at h
  exact ⟨h.1, h.2 _ (List.mem_singleton_self _)⟩

/-- **One slip at most**: after it the day is one that every month has, and is kept. -/
lemma iterate_drifts
    (hvalid : ∀ {a}, Valid c a → FromEpoch c (monthStep c moved given a) →
      Valid c (monthStep c moved given a))
    (hgiven : ∀ {a}, Valid c a → (moved a).currDay > daysThisMonth c (moved a) →
      FromEpoch c (given a) → Drifts s a (given a))
    {a : Ymd} (ha : Valid c a) {k : ℕ}
    (hepoch : ∀ e ∈ rounds (monthStep c moved given) k a, FromEpoch c e) :
    Valid c ((monthStep c moved given)^[k] a) ∧
      Drifts (k * s) a ((monthStep c moved given)^[k] a) := by
  induction k with
  | zero => exact ⟨ha, .inl (by simp)⟩
  | succ k ih =>
    obtain ⟨hinit, hlast⟩ := rounds_init hepoch
    obtain ⟨hval, hdrift⟩ := ih hinit
    rw [Function.iterate_succ_apply'] at hlast ⊢
    generalize (monthStep c moved given)^[k] a = b at hval hdrift hlast
    refine ⟨hvalid hval hlast, ?_⟩
    push_cast
    rcases hdrift with hindex | ⟨hindex, h28⟩
    · -- no slip so far
      by_cases hlacks : (moved b).currDay > daysThisMonth c (moved b)
      · have hb : monthStep c moved given b = given b := if_pos hlacks
        rw [hb] at hlast ⊢
        rcases hgiven hval hlacks hlast with h | ⟨h, h28⟩
        · exact .inl (by rw [h, hindex]; ring)
        · exact .inr ⟨by rw [h, hindex]; ring, h28⟩
      · have hb : monthStep c moved given b = moved b := if_neg hlacks
        rw [hb]
        exact .inl (by rw [(hmoves hval.1).index, hindex]; ring)
    · -- after a slip the day is one that every month has
      obtain ⟨-, hm⟩ : Valid c (monthStep c moved given b) ∧ _ := monthStep_short hmoves hval h28
      exact .inr ⟨by rw [hm.index, hindex]; ring, hm.day.trans_le h28⟩

end Loops

/-! ### The step of 30 days -/

lemma dayNumber_nextMonth {c : CalSystem} {y m : ℤ} (hy : -4712 ≤ y) (hm : 1 ≤ m) (hm' : m < 12)
    (day day' : ℤ) :
    dayNumber c ⟨y, m + 1, day'⟩ =
      dayNumber c ⟨y, m, day⟩ + (daysOfMonth c.leapYear m y - day) + day' := by
  have hnext := jd_nextMonth (c := c) hy hm hm'
  rw [jd_day hy hm _ day] at hnext
  unfold dayNumber
  rw [jd_day hy (by omega) day' 1, hnext]
  omega

lemma tdiv_bounds (z : ℤ) {k : ℤ} (hk : 0 < k) :
    k * z.tdiv k - k < z ∧ z < k * z.tdiv k + k := by
  rcases lt_or_ge z 0 with h | h
  · have hle := Int.mul_ediv_self_le (x := -z) hk.ne'
    have hlt := Int.lt_mul_ediv_self_add (x := -z) hk
    rw [tdiv_of_neg _ h, mul_neg]
    omega
  · have hle := Int.mul_ediv_self_le (x := z) hk.ne'
    have hlt := Int.lt_mul_ediv_self_add (x := z) hk
    rw [tdiv_of_nonneg _ h]
    omega

/-- Before the years of exact day numbers a date is far before the epoch. -/
lemma numbered_of_modJulianDay {c : CalSystem} {d : Ymd} (hd : Valid c d)
    (h : 0 ≤ c.modJulianDay d + 30) : Numbered c d := by
  refine ⟨hd, ?_⟩
  by_contra hyear
  obtain ⟨y, m, day⟩ := d
  obtain ⟨⟨hm, hm'⟩, hday, hday'⟩ := hd
  have h31 := hday'.trans (daysOfMonth_le_31 _ m y)
  have hfar : c.jd ⟨y, m, day⟩ < 2399970 := by
    dsimp only at hm hm' h31
    cases c with
    | gregorian =>
      replace hyear : y < 401 := not_le.mp hyear
      simp only [CalSystem.jd, Gregorian.jd]
      split_ifs with h3
      all_goals
        dsimp only
        rw [tdiv_of_nonneg (a := _ * 153 + 3) _ (by omega)]
      · have := tdiv_bounds (y + 8000 - 1) (k := 4) (by omega)
        have := tdiv_bounds (y + 8000 - 1) (k := 100) (by omega)
        have := tdiv_bounds (y + 8000 - 1) (k := 400) (by omega)
        omega
      · have := tdiv_bounds (y + 8000) (k := 4) (by omega)
        have := tdiv_bounds (y + 8000) (k := 100) (by omega)
        have := tdiv_bounds (y + 8000) (k := 400) (by omega)
        omega
    | julian =>
      replace hyear : y < -4712 := not_le.mp hyear
      have := tdiv_bounds (y + 4799) (k := 4) (by omega)
      have := tdiv_bounds (y + 4800) (k := 4) (by omega)
      simp only [CalSystem.jd]
      rw [julian_jd_tdiv _ _ hm]
      split_ifs <;> omega
  rw [c.modJulianDay_eq] at h
  split_ifs at h <;> omega

lemma fromEpoch_adjust {c : CalSystem} {k : ℤ} (h : FromEpoch c (c.adjustDateFromMjd k)) :
    0 ≤ k := by
  by_cases hk : dayNumber c ⟨firstYear c, 1, 1⟩ ≤ k
  · obtain ⟨hnum, heq⟩ := (isCoordinate c).num_den (numbered_first c) hk
    rw [← heq]
    exact (fromEpoch_iff hnum).mp h
  · exact absurd h.minYear_le (not_le.mpr (year_adjust_lt (not_le.mp hk)))

/-- A month before one that lacks the day has 31 days, and two more months follow it in the year. -/
lemma long_before_short {leapYear : ℤ → Bool} {m y day : ℤ} (hm : 1 ≤ m) (hm' : m < 12)
    (hday : day ≤ daysOfMonth leapYear m y) (hlacks : daysOfMonth leapYear (m + 1) y < day) :
    daysOfMonth leapYear m y = 31 ∧ m + 2 ≤ 12 := by
  interval_cases m
  case «2» =>
    simp only [daysOfMonth, Int.reduceAdd] at hday hlacks
    split_ifs at hday <;> omega
  all_goals
    simp only [daysOfMonth, Int.reduceAdd] at hday hlacks
    first
      | exact ⟨rfl, by omega⟩
      | omega

/-- Forward: the day is counted on from the end of this month, through the next. The step may be one
day longer than 30 where the day number is not exact. -/
lemma adjust_forward {c : CalSystem} {y m day k : ℤ} (ha : Numbered c ⟨y, m, day⟩) (hm : m < 12)
    (hlacks : daysOfMonth c.leapYear (m + 1) y < day) (hk : k = 30 ∨ k = 31) :
    Drifts 1 ⟨y, m, day⟩ (c.adjustDateFromMjd (dayNumber c ⟨y, m, day⟩ + k)) := by
  obtain ⟨⟨⟨hm1, -⟩, hday, hday'⟩, hyear⟩ := ha
  dsimp only at hm1 hday hday' hyear
  have hy := (firstYear_le c).trans hyear
  obtain ⟨h31, hm10⟩ := long_before_short hm1 hm hday' hlacks
  have h28 : 28 ≤ daysOfMonth c.leapYear (m + 1) y := daysOfMonth_ge_28 (by omega) (by omega) y
  have hnext := dayNumber_nextMonth (c := c) hy hm1 hm day (day + k - 31)
  by_cases hfits : day + k - 31 ≤ daysOfMonth c.leapYear (m + 1) y
  · -- the day is one of the next month
    have hnum : Numbered c ⟨y, m + 1, day + k - 31⟩ :=
      ⟨⟨⟨by dsimp only; omega, by dsimp only; omega⟩, by dsimp only; omega, hfits⟩, hyear⟩
    have heq : dayNumber c ⟨y, m, day⟩ + k = dayNumber c ⟨y, m + 1, day + k - 31⟩ := by omega
    rw [heq, adjust_dayNumber hnum]
    refine .inl ?_
    simp only [monthIndex]
    omega
  · -- the next month is too short, and the day is early in the one after it
    have hnext' := dayNumber_nextMonth (c := c) hy (show 1 ≤ m + 1 by omega) (by omega)
      (day + k - 31) (day + k - 31 - daysOfMonth c.leapYear (m + 1) y)
    have hlong : 28 ≤ daysOfMonth c.leapYear (m + 1 + 1) y :=
      daysOfMonth_ge_28 (by omega) (by omega) y
    have hnum : Numbered c ⟨y, m + 1 + 1, day + k - 31 - daysOfMonth c.leapYear (m + 1) y⟩ :=
      ⟨⟨⟨by dsimp only; omega, by dsimp only; omega⟩, by dsimp only; omega,
        by dsimp only; omega⟩, hyear⟩
    have heq : dayNumber c ⟨y, m, day⟩ + k =
        dayNumber c ⟨y, m + 1 + 1, day + k - 31 - daysOfMonth c.leapYear (m + 1) y⟩ := by omega
    rw [heq, adjust_dayNumber hnum]
    refine .inr ⟨?_, ?_⟩
    · simp only [monthIndex]
      omega
    · dsimp only
      omega

/-- Backward: a 31st goes to the first of its month, and the other days to the month before. -/
lemma adjust_backward {c : CalSystem} {y m day : ℤ} (ha : Numbered c ⟨y, m, day⟩) (hm : 1 < m)
    (hlacks : daysOfMonth c.leapYear (m - 1) y < day) :
    Drifts (-1) ⟨y, m, day⟩ (c.adjustDateFromMjd (dayNumber c ⟨y, m, day⟩ - 30)) := by
  obtain ⟨⟨⟨-, hm12⟩, hday, hday'⟩, hyear⟩ := ha
  dsimp only at hm12 hday hday' hyear
  have hy := (firstYear_le c).trans hyear
  have h31 := hday'.trans (daysOfMonth_le_31 _ m y)
  have h28 : 28 ≤ daysOfMonth c.leapYear (m - 1) y := daysOfMonth_ge_28 (by omega) (by omega) y
  by_cases hlast : day = 31
  · have hnum : Numbered c ⟨y, m, 1⟩ :=
      ⟨⟨⟨by dsimp only; omega, hm12⟩, le_rfl, hday.trans hday'⟩, hyear⟩
    have heq : dayNumber c ⟨y, m, day⟩ - 30 = dayNumber c ⟨y, m, 1⟩ := by
      unfold dayNumber
      rw [jd_day hy (by omega) day 1]
      omega
    rw [heq, adjust_dayNumber hnum]
    refine .inr ⟨?_, by simp⟩
    simp only [monthIndex]
    omega
  · have hprev := dayNumber_nextMonth (c := c) hy (show 1 ≤ m - 1 by omega) (by omega)
      (day - 30 + daysOfMonth c.leapYear (m - 1) y) day
    rw [sub_add_cancel] at hprev
    have hnum : Numbered c ⟨y, m - 1, day - 30 + daysOfMonth c.leapYear (m - 1) y⟩ :=
      ⟨⟨⟨by dsimp only; omega, by dsimp only; omega⟩, by dsimp only; omega,
        by dsimp only; omega⟩, hyear⟩
    have heq : dayNumber c ⟨y, m, day⟩ - 30 =
        dayNumber c ⟨y, m - 1, day - 30 + daysOfMonth c.leapYear (m - 1) y⟩ := by omega
    rw [heq, adjust_dayNumber hnum]
    refine .inl ?_
    simp only [monthIndex]
    omega

lemma addDays_drifts {c : CalSystem} {a : Ymd} (ha : Valid c a)
    (hlacks : (nextMonth a).currDay > daysThisMonth c (nextMonth a))
    (hepoch : FromEpoch c (Date.addDays c a 30)) : Drifts 1 a (Date.addDays c a 30) := by
  have hnum := numbered_of_modJulianDay ha (fromEpoch_adjust hepoch)
  obtain ⟨y, m, day⟩ := a
  obtain ⟨⟨hm, hm'⟩, hday, hday'⟩ := ha
  have h31 := hday'.trans (daysOfMonth_le_31 _ m y)
  dsimp only at hm hm' h31
  unfold nextMonth daysThisMonth at hlacks
  dsimp only at hlacks
  split_ifs at hlacks with h12
  · -- January has every day
    simp only [daysOfMonth] at hlacks
    omega
  · unfold Date.addDays
    rw [DayNumber.modJulianDay_eq]
    split_ifs
    · exact adjust_forward hnum (by omega) hlacks (.inl rfl)
    · rw [add_assoc]
      exact adjust_forward hnum (by omega) hlacks (.inr rfl)

lemma subDays_drifts {c : CalSystem} {a : Ymd} (ha : Valid c a)
    (hlacks : (prevMonth a).currDay > daysThisMonth c (prevMonth a))
    (hepoch : FromEpoch c (Date.subDays c a 30)) : Drifts (-1) a (Date.subDays c a 30) := by
  have hpos := fromEpoch_adjust hepoch
  have hnum := numbered_of_modJulianDay ha (by omega)
  obtain ⟨y, m, day⟩ := a
  obtain ⟨⟨hm, hm'⟩, hday, hday'⟩ := ha
  have h31 := hday'.trans (daysOfMonth_le_31 _ m y)
  dsimp only at hm hm' h31
  unfold prevMonth daysThisMonth at hlacks
  dsimp only at hlacks
  split_ifs at hlacks with h1
  · -- December has every day
    simp only [daysOfMonth] at hlacks
    omega
  · unfold Date.subDays
    rw [DayNumber.modJulianDay_eq] at hpos ⊢
    split_ifs at hpos ⊢
    · exact adjust_backward hnum (by omega) hlacks
    · omega

/-! ### `add_month(n)` -/

lemma addMonths_short {c : CalSystem} {a : Ymd} (ha : Valid c a) (h28 : a.currDay ≤ 28) (n : ℤ) :
    Valid c (addMonths c n a) ∧ Moves n a (addMonths c n a) := by
  rw [addMonths, subMonth_eq, addMonth_eq]
  split_ifs with hn
  · have hback : ((-n).toNat : ℤ) * -1 = n := by omega
    nth_rewrite 2 [← hback]
    exact iterate_short moves_prevMonth ha h28 (-n).toNat
  · have hon : (n.toNat : ℤ) * 1 = n := by omega
    nth_rewrite 2 [← hon]
    exact iterate_short moves_nextMonth ha h28 n.toNat

lemma addMonths_drifts {c : CalSystem} {a : Ymd} {n : ℤ} (ha : Valid c a)
    (hepoch : ∀ e ∈ passed c a (.addMonths n), FromEpoch c e) :
    Drifts n a (addMonths c n a) := by
  rw [addMonths]
  dsimp only [passed] at hepoch
  rw [subMonth_eq, addMonth_eq] at hepoch ⊢
  split_ifs at hepoch ⊢ with hn
  · have h := (iterate_drifts moves_prevMonth
      (fun hv he => valid_subMonth hv he.minYear_le) subDays_drifts ha hepoch).2
    rwa [Int.toNat_of_nonneg (by omega), neg_mul_neg, mul_one] at h
  · have h := (iterate_drifts moves_nextMonth
      (fun hv he => valid_addMonth hv he.minYear_le) addDays_drifts ha hepoch).2
    rwa [Int.toNat_of_nonneg (by omega), mul_one] at h

/-- **`add_month(n)` moves by `n` months, up to one slip.** A day that every month has is kept, the
months are then exact, and the way back leads to the date again. Any other date comes out in that
month or the one after it, however large `n` is. -/
theorem addMonths_shift (c : CalSystem) (a : Ymd) (n : ℤ) (ha : Valid c a)
    (hpassed : ∀ e ∈ passed c a (.addMonths n), FromEpoch c e ∧ e.currYear < 1000000) :
    (a.currDay ≤ 28 →
      monthIndex (addMonths c n a) = monthIndex a + n ∧
        (addMonths c n a).currDay = a.currDay ∧ addMonths c (-n) (addMonths c n a) = a) ∧
      (monthIndex (addMonths c n a) = monthIndex a + n ∨
        monthIndex (addMonths c n a) = monthIndex a + n + 1) := by
  constructor
  · intro h28
    obtain ⟨hvalid, hmoves⟩ := addMonths_short ha h28 n
    obtain ⟨hvalid', hmoves'⟩ := addMonths_short hvalid (hmoves.day.trans_le h28) (-n)
    refine ⟨hmoves.index, hmoves.day, ?_⟩
    apply eq_of_monthIndex_eq hvalid' ha
    · rw [hmoves'.index, hmoves.index]
      ring
    · exact hmoves'.day.trans hmoves.day
  · rcases addMonths_drifts ha fun e he => (hpassed e he).1 with h | ⟨h, -⟩
    · exact .inl h
    · exact .inr h

/-- Two months over a new year and back, and a month from the last of January, which slips. -/
theorem addMonths_shift_january :
    addMonths .julian (-2) (addMonths .julian 2 ⟨1999, 11, 28⟩) = ⟨1999, 11, 28⟩ ∧
      (monthIndex (addMonths .gregorian 1 ⟨2000, 1, 31⟩) = monthIndex ⟨2000, 1, 31⟩ + 1 ∨
        monthIndex (addMonths .gregorian 1 ⟨2000, 1, 31⟩) = monthIndex ⟨2000, 1, 31⟩ + 1 + 1) := by
  have hshort : passed .julian ⟨1999, 11, 28⟩ (.addMonths 2) =
      [⟨1999, 12, 28⟩, ⟨2000, 1, 28⟩] := rfl
  have hslip : passed .gregorian ⟨2000, 1, 31⟩ (.addMonths 1) = [⟨2000, 3, 1⟩] := by
    have hnum : CalSystem.modJulianDay .gregorian ⟨2000, 1, 31⟩ = 51574 := by
      rw [DayNumber.modJulianDay_eq]
      rfl
    change [Date.addDays .gregorian ⟨2000, 1, 31⟩ 30] = _
    rw [Date.addDays, hnum]
    exact congrArg (fun d => [d]) (adjust_dayNumber (d := ⟨2000, 3, 1⟩)
      ⟨by unfold Valid; decide, by decide⟩)
  constructor
  · refine ((addMonths_shift .julian ⟨1999, 11, 28⟩ 2 (by unfold Valid; decide) ?_).1
      (by decide)).2.2
    rw [hshort]
    simp [FromEpoch, NotAfter, epoch]
  · refine (addMonths_shift .gregorian ⟨2000, 1, 31⟩ 1 (by unfold Valid; decide) ?_).2
    rw [hslip]
    simp [FromEpoch, NotAfter, epoch]

end Zinzhi.MonthShift
