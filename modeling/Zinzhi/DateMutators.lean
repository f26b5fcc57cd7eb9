import Zinzhi.DayNumber
import Zinzhi.Runs

/-!
The operations that change a date in place.

`+=`, `-=`, `++` and `--` go through the day number. `add_year` and `add_month` write the fields
themselves: a leap day that the new year does not have becomes the 28th, and a month that lacks
the day is given up for a step of 30 days. The operations are the same text in `Gregorian` and in
`Julian`, on top of virtual functions that differ.
-/

namespace Zinzhi.DateMutators

open Zinzhi.Dates Zinzhi.DayNumber Zinzhi.Runs

/-! ### The operations -/

/-- `operator++` -/
def inc (c : CalSystem) (a : Ymd) : Ymd := c.adjustDateFromMjd (c.modJulianDay a + 1)

/-- `operator--` -/
def dec (c : CalSystem) (a : Ymd) : Ymd := c.adjustDateFromMjd (c.modJulianDay a - 1)

def daysThisMonth (c : CalSystem) (a : Ymd) : ℤ := daysOfMonth c.leapYear a.currMonth a.currYear

def addYear (c : CalSystem) (n : ℤ) (a : Ymd) : Ymd :=
  let a := { a with currYear := a.currYear + n }
  if a.currMonth = 2 ∧ a.currDay = 29 ∧ !c.leapYear a.currYear then { a with currDay := 28 } else a

def addMonth (c : CalSystem) (a : Ymd) : Ymd :=
  let moved :=
    if a.currMonth + 1 > 12 then { a with currMonth := 1, currYear := a.currYear + 1 }
    else { a with currMonth := a.currMonth + 1 }
  if moved.currDay > daysThisMonth c moved then Date.addDays c a 30 else moved

def subMonth (c : CalSystem) (a : Ymd) : Ymd :=
  let moved :=
    if a.currMonth - 1 < 1 then { a with currMonth := 12, currYear := a.currYear - 1 }
    else { a with currMonth := a.currMonth - 1 }
  if moved.currDay > daysThisMonth c moved then Date.subDays c a 30 else moved

/-- `add_month(n)`. For a negative `n` the loop of `Gregorian` counts from `n` up to `0` and that
of `Julian` from `0` down to `n`, which is `-n` rounds either way. -/
def addMonths (c : CalSystem) (n : ℤ) (a : Ymd) : Ymd :=
  if n < 0 then (subMonth c)^[(-n).toNat] a else (addMonth c)^[n.toNat] a

inductive Op where
  | addYear (n : ℤ)
  | addMonths (n : ℤ)
  | addDays (n : ℤ)
  | subDays (n : ℤ)
  | inc
  | dec

def apply (c : CalSystem) (a : Ymd) : Op → Ymd
  | .addYear n => addYear c n a
  | .addMonths n => addMonths c n a
  | .addDays n => Date.addDays c a n
  | .subDays n => Date.subDays c a n
  | .inc => inc c a
  | .dec => dec c a

/-- The dates after each round of a loop that runs `k` times. -/
def rounds (body : Ymd → Ymd) (k : ℕ) (a : Ymd) : List Ymd :=
  (List.range k).map fun i => body^[i + 1] a

/-- The dates an operation passes through, its result included: for `add_month(n)` those after
each single month. -/
def passed (c : CalSystem) (a : Ymd) : Op → List Ymd
  | .addMonths n =>
    if n < 0 then rounds (subMonth c) (-n).toNat a else rounds (addMonth c) n.toNat a
  | op => [apply c a op]

def passedAll (c : CalSystem) : Ymd → List Op → List Ymd
  | _, [] => []
  | a, op :: ops => passed c a op ++ passedAll c (apply c a op) ops

/-! ### One operation -/

lemma valid_of_ofYmd {c : CalSystem} {year month day : ℤ} {a : Ymd}
    (h : c.ofYmd year month day = .ok a) : Valid c a := by
  unfold CalSystem.ofYmd at h
  rcases hv : c.isValidDate year month day with e | b
  · rw [hv] at h
    cases h
  · rw [hv] at h
    cases h
    exact valid_of_isValidDate hv

/-- A day number whose date falls in an exact year belongs to a date of the calendar. -/
lemma valid_adjust {c : CalSystem} {k : ℤ} (h : minYear c ≤ (c.adjustDateFromMjd k).currYear) :
    Valid c (c.adjustDateFromMjd k) := by
  by_cases hk : dayNumber c ⟨firstYear c, 1, 1⟩ ≤ k
  · exact ((isCoordinate c).num_den (numbered_first c) hk).1.1
  · exact absurd h (not_le.mpr (year_adjust_lt (not_le.mp hk)))

lemma valid_addYear {c : CalSystem} {a : Ymd} (ha : Valid c a) (n : ℤ) :
    Valid c (addYear c n a) := by
  obtain ⟨y, m, d⟩ := a
  obtain ⟨hm, hd, hd'⟩ := ha
  dsimp only at hm hd hd'
  simp only [addYear]
  split_ifs with h
  · -- the leap day of a year without one
    obtain ⟨rfl, rfl, -⟩ := h
    refine ⟨hm, by norm_num, ?_⟩
    dsimp only [daysOfMonth]
    split_ifs <;> norm_num
  · refine ⟨hm, hd, ?_⟩
    dsimp only at h ⊢
    by_cases hfeb : m = 2
    · subst hfeb
      simp only [daysOfMonth] at hd' ⊢
      split_ifs with hleap
      · split_ifs at hd' <;> omega
      · have h29 : d ≠ 29 := fun h29 => h ⟨rfl, h29, by simp [hleap]⟩
        split_ifs at hd' <;> omega
    · -- the other months have the same length every year
      rwa [daysOfMonth_of_ne hfeb _ y]

/-- The fields moved by a month are kept when the month has the day, and the step of 30 days
taken otherwise lands on a date of the calendar. -/
lemma valid_monthStep {c : CalSystem} {moved : Ymd} {k : ℤ} (hday : 1 ≤ moved.currDay)
    (hmonth : 1 ≤ moved.currMonth ∧ moved.currMonth ≤ 12)
    (hy : minYear c ≤ (if moved.currDay > daysThisMonth c moved then c.adjustDateFromMjd k
      else moved).currYear) :
    Valid c (if moved.currDay > daysThisMonth c moved then c.adjustDateFromMjd k else moved) := by
  split_ifs at hy ⊢ with h
  · exact valid_adjust hy
  · exact ⟨hmonth, hday, not_lt.mp h⟩

lemma valid_addMonth {c : CalSystem} {a : Ymd} (ha : Valid c a)
    (hy : minYear c ≤ (addMonth c a).currYear) : Valid c (addMonth c a) := by
  obtain ⟨⟨hm, hm'⟩, hd, -⟩ := ha
  refine valid_monthStep ?_ ?_ hy
  · split_ifs <;> exact hd
  · split_ifs <;> dsimp only <;> omega

lemma valid_subMonth {c : CalSystem} {a : Ymd} (ha : Valid c a)
    (hy : minYear c ≤ (subMonth c a).currYear) : Valid c (subMonth c a) := by
  obtain ⟨⟨hm, hm'⟩, hd, -⟩ := ha
  refine valid_monthStep ?_ ?_ hy
  · split_ifs <;> exact hd
  · split_ifs <;> dsimp only <;> omega

/-- A loop keeps a property that its body keeps wherever the date after the round is in range. -/
lemma valid_iterate {c : CalSystem} {body : Ymd → Ymd} {a : Ymd}
    (hbody : ∀ {e}, Valid c e → minYear c ≤ (body e).currYear → Valid c (body e))
    (ha : Valid c a) {k : ℕ} (hy : ∀ e ∈ rounds body k a, minYear c ≤ e.currYear) :
    Valid c (body^[k] a) := by
  induction k with
  | zero => exact ha
  | succ k ih =>
    have hmem (i : ℕ) (hi : i < k + 1) : minYear c ≤ (body^[i + 1] a).currYear :=
      hy _ (List.mem_map.mpr ⟨i, List.mem_range.mpr hi, rfl⟩)
    have hlast := hmem k (Nat.lt_succ_self k)
    rw [Function.iterate_succ_apply'] at hlast ⊢
    refine hbody (ih ?_) hlast
    intro e he
    obtain ⟨i, hi, rfl⟩ := List.mem_map.mp he
    exact hmem i ((List.mem_range.mp hi).trans (Nat.lt_succ_self k))

/-- Each operation leads from a date of the calendar to another one, as long as the dates on its
way do not leave the exact years. -/
lemma valid_apply {c : CalSystem} {a : Ymd} (ha : Valid c a) (op : Op)
    (hy : ∀ e ∈ passed c a op, minYear c ≤ e.currYear) : Valid c (apply c a op) := by
  cases op with
  | addYear n => exact valid_addYear ha n
  | addMonths n =>
    simp only [passed, apply, addMonths] at hy ⊢
    split_ifs at hy ⊢
    · exact valid_iterate valid_subMonth ha hy
    · exact valid_iterate valid_addMonth ha hy
  | addDays n => exact valid_adjust (hy _ (List.mem_singleton_self _))
  | subDays n => exact valid_adjust (hy _ (List.mem_singleton_self _))
  | inc => exact valid_adjust (hy _ (List.mem_singleton_self _))
  | dec => exact valid_adjust (hy _ (List.mem_singleton_self _))

/-! ### Any sequence of operations -/

lemma valid_run {c : CalSystem} {a : Ymd} (ha : Valid c a) {ops : List Op}
    (hy : ∀ e ∈ passedAll c a ops, minYear c ≤ e.currYear) :
    ∀ pre, pre <+: ops → Valid c (run (apply c) a pre) := by
  induction ops generalizing a with
  | nil =>
    intro pre hpre
    rw [List.prefix_nil.mp hpre]
    exact ha
  | cons op ops ih =>
    intro pre hpre
    simp only [passedAll, List.forall_mem_append] at hy
    rcases List.prefix_cons_iff.mp hpre with rfl | ⟨rest, rfl, hrest⟩
    · exact ha
    · exact ih (valid_apply ha op hy.1) hy.2 rest hrest

/-- **Dates stay valid**: from an accepted date of 1859 or later, every sequence of operations
whose dates all stay in the years 1859 to 1000000 leaves, after each of them, a month of the year
and a day of that month. -/
theorem mutators_valid (c : CalSystem) (year month day : ℤ) (a : Ymd) (ops : List Op)
    (ha : c.ofYmd year month day = .ok a)
    (hy : ∀ e ∈ passedAll c a ops, 1859 ≤ e.currYear ∧ e.currYear ≤ 1000000) :
    ∀ pre, pre <+: ops → Valid c (run (apply c) a pre) := by
  have hmin : minYear c ≤ 1859 := by cases c <;> decide
  refine valid_run (valid_of_ofYmd ha) ?_
  intro e he
  exact hmin.trans (hy e he).1

/-- From the last of January 2000 a month on, which goes by 30 days, and a year back. -/
theorem mutators_valid_january :
    Valid .gregorian (run (apply .gregorian) ⟨2000, 1, 31⟩ [.addMonths 1, .addYear (-1)]) := by
  have hmonth : addMonths .gregorian 1 ⟨2000, 1, 31⟩ = ⟨2000, 3, 1⟩ := by
    have hnum : CalSystem.modJulianDay .gregorian ⟨2000, 1, 31⟩ = 51574 := by
      rw [modJulianDay_eq]; rfl
    change Date.addDays .gregorian ⟨2000, 1, 31⟩ 30 = _
    rw [Date.addDays, hnum]
    exact adjust_dayNumber (d := ⟨2000, 3, 1⟩) ⟨by unfold Valid; decide, by decide⟩
  refine mutators_valid .gregorian 2000 1 31 ⟨2000, 1, 31⟩ [.addMonths 1, .addYear (-1)] rfl ?_ _
    (List.prefix_refl _)
  have hpassed : passedAll .gregorian ⟨2000, 1, 31⟩ [.addMonths 1, .addYear (-1)] =
      [⟨2000, 3, 1⟩, ⟨1999, 3, 1⟩] := by
    change [addMonths .gregorian 1 ⟨2000, 1, 31⟩,
      addYear .gregorian (-1) (addMonths .gregorian 1 ⟨2000, 1, 31⟩)] = _
    rw [hmonth]
    rfl
  rw [hpassed]
  simp

end Zinzhi.DateMutators
