import Zinzhi.DateMutators
import Zinzhi.EventCalendar

/-!
Whether `remove_event` takes back what `add_event` did, with the same arguments.

The overloads of `add_event` take a day, a month and a year in this order, those of `remove_event`
with two or three numbers in the opposite one.
-/

namespace Zinzhi.EventUndo

open Zinzhi.Trunc Zinzhi.Dates Zinzhi.DayNumber Zinzhi.DateMutators Zinzhi.EventCalendar

/-- The numbers of a call, in their positions. -/
inductive Args where
  | one (a : ℤ)
  | two (a b : ℤ)
  | three (a b c : ℤ)

def Args.add {C : Type*} (str : String) : Args → Op C
  | .one a => .addEventDay str a
  | .two a b => .addEventMonth str a b
  | .three a b c => .addEventYear str a b c

def Args.remove {C : Type*} (str : String) : Args → Op C
  | .one a => .removeEventDay str a
  | .two a b => .removeEventMonth str a b
  | .three a b c => .removeEventYear str a b c

/-- The numbers read the same in the opposite order. -/
def Args.Symmetric : Args → Prop
  | .one _ => True
  | .two a b => a = b
  | .three a _ c => a = c

section Calendars

variable {C : Type*} (D : DateClass C)

/-- After the event was added, removing it by the same arguments succeeds and leaves the events as
they were before both calls. -/
def Undoes (cal : Calendar C) (str : String) (args : Args) : Prop :=
  (step D (step D cal (args.add str)).1 (args.remove str)).2 = true ∧
    (step D (step D cal (args.add str)).1 (args.remove str)).1.events = cal.events

variable {D}

/-! ### Adding and removing by dates -/

lemma removeEvent_added {cal : Calendar C} {str : String} {date date' : C}
    {pre post : List (Event C)} (hevents : cal.events = pre ++ ⟨date, str⟩ :: post)
    (hfresh : Fresh D ⟨date, str⟩ (pre ++ post))
    (hsame : D.modJulianDay date' = D.modJulianDay date) :
    (cal.removeEvent D str date').2 = true ∧
      (cal.removeEvent D str date').1.events = pre ++ post := by
  have hnew : (⟨date, str⟩ : Event C).is D date' str = true :=
    Event.is_iff.mpr ⟨hsame.symm, rfl⟩
  unfold Calendar.removeEvent
  cases hfind : cal.events.find? fun event => event.is D date' str with
  | none =>
    have hmem : (⟨date, str⟩ : Event C) ∈ cal.events := by simp [hevents]
    exact absurd hnew (List.find?_eq_none.mp hfind _ hmem)
  | some f =>
    have hfound := List.find?_some hfind
    obtain ⟨hf, hfstr⟩ := Event.is_iff.mp hfound
    refine ⟨rfl, ?_⟩
    -- what equals the event that was found equals the new one
    have heq : ∀ e : Event C, e.eq D f = e.is D date str := by
      intro e
      rw [Bool.eq_iff_iff, Event.eq, Event.is_iff, Event.is_iff, hf, hfstr, hsame]
      constructor <;> rintro ⟨h, h'⟩ <;> exact ⟨h.symm, h'.symm⟩
    have hkeep : ∀ l : List (Event C), (∀ e ∈ l, e ∈ pre ++ post) →
        (l.filter fun e => !e.eq D f) = l := by
      intro l hl
      refine List.filter_eq_self.mpr fun e he => ?_
      rw [heq, hfresh e (hl e he)]
      rfl
    have hself : (⟨date, str⟩ : Event C).eq D f = true := by
      rw [heq, Event.is_iff]
      exact ⟨rfl, rfl⟩
    dsimp only
    rw [hevents, List.filter_append, List.filter_cons, hself,
      hkeep pre fun e he => List.mem_append_left _ he,
      hkeep post fun e he => List.mem_append_right _ he]
    rfl

/-- An event is taken out by a date of its own day number only: `remove` leaves it otherwise. -/
lemma modJulianDay_eq_of_removed {cal : Calendar C} {str : String} {date date' : C}
    (hmem : ⟨date, str⟩ ∈ cal.events) (htrue : (cal.removeEvent D str date').2 = true)
    (hgone : ∀ e ∈ (cal.removeEvent D str date').1.events, e.is D date str = false) :
    D.modJulianDay date' = D.modJulianDay date := by
  by_contra hne
  unfold Calendar.removeEvent at htrue hgone
  cases hfind : cal.events.find? fun event => event.is D date' str with
  | none =>
    rw [hfind] at htrue
    cases htrue
  | some f =>
    rw [hfind] at hgone
    have hfound := List.find?_some hfind
    have hf := (Event.is_iff.mp hfound).1
    have hother : (⟨date, str⟩ : Event C).eq D f = false := by
      rw [Bool.eq_false_iff, ne_eq, Event.eq, Event.is_iff]
      exact fun h => hne (hf.symm.trans h.1)
    have hstays : (⟨date, str⟩ : Event C) ∈ cal.events.filter fun e => !e.eq D f :=
      List.mem_filter.mpr ⟨hmem, by rw [hother]; rfl⟩
    exact absurd (Event.is_iff.mpr ⟨rfl, rfl⟩) (Bool.eq_false_iff.mp (hgone _ hstays))

/-- **Undoing by a date** works exactly with a date of the same day number. -/
lemma onDate_removeEvent_iff {cal : Calendar C} (ho : Ordered D cal.events) {str : String}
    {date : C} (hadd : (cal.addEvent D str date).2 = true) (year month day : ℤ) :
    ((Calendar.onDate D (cal.addEvent D str date).1 year month day
          ((cal.addEvent D str date).1.removeEvent D str)).2 = true ∧
        (Calendar.onDate D (cal.addEvent D str date).1 year month day
          ((cal.addEvent D str date).1.removeEvent D str)).1.events = cal.events) ↔
      ∃ date', D.ofYmd year month day = .ok date' ∧
        D.modJulianDay date' = D.modJulianDay date := by
  obtain ⟨e, he, hfresh, pre, post, hold, hnew⟩ :=
    (addEvent_spec ho str date).answers.true_iff.mp hadd
  obtain rfl := Option.some.inj he
  generalize (cal.addEvent D str date).1 = added at hnew
  rw [hold] at hfresh ⊢
  unfold Calendar.onDate
  cases hdate : D.ofYmd year month day with
  | error msg => simp
  | ok date' =>
    constructor
    · rintro ⟨htrue, hevents⟩
      refine ⟨date', rfl, modJulianDay_eq_of_removed (by simp [hnew]) htrue fun e he => ?_⟩
      exact hfresh e (hevents ▸ he)
    · rintro ⟨date'', heq, hsame⟩
      obtain rfl := Except.ok.inj heq
      exact removeEvent_added hnew hfresh hsame

lemma onDate_addEvent_true {cal : Calendar C} {str : String} {year month day : ℤ}
    (h : (cal.onDate D year month day (cal.addEvent D str)).2 = true) :
    ∃ date, D.ofYmd year month day = .ok date ∧ (cal.addEvent D str date).2 = true ∧
      cal.onDate D year month day (cal.addEvent D str) = cal.addEvent D str date := by
  unfold Calendar.onDate at h ⊢
  cases hdate : D.ofYmd year month day with
  | error msg =>
    rw [hdate] at h
    cases h
  | ok date =>
    rw [hdate] at h
    exact ⟨date, rfl, h, rfl⟩

lemma currentDate_addEvent (cal : Calendar C) (str : String) (date : C) :
    (cal.addEvent D str date).1.currentDate = cal.currentDate := by
  unfold Calendar.addEvent
  split <;> rfl

end Calendars

/-! ### Dates with the fields swapped -/

/-- What the constructor makes is a date of the calendar, in the Gregorian one of 1858 or later. -/
lemma ofYmd_spec {c : CalSystem} {year month day : ℤ} {d : Ymd}
    (h : c.ofYmd year month day = .ok d) :
    d = ⟨year, month, day⟩ ∧ Valid c ⟨year, month, day⟩ ∧ (c = .gregorian → 1858 ≤ year) := by
  have hvalid := valid_of_ofYmd h
  unfold CalSystem.ofYmd at h
  cases hv : c.isValidDate year month day with
  | error e =>
    rw [hv] at h
    cases h
  | ok b =>
    rw [hv] at h
    cases h
    refine ⟨rfl, hvalid, ?_⟩
    rintro rfl
    simp only [CalSystem.isValidDate, Gregorian.isValidDate] at hv
    split_ifs at hv
    omega

lemma jd_of_modJulianDay_eq {c : CalSystem} {d e : Ymd}
    (h : c.modJulianDay d = c.modJulianDay e) : c.jd d - c.jd e ≤ 1 ∧ c.jd e - c.jd d ≤ 1 := by
  rw [c.modJulianDay_eq, c.modJulianDay_eq] at h
  split_ifs at h <;> omega

/-- Cut towards zero, a quarter of the year does not fall as the year rises. -/
lemma tdiv_four_mono (y : ℤ) : (y - 1).tdiv 4 ≤ y.tdiv 4 := by
  rcases lt_or_ge y 1 with h | h
  · rw [tdiv_of_neg _ (by omega : y - 1 < 0)]
    rcases lt_or_ge y 0 with h0 | h0
    · rw [tdiv_of_neg _ h0]
      omega
    · rw [tdiv_of_nonneg _ h0]
      omega
  · rw [tdiv_of_nonneg _ (by omega), tdiv_of_nonneg _ (by omega)]
    omega

lemma jd_swap_month {c : CalSystem} {y a b : ℤ} (hc : c = .gregorian → 1858 ≤ y) (ha : 1 ≤ a)
    (hab : a < b) (hb : b ≤ 12) : c.jd ⟨y, a, b⟩ + 2 ≤ c.jd ⟨y, b, a⟩ := by
  cases c with
  | gregorian =>
    have hy : -4712 ≤ y := by
      have := hc rfl
      omega
    by_cases ha3 : a < 3
    · by_cases hb3 : b < 3
      · -- January and February
        rw [jd_winter hy ha ha3, jd_winter hy (by omega) hb3]
        omega
      · -- a winter month and a later one
        rw [jd_winter_own hy ha ha3, jd_summer hy (by omega)]
        split_ifs <;> omega
    · rw [jd_summer hy (by omega), jd_summer hy (by omega)]
      omega
  | julian =>
    have hquarter := tdiv_four_mono (y + 4800)
    rw [add_sub_assoc, show (4800 : ℤ) - 1 = 4799 from rfl] at hquarter
    simp only [CalSystem.jd]
    rw [julian_jd_tdiv _ _ ha, julian_jd_tdiv _ _ (by omega : 1 ≤ b)]
    split_ifs <;> omega

lemma julian_jd_swap_year {a b y : ℤ} (ha : 1 ≤ a) (hay : a < y) (hb : 1 ≤ b) :
    Julian.jd ⟨a, b, y⟩ + 2 ≤ Julian.jd ⟨y, b, a⟩ := by
  rw [julian_jd (by omega) hb, julian_jd (by omega) hb]
  split_ifs <;> omega

/-- Both readings of two numbers are dates of one day only if the numbers are equal. -/
lemma eq_of_swap_month {c : CalSystem} {y a b : ℤ} {d e : Ymd} (hd : c.ofYmd y b a = .ok d)
    (he : c.ofYmd y a b = .ok e) (h : c.modJulianDay e = c.modJulianDay d) : a = b := by
  obtain ⟨rfl, ⟨hb, -⟩, hc⟩ := ofYmd_spec hd
  obtain ⟨rfl, ⟨ha, -⟩, -⟩ := ofYmd_spec he
  dsimp only at ha hb
  have hjd := jd_of_modJulianDay_eq h
  rcases lt_trichotomy a b with hab | hab | hab
  · have := jd_swap_month hc ha.1 hab hb.2
    omega
  · exact hab
  · have := jd_swap_month hc hb.1 hab ha.2
    omega

lemma eq_of_swap_year {c : CalSystem} {a b y : ℤ} {d e : Ymd} (hd : c.ofYmd y b a = .ok d)
    (he : c.ofYmd a b y = .ok e) (h : c.modJulianDay e = c.modJulianDay d) : a = y := by
  obtain ⟨rfl, ⟨hb, ha⟩, hc⟩ := ofYmd_spec hd
  obtain ⟨rfl, ⟨-, hy⟩, hc'⟩ := ofYmd_spec he
  dsimp only at ha hb hy
  cases c with
  | gregorian =>
    have := daysOfMonth_le_31 CalSystem.gregorian.leapYear b y
    have := hc' rfl
    omega
  | julian =>
    have hjd := jd_of_modJulianDay_eq h
    simp only [CalSystem.jd] at hjd
    rcases lt_trichotomy a y with hay | hay | hay
    · have := julian_jd_swap_year ha.1 hay hb.1
      omega
    · exact hay
    · have := julian_jd_swap_year hy.1 hay hb.1
      omega

/-! ### The same arguments -/

lemma undoes_iff {c : CalSystem} {cal : Calendar Ymd} (ho : Ordered (dateClass c) cal.events)
    {str : String} {args : Args} (hadd : (step (dateClass c) cal (args.add str)).2 = true) :
    Undoes (dateClass c) cal str args ↔ args.Symmetric := by
  cases args with
  | one a =>
    -- the day alone reads the same either way
    obtain ⟨d, hd, htrue, hstep⟩ := onDate_addEvent_true hadd
    unfold Undoes
    simp only [Args.add, Args.remove, step, Calendar.addEventDay, Calendar.removeEventDay, hstep,
      currentDate_addEvent]
    rw [onDate_removeEvent_iff ho htrue]
    exact iff_of_true ⟨d, hd, rfl⟩ trivial
  | two a b =>
    obtain ⟨d, hd, htrue, hstep⟩ := onDate_addEvent_true hadd
    unfold Undoes
    simp only [Args.add, Args.remove, step, Calendar.addEventMonth, Calendar.removeEventMonth,
      hstep, currentDate_addEvent]
    rw [onDate_removeEvent_iff ho htrue]
    constructor
    · rintro ⟨e, he, h⟩
      exact eq_of_swap_month hd he h
    · intro hab
      obtain rfl : a = b := hab
      exact ⟨d, hd, rfl⟩
  | three a b y =>
    obtain ⟨d, hd, htrue, hstep⟩ := onDate_addEvent_true hadd
    unfold Undoes
    simp only [Args.add, Args.remove, step, Calendar.addEventYear, Calendar.removeEventYear, hstep]
    rw [onDate_removeEvent_iff ho htrue]
    constructor
    · rintro ⟨e, he, h⟩
      exact eq_of_swap_year hd he h
    · intro hay
      obtain rfl : a = y := hay
      exact ⟨d, hd, rfl⟩

/-- **Removing takes back adding** in every reachable calendar, exactly if the numbers read the same
in the opposite order. -/
theorem removes_added_iff_symmetric (c : CalSystem) (today : Ymd) (ops : List (Op Ymd))
    (str : String) (args : Args)
    (hadd : (step (dateClass c) (run (dateClass c) ⟨[], today⟩ ops) (args.add str)).2 = true) :
    Undoes (dateClass c) (run (dateClass c) ⟨[], today⟩ ops) str args ↔ args.Symmetric :=
  undoes_iff (ordered_run ⟨.nil, .nil⟩ ops) hadd

/-- The fifth of May, and a day of the current month. -/
theorem removes_added_may :
    Undoes (dateClass .gregorian) (run (dateClass .gregorian) ⟨[], ⟨2009, 9, 21⟩⟩ []) "lab"
        (.two 5 5) ∧
      Undoes (dateClass .julian) (run (dateClass .julian) ⟨[], ⟨2009, 9, 21⟩⟩
        [.setDate 2000 2 1]) "lab" (.one 29) :=
  ⟨(removes_added_iff_symmetric .gregorian ⟨2009, 9, 21⟩ [] "lab" (.two 5 5) rfl).mpr rfl,
    (removes_added_iff_symmetric .julian ⟨2009, 9, 21⟩ [.setDate 2000 2 1] "lab" (.one 29)
      rfl).mpr trivial⟩

/-- The third of April is added, and the fourth of March is to be removed. -/
theorem not_removes_added_april :
    (step (dateClass .gregorian) (run (dateClass .gregorian) ⟨[], ⟨2009, 9, 21⟩⟩ [])
        (Args.add "lab" (.two 3 4))).2 = true ∧
      ¬Undoes (dateClass .gregorian) (run (dateClass .gregorian) ⟨[], ⟨2009, 9, 21⟩⟩ []) "lab"
        (.two 3 4) := by
  refine ⟨rfl, fun h => ?_⟩
  have hsymm := (undoes_iff (ordered_run ⟨.nil, .nil⟩ []) rfl).mp h
  exact absurd hsymm (show ¬(3 : ℤ) = 4 by decide)

end Zinzhi.EventUndo
