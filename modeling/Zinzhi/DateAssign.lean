import Zinzhi.DateInt

/-!
Assigning and constructing dates across the two calendars.

Which function an assignment calls is settled by the static types of its two sides, and what
that function does by the classes of the objects. `Julian` derives from `Gregorian`, so an
expression of type `Gregorian` may denote a `Julian` object. Day numbers are computed in `int`s,
so an operation has a result only where no number overflows.
-/

namespace Zinzhi.DateAssign

open Zinzhi.Coordinate Zinzhi.Dates Zinzhi.DayNumber Zinzhi.DateInt

inductive Static where
  | date
  | gregorian
  | julian
deriving DecidableEq, Repr

def Static.Admits : Static → CalSystem → Prop
  | .julian, c => c = .julian
  | _, _ => True

structure Obj where
  cls : CalSystem
  date : Ymd
deriving DecidableEq, Repr

/-- An object as an expression of a static type denotes it. -/
structure Ref (s : Static) extends Obj where
  admits : s.Admits cls

namespace Obj

def modJulianDay (a : Obj) : Option ℤ := DateInt.modJulianDay a.cls a.date

/-- The call of the virtual `adjust_date_from_mjd`. -/
def adjustDateFromMjd (a : Obj) (mjd : ℤ) : Option Obj := do
  return ⟨a.cls, ← DateInt.adjustDateFromMjd a.cls mjd⟩

/-- The constructor from a `const Date&`, of either class. -/
def ofDate (c : CalSystem) (d : Obj) : Option Obj := do
  return ⟨c, ← DateInt.adjustDateFromMjd c (← d.modJulianDay)⟩

def dateAssign (a d : Obj) : Option Obj := do
  a.adjustDateFromMjd (← d.modJulianDay)

/-- `Gregorian::operator=`, which copies the fields as they are. -/
def gregorianAssign (a d : Obj) : Obj := ⟨a.cls, d.date⟩

def julianAssign (a d : Obj) : Option Obj := a.dateAssign d

end Obj

/-- `a = b`. -/
def assign {s t : Static} (a : Ref s) (b : Ref t) : Option Obj :=
  match s, t with
  | .date, _ => a.dateAssign b.toObj
  -- a `Date` is first converted to a temporary `Gregorian`
  | .gregorian, .date => do return a.gregorianAssign (← Obj.ofDate .gregorian b.toObj)
  | .gregorian, _ => some (a.gregorianAssign b.toObj)
  -- the implicit copy assignment assigns the base
  | .julian, .julian => some (a.gregorianAssign b.toObj)
  | .julian, _ => a.julianAssign b.toObj

/-- `c a(b)`. `Julian(const Gregorian&)` is declared, and preferred for a `Gregorian`, but has
no definition. -/
def construct {t : Static} (c : CalSystem) (b : Ref t) : Option Obj :=
  match c, t with
  | .gregorian, .gregorian => some ⟨.gregorian, b.date⟩
  | .gregorian, _ => Obj.ofDate .gregorian b.toObj
  | .julian, .julian => some ⟨.julian, b.date⟩
  | .julian, .gregorian => none
  | .julian, .date => Obj.ofDate .julian b.toObj

/-! ### Current dates -/

def Obj.Current (b : Obj) : Prop := Valid b.cls b.date ∧ FromEpoch b.cls b.date

lemma Obj.Current.numbered {b : Obj} (hb : b.Current) : Numbered b.cls b.date :=
  hb.2.numbered hb.1

def Obj.day (b : Obj) : ℤ := dayNumber b.cls b.date

/-- Its number can be computed in the calendar `c`. -/
def Obj.Reaches (b : Obj) (c : CalSystem) : Prop := b.day ≤ lastDay c

lemma Obj.Current.day_nonneg {b : Obj} (hb : b.Current) : 0 ≤ b.day :=
  (fromEpoch_iff hb.numbered).mp hb.2

lemma Obj.Current.modJulianDay_iff {b : Obj} (hb : b.Current) {k : ℤ} :
    b.modJulianDay = some k ↔ b.Reaches b.cls ∧ b.day = k := by
  unfold Obj.modJulianDay Obj.Reaches Obj.day
  rw [modJulianDay_eq_some_iff hb.1 hb.2.minYear_le, inRange_iff hb.numbered,
    (hb.2.modJulianDay_eq hb.1).1]

/-- Going through the day number gives a date of the same number, in either calendar. -/
lemma current_adjust (c : CalSystem) {k : ℤ} (hk : 0 ≤ k) :
    (Obj.mk c (c.adjustDateFromMjd k)).Current ∧ (Obj.mk c (c.adjustDateFromMjd k)).day = k := by
  obtain ⟨hn, hnum⟩ := (isCoordinate c).num_den (numbered_epoch c)
    (show dayNumber c (epoch c) ≤ k by rwa [dayNumber_epoch])
  exact ⟨⟨hn.1, (fromEpoch_iff hn).mpr (hk.trans_eq hnum.symm)⟩, hnum⟩

/-- From 1858 on the two calendars are at least twelve days apart. -/
lemma jd_apart {b : Obj} (hb : b.Current) :
    Dates.Gregorian.jd b.date + 12 ≤ Dates.Julian.jd b.date := by
  have hY : 1858 ≤ marchYear b.date := by
    have h := hb.2
    unfold FromEpoch NotAfter at h
    unfold marchYear
    generalize b.cls = c at h
    cases c <;> simp only [epoch] at h <;> split_ifs <;> omega
  rw [gregorian_jd ((firstYear_le _).trans hb.numbered.2) hb.1.1.1]
  omega

/-! ### Which operations keep the day -/

/-- An operation has a result, and its day number is the one of `b`. -/
def SameDay (result : Option Obj) (b : Obj) : Prop :=
  ∃ a k, result = some a ∧ a.modJulianDay = some k ∧ b.modJulianDay = some k

/-- The fields of a current date belong to another day in the other calendar. -/
lemma cls_eq_of_copy {b : Obj} (hb : b.Current) {c : CalSystem}
    (h : (Obj.mk c b.date).modJulianDay = some b.day) : c = b.cls := by
  have hmjd := modJulianDay_eq_some h
  have hpos := hb.day_nonneg
  have hapart := jd_apart hb
  rw [DayNumber.modJulianDay_eq] at hmjd
  unfold Obj.day at hpos hmjd
  generalize b.cls = c' at hpos hmjd ⊢
  unfold dayNumber at hpos hmjd
  cases c <;> cases c' <;> simp only [CalSystem.jd] at hpos hmjd ⊢
  all_goals split_ifs at hmjd <;> omega

lemma copy_iff {b : Obj} (hb : b.Current) (c : CalSystem) :
    SameDay (some ⟨c, b.date⟩) b ↔ c = b.cls ∧ b.Reaches b.cls := by
  constructor
  · rintro ⟨a, k, ha, hcopy, hk⟩
    obtain rfl := Option.some.inj ha
    obtain ⟨hr, rfl⟩ := hb.modJulianDay_iff.mp hk
    exact ⟨cls_eq_of_copy hb hcopy, hr⟩
  · rintro ⟨rfl, hr⟩
    have hk := hb.modJulianDay_iff.mpr ⟨hr, rfl⟩
    exact ⟨_, _, rfl, hk, hk⟩

lemma ofDate_eq_some {c : CalSystem} {a b : Obj} (hb : b.Current)
    (h : Obj.ofDate c b = some a) : b.Reaches b.cls ∧ ⟨c, c.adjustDateFromMjd b.day⟩ = a := by
  obtain ⟨k, hk, hrest⟩ := Option.bind_eq_some_iff.mp h
  obtain ⟨d, hd, ha⟩ := Option.bind_eq_some_iff.mp hrest
  obtain ⟨hr, rfl⟩ := hb.modJulianDay_iff.mp hk
  rw [adjustDateFromMjd_eq_some hd]
  exact ⟨hr, Option.some.inj ha⟩

lemma ofDate_of_reaches {c : CalSystem} {b : Obj} (hb : b.Current) (hr : b.Reaches b.cls)
    (hc : b.Reaches c) : Obj.ofDate c b = some ⟨c, c.adjustDateFromMjd b.day⟩ :=
  Option.bind_eq_some_iff.mpr ⟨_, hb.modJulianDay_iff.mpr ⟨hr, rfl⟩,
    Option.bind_eq_some_iff.mpr ⟨_, adjustDateFromMjd_of_le hb.day_nonneg hc, rfl⟩⟩

lemma adjust_modJulianDay_iff {b : Obj} (hb : b.Current) (c : CalSystem) {k : ℤ} :
    (Obj.mk c (c.adjustDateFromMjd b.day)).modJulianDay = some k ↔ b.Reaches c ∧ b.day = k := by
  obtain ⟨hcur, hday⟩ := current_adjust c hb.day_nonneg
  rw [hcur.modJulianDay_iff, Obj.Reaches, hday, Obj.Reaches]

lemma ofDate_iff {b : Obj} (hb : b.Current) (c : CalSystem) :
    SameDay (Obj.ofDate c b) b ↔ b.Reaches b.cls ∧ b.Reaches c := by
  constructor
  · rintro ⟨a, k, h, hk, -⟩
    obtain ⟨hr, rfl⟩ := ofDate_eq_some hb h
    exact ⟨hr, ((adjust_modJulianDay_iff hb c).mp hk).1⟩
  · rintro ⟨hr, hc⟩
    exact ⟨_, _, ofDate_of_reaches hb hr hc, (adjust_modJulianDay_iff hb c).mpr ⟨hc, rfl⟩,
      hb.modJulianDay_iff.mpr ⟨hr, rfl⟩⟩

/-- The fields of a temporary `Gregorian` are right in a `Gregorian` only. -/
lemma copy_ofDate_iff {b : Obj} (hb : b.Current) (a : Obj) :
    SameDay (do return a.gregorianAssign (← Obj.ofDate .gregorian b)) b ↔
      a.cls = .gregorian ∧ b.Reaches b.cls ∧ b.Reaches .gregorian := by
  obtain ⟨hcur, hday⟩ := current_adjust .gregorian hb.day_nonneg
  constructor
  · rintro ⟨a', k, h, hk, hbk⟩
    obtain ⟨g, hg, h⟩ := Option.bind_eq_some_iff.mp h
    obtain rfl := Option.some.inj h
    obtain ⟨hr, rfl⟩ := ofDate_eq_some hb hg
    obtain ⟨-, rfl⟩ := hb.modJulianDay_iff.mp hbk
    have hcls : a.cls = .gregorian := cls_eq_of_copy hcur (by rw [hday]; exact hk)
    rw [Obj.gregorianAssign, hcls] at hk
    exact ⟨hcls, hr, ((adjust_modJulianDay_iff hb .gregorian).mp hk).1⟩
  · rintro ⟨hcls, hr, hc⟩
    refine ⟨_, b.day, Option.bind_eq_some_iff.mpr ⟨_, ofDate_of_reaches hb hr hc, rfl⟩, ?_,
      hb.modJulianDay_iff.mpr ⟨hr, rfl⟩⟩
    rw [Obj.gregorianAssign, hcls]
    exact (adjust_modJulianDay_iff hb .gregorian).mpr ⟨hc, rfl⟩

/-- The pairs of an assignment that keep the day. Only a target of type `Gregorian` copies the
fields of an object whose class may be another one: the source's own, or that of the temporary
made from a `Date`. -/
def KeepsDay {s t : Static} (a : Ref s) (b : Ref t) : Prop :=
  s = .gregorian → a.cls = if t = .date then .gregorian else b.cls

def MakesDay {t : Static} (c : CalSystem) (b : Ref t) : Prop :=
  t = .gregorian → c = .gregorian ∧ b.cls = .gregorian

lemma assign_sameDay_iff {s t : Static} (a : Ref s) (b : Ref t) (hb : b.Current) :
    SameDay (assign a b) b.toObj ↔ KeepsDay a b ∧ b.Reaches b.cls ∧ b.Reaches a.cls := by
  -- copied fields are in range in the class of the target when it is that of the source
  have hcopy : SameDay (some (a.gregorianAssign b.toObj)) b.toObj ↔
      a.cls = b.cls ∧ b.Reaches b.cls ∧ b.Reaches a.cls := by
    rw [Obj.gregorianAssign, copy_iff hb]
    constructor
    · rintro ⟨h, hr⟩
      exact ⟨h, hr, h ▸ hr⟩
    · rintro ⟨h, hr, -⟩
      exact ⟨h, hr⟩
  unfold KeepsDay
  cases s
  · exact (ofDate_iff hb a.cls).trans (and_iff_right nofun).symm
  · rw [forall_prop_of_true rfl]
    cases t
    · refine (copy_ofDate_iff hb a.toObj).trans ?_
      rw [if_pos rfl]
      refine and_congr_right fun h => ?_
      rw [h]
    · exact hcopy
    · exact hcopy
  · rw [and_iff_right (by exact nofun)]
    cases t
    · exact ofDate_iff hb a.cls
    · exact ofDate_iff hb a.cls
    · exact hcopy.trans (and_iff_right (a.admits.trans b.admits.symm))

lemma construct_sameDay_iff {t : Static} (c : CalSystem) (b : Ref t) (hb : b.Current) :
    SameDay (construct c b) b.toObj ↔ MakesDay c b ∧ b.Reaches b.cls ∧ b.Reaches c := by
  unfold MakesDay
  cases t
  · -- a `Date` is converted through its day number
    rw [and_iff_right (by exact nofun)]
    cases c
    · exact ofDate_iff hb _
    · exact ofDate_iff hb _
  · -- a `Gregorian` is copied; `Julian(const Gregorian&)` has no definition
    rw [forall_prop_of_true rfl]
    cases c
    · refine (copy_iff hb .gregorian).trans ?_
      constructor
      · rintro ⟨h, hr⟩
        exact ⟨⟨rfl, h.symm⟩, hr, h ▸ hr⟩
      · rintro ⟨h, hr, -⟩
        exact ⟨h.2.symm, hr⟩
    · refine iff_of_false ?_ fun h => CalSystem.noConfusion h.1.1
      rintro ⟨a, k, ha, -⟩
      cases ha
  · -- a `Julian` is converted or copied
    rw [and_iff_right (by exact nofun)]
    cases c
    · exact ofDate_iff hb _
    · refine (copy_iff hb .julian).trans ?_
      have hcls : b.cls = .julian := b.admits
      rw [hcls, and_iff_right rfl, and_self]

/-- **The assignments and constructions that keep the day.** Besides the calendars, the day has
to have a number in both of them. -/
theorem keeps_day_iff {s t : Static} (a : Ref s) (c : CalSystem) (b : Ref t) (hb : b.Current) :
    (SameDay (assign a b) b.toObj ↔ KeepsDay a b ∧ b.Reaches b.cls ∧ b.Reaches a.cls) ∧
      (SameDay (construct c b) b.toObj ↔ MakesDay c b ∧ b.Reaches b.cls ∧ b.Reaches c) :=
  ⟨assign_sameDay_iff a b hb, construct_sameDay_iff c b hb⟩

/-- A `Gregorian` assigned from a `Julian` through a reference to `Date`, and built from it. -/
theorem keeps_day_date :
    let a : Ref .date := ⟨⟨.gregorian, ⟨2000, 1, 1⟩⟩, trivial⟩
    let b : Ref .julian := ⟨⟨.julian, ⟨2000, 1, 1⟩⟩, rfl⟩
    b.Current ∧ SameDay (assign a b) b.toObj ∧ SameDay (construct .gregorian b) b.toObj := by
  intro a b
  have hb : b.Current := ⟨⟨by decide, by decide⟩, .inl (by decide)⟩
  have hreach (c : CalSystem) : b.Reaches c := by
    unfold Obj.Reaches
    cases c <;> decide
  obtain ⟨h1, h2⟩ := keeps_day_iff a .gregorian b hb
  exact ⟨hb, h1.mpr ⟨nofun, hreach _, hreach _⟩, h2.mpr ⟨nofun, hreach _, hreach _⟩⟩

/-- `g = j` takes the first of January of one calendar for that of the other, and through a
reference to `Date` a late `Julian` has no day number to go through. -/
theorem gregorian_assign_julian_loses_day :
    let g : Ref .gregorian := ⟨⟨.gregorian, ⟨1999, 12, 31⟩⟩, trivial⟩
    let j : Ref .julian := ⟨⟨.julian, ⟨2000, 1, 1⟩⟩, rfl⟩
    let d : Ref .date := ⟨g.toObj, trivial⟩
    let late : Ref .julian := ⟨⟨.julian, ⟨6000000, 1, 1⟩⟩, rfl⟩
    j.Current ∧ (∃ a, assign g j = some a ∧ a.modJulianDay = some 51544) ∧
      j.modJulianDay = some 51557 ∧ late.Current ∧ assign d late = none := by
  intro g j d late
  have hj : j.Current := ⟨⟨by decide, by decide⟩, .inl (by decide)⟩
  have hg : Obj.Current ⟨.gregorian, j.date⟩ := ⟨⟨by decide, by decide⟩, .inl (by decide)⟩
  refine ⟨hj, ⟨_, rfl, hg.modJulianDay_iff.mpr ⟨by unfold Obj.Reaches; decide, rfl⟩⟩,
    hj.modJulianDay_iff.mpr ⟨by unfold Obj.Reaches; decide, rfl⟩, ?_, by decide⟩
  exact ⟨⟨by decide, by decide⟩, .inl (by decide)⟩

end Zinzhi.DateAssign
