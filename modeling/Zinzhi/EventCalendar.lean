import Zinzhi.Dates

/-!
`Calendar<C>`: a list of dated events and a current date, over any class of dates.

An event goes in before the first one of a later date, and only the events before that point are
compared with it, so that a duplicate is found relies on the order of the whole list.
-/

namespace Zinzhi.EventCalendar

open Zinzhi.Dates

/-- What `Calendar` uses of its date class `C`. -/
structure DateClass (C : Type*) where
  ofYmd : ℤ → ℤ → ℤ → Except String C
  modJulianDay : C → ℤ
  year : C → ℤ
  month : C → ℤ

structure Event (C : Type*) where
  date : C
  str : String
deriving DecidableEq, Repr

structure Calendar (C : Type*) where
  events : List (Event C)
  currentDate : C
deriving DecidableEq, Repr

variable {C : Type*} (D : DateClass C)

/-- The event has the date, by `Date::operator==`, and the text. -/
def Event.is (event : Event C) (date : C) (str : String) : Bool :=
  D.modJulianDay event.date == D.modJulianDay date && event.str == str

def Event.eq (e event : Event C) : Bool := event.is D e.date e.str

namespace Calendar

def setDate (cal : Calendar C) (year month day : ℤ) : Calendar C × Bool :=
  match D.ofYmd year month day with
  | .ok date => ({ cal with currentDate := date }, true)
  | .error _ => (cal, false)

/-- The loop of `add_event`, with `none` for a duplicate. -/
def insertEvent (str : String) (date : C) : List (Event C) → Option (List (Event C))
  | [] => some [⟨date, str⟩]
  | event :: it =>
    if event.is D date str then none
    else if D.modJulianDay event.date > D.modJulianDay date then some (⟨date, str⟩ :: event :: it)
    else (insertEvent str date it).map (event :: ·)

def addEvent (cal : Calendar C) (str : String) (date : C) : Calendar C × Bool :=
  match insertEvent D str date cal.events with
  | some events => ({ cal with events := events }, true)
  | none => (cal, false)

def removeEvent (cal : Calendar C) (str : String) (date : C) : Calendar C × Bool :=
  match cal.events.find? fun event => event.is D date str with
  | some event => ({ cal with events := cal.events.filter fun e => !e.eq D event }, true)
  | none => (cal, false)

/-- The overloads build the date first and return `false` if that throws. -/
def onDate (cal : Calendar C) (year month day : ℤ) (f : C → Calendar C × Bool) :
    Calendar C × Bool :=
  match D.ofYmd year month day with
  | .ok eventDate => f eventDate
  | .error _ => (cal, false)

def addEventDay (cal : Calendar C) (str : String) (day : ℤ) : Calendar C × Bool :=
  cal.onDate D (D.year cal.currentDate) (D.month cal.currentDate) day (cal.addEvent D str)

def addEventMonth (cal : Calendar C) (str : String) (day month : ℤ) : Calendar C × Bool :=
  cal.onDate D (D.year cal.currentDate) month day (cal.addEvent D str)

def addEventYear (cal : Calendar C) (str : String) (day month year : ℤ) : Calendar C × Bool :=
  cal.onDate D year month day (cal.addEvent D str)

def removeEventDay (cal : Calendar C) (str : String) (day : ℤ) : Calendar C × Bool :=
  cal.onDate D (D.year cal.currentDate) (D.month cal.currentDate) day (cal.removeEvent D str)

def removeEventMonth (cal : Calendar C) (str : String) (month day : ℤ) : Calendar C × Bool :=
  cal.onDate D (D.year cal.currentDate) month day (cal.removeEvent D str)

def removeEventYear (cal : Calendar C) (str : String) (year month day : ℤ) :
    Calendar C × Bool :=
  cal.onDate D year month day (cal.removeEvent D str)

end Calendar

/-- The calls, with the arguments in the order of their overload. -/
inductive Op (C : Type*) where
  | setDate (year month day : ℤ)
  | addEvent (str : String) (date : C)
  | addEventDay (str : String) (day : ℤ)
  | addEventMonth (str : String) (day month : ℤ)
  | addEventYear (str : String) (day month year : ℤ)
  | removeEvent (str : String) (date : C)
  | removeEventDay (str : String) (day : ℤ)
  | removeEventMonth (str : String) (month day : ℤ)
  | removeEventYear (str : String) (year month day : ℤ)
deriving DecidableEq, Repr

def step (cal : Calendar C) : Op C → Calendar C × Bool
  | .setDate year month day => cal.setDate D year month day
  | .addEvent str date => cal.addEvent D str date
  | .addEventDay str day => cal.addEventDay D str day
  | .addEventMonth str day month => cal.addEventMonth D str day month
  | .addEventYear str day month year => cal.addEventYear D str day month year
  | .removeEvent str date => cal.removeEvent D str date
  | .removeEventDay str day => cal.removeEventDay D str day
  | .removeEventMonth str month day => cal.removeEventMonth D str month day
  | .removeEventYear str year month day => cal.removeEventYear D str year month day

def run (cal : Calendar C) (ops : List (Op C)) : Calendar C :=
  ops.foldl (fun cal op => (step D cal op).1) cal

def dateClass (c : CalSystem) : DateClass Ymd :=
  ⟨c.ofYmd, c.modJulianDay, Ymd.currYear, Ymd.currMonth⟩

/-! ### The invariant -/

/-- No event is before, by `Date::operator<`, the one in front of it, and no two have the same
date and text. -/
structure Ordered (events : List (Event C)) : Prop where
  sorted : events.Pairwise fun a b => D.modJulianDay a.date ≤ D.modJulianDay b.date
  distinct : events.Pairwise fun a b => a.eq D b = false

/-- `new` is `old` with one event more, the others in their order. -/
def Inserted (e : Event C) (old new : List (Event C)) : Prop :=
  ∃ pre post, old = pre ++ post ∧ new = pre ++ e :: post

def Fresh (e : Event C) (events : List (Event C)) : Prop :=
  ∀ f ∈ events, f.is D e.date e.str = false

variable {D}

lemma Event.is_iff {e : Event C} {date : C} {str : String} :
    e.is D date str = true ↔ D.modJulianDay e.date = D.modJulianDay date ∧ e.str = str := by
  simp [Event.is]

lemma Inserted.ne {e : Event C} {old : List (Event C)} : ¬Inserted e old old := by
  rintro ⟨pre, post, h, h'⟩
  have hl := congrArg List.length (h.symm.trans h')
  simp at hl

/-- A successful `insertEvent` puts the event between the earlier or equal and the later dates,
and has compared it with all that could equal it. -/
lemma insertEvent_some {str : String} {date : C} {old new : List (Event C)}
    (hs : old.Pairwise fun a b => D.modJulianDay a.date ≤ D.modJulianDay b.date)
    (h : Calendar.insertEvent D str date old = some new) :
    Fresh D ⟨date, str⟩ old ∧ ∃ pre post, old = pre ++ post ∧ new = pre ++ ⟨date, str⟩ :: post ∧
      (∀ e ∈ pre, D.modJulianDay e.date ≤ D.modJulianDay date) ∧
      ∀ e ∈ post, D.modJulianDay date < D.modJulianDay e.date := by
  induction old generalizing new with
  | nil =>
    obtain rfl : [⟨date, str⟩] = new := by simpa [Calendar.insertEvent] using h
    exact ⟨by simp [Fresh], [], [], by simp⟩
  | cons event it ih =>
    obtain ⟨hle, hs⟩ := List.pairwise_cons.mp hs
    rw [Calendar.insertEvent] at h
    split_ifs at h with hsame hlater
    · -- every later event of the list has a later date as well
      obtain rfl : ⟨date, str⟩ :: event :: it = new := by simpa using h
      have hpost : ∀ e ∈ event :: it, D.modJulianDay date < D.modJulianDay e.date := by
        intro e he
        rcases List.mem_cons.mp he with rfl | he
        · exact hlater
        · exact lt_of_lt_of_le hlater (hle e he)
      refine ⟨fun e he => ?_, [], event :: it, rfl, rfl, by simp, hpost⟩
      rw [Bool.eq_false_iff, ne_eq, Event.is_iff]
      exact fun heq => (hpost e he).ne' heq.1
    · obtain ⟨rest, hrest, rfl⟩ := Option.map_eq_some_iff.mp h
      obtain ⟨hfresh, pre, post, rfl, rfl, hpre, hpost⟩ := ih hs hrest
      refine ⟨?_, event :: pre, post, rfl, rfl, ?_, hpost⟩
      · intro e he
        rcases List.mem_cons.mp he with rfl | he
        · exact Bool.eq_false_iff.mpr hsame
        · exact hfresh e he
      · intro e he
        rcases List.mem_cons.mp he with rfl | he
        · exact not_lt.mp hlater
        · exact hpre e he

lemma Event.eq_comm (e f : Event C) : e.eq D f = f.eq D e := by
  rw [Bool.eq_iff_iff, Event.eq, Event.eq, Event.is_iff, Event.is_iff]
  constructor <;> rintro ⟨h, h'⟩ <;> exact ⟨h.symm, h'.symm⟩

lemma pairwise_insert {R : Event C → Event C → Prop} {e : Event C} {pre post : List (Event C)}
    (h : (pre ++ post).Pairwise R) (hpre : ∀ a ∈ pre, R a e) (hpost : ∀ b ∈ post, R e b) :
    (pre ++ e :: post).Pairwise R := by
  obtain ⟨h1, h2, h12⟩ := List.pairwise_append.mp h
  refine List.pairwise_append.mpr ⟨h1, List.pairwise_cons.mpr ⟨hpost, h2⟩, ?_⟩
  intro a ha b hb
  rcases List.mem_cons.mp hb with rfl | hb
  · exact hpre a ha
  · exact h12 a ha b hb

lemma Ordered.insert {str : String} {date : C} {old new : List (Event C)} (ho : Ordered D old)
    (h : Calendar.insertEvent D str date old = some new) :
    Ordered D new ∧ Fresh D ⟨date, str⟩ old ∧ Inserted ⟨date, str⟩ old new := by
  obtain ⟨hfresh, pre, post, rfl, rfl, hpre, hpost⟩ := insertEvent_some ho.sorted h
  refine ⟨⟨?_, ?_⟩, hfresh, pre, post, rfl, rfl⟩
  · exact pairwise_insert ho.sorted hpre fun e he => (hpost e he).le
  · refine pairwise_insert ho.distinct ?_ fun e he => hfresh e (List.mem_append_right _ he)
    intro e he
    rw [Event.eq_comm]
    exact hfresh e (List.mem_append_left _ he)

/-- Among distinct events `std::list::remove` takes out the one that was found. -/
lemma Ordered.remove {event : Event C} {p : Event C → Bool} {old : List (Event C)}
    (ho : Ordered D old) (h : old.find? p = some event) :
    Ordered D (old.filter fun e => !e.eq D event) ∧
      Inserted event (old.filter fun e => !e.eq D event) old := by
  refine ⟨⟨ho.sorted.filter _, ho.distinct.filter _⟩, ?_⟩
  obtain ⟨-, pre, post, rfl, -⟩ := List.find?_eq_some_iff_append.mp h
  obtain ⟨-, hpost, hpre⟩ := List.pairwise_append.mp ho.distinct
  refine ⟨pre, post, ?_, rfl⟩
  have hself : event.eq D event = true := Event.is_iff.mpr ⟨rfl, rfl⟩
  have hkeep : ∀ l : List (Event C), (∀ e ∈ l, e.eq D event = false) →
      (l.filter fun e => !e.eq D event) = l := fun l hl =>
    List.filter_eq_self.mpr fun e he => by rw [hl e he]; rfl
  rw [List.filter_append, List.filter_cons, hself, hkeep pre, hkeep post]
  · rfl
  · intro e he
    rw [Event.eq_comm]
    exact (List.pairwise_cons.mp hpost).1 e he
  · exact fun e he => hpre e he event List.mem_cons_self

/-! ### What a call does -/

variable (D)

/-- The event of a text and a date, if there is such a date. -/
def eventOn (str : String) (year month day : ℤ) : Option (Event C) :=
  (D.ofYmd year month day).toOption.map fun date => ⟨date, str⟩

inductive Kind where
  | set
  | add
  | remove

def Op.kind : Op C → Kind
  | .setDate .. => .set
  | .addEvent .. | .addEventDay .. | .addEventMonth .. | .addEventYear .. => .add
  | .removeEvent .. | .removeEventDay .. | .removeEventMonth .. | .removeEventYear .. => .remove

/-- The event a call is about, `none` for an invalid date. -/
def Op.event (cal : Calendar C) : Op C → Option (Event C)
  | .setDate .. => none
  | .addEvent str date | .removeEvent str date => some ⟨date, str⟩
  | .addEventDay str day | .removeEventDay str day =>
    eventOn D str (D.year cal.currentDate) (D.month cal.currentDate) day
  | .addEventMonth str day month | .removeEventMonth str month day =>
    eventOn D str (D.year cal.currentDate) month day
  | .addEventYear str day month year | .removeEventYear str year month day =>
    eventOn D str year month day

/-- The date that a call makes the current one, `none` if it leaves it alone. -/
def Op.newDate : Op C → Option C
  | .setDate year month day => (D.ofYmd year month day).toOption
  | _ => none

/-- The call answers `true` exactly when there is something to change, and exactly when it made the
change; else the list is as it was. -/
structure Answers (can : Prop) (change : List (Event C) → Prop) (old : List (Event C))
    (out : Calendar C × Bool) : Prop where
  true_iff_can : out.2 = true ↔ can
  true_iff : out.2 = true ↔ change out.1.events
  unchanged : out.2 = false → out.1.events = old

def CanAdd (e : Option (Event C)) (old : List (Event C)) : Prop :=
  ∃ event, e = some event ∧ Fresh D event old

/-- One new event, the one the call is about, is put in. -/
def AddsOne (e : Option (Event C)) (old new : List (Event C)) : Prop :=
  ∃ event, e = some event ∧ Fresh D event old ∧ Inserted event old new

def CanRemove (e : Option (Event C)) (old : List (Event C)) : Prop :=
  ∃ event, e = some event ∧ ∃ f ∈ old, f.is D event.date event.str = true

/-- One event, of the date and the text that the call is about, is taken out. -/
def RemovesOne (e : Option (Event C)) (old new : List (Event C)) : Prop :=
  ∃ event, e = some event ∧ ∃ f, f.is D event.date event.str = true ∧ Inserted f new old

/-- What a call does to the calendar, and what it answers. -/
def Contract (cal : Calendar C) (op : Op C) (out : Calendar C × Bool) : Prop :=
  out.1.currentDate = (op.newDate D).getD cal.currentDate ∧
    match op.kind with
    | .set => out.1.events = cal.events ∧ (out.2 = true ↔ (op.newDate D).isSome = true)
    | .add =>
      Answers (CanAdd D (op.event D cal) cal.events) (AddsOne D (op.event D cal) cal.events)
        cal.events out
    | .remove =>
      Answers (CanRemove D (op.event D cal) cal.events) (RemovesOne D (op.event D cal) cal.events)
        cal.events out

variable {D}

lemma insertEvent_none {str : String} {date : C} {old : List (Event C)}
    (h : Calendar.insertEvent D str date old = none) : ¬Fresh D ⟨date, str⟩ old := by
  induction old with
  | nil => cases h
  | cons event it ih =>
    intro hfresh
    rw [Calendar.insertEvent, if_neg (by rw [hfresh event List.mem_cons_self]; nofun)] at h
    split_ifs at h
    exact ih (Option.map_eq_none_iff.mp h) fun f hf => hfresh f (List.mem_cons_of_mem _ hf)

/-- The list is in order after the call, the current date is the same, and the answer is right. -/
structure Keeps (cal : Calendar C) (can : Prop) (change : List (Event C) → Prop)
    (out : Calendar C × Bool) : Prop where
  ordered : Ordered D out.1.events
  today : out.1.currentDate = cal.currentDate
  answers : Answers can change cal.events out

lemma addEvent_spec {cal : Calendar C} (ho : Ordered D cal.events) (str : String) (date : C) :
    Keeps (D := D) cal (CanAdd D (some ⟨date, str⟩) cal.events)
      (AddsOne D (some ⟨date, str⟩) cal.events) (cal.addEvent D str date) := by
  unfold Calendar.addEvent
  split
  · next new h =>
    obtain ⟨hnew, hfresh, hins⟩ := ho.insert h
    exact ⟨hnew, rfl, iff_of_true rfl ⟨_, rfl, hfresh⟩, iff_of_true rfl ⟨_, rfl, hfresh, hins⟩,
      nofun⟩
  · next h =>
    refine ⟨ho, rfl, iff_of_false nofun ?_, iff_of_false nofun ?_, fun _ => rfl⟩
    · rintro ⟨_, ⟨⟩, hfresh⟩
      exact insertEvent_none h hfresh
    · rintro ⟨e, -, -, hins⟩
      exact hins.ne

lemma removeEvent_spec {cal : Calendar C} (ho : Ordered D cal.events) (str : String) (date : C) :
    Keeps (D := D) cal (CanRemove D (some ⟨date, str⟩) cal.events)
      (RemovesOne D (some ⟨date, str⟩) cal.events) (cal.removeEvent D str date) := by
  unfold Calendar.removeEvent
  split
  · next event h =>
    obtain ⟨hnew, hins⟩ := ho.remove h
    have hfound := List.find?_some h
    exact ⟨hnew, rfl, iff_of_true rfl ⟨_, rfl, event, List.mem_of_find?_eq_some h, hfound⟩,
      iff_of_true rfl ⟨_, rfl, event, hfound, hins⟩, nofun⟩
  · next h =>
    refine ⟨ho, rfl, iff_of_false nofun ?_, iff_of_false nofun ?_, fun _ => rfl⟩
    · rintro ⟨_, ⟨⟩, f, hf, his⟩
      exact List.find?_eq_none.mp h f hf his
    · rintro ⟨e, -, f, -, hins⟩
      exact hins.ne

/-- The overloads inherit the answer; an invalid date leaves nothing to change. -/
lemma onDate_spec {cal : Calendar C} (ho : Ordered D cal.events) {str : String}
    {f : C → Calendar C × Bool} (can : Option (Event C) → Prop)
    (change : Option (Event C) → List (Event C) → Prop) (year month day : ℤ) (hcan : ¬can none)
    (hchange : ∀ l, ¬change none l)
    (hf : ∀ date, Keeps (D := D) cal (can (some ⟨date, str⟩)) (change (some ⟨date, str⟩))
      (f date)) :
    Keeps (D := D) cal (can (eventOn D str year month day))
      (change (eventOn D str year month day)) (cal.onDate D year month day f) := by
  unfold Calendar.onDate eventOn
  cases D.ofYmd year month day with
  | ok date => exact hf date
  | error msg =>
    exact ⟨ho, rfl, iff_of_false nofun hcan, iff_of_false nofun (hchange _), fun _ => rfl⟩

lemma step_spec {cal : Calendar C} (ho : Ordered D cal.events) (op : Op C) :
    Ordered D (step D cal op).1.events ∧ Contract D cal op (step D cal op) := by
  have hadd (str : String) (year month day : ℤ) := onDate_spec ho
    (CanAdd D · cal.events) (AddsOne D · cal.events) year month day (by simp [CanAdd])
    (by simp [AddsOne]) (addEvent_spec ho str)
  have hremove (str : String) (year month day : ℤ) := onDate_spec ho
    (CanRemove D · cal.events) (RemovesOne D · cal.events) year month day (by simp [CanRemove])
    (by simp [RemovesOne]) (removeEvent_spec ho str)
  have hdone {can : Prop} {change : List (Event C) → Prop} {out : Calendar C × Bool}
      (h : Keeps (D := D) cal can change out) :
      Ordered D out.1.events ∧ out.1.currentDate = cal.currentDate ∧
        Answers can change cal.events out := ⟨h.ordered, h.today, h.answers⟩
  cases op with
  | setDate year month day =>
    simp only [step, Contract, Op.kind, Op.newDate, Calendar.setDate]
    cases D.ofYmd year month day with
    | ok date => exact ⟨ho, rfl, rfl, iff_of_true rfl rfl⟩
    | error msg => exact ⟨ho, rfl, rfl, iff_of_false nofun nofun⟩
  | addEvent str date => exact hdone (addEvent_spec ho str date)
  | addEventDay str day => exact hdone (hadd _ _ _ _)
  | addEventMonth str day month => exact hdone (hadd _ _ _ _)
  | addEventYear str day month year => exact hdone (hadd _ _ _ _)
  | removeEvent str date => exact hdone (removeEvent_spec ho str date)
  | removeEventDay str day => exact hdone (hremove _ _ _ _)
  | removeEventMonth str month day => exact hdone (hremove _ _ _ _)
  | removeEventYear str year month day => exact hdone (hremove _ _ _ _)

lemma ordered_run {cal : Calendar C} (ho : Ordered D cal.events) (ops : List (Op C)) :
    Ordered D (run D cal ops).events := by
  induction ops generalizing cal with
  | nil => exact ho
  | cons op ops ih => exact ih (step_spec ho op).1

/-- **The event list stays ordered and free of duplicates**, and every call after any number of
others meets its contract, from any current date. The class of dates is open, and with it the day
numbers: it may be either calendar, also where its `int` arithmetic overflows. -/
theorem run_ordered_contract (D : DateClass C) (today : C) (ops : List (Op C)) (op : Op C) :
    let cal := run D ⟨[], today⟩ ops
    Ordered D cal.events ∧ Contract D cal op (step D cal op) := by
  intro cal
  have ho : Ordered D cal.events := ordered_run ⟨.nil, .nil⟩ ops
  exact ⟨ho, (step_spec ho op).2⟩

end Zinzhi.EventCalendar
