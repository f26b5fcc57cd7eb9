import Zinzhi.Monitors

/-!
The read-write locks of `my_rwlock`, for any number of threads. The functions are named without
`pthread_rwlock_`.

`rw_mutex` is held from the entry of each function to its return, but for the waits, so the lock is
a monitor. A call of `pthread_cond_wait` does not fail.
-/

namespace Zinzhi.RwLock

open Zinzhi.Atomic (Event)
open Zinzhi.Counting Zinzhi.Monitors

/-! ### The functions -/

abbrev RW_MAGIC : ℤ := 0x19283746

inductive Errno
  | EINVAL
  | EBUSY
deriving DecidableEq, Repr

/-- `pthread_rwlock_t`, but for the mutex and the condition variables. -/
structure Rwlock where
  magic : ℤ
  nwaitreaders : ℤ
  nwaitwriters : ℤ
  refcount : ℤ

inductive Cond
  | condreaders
  | condwriters

inductive Held
  | nothing
  | reader
  | writer
deriving DecidableEq

structure Result where
  errno : Option Errno
  held : Held

/-- Where a thread enters: at the call of a function, or behind a `pthread_cond_wait`. The caller of
`pthread_rwlock_unlock` knows what it holds. -/
inductive Point
  | rdlock
  | rdlockWaited
  | wrlock
  | wrlockWaited
  | tryrdlock
  | trywrlock
  | unlock (held : Held)

abbrev Section := Outcome Rwlock Cond Point Result

abbrev RwEvent := Event Point Result

/-- `pthread_rwlock_init` without attributes -/
def rwlockInit : Rwlock := ⟨RW_MAGIC, 0, 0, 0⟩

variable (rw : Rwlock)

/-- The loop of `pthread_rwlock_rdlock`, up to the first wait. -/
def rdlockLoop : Section :=
  if rw.refcount < 0 ∨ rw.nwaitwriters > 0 then
    ⟨{ rw with nwaitreaders := rw.nwaitreaders + 1 }, .nobody, .asleep .condreaders .rdlockWaited⟩
  else ⟨{ rw with refcount := rw.refcount + 1 }, .nobody, .out ⟨none, .reader⟩⟩

def rdlockWaited : Section := rdlockLoop { rw with nwaitreaders := rw.nwaitreaders - 1 }

/-- The loop of `pthread_rwlock_wrlock`, up to the first wait. -/
def wrlockLoop : Section :=
  if rw.refcount ≠ 0 then
    ⟨{ rw with nwaitwriters := rw.nwaitwriters + 1 }, .nobody, .asleep .condwriters .wrlockWaited⟩
  else ⟨{ rw with refcount := -1 }, .nobody, .out ⟨none, .writer⟩⟩

def wrlockWaited : Section := wrlockLoop { rw with nwaitwriters := rw.nwaitwriters - 1 }

/-- The check at the start of each function. -/
def checked (held : Held) (body : Option Section) : Option Section :=
  if rw.magic ≠ RW_MAGIC then some ⟨rw, .nobody, .out ⟨some .EINVAL, held⟩⟩ else body

def rdlock : Option Section := checked rw .nothing (some (rdlockLoop rw))

def wrlock : Option Section := checked rw .nothing (some (wrlockLoop rw))

def tryrdlock : Option Section :=
  checked rw .nothing
    (if rw.refcount < 0 ∨ rw.nwaitwriters > 0 then some ⟨rw, .nobody, .out ⟨some .EBUSY, .nothing⟩⟩
    else some ⟨{ rw with refcount := rw.refcount + 1 }, .nobody, .out ⟨none, .reader⟩⟩)

def trywrlock : Option Section :=
  checked rw .nothing
    (if rw.refcount ≠ 0 then some ⟨rw, .nobody, .out ⟨some .EBUSY, .nothing⟩⟩
    else some ⟨{ rw with refcount := -1 }, .nobody, .out ⟨none, .writer⟩⟩)

/-- The calls of `pthread_cond_signal` and `pthread_cond_broadcast` in `pthread_rwlock_unlock`. -/
def unlockWake : Wake Cond :=
  if rw.nwaitwriters > 0 then
    if rw.refcount = 0 then .signal .condwriters else .nobody
  else if rw.nwaitreaders > 0 then .broadcast .condreaders else .nobody

/-- `pthread_rwlock_unlock`; it dumps core if nobody holds the lock. -/
def unlock (held : Held) : Option Section :=
  checked rw held
    (if rw.refcount > 0 then
      let rw := { rw with refcount := rw.refcount - 1 }
      some ⟨rw, unlockWake rw, .out ⟨none, .nothing⟩⟩
    else if rw.refcount = -1 then
      let rw := { rw with refcount := 0 }
      some ⟨rw, unlockWake rw, .out ⟨none, .nothing⟩⟩
    else none)

/-- A thread asks for the lock when it holds nothing, and gives back what it holds. -/
inductive May : Result → Point → Prop
  | rdlock (e : Option Errno) : May ⟨e, .nothing⟩ .rdlock
  | wrlock (e : Option Errno) : May ⟨e, .nothing⟩ .wrlock
  | tryrdlock (e : Option Errno) : May ⟨e, .nothing⟩ .tryrdlock
  | trywrlock (e : Option Errno) : May ⟨e, .nothing⟩ .trywrlock
  | unlockReader (e : Option Errno) : May ⟨e, .reader⟩ (.unlock .reader)
  | unlockWriter (e : Option Errno) : May ⟨e, .writer⟩ (.unlock .writer)

def enter : Point → Rwlock → Option Section
  | .rdlock, rw => rdlock rw
  | .rdlockWaited, rw => some (rdlockWaited rw)
  | .wrlock, rw => wrlock rw
  | .wrlockWaited, rw => some (wrlockWaited rw)
  | .tryrdlock, rw => tryrdlock rw
  | .trywrlock, rw => trywrlock rw
  | .unlock held, rw => unlock rw held

def rwlock {τ : Type} : Monitor τ Rwlock Cond Point Result := ⟨enter, fun _ => May⟩

/-! ### The invariant -/

abbrev RwThread := Thread Cond Point Result

/-- A thread that holds the lock, until it has given it back. -/
def Holds (h : Held) : RwThread → Bool
  | .out w => w.held = h
  | .ready (.unlock held) | .asleep _ (.unlock held) => held = h
  | _ => false

def WaitsToRead : RwThread → Bool
  | .ready .rdlockWaited | .asleep _ .rdlockWaited => true
  | _ => false

def WaitsToWrite : RwThread → Bool
  | .ready .wrlockWaited | .asleep _ .wrlockWaited => true
  | _ => false

lemma waitsToRead_iff {x : RwThread} :
    WaitsToRead x = true ↔ x = .ready .rdlockWaited ∨ ∃ k, x = .asleep k .rdlockWaited := by
  cases x with
  | out w => simp [WaitsToRead]
  | ready p => cases p <;> simp [WaitsToRead]
  | asleep k p => cases p <;> simp [WaitsToRead]

lemma waitsToWrite_iff {x : RwThread} :
    WaitsToWrite x = true ↔ x = .ready .wrlockWaited ∨ ∃ k, x = .asleep k .wrlockWaited := by
  cases x with
  | out w => simp [WaitsToWrite]
  | ready p => cases p <;> simp [WaitsToWrite]
  | asleep k p => cases p <;> simp [WaitsToWrite]

abbrev RwConf (τ : Type) := Conf τ Rwlock Cond Point Result

variable {τ : Type} [Fintype τ]

def start : RwConf τ := ⟨rwlockInit, fun _ => .out ⟨none, .nothing⟩⟩

/-- `refcount` tells who holds the lock: so many readers, or one writer. -/
def Counts (refcount : ℤ) (readers writers : ℕ) : Prop :=
  refcount = readers ∧ writers = 0 ∨ refcount = -1 ∧ readers = 0 ∧ writers = 1

structure Inv (c : RwConf τ) : Prop where
  magic : c.state.magic = RW_MAGIC
  waitreaders : c.state.nwaitreaders = count WaitsToRead c.thread
  waitwriters : c.state.nwaitwriters = count WaitsToWrite c.thread
  point : ∀ t k p, c.thread t = .asleep k p →
    k = .condreaders ∧ p = .rdlockWaited ∨ k = .condwriters ∧ p = .wrlockWaited
  unlocks : ∀ t h, c.thread t = .ready (.unlock h) → h = .reader ∨ h = .writer
  held : Counts c.state.refcount (count (Holds .reader) c.thread) (count (Holds .writer) c.thread)
  readers : ∀ t p, c.thread t = .asleep .condreaders p →
    c.state.refcount < 0 ∨ 0 < c.state.nwaitwriters
  writers : ∀ t p, c.thread t = .asleep .condwriters p →
    c.state.refcount ≠ 0 ∨ ∃ u, c.thread u = .ready .wrlockWaited

lemma inv_start : Inv (start : RwConf τ) := by
  refine ⟨rfl, ?_, ?_, ?_, ?_, .inl ⟨?_, ?_⟩, ?_, ?_⟩ <;>
    simp [start, rwlockInit, count, total, WaitsToRead, WaitsToWrite, Holds]

variable {c : RwConf τ} {t u : τ} {p q : Point}

lemma Inv.reader_waits (hinv : Inv c) (hu : c.thread u = .asleep .condreaders q) :
    0 < c.state.nwaitreaders := by
  obtain rfl : q = .rdlockWaited := by simpa using hinv.point u _ q hu
  have : 0 < count WaitsToRead c.thread :=
    count_pos_iff.mpr ⟨u, by rw [hu]; rfl⟩
  rw [hinv.waitreaders]
  omega

lemma Inv.writer_waits (hinv : Inv c) (hu : c.thread u = .asleep .condwriters q) :
    0 < c.state.nwaitwriters := by
  obtain rfl : q = .wrlockWaited := by simpa using hinv.point u _ q hu
  have : 0 < count WaitsToWrite c.thread :=
    count_pos_iff.mpr ⟨u, by rw [hu]; rfl⟩
  rw [hinv.waitwriters]
  omega

/-! ### What a thread does when it enters -/

section Sections

variable {rw : Rwlock} {o : Section}

/-- The six things that can happen. A thread that has waited is no longer counted as waiting. -/
inductive Does (rw : Rwlock) : Point → Section → Prop
  | waitsToRead {p : Point} {n : ℤ} (hp : p = .rdlock ∨ p = .rdlockWaited)
      (hn : n + (WaitsToRead (.ready p)).toNat = rw.nwaitreaders + 1)
      (h : rw.refcount < 0 ∨ 0 < rw.nwaitwriters) :
      Does rw p ⟨{ rw with nwaitreaders := n }, .nobody, .asleep .condreaders .rdlockWaited⟩
  | reads {p : Point} {n : ℤ} (hp : p = .rdlock ∨ p = .rdlockWaited ∨ p = .tryrdlock)
      (hn : n + (WaitsToRead (.ready p)).toNat = rw.nwaitreaders)
      (hcount : 0 ≤ rw.refcount) (hwait : rw.nwaitwriters ≤ 0) :
      Does rw p ⟨{ rw with nwaitreaders := n, refcount := rw.refcount + 1 }, .nobody,
        .out ⟨none, .reader⟩⟩
  | waitsToWrite {p : Point} {n : ℤ} (hp : p = .wrlock ∨ p = .wrlockWaited)
      (hn : n + (WaitsToWrite (.ready p)).toNat = rw.nwaitwriters + 1) (h : rw.refcount ≠ 0) :
      Does rw p ⟨{ rw with nwaitwriters := n }, .nobody, .asleep .condwriters .wrlockWaited⟩
  | writes {p : Point} {n : ℤ} (hp : p = .wrlock ∨ p = .wrlockWaited ∨ p = .trywrlock)
      (hn : n + (WaitsToWrite (.ready p)).toNat = rw.nwaitwriters) (h : rw.refcount = 0) :
      Does rw p ⟨{ rw with nwaitwriters := n, refcount := -1 }, .nobody, .out ⟨none, .writer⟩⟩
  | busy {p : Point} (hp : p = .tryrdlock ∨ p = .trywrlock ∧ rw.refcount ≠ 0) :
      Does rw p ⟨rw, .nobody, .out ⟨some .EBUSY, .nothing⟩⟩
  | unlocks {held : Held} {r : ℤ}
      (hr : 0 < rw.refcount ∧ r = rw.refcount - 1 ∨ rw.refcount = -1 ∧ r = 0) :
      Does rw (.unlock held) ⟨{ rw with refcount := r }, unlockWake { rw with refcount := r },
        .out ⟨none, .nothing⟩⟩

lemma does_rdlockLoop {n : ℤ} (hp : p = .rdlock ∨ p = .rdlockWaited)
    (hn : n + (WaitsToRead (.ready p)).toNat = rw.nwaitreaders) :
    Does rw p (rdlockLoop { rw with nwaitreaders := n }) := by
  unfold rdlockLoop
  split
  · next h => exact .waitsToRead hp (by dsimp only; omega) h
  · next h =>
    obtain ⟨hcount, hwait⟩ := not_or.mp h
    exact .reads (hp.imp_right .inl) hn (not_lt.mp hcount) (not_lt.mp hwait)

lemma does_wrlockLoop {n : ℤ} (hp : p = .wrlock ∨ p = .wrlockWaited)
    (hn : n + (WaitsToWrite (.ready p)).toNat = rw.nwaitwriters) :
    Does rw p (wrlockLoop { rw with nwaitwriters := n }) := by
  unfold wrlockLoop
  split
  · next h => exact .waitsToWrite hp (by dsimp only; omega) h
  · next h => exact .writes (hp.imp_right .inl) hn (not_not.mp h)

/-- **What a function does** with a lock that has been initialised. -/
lemma run_does (hmagic : rw.magic = RW_MAGIC) (hrun : enter p rw = some o) : Does rw p o := by
  have hchecked (held : Held) (body : Option Section) : checked rw held body = body := by
    rw [checked, if_neg (not_not.mpr hmagic)]
  cases p with
  | rdlock =>
    simp only [enter, rdlock, hchecked, Option.some.injEq] at hrun
    subst hrun
    exact does_rdlockLoop (.inl rfl) (by simp [WaitsToRead])
  | rdlockWaited =>
    cases hrun
    exact does_rdlockLoop (.inr rfl) (by simp [WaitsToRead])
  | wrlock =>
    simp only [enter, wrlock, hchecked, Option.some.injEq] at hrun
    subst hrun
    exact does_wrlockLoop (.inl rfl) (by simp [WaitsToWrite])
  | wrlockWaited =>
    cases hrun
    exact does_wrlockLoop (.inr rfl) (by simp [WaitsToWrite])
  | tryrdlock =>
    simp only [enter, tryrdlock, hchecked] at hrun
    split at hrun <;> cases hrun
    · exact .busy (.inl rfl)
    · next h =>
      obtain ⟨hcount, hwait⟩ := not_or.mp h
      exact .reads (.inr (.inr rfl)) (by simp [WaitsToRead]) (not_lt.mp hcount) (not_lt.mp hwait)
  | trywrlock =>
    simp only [enter, trywrlock, hchecked] at hrun
    split at hrun <;> cases hrun
    · next h => exact .busy (.inr ⟨rfl, h⟩)
    · next h => exact .writes (.inr (.inr rfl)) (by simp [WaitsToWrite]) (not_not.mp h)
  | unlock held =>
    simp only [enter, unlock, hchecked] at hrun
    split at hrun
    · next h =>
      cases hrun
      exact .unlocks (.inl ⟨h, rfl⟩)
    · split at hrun <;> cases hrun
      next h => exact .unlocks (.inr ⟨h, rfl⟩)

/-- Only `pthread_rwlock_unlock` can dump core, when nobody holds the lock. -/
lemma run_none (hrun : enter p rw = none) :
    ∃ held, p = .unlock held ∧ ¬0 < rw.refcount ∧ rw.refcount ≠ -1 := by
  cases p with
  | unlock held =>
    refine ⟨held, rfl, ?_⟩
    simp only [enter, unlock, checked] at hrun
    split_ifs at hrun with _ hpos hneg
    exact ⟨hpos, hneg⟩
  | rdlock | wrlock =>
    simp only [enter, rdlock, wrlock, checked] at hrun
    split_ifs at hrun
  | rdlockWaited | wrlockWaited => cases hrun
  | tryrdlock | trywrlock =>
    simp only [enter, tryrdlock, trywrlock, checked] at hrun
    split_ifs at hrun

lemma Does.magic (h : Does rw p o) : o.state.magic = rw.magic := by
  cases h <;> rfl

lemma Does.waits (h : Does rw p o) :
    o.state.nwaitreaders + (WaitsToRead (.ready p)).toNat =
      rw.nwaitreaders + (WaitsToRead o.thread).toNat ∧
    o.state.nwaitwriters + (WaitsToWrite (.ready p)).toNat =
      rw.nwaitwriters + (WaitsToWrite o.thread).toNat := by
  cases h with
  | waitsToRead hp hn => rcases hp with rfl | rfl <;> exact ⟨hn, rfl⟩
  | reads hp hn => rcases hp with rfl | rfl | rfl <;> exact ⟨hn.trans (add_zero _).symm, rfl⟩
  | waitsToWrite hp hn => rcases hp with rfl | rfl <;> exact ⟨rfl, hn⟩
  | writes hp hn => rcases hp with rfl | rfl | rfl <;> exact ⟨rfl, hn.trans (add_zero _).symm⟩
  | busy hp => rcases hp with rfl | ⟨rfl, -⟩ <;> exact ⟨rfl, rfl⟩
  | unlocks => exact ⟨rfl, rfl⟩

lemma Does.counts {r w r' w' : ℕ} (hdoes : Does rw p o) (h : Counts rw.refcount r w)
    (hr : r' + (Holds .reader (.ready p)).toNat = r + (Holds .reader o.thread).toNat)
    (hw : w' + (Holds .writer (.ready p)).toNat = w + (Holds .writer o.thread).toNat)
    (hp : ∀ held, p = .unlock held → held = .reader ∨ held = .writer) :
    Counts o.state.refcount r' w' := by
  unfold Counts at *
  cases hdoes with
  | waitsToRead hp' => rcases hp' with rfl | rfl <;> simp [Holds] at hr hw ⊢ <;> omega
  | reads hp' => rcases hp' with rfl | rfl | rfl <;> simp [Holds] at hr hw ⊢ <;> omega
  | waitsToWrite hp' => rcases hp' with rfl | rfl <;> simp [Holds] at hr hw ⊢ <;> omega
  | writes hp' => rcases hp' with rfl | rfl | rfl <;> simp [Holds] at hr hw ⊢ <;> omega
  | busy hp' => rcases hp' with rfl | ⟨rfl, -⟩ <;> simp [Holds] at hr hw ⊢ <;> omega
  | unlocks => rcases hp _ rfl with rfl | rfl <;> simp [Holds] at hr hw ⊢ <;> omega

end Sections

/-! ### Some runs -/

/-- One thread has the lock for writing, another one waits to read. -/
lemma exists_writer : ∃ es c, Run rwlock (start : RwConf Bool) es c ∧
    c.thread false = .out ⟨none, .writer⟩ ∧ c.thread true = .asleep .condreaders .rdlockWaited ∧
    c.state = ⟨RW_MAGIC, 1, 0, -1⟩ :=
  ⟨_, _, .tail (.tail (.tail (.tail .refl (.call (t := false) rfl (May.wrlock none)))
    (.enter (t := false) rfl rfl .nobody)) (.call (t := true) rfl (May.rdlock none)))
    (.enter (t := true) rfl rfl .nobody), rfl, rfl, rfl⟩

lemma exists_released : ∃ es c, Run rwlock (start : RwConf Bool) es c ∧
    c.thread false = .out ⟨none, .nothing⟩ ∧ c.thread true = .ready .rdlockWaited := by
  obtain ⟨es, c, hrun, h₀, h₁, hstate⟩ := exists_writer
  have hwake : Wakes (.broadcast .condreaders)
      (Function.update c.thread false (.ready (.unlock .writer)))
      (fun t => if t = false then .ready (.unlock .writer) else .ready .rdlockWaited) := by
    refine .all (fun t p ht => ?_) fun t ht => ?_
    · cases t with
      | false => cases ht
      | true =>
        cases h₁.symm.trans ht
        rfl
    · cases t with
      | false => rfl
      | true => exact absurd h₁ (ht _)
  refine ⟨_, _, .tail (.tail hrun (.call (t := false) h₀ (May.unlockWriter none)))
    (.enter (t := false) (p := .unlock .writer) (o := ⟨⟨RW_MAGIC, 1, 0, 0⟩, .broadcast .condreaders,
      .out ⟨none, .nothing⟩⟩) rfl (by rw [hstate]; rfl) hwake), rfl, rfl⟩

/-- One thread has the lock for reading, another one waits to write. -/
lemma exists_reader : ∃ es c, Run rwlock (start : RwConf Bool) es c ∧
    c.thread false = .out ⟨none, .reader⟩ ∧ c.thread true = .asleep .condwriters .wrlockWaited :=
  ⟨_, _, .tail (.tail (.tail (.tail .refl (.call (t := false) rfl (May.rdlock none)))
    (.enter (t := false) rfl rfl .nobody)) (.call (t := true) rfl (May.wrlock none)))
    (.enter (t := true) rfl rfl .nobody), rfl, rfl⟩

/-! ### Steps -/

lemma Inv.refcount_zero (hinv : Inv c)
    (hfree : ∀ t, Holds .reader (c.thread t) = false ∧ Holds .writer (c.thread t) = false) :
    c.state.refcount = 0 := by
  have hnone {h : Held} (hh : ∀ t, Holds h (c.thread t) = false) :
      count (Holds h) c.thread = 0 := by
    by_contra hne
    obtain ⟨t, ht⟩ := count_pos_iff.mp (Nat.pos_of_ne_zero hne)
    rw [hh t] at ht
    cases ht
  have hheld := hinv.held
  rw [Counts, hnone fun t => (hfree t).1, hnone fun t => (hfree t).2] at hheld
  omega

section Steps

variable [DecidableEq τ] {c' : RwConf τ} {th : τ → RwThread} {o : Section} {es : List (τ × RwEvent)}

/-- Readers wait for a writer only. -/
lemma Inv.readers_enter (hinv : Inv c) (hdoes : Does c.state p o) (hw : Wakes o.wake c.thread th)
    (hu : Function.update th t o.thread u = .asleep .condreaders q) :
    o.state.refcount < 0 ∨ 0 < o.state.nwaitwriters := by
  have hnonneg : 0 ≤ c.state.nwaitwriters := by
    rw [hinv.waitwriters]
    omega
  rcases hw.asleep_enter hu with hself | ⟨hold, hstill⟩
  · cases hdoes <;> cases hself
    assumption
  have hwhy := hinv.readers u q hold
  cases hdoes with
  | waitsToRead => exact hwhy
  | reads _ _ hcount hwait => omega
  | waitsToWrite hp hn =>
    rcases hp with rfl | rfl <;> simp [WaitsToWrite] at hn <;> dsimp only <;> omega
  | writes => exact .inl (show (-1 : ℤ) < 0 by decide)
  | busy => exact hwhy
  | @unlocks held r hr =>
    by_cases hwait : 0 < c.state.nwaitwriters
    · exact .inr hwait
    · -- all readers have been woken
      have hreader := hinv.reader_waits hold
      rw [unlockWake, if_neg hwait, if_pos hreader] at hw
      cases hw with
      | all h _ =>
        rw [h u q hold] at hstill
        cases hstill

/-- Writers wait for a holder, or for a writer that has been woken. -/
lemma Inv.writers_enter (hinv : Inv c) (ht : c.thread t = .ready p) (hdoes : Does c.state p o)
    (hw : Wakes o.wake c.thread th)
    (hu : Function.update th t o.thread u = .asleep .condwriters q) :
    o.state.refcount ≠ 0 ∨ ∃ u, Function.update th t o.thread u = .ready .wrlockWaited := by
  rcases hw.asleep_enter hu with hself | ⟨hold, hstill⟩
  · cases hdoes <;> cases hself
    exact .inl ‹_›
  -- a woken writer is still there unless it is the one that has entered
  have hstays (hne : p ≠ .wrlockWaited) (hwoken : ∃ u, c.thread u = .ready .wrlockWaited) :
      ∃ u, Function.update th t o.thread u = .ready .wrlockWaited := by
    obtain ⟨v, hv⟩ := hwoken
    have hvt : v ≠ t := by
      rintro rfl
      rw [hv] at ht
      cases ht
      exact hne rfl
    exact ⟨v, by rw [Function.update_of_ne hvt, hw.same_of_not_asleep (by simp [hv]), hv]⟩
  have hwhy := hinv.writers u q hold
  cases hdoes with
  | waitsToRead hp => exact hwhy.imp_right (hstays (by rcases hp with rfl | rfl <;> simp))
  | reads _ _ hcount => exact .inl (by dsimp only; omega)
  | waitsToWrite _ _ h => exact .inl h
  | writes => exact .inl (show (-1 : ℤ) ≠ 0 by decide)
  | busy hp => exact hwhy.imp_right (hstays (by rcases hp with rfl | ⟨rfl, -⟩ <;> simp))
  | @unlocks held r hr =>
    by_cases hzero : r = 0
    · have hwriter := hinv.writer_waits hold
      rw [unlockWake, if_pos hwriter, if_pos hzero] at hw
      cases hw with
      | none h => exact absurd hold (h u q)
      | @one _ _ v q' hv =>
        obtain rfl : q' = .wrlockWaited := by simpa using hinv.point v _ q' hv
        have hvt : v ≠ t := by
          rintro rfl
          rw [hv] at ht
          cases ht
        exact .inr ⟨v, by rw [Function.update_of_ne hvt, Function.update_self]⟩
    · exact .inl hzero

lemma Inv.readied (hinv : Inv c) (hout : ∀ q, c.thread t ≠ .ready q)
    (h₁ : WaitsToRead (c.thread t) = WaitsToRead (.ready p))
    (h₂ : WaitsToWrite (c.thread t) = WaitsToWrite (.ready p))
    (h₃ : ∀ held ≠ .nothing, Holds held (c.thread t) = Holds held (.ready p))
    (hp : ∀ held, p = .unlock held → held = .reader ∨ held = .writer) :
    Inv ⟨c.state, Function.update c.thread t (.ready p)⟩ := by
  have hcount {P : RwThread → Bool} (hP : P (c.thread t) = P (.ready p)) :
      count P (Function.update c.thread t (.ready p)) = count P c.thread :=
    count_update_of_eq hP.symm
  have hasleep {u : τ} {k : Cond} {q : Point}
      (hu : Function.update c.thread t (.ready p) u = .asleep k q) : c.thread u = .asleep k q := by
    by_cases hut : u = t
    · rw [hut, Function.update_self] at hu
      cases hu
    · rwa [Function.update_of_ne hut] at hu
  obtain ⟨hmagic, hr, hw, hpoint, hunlocks, hheld, hreaders, hwriters⟩ := hinv
  refine ⟨hmagic, by rw [hcount h₁]; exact hr, by rw [hcount h₂]; exact hw,
    fun u k q hu => hpoint u k q (hasleep hu), fun u h hu => ?_, ?_,
    fun u q hu => hreaders u q (hasleep hu), fun u q hu => ?_⟩
  · dsimp only at hu
    by_cases hut : u = t
    · rw [hut, Function.update_self] at hu
      cases hu
      exact hp h rfl
    · rw [Function.update_of_ne hut] at hu
      exact hunlocks u h hu
  · rw [hcount (h₃ .reader (by decide)), hcount (h₃ .writer (by decide))]
    exact hheld
  · refine (hwriters u q (hasleep hu)).imp_right ?_
    rintro ⟨v, hv⟩
    have hvt : v ≠ t := by
      rintro rfl
      exact hout _ hv
    exact ⟨v, (Function.update_of_ne hvt ..).trans hv⟩

lemma Inv.entered (hinv : Inv c) (ht : c.thread t = .ready p)
    (hrun : enter p c.state = some o) (hw : Wakes o.wake c.thread th) :
    Inv ⟨o.state, Function.update th t o.thread⟩ := by
  have hdoes := run_does hinv.magic hrun
  have h₁ := count_enter (P := WaitsToRead) (fun k p => by cases p <;> rfl) hw ht o.thread
  have h₂ := count_enter (P := WaitsToWrite) (fun k p => by cases p <;> rfl) hw ht o.thread
  have h₃ := count_enter (P := Holds .reader) (fun k p => by cases p <;> rfl) hw ht o.thread
  have h₄ := count_enter (P := Holds .writer) (fun k p => by cases p <;> rfl) hw ht o.thread
  obtain ⟨hwait₁, hwait₂⟩ := hdoes.waits
  have hr := hinv.waitreaders
  have hwr := hinv.waitwriters
  refine ⟨by rw [hdoes.magic, hinv.magic], by dsimp only; omega, by dsimp only; omega,
    fun u k q hu => ?_, fun u h hu => ?_,
    hdoes.counts hinv.held h₃ h₄ fun held hp => hinv.unlocks t held (hp ▸ ht),
    fun u q hu => hinv.readers_enter hdoes hw hu, fun u q hu => hinv.writers_enter ht hdoes hw hu⟩
  · rcases hw.asleep_enter hu with hself | ⟨hold, -⟩
    · cases hdoes <;> cases hself
      · exact .inl ⟨rfl, rfl⟩
      · exact .inr ⟨rfl, rfl⟩
    · exact hinv.point u k q hold
  · dsimp only at hu
    by_cases hut : u = t
    · rw [hut, Function.update_self] at hu
      cases hdoes <;> cases hu
    · rw [Function.update_of_ne hut] at hu
      rcases hw.same_or_woken u with hsame | ⟨k, q, hold, hwoken⟩
      · exact hinv.unlocks u h (hsame ▸ hu)
      · rw [hwoken] at hu
        cases hu
        simpa using hinv.point u k _ hold

/-- **Every step keeps the invariant.** -/
lemma Inv.step {e : List (τ × RwEvent)} (hinv : Inv c) (hstep : Step rwlock c e c') : Inv c' := by
  cases hstep with
  | call ht hmay =>
    have hmay : May _ _ := hmay
    refine hinv.readied (by simp [ht]) ?_ ?_ (fun held hne => ?_) fun held hp => ?_
    · rw [ht]
      cases hmay <;> rfl
    · rw [ht]
      cases hmay <;> rfl
    · rw [ht]
      cases hmay <;> simp [Holds, hne.symm]
    · subst hp
      cases hmay
      · exact .inl rfl
      · exact .inr rfl
  | enter ht hrun hw => exact hinv.entered ht hrun hw
  | spurious ht =>
    refine hinv.readied (by simp [ht]) ?_ ?_ (fun held _ => ?_) fun held hp => ?_
    · rw [ht]
      rcases hinv.point _ _ _ ht with ⟨-, rfl⟩ | ⟨-, rfl⟩ <;> rfl
    · rw [ht]
      rcases hinv.point _ _ _ ht with ⟨-, rfl⟩ | ⟨-, rfl⟩ <;> rfl
    · rw [ht]
      rcases hinv.point _ _ _ ht with ⟨-, rfl⟩ | ⟨-, rfl⟩ <;> rfl
    · subst hp
      simpa using hinv.point _ _ _ ht

lemma inv_of_run (hrun : Run rwlock start es c) : Inv c :=
  hrun.invariant (P := fun _ c => Inv c) inv_start fun _ _ _ _ _ hinv hstep => hinv.step hstep

/-! ### What the calls return -/

def called : Point → Point
  | .rdlockWaited => .rdlock
  | .wrlockWaited => .wrlock
  | p => p

/-- What a lock with this `refcount` does when it is called: a call that returns 0 has got the lock
or given it back, and `EBUSY` leaves the caller with nothing. -/
inductive Effect : Point → ℤ → Result → ℤ → Prop
  | reads {p : Point} {r : ℤ} (hp : p = .rdlock ∨ p = .tryrdlock) (h : 0 ≤ r) :
      Effect p r ⟨none, .reader⟩ (r + 1)
  | writes {p : Point} (hp : p = .wrlock ∨ p = .trywrlock) : Effect p 0 ⟨none, .writer⟩ (-1)
  | busy {p : Point} {r : ℤ} (hp : p = .tryrdlock ∨ p = .trywrlock ∧ r ≠ 0) :
      Effect p r ⟨some .EBUSY, .nothing⟩ r
  | unlocks {held : Held} {r r' : ℤ} (hr : 0 < r ∧ r' = r - 1 ∨ r = -1 ∧ r' = 0) :
      Effect (.unlock held) r ⟨none, .nothing⟩ r'

lemma Does.serves {rw : Rwlock} {o : Section} (h : Does rw p o) :
    Serves Effect (fun p call => call = called p) (called p) rw.refcount o.state.refcount
      o.thread := by
  cases h with
  | waitsToRead hp => rcases hp with rfl | rfl <;> exact ⟨rfl, rfl⟩
  | waitsToWrite hp => rcases hp with rfl | rfl <;> exact ⟨rfl, rfl⟩
  | reads hp _ hcount =>
    refine .reads ?_ hcount
    rcases hp with rfl | rfl | rfl
    · exact .inl rfl
    · exact .inl rfl
    · exact .inr rfl
  | writes hp _ hzero =>
    rw [hzero]
    refine .writes ?_
    rcases hp with rfl | rfl | rfl
    · exact .inl rfl
    · exact .inl rfl
    · exact .inr rfl
  | busy hp =>
    refine .busy ?_
    rcases hp with rfl | ⟨rfl, hne⟩
    · exact .inl rfl
    · exact .inr ⟨rfl, hne⟩
  | unlocks hr => exact .unlocks hr

omit [Fintype τ] in
/-- **The lock is an atomic object**: whatever the interleaving, the calls return what they return
when they are made one after the other. -/
theorem rwlock_atomic (hrun : Run rwlock start es c) :
    ∃ phase, Traces.Run (Atomic.Step Effect) (Atomic.start 0) es ⟨phase, c.state.refcount⟩ := by
  obtain ⟨⟨phase, r⟩, hatomic, ⟨-, rfl⟩, -⟩ := hrun.atomic Effect (fun p call => call = called p)
    (fun rw r => rw.magic = RW_MAGIC ∧ rw.refcount = r) ⟨rfl, rfl⟩
    (fun _ _ _ hmay => by cases (show May _ _ from hmay) <;> rfl)
    fun rw r p call o ⟨hmagic, hr⟩ hcall hrun => by
      subst hr hcall
      have hdoes := run_does hmagic hrun
      exact ⟨_, ⟨hdoes.magic.trans hmagic, rfl⟩, hdoes.serves⟩
  exact ⟨phase, hatomic⟩

/-- **A writer is alone** on every run, and `pthread_rwlock_unlock` never dumps core. -/
theorem rwlock_excludes (hrun : Run rwlock start es c) :
    ¬Faults rwlock c ∧ ∀ t u, Holds .writer (c.thread t) = true →
      Holds .reader (c.thread u) = true ∨ Holds .writer (c.thread u) = true → u = t := by
  have hinv := inv_of_run hrun
  refine ⟨?_, fun t u ht hu => ?_⟩
  · rintro ⟨t, p, ht, hnone⟩
    obtain ⟨held, rfl, hcount⟩ := run_none hnone
    have hheld := hinv.held
    unfold Counts at hheld
    rcases hinv.unlocks t held ht with rfl | rfl
    · have : 0 < count (Holds .reader) c.thread := count_pos_iff.mpr ⟨t, by rw [ht]; rfl⟩
      omega
    · have : 0 < count (Holds .writer) c.thread := count_pos_iff.mpr ⟨t, by rw [ht]; rfl⟩
      omega
  · have hpos : 0 < count (Holds .writer) c.thread := count_pos_iff.mpr ⟨t, ht⟩
    have hheld := hinv.held
    unfold Counts at hheld
    rcases hu with hu | hu
    · have hreader : 0 < count (Holds .reader) c.thread := count_pos_iff.mpr ⟨u, hu⟩
      omega
    · exact eq_of_count_le_one (by omega) hu ht

theorem exists_writer_alone : ∃ es c, Run rwlock (start : RwConf Bool) es c ∧
    Holds .writer (c.thread false) = true ∧ ¬Faults rwlock c ∧ ∀ t u,
      Holds .writer (c.thread t) = true →
        Holds .reader (c.thread u) = true ∨ Holds .writer (c.thread u) = true → u = t := by
  obtain ⟨es, c, hrun, h₀, -⟩ := exists_writer
  exact ⟨es, c, hrun, by rw [h₀]; rfl, rwlock_excludes hrun⟩

/-- **No wake-up is lost.** When nobody holds the lock and threads wait for it, one of them has been
woken and gets it if it enters next. -/
theorem rwlock_no_lost_wakeup (hrun : Run rwlock start es c)
    (hfree : ∀ t, Holds .reader (c.thread t) = false ∧ Holds .writer (c.thread t) = false)
    (hwait : ∃ t, WaitsToRead (c.thread t) = true ∨ WaitsToWrite (c.thread t) = true) :
    ∃ t p o held, c.thread t = .ready p ∧ (p = .rdlockWaited ∨ p = .wrlockWaited) ∧
      enter p c.state = some o ∧ o.thread = .out ⟨none, held⟩ ∧ held ≠ .nothing := by
  have hinv := inv_of_run hrun
  have hzero := hinv.refcount_zero hfree
  by_cases hwriter : ∃ t, WaitsToWrite (c.thread t) = true
  · -- nobody holds the lock, so a writer that waits has been woken
    obtain ⟨t, ht⟩ : ∃ t, c.thread t = .ready .wrlockWaited := by
      obtain ⟨t, ht⟩ := hwriter
      rcases waitsToWrite_iff.mp ht with ht | ⟨k, ht⟩
      · exact ⟨t, ht⟩
      · obtain rfl : k = .condwriters := by simpa using hinv.point t k _ ht
        exact (hinv.writers t _ ht).resolve_left (not_not.mpr hzero)
    refine ⟨t, _, wrlockWaited c.state, .writer, ht, .inr rfl, rfl, ?_, by decide⟩
    rw [wrlockWaited, wrlockLoop, if_neg (not_not.mpr hzero)]
  · -- without writers there is a reader to be woken
    have hnone : c.state.nwaitwriters = 0 := by
      have hcount : count WaitsToWrite c.thread = 0 := by
        by_contra hne
        exact hwriter (count_pos_iff.mp (Nat.pos_of_ne_zero hne))
      rw [hinv.waitwriters, hcount]
      rfl
    obtain ⟨t, ht | ht⟩ := hwait
    · rcases waitsToRead_iff.mp ht with ht | ⟨k, ht⟩
      · refine ⟨t, _, rdlockWaited c.state, .reader, ht, .inl rfl, rfl, ?_, by decide⟩
        rw [rdlockWaited, rdlockLoop, if_neg (by dsimp only; omega)]
      · obtain rfl : k = .condreaders := by simpa using hinv.point t k _ ht
        have := hinv.readers t _ ht
        omega
    · exact absurd ⟨t, ht⟩ hwriter

theorem exists_reader_woken : ∃ es c, Run rwlock (start : RwConf Bool) es c ∧
    ∃ t p o held, c.thread t = .ready p ∧ (p = .rdlockWaited ∨ p = .wrlockWaited) ∧
      enter p c.state = some o ∧ o.thread = .out ⟨none, held⟩ ∧ held ≠ .nothing := by
  obtain ⟨es, c, hrun, h₀, h₁⟩ := exists_released
  refine ⟨es, c, hrun, rwlock_no_lost_wakeup hrun (fun t => ?_) ⟨true, .inl (by rw [h₁]; rfl)⟩⟩
  cases t with
  | false => exact ⟨by rw [h₀]; rfl, by rw [h₀]; rfl⟩
  | true => exact ⟨by rw [h₁]; rfl, by rw [h₁]; rfl⟩

/-- **Writers go first.** While one waits, no thread gets the lock for reading. -/
theorem rwlock_prefers_writers {e : List (τ × RwEvent)} (hrun : Run rwlock start es c)
    (hwriter : ∃ u, WaitsToWrite (c.thread u) = true) (hstep : Step rwlock c e c') (t : τ)
    (ht : Holds .reader (c'.thread t) = true) : Holds .reader (c.thread t) = true := by
  have hinv := inv_of_run hrun
  have hpos : 0 < c.state.nwaitwriters := by
    have := count_pos_iff.mpr hwriter
    rw [hinv.waitwriters]
    omega
  have hupdate {th : τ → RwThread} {u : τ} {x : RwThread}
      (ht : Holds .reader (Function.update th u x t) = true) :
      t = u ∧ Holds .reader x = true ∨ Holds .reader (th t) = true := by
    by_cases htu : t = u
    · subst htu
      rw [Function.update_self] at ht
      exact .inl ⟨rfl, ht⟩
    · rw [Function.update_of_ne htu] at ht
      exact .inr ht
  cases hstep with
  | call hout hmay =>
    rcases hupdate ht with ⟨rfl, hx⟩ | h
    · have hmay : May _ _ := hmay
      rw [hout]
      cases hmay <;> simp [Holds] at hx ⊢
    · exact h
  | enter hready hrun' hw =>
    rcases hupdate ht with ⟨rfl, hx⟩ | h
    · cases run_does hinv.magic hrun' with
      -- no reader gets in while a writer waits
      | reads _ _ _ hwait => omega
      | _ => simp [Holds] at hx
    · rcases hw.same_or_woken t with hsame | ⟨k, q, hold, hwoken⟩
      · rwa [← hsame]
      · rw [hwoken] at h
        rw [hold]
        rcases hinv.point t k q hold with ⟨-, rfl⟩ | ⟨-, rfl⟩ <;> exact h
  | spurious hasleep =>
    rcases hupdate ht with ⟨rfl, hx⟩ | h
    · rcases hinv.point t _ _ hasleep with ⟨-, rfl⟩ | ⟨-, rfl⟩ <;> cases hx
    · exact h

theorem exists_writer_first : ∃ es e c c', Run rwlock (start : RwConf Bool) es c ∧
    Step rwlock c e c' ∧ WaitsToWrite (c.thread true) = true ∧
    ∀ t, Holds .reader (c'.thread t) = true → Holds .reader (c.thread t) = true := by
  obtain ⟨es, c, hrun, h₀, h₁⟩ := exists_reader
  have hstep := Step.call (M := rwlock) h₀ (May.unlockReader none)
  have hwriter : WaitsToWrite (c.thread true) = true := by
    rw [h₁]
    rfl
  exact ⟨es, _, c, _, hrun, hstep, hwriter, rwlock_prefers_writers hrun ⟨true, hwriter⟩ hstep⟩

end Steps

end Zinzhi.RwLock
