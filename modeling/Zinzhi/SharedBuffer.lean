import Mathlib.Data.Nat.ModEq
import Zinzhi.Atomic
import Zinzhi.Counting
import Zinzhi.Threads

/-!
The bounded buffer `sbuf` through which the main thread of a server hands connections to its
workers: `sbuf_insert` and `sbuf_remove`, by any number of threads, interleaved between any two
statements.

A call takes effect at the statement that stores or takes an item, while the thread holds the lock.
-/

namespace Zinzhi.SharedBuffer

open Zinzhi.Atomic (Event Phase)
open Zinzhi.Counting Zinzhi.Threads

def INT_MAX : ℕ := 2147483647

structure Sbuf where
  buf : ℕ → ℤ
  n : ℕ
  front : ℕ
  rear : ℕ
  mutex : ℕ
  slots : ℕ
  items : ℕ

/-- `Calloc` clears the slots. -/
def sbufInit (n : ℕ) : Sbuf := ⟨fun _ => 0, n, 0, 0, 1, n, 0⟩

/-- The statement that a thread is about to execute. Outside, a thread has what its last
`sbuf_remove` returned. -/
inductive Point
  | out (removed : Option ℤ)
  | insertSlots (item : ℤ)
  | insertLock (item : ℤ)
  | insertStore (item : ℤ)
  | insertUnlock
  | insertItems
  | removeItems
  | removeLock
  | removeTake
  | removeUnlock (item : ℤ)
  | removeSlots (item : ℤ)
deriving DecidableEq, Repr

inductive Call
  | insert (item : ℤ)
  | remove
deriving DecidableEq, Repr

/-- `sbuf_insert` returns nothing. -/
abbrev SbufEvent := Event Call (Option ℤ)

/-- `P(&sem)` waits for the semaphore to be positive. -/
def acquire (sem : ℕ) (s : Sbuf) (p : Point) : Move Sbuf Point SbufEvent :=
  if sem = 0 then .blocked else .goes s p []

def next : Point → Sbuf → Move Sbuf Point SbufEvent
  | .out _, _ => .blocked
  | .insertSlots item, sp => acquire sp.slots { sp with slots := sp.slots - 1 } (.insertLock item)
  | .insertLock item, sp => acquire sp.mutex { sp with mutex := sp.mutex - 1 } (.insertStore item)
  | .insertStore item, sp =>
    -- `++sp->rear` of an `int`
    if INT_MAX ≤ sp.rear then .fault
    else .goes { sp with
        rear := sp.rear + 1
        buf := Function.update sp.buf ((sp.rear + 1) % sp.n) item } .insertUnlock []
  | .insertUnlock, sp => .goes { sp with mutex := sp.mutex + 1 } .insertItems []
  | .insertItems, sp => .goes { sp with items := sp.items + 1 } (.out none) [.ret none]
  | .removeItems, sp => acquire sp.items { sp with items := sp.items - 1 } .removeLock
  | .removeLock, sp => acquire sp.mutex { sp with mutex := sp.mutex - 1 } .removeTake
  | .removeTake, sp =>
    if INT_MAX ≤ sp.front then .fault
    else
      let item := sp.buf ((sp.front + 1) % sp.n)
      .goes { sp with front := sp.front + 1 } (.removeUnlock item) []
  | .removeUnlock item, sp => .goes { sp with mutex := sp.mutex + 1 } (.removeSlots item) []
  | .removeSlots item, sp =>
    .goes { sp with slots := sp.slots + 1 } (.out (some item)) [.ret (some item)]

/-- A thread that is outside calls `sbuf_insert` or `sbuf_remove`. -/
inductive Calls : Point → List SbufEvent → Point → Prop
  | insert {r : Option ℤ} (item : ℤ) :
      Calls (.out r) [.call (.insert item)] (.insertSlots item)
  | remove {r : Option ℤ} : Calls (.out r) [.call .remove] .removeItems

def sbuf : Program Sbuf Point SbufEvent := ⟨fun p sp m => next p sp = m, Calls⟩

variable {τ : Type*}

def start (n : ℕ) : Conf τ Sbuf Point := ⟨sbufInit n, fun _ => .out none⟩

/-- How often `sbuf_insert` has been called. -/
def inserts (es : List (τ × SbufEvent)) : ℕ :=
  es.countP fun | (_, .call (.insert _)) => true | _ => false

lemma inserts_append (es e : List (τ × SbufEvent)) : inserts (es ++ e) = inserts es + inserts e :=
  List.countP_append ..

/-! ### What the buffer is for -/

/-- A queue with room for `n` items. -/
inductive Effect (n : ℕ) : Call → List ℤ → Option ℤ → List ℤ → Prop
  | insert {item : ℤ} {q : List ℤ} (hroom : q.length < n) :
      Effect n (.insert item) q none (q ++ [item])
  | remove {item : ℤ} {q : List ℤ} : Effect n .remove (item :: q) (some item) q

def phaseOf : Point → Phase Call (Option ℤ)
  | .out _ => .idle
  | .insertSlots item | .insertLock item | .insertStore item => .called (.insert item)
  | .insertUnlock | .insertItems => .done none
  | .removeItems | .removeLock | .removeTake => .called .remove
  | .removeUnlock item | .removeSlots item => .done (some item)

def Sbuf.length (sp : Sbuf) : ℕ := sp.rear - sp.front

def Sbuf.contents (sp : Sbuf) : List ℤ :=
  (List.range sp.length).map fun i => sp.buf ((sp.front + i + 1) % sp.n)

@[simp] lemma length_contents (sp : Sbuf) : sp.contents.length = sp.length := by
  simp [Sbuf.contents]

/-- The queue that the buffer stands for. -/
def queueOf (c : Conf τ Sbuf Point) : Atomic.Conf τ Call (Option ℤ) (List ℤ) :=
  ⟨fun t => phaseOf (c.point t), c.state.contents⟩

/-! ### Where the threads are -/

/-- The thread has locked the buffer. -/
def Locks : Point → Bool
  | .insertStore _ | .insertUnlock | .removeTake | .removeUnlock _ => true
  | _ => false

/-- The thread has a slot to store in. -/
def Claims : Point → Bool
  | .insertLock _ | .insertStore _ => true
  | _ => false

/-- The thread has stored an item and not announced it. -/
def Offers : Point → Bool
  | .insertUnlock | .insertItems => true
  | _ => false

/-- The thread has an item to take. -/
def Reserves : Point → Bool
  | .removeLock | .removeTake => true
  | _ => false

/-- The thread has taken an item and not announced the slot. -/
def Vacates : Point → Bool
  | .removeUnlock _ | .removeSlots _ => true
  | _ => false

/-- The thread has called `sbuf_insert` and not stored its item. -/
def Inserting : Point → Bool
  | .insertSlots _ | .insertLock _ | .insertStore _ => true
  | _ => false

variable [Fintype τ] [DecidableEq τ] {n : ℕ} {c c' : Conf τ Sbuf Point}
  {es e : List (τ × SbufEvent)} {t : τ} {p q : Point}

/-- Each thread between its two semaphores stands for one item or one slot. -/
structure Inv (n : ℕ) (es : List (τ × SbufEvent)) (c : Conf τ Sbuf Point) : Prop where
  size : c.state.n = n
  mutex : c.state.mutex + count Locks c.point = 1
  items : c.state.front + c.state.items + count Offers c.point + count Reserves c.point =
    c.state.rear
  slots : c.state.rear + c.state.slots + count Claims c.point + count Vacates c.point =
    c.state.front + n
  called : c.state.rear + count Inserting c.point = inserts es

omit [DecidableEq τ] in
lemma inv_start : Inv n ([] : List (τ × SbufEvent)) (start n) where
  size := rfl
  mutex := by rw [start, count_const _ rfl]; rfl
  items := by rw [start, count_const _ rfl, count_const _ rfl]; rfl
  slots := by rw [start, count_const _ rfl, count_const _ rfl]; simp [sbufInit]
  called := by rw [start, count_const _ rfl]; rfl

lemma counts_update (hp : c.point t = p) (q : Point) :
    count Locks (Function.update c.point t q) + (Locks p).toNat =
      count Locks c.point + (Locks q).toNat ∧
    count Claims (Function.update c.point t q) + (Claims p).toNat =
      count Claims c.point + (Claims q).toNat ∧
    count Offers (Function.update c.point t q) + (Offers p).toNat =
      count Offers c.point + (Offers q).toNat ∧
    count Reserves (Function.update c.point t q) + (Reserves p).toNat =
      count Reserves c.point + (Reserves q).toNat ∧
    count Vacates (Function.update c.point t q) + (Vacates p).toNat =
      count Vacates c.point + (Vacates q).toNat ∧
    count Inserting (Function.update c.point t q) + (Inserting p).toNat =
      count Inserting c.point + (Inserting q).toNat := by
  subst hp
  exact ⟨count_update .., count_update .., count_update .., count_update .., count_update ..,
    count_update ..⟩

/-! ### What a step does -/

lemma acquire_eq_goes {sem : ℕ} {sp s : Sbuf} {evs : List SbufEvent}
    (h : acquire sem sp p = .goes s q evs) : 0 < sem ∧ s = sp ∧ q = p ∧ evs = [] := by
  unfold acquire at h
  split_ifs at h with hsem
  cases h
  exact ⟨Nat.pos_of_ne_zero hsem, rfl, rfl, rfl⟩

lemma acquire_eq_blocked_iff {sem : ℕ} {sp : Sbuf} : acquire sem sp p = .blocked ↔ sem = 0 := by
  unfold acquire
  split_ifs with h <;> simp [h]

lemma acquire_ne_fault {sem : ℕ} {sp : Sbuf} : acquire sem sp p ≠ .fault := by
  unfold acquire
  split_ifs <;> simp

lemma overflow_of_next {sp : Sbuf} (h : next p sp = .fault) :
    (∃ item, p = .insertStore item) ∧ INT_MAX ≤ sp.rear ∨ p = .removeTake ∧ INT_MAX ≤ sp.front := by
  cases p <;> simp_all [next, acquire_ne_fault]

lemma point_of_blocked {sp : Sbuf} (h : next p sp = .blocked) :
    (∃ r, p = .out r) ∨ (∃ item, p = .insertSlots item) ∧ sp.slots = 0 ∨
      p = .removeItems ∧ sp.items = 0 ∨ Locks p = false ∧ sp.mutex = 0 := by
  cases p <;> simp_all [next, acquire_eq_blocked_iff, Locks] <;> split_ifs at h

/-- A thread goes on, and what it stands for changes with the values of the semaphores and with the
counters. -/
lemma Inv.goesOn (h : Inv n es c) (hp : c.point t = p) {q : Point} {s : Sbuf}
    (hsize : s.n = c.state.n)
    (hmutex : s.mutex + (Locks q).toNat = c.state.mutex + (Locks p).toNat)
    (hitems : s.front + s.items + (Offers q).toNat + (Reserves q).toNat + c.state.rear =
      c.state.front + c.state.items + (Offers p).toNat + (Reserves p).toNat + s.rear)
    (hslots : s.rear + s.slots + (Claims q).toNat + (Vacates q).toNat + c.state.front =
      c.state.rear + c.state.slots + (Claims p).toNat + (Vacates p).toNat + s.front)
    (hcalled : s.rear + (Inserting q).toNat + inserts es =
      c.state.rear + (Inserting p).toNat + inserts (es ++ e)) :
    Inv n (es ++ e) ⟨s, Function.update c.point t q⟩ := by
  obtain ⟨hl, hc, ho, hr, hv, hi⟩ := counts_update hp q
  have hmutex' := h.mutex
  have hitems' := h.items
  have hslots' := h.slots
  have hcalled' := h.called
  refine ⟨hsize.trans h.size, ?_, ?_, ?_, ?_⟩ <;> dsimp only <;> omega

/-! ### What the queue does then -/

omit [Fintype τ] in
lemma queueOf_update (s : Sbuf) (q : Point) : queueOf ⟨s, Function.update c.point t q⟩ =
    ⟨Function.update (queueOf c).phase t (phaseOf q), s.contents⟩ := by
  refine congrArg (Atomic.Conf.mk · s.contents) (funext fun u => ?_)
  by_cases hu : u = t
  · subst hu
    simp only [Function.update_self]
  · simp only [Function.update_of_ne hu]
    rfl

omit [Fintype τ] [DecidableEq τ] in
lemma phase_queueOf (hp : c.point t = p) : (queueOf c).phase t = phaseOf p := congrArg phaseOf hp

omit [Fintype τ] in
lemma queueOf_same (hp : c.point t = p) {s : Sbuf} {q : Point} (hq : phaseOf q = phaseOf p)
    (hs : s.contents = c.state.contents) :
    queueOf ⟨s, Function.update c.point t q⟩ = queueOf c := by
  rw [queueOf_update, hs, hq, ← phase_queueOf hp, Function.update_eq_self]
  rfl

/-- The slot that is stored in next is none of those in use. -/
lemma next_slot_ne {front rear i : ℕ} (hroom : rear < front + n) (hi : front ≤ i) (hr : i < rear) :
    (i + 1) % n ≠ (rear + 1) % n := by
  intro h
  have hdvd : n ∣ rear + 1 - (i + 1) := (Nat.modEq_iff_dvd' (by omega)).mp h
  have := Nat.le_of_dvd (by omega) hdvd
  omega

lemma contents_store {sp : Sbuf} {item : ℤ} (hle : sp.front ≤ sp.rear)
    (hroom : sp.rear < sp.front + sp.n) :
    Sbuf.contents { sp with
      rear := sp.rear + 1
      buf := Function.update sp.buf ((sp.rear + 1) % sp.n) item } = sp.contents ++ [item] := by
  have hlen : sp.rear + 1 - sp.front = sp.rear - sp.front + 1 := by omega
  have hlast : sp.front + (sp.rear - sp.front) + 1 = sp.rear + 1 := by omega
  simp only [Sbuf.contents, Sbuf.length]
  rw [hlen, List.range_succ, List.map_append, List.map_singleton, hlast, Function.update_self]
  refine congrArg (· ++ [item]) (List.map_congr_left fun i hi => Function.update_of_ne ?_ _ _)
  have hi := List.mem_range.mp hi
  exact next_slot_ne hroom (Nat.le_add_right _ i) (by omega)

lemma contents_take {sp : Sbuf} (hlt : sp.front < sp.rear) :
    sp.contents = sp.buf ((sp.front + 1) % sp.n) ::
      Sbuf.contents { sp with front := sp.front + 1 } := by
  have hlen : sp.rear - sp.front = sp.rear - (sp.front + 1) + 1 := by omega
  simp only [Sbuf.contents, Sbuf.length]
  rw [hlen, List.range_succ_eq_map, List.map_cons, List.map_map]
  refine congrArg _ (List.map_congr_left fun i _ => ?_)
  rw [Function.comp_apply, show sp.front + i.succ = sp.front + 1 + i by omega]

/-! ### Steps -/

/-- A step keeps the invariant, and the queue does the same. -/
def Follows (n : ℕ) (es e : List (τ × SbufEvent)) (c c' : Conf τ Sbuf Point) : Prop :=
  Inv n (es ++ e) c' ∧ Traces.Run (Atomic.Step (Effect n)) (queueOf c) e (queueOf c')

lemma Inv.store (h : Inv n es c) {item : ℤ} (ht : c.point t = .insertStore item) :
    Follows n es [] c ⟨{ c.state with
        rear := c.state.rear + 1
        buf := Function.update c.state.buf ((c.state.rear + 1) % c.state.n) item },
        Function.update c.point t .insertUnlock⟩ := by
  have hroom : 0 < count Claims c.point := count_pos (t := t) (by rw [ht]; rfl)
  have hsize := h.size
  have hitems := h.items
  have hslots := h.slots
  refine ⟨h.goesOn ht rfl rfl ?_ ?_ ?_, ?_⟩
  · simp [Offers, Reserves]
    omega
  · simp [Claims, Vacates]
    omega
  · simp [Inserting]
  · rw [queueOf_update, contents_store (by omega) (by omega)]
    refine .single (.act (phase_queueOf ht) (.insert ?_))
    change c.state.contents.length < n
    rw [length_contents, Sbuf.length]
    omega

lemma Inv.take (h : Inv n es c) (ht : c.point t = .removeTake) :
    Follows n es [] c ⟨{ c.state with front := c.state.front + 1 }, Function.update c.point t
        (.removeUnlock (c.state.buf ((c.state.front + 1) % c.state.n)))⟩ := by
  have hsome : 0 < count Reserves c.point := count_pos (t := t) (by rw [ht]; rfl)
  have hitems := h.items
  refine ⟨h.goesOn ht rfl rfl ?_ ?_ ?_, ?_⟩
  · simp [Offers, Reserves]
    omega
  · simp [Claims, Vacates]
    omega
  · simp [Inserting]
  · rw [queueOf_update]
    refine .single (.act (phase_queueOf ht) ?_)
    rw [show (queueOf c).content = _ from contents_take (by omega)]
    exact .remove

lemma Inv.quiet (h : Inv n es c) (hp : c.point t = p) {q : Point} {mutex slots items : ℕ}
    (hmutex : mutex + (Locks q).toNat = c.state.mutex + (Locks p).toNat)
    (hitems : items + (Offers q).toNat + (Reserves q).toNat =
      c.state.items + (Offers p).toNat + (Reserves p).toNat)
    (hslots : slots + (Claims q).toNat + (Vacates q).toNat =
      c.state.slots + (Claims p).toNat + (Vacates p).toNat)
    (hcalled : (Inserting q).toNat + inserts es = (Inserting p).toNat + inserts (es ++ e)) :
    Inv n (es ++ e) ⟨{ c.state with mutex := mutex, slots := slots, items := items },
      Function.update c.point t q⟩ := by
  refine h.goesOn hp rfl hmutex ?_ ?_ ?_ <;> dsimp only <;> omega

/-- A thread that waits for a semaphore, or raises one, is as far in its call as before. -/
lemma Inv.inside (h : Inv n es c) (hp : c.point t = p) {q : Point} {mutex slots items : ℕ}
    (hq : phaseOf q = phaseOf p)
    (hmutex : mutex + (Locks q).toNat = c.state.mutex + (Locks p).toNat)
    (hitems : items + (Offers q).toNat + (Reserves q).toNat =
      c.state.items + (Offers p).toNat + (Reserves p).toNat)
    (hslots : slots + (Claims q).toNat + (Vacates q).toNat =
      c.state.slots + (Claims p).toNat + (Vacates p).toNat)
    (hcalled : Inserting q = Inserting p) :
    Follows n es [] c ⟨{ c.state with mutex := mutex, slots := slots, items := items },
      Function.update c.point t q⟩ := by
  have hsame := queueOf_same hp hq
    (s := { c.state with mutex := mutex, slots := slots, items := items }) rfl
  exact ⟨h.quiet hp hmutex hitems hslots (by rw [hcalled, List.append_nil]), hsame ▸ .refl⟩

lemma Inv.leave (h : Inv n es c) (hp : c.point t = p) {r : Option ℤ} {slots items : ℕ}
    (hr : phaseOf p = .done r) (hlocks : Locks p = false) (hcalled : Inserting p = false)
    (hitems : items = c.state.items + (Offers p).toNat + (Reserves p).toNat)
    (hslots : slots = c.state.slots + (Claims p).toNat + (Vacates p).toNat) :
    Follows n es [(t, .ret r)] c ⟨{ c.state with slots := slots, items := items },
      Function.update c.point t (.out r)⟩ := by
  refine ⟨h.quiet hp (by rw [hlocks]; rfl) hitems hslots ?_, ?_⟩
  · rw [hcalled, inserts_append]
    rfl
  · rw [queueOf_update]
    exact .single (.ret ((phase_queueOf hp).trans hr))

lemma Inv.move (h : Inv n es c) {s : Sbuf} {evs : List SbufEvent}
    (hnext : next (c.point t) c.state = .goes s q evs) :
    Follows n es (evs.map (t, ·)) c ⟨s, Function.update c.point t q⟩ := by
  obtain ⟨p, hp⟩ : ∃ p, c.point t = p := ⟨_, rfl⟩
  rw [hp] at hnext
  cases p with
  | out => cases hnext
  | insertSlots item =>
    obtain ⟨hpos, rfl, rfl, rfl⟩ := acquire_eq_goes hnext
    exact h.inside hp rfl rfl rfl (Nat.sub_add_cancel hpos) rfl
  | insertLock item =>
    obtain ⟨hpos, rfl, rfl, rfl⟩ := acquire_eq_goes hnext
    exact h.inside hp rfl (Nat.sub_add_cancel hpos) rfl rfl rfl
  | insertStore item =>
    simp only [next] at hnext
    split_ifs at hnext
    cases hnext
    exact h.store hp
  | insertUnlock =>
    cases hnext
    exact h.inside hp rfl rfl rfl rfl rfl
  | insertItems =>
    cases hnext
    exact h.leave hp rfl rfl rfl rfl rfl
  | removeItems =>
    obtain ⟨hpos, rfl, rfl, rfl⟩ := acquire_eq_goes hnext
    exact h.inside hp rfl rfl (Nat.sub_add_cancel hpos) rfl rfl
  | removeLock =>
    obtain ⟨hpos, rfl, rfl, rfl⟩ := acquire_eq_goes hnext
    exact h.inside hp rfl (Nat.sub_add_cancel hpos) rfl rfl rfl
  | removeTake =>
    simp only [next] at hnext
    split_ifs at hnext
    cases hnext
    exact h.take hp
  | removeUnlock item =>
    cases hnext
    exact h.inside hp rfl rfl rfl rfl rfl
  | removeSlots item =>
    cases hnext
    exact h.leave hp rfl rfl rfl rfl rfl

/-- **Every step is one of the queue.** -/
lemma Inv.step (h : Inv n es c) (hstep : Step sbuf c e c') : Follows n es e c c' := by
  cases hstep with
  | @call t p evs hcall =>
    obtain ⟨q, hq⟩ : ∃ q, c.point t = q := ⟨_, rfl⟩
    have hcalls : Calls q evs p := hq ▸ hcall
    cases hcalls with
    | insert item =>
      refine ⟨h.quiet hq rfl rfl rfl ?_, ?_⟩
      · rw [inserts_append]
        change 1 + inserts es = 0 + (inserts es + 1)
        omega
      · rw [queueOf_update]
        exact .single (.call _ (phase_queueOf hq))
    | remove =>
      refine ⟨h.quiet hq rfl rfl rfl ?_, ?_⟩
      · rw [inserts_append]
        rfl
      · rw [queueOf_update]
        exact .single (.call _ (phase_queueOf hq))
  | move hmove => exact h.move hmove

/-! ### Runs -/

/-- **Every run is one of the queue.** -/
lemma follows_of_run (hrun : Run sbuf (start n) es c) :
    Inv n es c ∧ Traces.Run (Atomic.Step (Effect n)) (Atomic.start []) es (queueOf c) := by
  obtain ⟨d, hqueue, hinv, rfl⟩ := hrun.simulates (a := Atomic.start [])
    (R := fun es c d => Inv n es c ∧ queueOf c = d) ⟨inv_start, rfl⟩
    fun es c e c' d _ ⟨hinv, hd⟩ hstep => by
      obtain ⟨hinv', hqueue⟩ := hinv.step hstep
      exact ⟨_, hd ▸ hqueue, hinv', rfl⟩
  exact ⟨hinv, hqueue⟩

omit [DecidableEq τ] in
lemma Inv.length_le (h : Inv n es c) : c.state.length ≤ n := by
  have hslots := h.slots
  rw [Sbuf.length]
  omega

omit [DecidableEq τ] in
lemma Inv.overflow (h : Inv n es c) (hfault : Faults sbuf c t) :
    ((∃ item, c.point t = .insertStore item) ∨ c.point t = .removeTake) ∧
      INT_MAX ≤ inserts es := by
  have hitems := h.items
  have hcalled := h.called
  rcases overflow_of_next hfault with ⟨hp, hmax⟩ | ⟨hp, hmax⟩
  · exact ⟨.inl hp, by omega⟩
  · exact ⟨.inr hp, by omega⟩

/-- **The buffer is a queue**, whatever the interleaving: the calls of a run and their results are
those of a queue with room for `n` items that does one call at a time. So `sbuf_remove` returns the
items that were inserted, in their order, each of them once. Only after `INT_MAX` calls of
`sbuf_insert` does a counter overflow. -/
theorem sbuf_is_queue (hrun : Run sbuf (start n) es c) :
    (∃ phase, Traces.Run (Atomic.Step (Effect n)) (Atomic.start []) es
      ⟨phase, c.state.contents⟩) ∧
      c.state.contents.length ≤ n ∧
      ∀ t, Faults sbuf c t →
        ((∃ item, c.point t = .insertStore item) ∨ c.point t = .removeTake) ∧
          INT_MAX ≤ inserts es := by
  obtain ⟨hinv, hqueue⟩ := follows_of_run hrun
  exact ⟨⟨_, hqueue⟩, (length_contents _).trans_le hinv.length_le, fun t => hinv.overflow⟩

/-- One thread inserts an item and waits for room to insert another one, which a second thread makes
by removing the first. -/
lemma exists_removed : ∃ (es : List (Bool × SbufEvent)) (c : Conf Bool Sbuf Point),
    Run sbuf (start 1) es c ∧ c.point false = .insertSlots 8 ∧
      es = [(false, .call (.insert 7)), (false, .ret none), (false, .call (.insert 8)),
        (true, .call .remove), (true, .ret (some 7))] := by
  refine ⟨_, _, .tail (.tail (.tail (.tail (.tail (.tail (.tail (.tail (.tail (.tail (.tail (.tail
    (.tail .refl
    (.call (t := false) (Calls.insert 7))) (.move (t := false) rfl)) (.move (t := false) rfl))
    (.move (t := false) rfl)) (.move (t := false) rfl)) (.move (t := false) rfl))
    (.call (t := false) (Calls.insert 8)))
    (.call (t := true) Calls.remove)) (.move (t := true) rfl)) (.move (t := true) rfl))
    (.move (t := true) rfl)) (.move (t := true) rfl)) (.move (t := true) rfl), ?_, ?_⟩ <;> rfl

theorem exists_removed_from_queue :
    ∃ (es : List (Bool × SbufEvent)) (c : Conf Bool Sbuf Point), Run sbuf (start 1) es c ∧
      es = [(false, .call (.insert 7)), (false, .ret none), (false, .call (.insert 8)),
        (true, .call .remove), (true, .ret (some 7))] ∧
      (∃ phase, Traces.Run (Atomic.Step (Effect 1)) (Atomic.start []) es
        ⟨phase, c.state.contents⟩) ∧
      c.state.contents.length ≤ 1 := by
  obtain ⟨es, c, hrun, -, hes⟩ := exists_removed
  have h := sbuf_is_queue hrun
  exact ⟨es, c, hrun, hes, h.1, h.2.1⟩

omit [DecidableEq τ] in
/-- When no thread can go on, none is between its two semaphores. -/
lemma Inv.mutex_of_stuck (h : Inv n es c) (hstuck : Stuck sbuf c) : c.state.mutex = 1 := by
  have hmutex := h.mutex
  suffices hzero : count Locks c.point = 0 by omega
  by_contra hne
  obtain ⟨t, ht⟩ := count_pos_iff.mp (Nat.pos_of_ne_zero hne)
  rcases point_of_blocked (hstuck t _ rfl) with ⟨r, hp⟩ | ⟨⟨item, hp⟩, _⟩ | ⟨hp, _⟩ | ⟨hp, _⟩
  all_goals rw [hp] at ht; cases ht

omit [DecidableEq τ] in
lemma Inv.point_of_stuck (h : Inv n es c) (hstuck : Stuck sbuf c) (t : τ) :
    (∃ r, c.point t = .out r) ∨ (∃ item, c.point t = .insertSlots item) ∧ c.state.slots = 0 ∨
      c.point t = .removeItems ∧ c.state.items = 0 := by
  rcases point_of_blocked (hstuck t _ rfl) with hp | hp | hp | ⟨_, hlocked⟩
  · exact .inl hp
  · exact .inr (.inl hp)
  · exact .inr (.inr hp)
  · rw [h.mutex_of_stuck hstuck] at hlocked
    cases hlocked

omit [DecidableEq τ] in
lemma Inv.count_of_stuck (h : Inv n es c) (hstuck : Stuck sbuf c) {P : Point → Bool}
    (hout : ∀ r, P (.out r) = false) (hinsert : ∀ item, P (.insertSlots item) = false)
    (hremove : P .removeItems = false) : count P c.point = 0 := by
  by_contra hne
  obtain ⟨t, ht⟩ := count_pos_iff.mp (Nat.pos_of_ne_zero hne)
  rcases h.point_of_stuck hstuck t with ⟨r, hp⟩ | ⟨⟨item, hp⟩, _⟩ | ⟨hp, _⟩
  all_goals rw [hp] at ht; simp_all

omit [DecidableEq τ] in
lemma Inv.length_of_stuck (h : Inv n es c) (hstuck : Stuck sbuf c) :
    c.state.length = c.state.items ∧ c.state.length + c.state.slots = n := by
  have hitems := h.items
  have hslots := h.slots
  rw [h.count_of_stuck hstuck (fun _ => rfl) (fun _ => rfl) rfl,
    h.count_of_stuck hstuck (fun _ => rfl) (fun _ => rfl) rfl] at hitems hslots
  rw [Sbuf.length]
  omega

/-- **There is no deadlock.** When no thread can go on, each is outside, or waits to insert while
the buffer is full, or waits to remove while it is empty. -/
theorem sbuf_waits_for_reason (hrun : Run sbuf (start n) es c) (hstuck : Stuck sbuf c) (t : τ) :
    (∃ r, c.point t = .out r) ∨ (∃ item, c.point t = .insertSlots item) ∧ c.state.length = n ∨
      c.point t = .removeItems ∧ c.state.length = 0 := by
  have h := (follows_of_run hrun).1
  obtain ⟨hitems, hslots⟩ := h.length_of_stuck hstuck
  rcases h.point_of_stuck hstuck t with hp | ⟨hp, hfull⟩ | ⟨hp, hempty⟩
  · exact .inl hp
  · exact .inr (.inl ⟨hp, by omega⟩)
  · exact .inr (.inr ⟨hp, by omega⟩)

/-- One thread inserts an item and goes on to insert another; nobody removes. -/
lemma exists_waiting : ∃ (es : List (Unit × SbufEvent)) (c : Conf Unit Sbuf Point),
    Run sbuf (start 1) es c ∧ c.state.slots = 0 ∧ c.point () = .insertSlots 8 := by
  refine ⟨_, _, .tail (.tail (.tail (.tail (.tail (.tail (.tail .refl
    (.call (t := ()) (Calls.insert 7))) (.move (t := ()) rfl)) (.move (t := ()) rfl))
    (.move (t := ()) rfl)) (.move (t := ()) rfl)) (.move (t := ()) rfl))
    (.call (t := ()) (Calls.insert 8)), ?_, ?_⟩ <;> rfl

theorem exists_waiting_for_reason : ∃ (es : List (Unit × SbufEvent)) (c : Conf Unit Sbuf Point),
    Run sbuf (start 1) es c ∧ Stuck sbuf c ∧ c.point () = .insertSlots 8 ∧
      ((∃ r, c.point () = .out r) ∨ (∃ item, c.point () = .insertSlots item) ∧ c.state.length = 1 ∨
        c.point () = .removeItems ∧ c.state.length = 0) := by
  obtain ⟨es, c, hrun, hslots, hp⟩ := exists_waiting
  have hstuck : Stuck sbuf c := by
    rintro ⟨⟩ m rfl
    rw [hp]
    exact acquire_eq_blocked_iff.mpr hslots
  exact ⟨es, c, hrun, hstuck, hp, sbuf_waits_for_reason hrun hstuck ()⟩

end Zinzhi.SharedBuffer
