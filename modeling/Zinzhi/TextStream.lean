import Mathlib.Algebra.Ring.Int.Defs
import Mathlib.Data.List.Basic
import Mathlib.Order.Nat

/-!
Formatted input of characters and of whole numbers from a text, with a flag that a failed input
sets.
-/

namespace Zinzhi.TextStream

/-- Blank, `\t`, `\n`, `\v`, `\f` and `\r`. -/
def isSpace (c : Char) : Bool := c = ' ' || (9 ≤ c.toNat && c.toNat ≤ 13)

def skipSpace (text : List Char) : List Char := text.dropWhile isSpace

def decimal (n : ℤ) : List Char := (if n < 0 then ['-'] else []) ++ Nat.toDigits 10 n.natAbs

/-- Whether there is a minus sign, and what follows an optional sign. -/
def takeSign (text : List Char) : Bool × List Char :=
  if text.head? = some '-' then (true, text.tail)
  else if text.head? = some '+' then (false, text.tail)
  else (false, text)

/-- White space, an optional sign and digits. -/
def scanInt (text : List Char) : Option ℤ × List Char :=
  let (neg, cs) := takeSign (skipSpace text)
  let n : ℤ := Nat.ofDigitChars 10 (cs.takeWhile Char.isDigit) 0
  if cs.takeWhile Char.isDigit = [] then (none, cs)
  else (some (if neg then -n else n), cs.dropWhile Char.isDigit)

structure Stream where
  rest : List Char
  fail : Bool

/-- `in >> c` -/
def Stream.getChar (s : Stream) : Option Char × Stream :=
  if s.fail then (none, s)
  else match skipSpace s.rest with
    | [] => (none, ⟨[], true⟩)
    | c :: cs => (some c, ⟨cs, false⟩)

/-- `in >> e` for an `int`; a number that does not fit is a failure. -/
def Stream.getInt (s : Stream) : Option Int32 × Stream :=
  if s.fail then (none, s)
  else match scanInt s.rest with
    | (none, cs) => (none, ⟨cs, true⟩)
    | (some n, cs) =>
      if -2 ^ 31 ≤ n ∧ n < 2 ^ 31 then (some (Int32.ofInt n), ⟨cs, false⟩) else (none, ⟨cs, true⟩)

def Stream.clear (s : Stream) : Stream := { s with fail := false }

/-! ### An input takes something from the text -/

lemma length_skipSpace_le (text : List Char) : (skipSpace text).length ≤ text.length :=
  (List.dropWhile_suffix _).length_le

lemma length_takeSign_le (text : List Char) : (takeSign text).2.length ≤ text.length := by
  unfold takeSign
  split_ifs <;> simp

lemma length_scanInt_le (text : List Char) : (scanInt text).2.length ≤ text.length := by
  have hle := (length_takeSign_le (skipSpace text)).trans (length_skipSpace_le text)
  unfold scanInt
  dsimp only
  split
  · exact hle
  · exact (List.dropWhile_suffix _).length_le.trans hle

lemma length_scanInt_lt {text cs : List Char} {n : ℤ} (h : scanInt text = (some n, cs)) :
    cs.length < text.length := by
  have hle := (length_takeSign_le (skipSpace text)).trans (length_skipSpace_le text)
  unfold scanInt at h
  dsimp only at h
  split at h
  · simp at h
  · next hds =>
    obtain ⟨-, rfl⟩ := Prod.mk.inj h
    have hpos := List.length_pos_of_ne_nil hds
    have hsum := congrArg List.length (List.takeWhile_append_dropWhile
      (p := Char.isDigit) (l := (takeSign (skipSpace text)).2))
    rw [List.length_append] at hsum
    omega

lemma length_getChar_lt {s s' : Stream} {c : Char} (h : s.getChar = (some c, s')) :
    s'.rest.length < s.rest.length := by
  have hle := length_skipSpace_le s.rest
  unfold Stream.getChar at h
  split_ifs at h
  · simp at h
  · split at h
    · simp at h
    · next heq =>
      obtain ⟨-, rfl⟩ := Prod.mk.inj h
      rw [heq] at hle
      exact hle

lemma length_getInt_le (s : Stream) : s.getInt.2.rest.length ≤ s.rest.length := by
  have hle := length_scanInt_le s.rest
  unfold Stream.getInt
  split_ifs
  · exact le_rfl
  · split
    · next heq => simpa [heq] using hle
    · next heq =>
      rw [heq] at hle
      split_ifs <;> exact hle

lemma length_getInt_lt {s s' : Stream} {e : Int32} (h : s.getInt = (some e, s')) :
    s'.rest.length < s.rest.length := by
  unfold Stream.getInt at h
  split_ifs at h
  · simp at h
  · split at h
    · simp at h
    · next heq =>
      split_ifs at h
      · obtain ⟨-, rfl⟩ := Prod.mk.inj h
        exact length_scanInt_lt heq
      · simp at h

/-! ### Reading back what was written -/

/-- What comes after the text of a number does not go on with it. -/
def EndsNumber (text : List Char) : Prop := ∀ c ∈ text.head?, c.isDigit = false

lemma isDigit_toDigits (n : ℕ) : ∀ c ∈ Nat.toDigits 10 n, c.isDigit = true :=
  fun _ hc => Nat.isDigit_of_mem_toDigits (by decide) (by decide) hc

lemma isSpace_of_isDigit {c : Char} (hc : c.isDigit = true) : isSpace c = false := by
  have hge : 48 ≤ c.toNat := (Char.isDigit_iff_toNat.mp hc).1
  have hne : c ≠ ' ' := by
    rintro rfl
    exact absurd hge (by decide)
  simp only [isSpace, hne, decide_false, Bool.false_or, Bool.and_eq_false_iff,
    decide_eq_false_iff_not]
  omega

lemma skipSpace_cons {c : Char} (hc : isSpace c = false) (cs : List Char) :
    skipSpace (c :: cs) = c :: cs :=
  List.dropWhile_cons_of_neg (by simp [hc])

lemma skipSpace_space {c : Char} (hc : isSpace c = true) (cs : List Char) :
    skipSpace (c :: cs) = skipSpace cs :=
  List.dropWhile_cons_of_pos hc

lemma takeSign_of_ne {c : Char} (hminus : c ≠ '-') (hplus : c ≠ '+') (cs : List Char) :
    takeSign (c :: cs) = (false, c :: cs) := by
  simp [takeSign, hminus, hplus]

/-- The text of the number `n`: digits, and before them a sign or none. -/
inductive Numeral : ℤ → List Char → Prop
  | plain {ds : List Char} (hne : ds ≠ []) (hds : ∀ c ∈ ds, c.isDigit = true) :
    Numeral (Nat.ofDigitChars 10 ds 0) ds
  | plus {ds : List Char} (hne : ds ≠ []) (hds : ∀ c ∈ ds, c.isDigit = true) :
    Numeral (Nat.ofDigitChars 10 ds 0) ('+' :: ds)
  | minus {ds : List Char} (hne : ds ≠ []) (hds : ∀ c ∈ ds, c.isDigit = true) :
    Numeral (-Nat.ofDigitChars 10 ds 0) ('-' :: ds)

lemma numeral_decimal (n : ℤ) : Numeral n (decimal n) := by
  have hne : Nat.toDigits 10 n.natAbs ≠ [] := Nat.toDigits_ne_nil
  have hval := Nat.ofDigitChars_ten_toDigits (n := n.natAbs)
  by_cases hn : n < 0
  · have h := Numeral.minus hne (isDigit_toDigits n.natAbs)
    rw [hval, show -(n.natAbs : ℤ) = n by omega] at h
    rw [decimal, if_pos hn]
    exact h
  · have h := Numeral.plain hne (isDigit_toDigits n.natAbs)
    rw [hval, show (n.natAbs : ℤ) = n by omega] at h
    rwa [decimal, if_neg hn]

/-- The sign of a number is taken from its text. -/
lemma takeSign_numeral {n : ℤ} {text : List Char} (h : Numeral n text) (rest : List Char) :
    ∃ neg ds, takeSign (skipSpace (text ++ rest)) = (neg, ds ++ rest) ∧ ds ≠ [] ∧
      (∀ c ∈ ds, c.isDigit = true) ∧
      (if neg then -(Nat.ofDigitChars 10 ds 0 : ℤ) else Nat.ofDigitChars 10 ds 0) = n := by
  cases h with
  | plain hne hds =>
    obtain ⟨c, cs, rfl⟩ := List.exists_cons_of_ne_nil hne
    have hc := hds c List.mem_cons_self
    have hminus : c ≠ '-' := by rintro rfl; exact absurd hc (by decide)
    have hplus : c ≠ '+' := by rintro rfl; exact absurd hc (by decide)
    refine ⟨false, c :: cs, ?_, hne, hds, rfl⟩
    rw [List.cons_append, skipSpace_cons (isSpace_of_isDigit hc), takeSign_of_ne hminus hplus]
  | plus hne hds => exact ⟨false, _, rfl, hne, hds, rfl⟩
  | minus hne hds => exact ⟨true, _, rfl, hne, hds, rfl⟩

/-- **A number is read from its text**, up to where that ends. -/
theorem scanInt_numeral {n : ℤ} {text : List Char} (h : Numeral n text) {rest : List Char}
    (hrest : EndsNumber rest) : scanInt (text ++ rest) = (some n, rest) := by
  obtain ⟨neg, ds, hsign, hne, hds, hval⟩ := takeSign_numeral h rest
  have htake : rest.takeWhile Char.isDigit = [] ∧ rest.dropWhile Char.isDigit = rest := by
    cases rest with
    | nil => exact ⟨rfl, rfl⟩
    | cons c cs =>
      have hc : ¬c.isDigit = true := by simp [hrest c rfl]
      exact ⟨List.takeWhile_cons_of_neg hc, List.dropWhile_cons_of_neg hc⟩
  simp only [scanInt, hsign, List.takeWhile_append_of_pos hds, List.dropWhile_append_of_pos hds,
    htake.1, htake.2, List.append_nil, hne, if_false, hval]

/-- **A number that was written is read back.** -/
theorem scanInt_decimal (n : ℤ) {rest : List Char} (hrest : EndsNumber rest) :
    scanInt (decimal n ++ rest) = (some n, rest) :=
  scanInt_numeral (numeral_decimal n) hrest

/-- Nothing is read where no number starts. -/
lemma scanInt_cons {c : Char} (hspace : isSpace c = false) (hdigit : c.isDigit = false)
    (hminus : c ≠ '-') (hplus : c ≠ '+') (cs : List Char) :
    scanInt (c :: cs) = (none, c :: cs) := by
  simp [scanInt, skipSpace_cons hspace, takeSign_of_ne hminus hplus, hdigit]

lemma scanInt_space {c : Char} (hc : isSpace c = true) (cs : List Char) :
    scanInt (c :: cs) = scanInt cs := by
  simp only [scanInt, skipSpace_space hc]

lemma getInt_numeral {e : Int32} {text : List Char} (h : Numeral e.toInt text) {rest : List Char}
    (hrest : EndsNumber rest) :
    Stream.getInt ⟨text ++ rest, false⟩ = (some e, ⟨rest, false⟩) := by
  simp only [Stream.getInt, scanInt_numeral h hrest, if_pos (And.intro e.le_toInt e.toInt_lt),
    Int32.ofInt_toInt, Bool.false_eq_true, if_false]

lemma getInt_space {c : Char} (hc : isSpace c = true) (cs : List Char) :
    Stream.getInt ⟨c :: cs, false⟩ = Stream.getInt ⟨cs, false⟩ := by
  simp only [Stream.getInt, scanInt_space hc, Bool.false_eq_true, if_false]

lemma getInt_spaces {ws : List Char} (hws : ∀ c ∈ ws, isSpace c = true) (cs : List Char) :
    Stream.getInt ⟨ws ++ cs, false⟩ = Stream.getInt ⟨cs, false⟩ := by
  induction ws with
  | nil => rfl
  | cons c ws ih =>
    rw [List.cons_append, getInt_space (hws c List.mem_cons_self),
      ih fun c' hc' => hws c' (List.mem_cons_of_mem _ hc')]

lemma getInt_cons {c : Char} (hspace : isSpace c = false) (hdigit : c.isDigit = false)
    (hminus : c ≠ '-') (hplus : c ≠ '+') (cs : List Char) :
    Stream.getInt ⟨c :: cs, false⟩ = (none, ⟨c :: cs, true⟩) := by
  simp [Stream.getInt, scanInt_cons hspace hdigit hminus hplus]

lemma getChar_cons {c : Char} (hspace : isSpace c = false) (cs : List Char) :
    Stream.getChar ⟨c :: cs, false⟩ = (some c, ⟨cs, false⟩) := by
  simp [Stream.getChar, skipSpace_cons hspace]

end Zinzhi.TextStream
