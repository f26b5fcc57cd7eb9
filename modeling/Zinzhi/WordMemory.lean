import Mathlib.Data.Nat.Bitwise
import Mathlib.Tactic.Ring

/-!
Byte memory and the 32-bit words in it.

A word is stored with its low byte first. What a value has beyond 32 bits is lost when it is
stored. A word whose low three bits are not part of a size can hold a size and a flag.
-/

namespace Zinzhi.WordMemory

abbrev Bytes := ℕ → UInt8

def word (m : Bytes) (p : ℕ) : ℕ :=
  (m p).toNat + 2 ^ 8 * (m (p + 1)).toNat + 2 ^ 16 * (m (p + 2)).toNat +
    2 ^ 24 * (m (p + 3)).toNat

def setWord (m : Bytes) (p v : ℕ) : Bytes := fun q =>
  if p ≤ q ∧ q < p + 4 then UInt8.ofNat (v / 2 ^ (8 * (q - p))) else m q

/-- Two words that share no byte. -/
def Apart (p q : ℕ) : Prop := p + 4 ≤ q ∨ q + 4 ≤ p

lemma word_congr {m m' : Bytes} {p : ℕ} (h : ∀ q, p ≤ q → q < p + 4 → m' q = m q) :
    word m' p = word m p := by
  rw [word, word, h p (by omega) (by omega), h (p + 1) (by omega) (by omega),
    h (p + 2) (by omega) (by omega), h (p + 3) (by omega) (by omega)]

lemma setWord_of_outside {m : Bytes} {p v q : ℕ} (h : q < p ∨ p + 4 ≤ q) :
    setWord m p v q = m q :=
  if_neg (by omega)

lemma setWord_inside (m : Bytes) (p v : ℕ) {i : ℕ} (hi : i < 4) :
    setWord m p v (p + i) = UInt8.ofNat (v / 2 ^ (8 * i)) := by
  rw [setWord, if_pos (by omega), Nat.add_sub_cancel_left]

lemma word_setWord_of_apart {m : Bytes} {p v q : ℕ} (h : Apart p q) :
    word (setWord m p v) q = word m q :=
  word_congr fun r hle hlt => setWord_of_outside (by unfold Apart at h; omega)

lemma word_setWord (m : Bytes) (p v : ℕ) : word (setWord m p v) p = v % 2 ^ 32 := by
  have h0 := setWord_inside m p v (i := 0) (by omega)
  rw [Nat.add_zero] at h0
  rw [word, h0, setWord_inside m p v (by omega), setWord_inside m p v (by omega),
    setWord_inside m p v (by omega)]
  simp only [UInt8.toNat_ofNat']
  omega

lemma word_setWord_of_lt (m : Bytes) (p : ℕ) {v : ℕ} (hv : v < 2 ^ 32) :
    word (setWord m p v) p = v := by
  rw [word_setWord, Nat.mod_eq_of_lt hv]

/-! ### A size and a flag in one word -/

def pack (size flag : ℕ) : ℕ := size ||| flag

/-- All but the low three bits of a word. -/
def sizeBits (w : ℕ) : ℕ := w &&& 0xFFFFFFF8

def flagBit (w : ℕ) : ℕ := w &&& 1

lemma pack_eq_add {size flag : ℕ} (h8 : 8 ∣ size) (hflag : flag ≤ 1) :
    pack size flag = size + flag := by
  obtain ⟨k, rfl⟩ := h8
  exact (Nat.two_pow_add_eq_or_of_lt (i := 3) (by omega) k).symm

lemma sizeBits_eq {w : ℕ} (hw : w < 2 ^ 32) : sizeBits w = w / 8 * 8 := by
  have hmask : (0xFFFFFFF8 : ℕ) = (2 ^ 29 - 1) <<< 3 := by decide
  have hshift : w / 8 * 8 = (w >>> 3) <<< 3 := by
    rw [Nat.shiftLeft_eq, Nat.shiftRight_eq_div_pow]
  rw [sizeBits, hmask, hshift]
  refine Nat.eq_of_testBit_eq fun i => ?_
  rw [Nat.testBit_and, Nat.testBit_shiftLeft, Nat.testBit_shiftLeft, Nat.testBit_two_pow_sub_one,
    Nat.testBit_shiftRight]
  by_cases h3 : 3 ≤ i
  · have hhigh : w.testBit i = true → i < 32 := fun hbit => by
      by_contra hge
      have hlt : w < 2 ^ i := hw.trans_le (Nat.pow_le_pow_right (by omega) (by omega))
      rw [Nat.testBit_lt_two_pow hlt] at hbit
      cases hbit
    rw [show 3 + (i - 3) = i by omega]
    cases hbit : w.testBit i with
    | false => simp
    | true =>
      have := hhigh hbit
      simp only [Bool.true_and, Bool.and_true, Bool.and_eq_left_iff_imp]
      intro
      exact decide_eq_true (by omega)
  · simp [h3]

lemma sizeBits_pack {size flag : ℕ} (h8 : 8 ∣ size) (hsize : size < 2 ^ 32) (hflag : flag ≤ 1) :
    sizeBits (pack size flag) = size := by
  rw [pack_eq_add h8 hflag, sizeBits_eq (by omega)]
  omega

lemma flagBit_pack {size flag : ℕ} (h8 : 8 ∣ size) (hflag : flag ≤ 1) :
    flagBit (pack size flag) = flag := by
  rw [pack_eq_add h8 hflag, flagBit, Nat.and_one_is_mod]
  omega

lemma pack_lt {size flag : ℕ} (h8 : 8 ∣ size) (hsize : size < 2 ^ 32) (hflag : flag ≤ 1) :
    pack size flag < 2 ^ 32 := by
  rw [pack_eq_add h8 hflag]
  omega

end Zinzhi.WordMemory
