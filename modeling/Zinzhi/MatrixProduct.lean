import Zinzhi.IntMatrix
import Mathlib.Algebra.BigOperators.Group.Finset.Basic

/-!
`operator*` of `Matrix` with another matrix.

The loop over the columns counts up the row. For a product with entries it therefore stays in the
first column, and goes on through the rows until it has left the matrix. The arithmetic of `int`
wraps around here, on which nothing below depends.
-/

namespace Zinzhi.MatrixProduct

open Zinzhi.GrowVector (Exn indexError)
open Zinzhi.Loops Zinzhi.IntMatrix

structure Vars where
  i : ℕ
  j : ℕ
  elemSum : Int32
  sum : Matrix

/-- `elemSum += (*this)[i][k] * m[k][j]` -/
def addProduct (this m : Matrix) (k : ℕ) (s : Vars) : Outcome Exn Vars :=
  orThrow (entry this.vectors s.i k)
    (fun a => orThrow (entry m.vectors k s.j) fun b s =>
      (.ok (), { s with elemSum := s.elemSum + a * b })) s

/-- `sum[i][j] = elemSum; elemSum = 0` -/
def storeSum (s : Vars) : Outcome Exn Vars :=
  match s.sum.setEntry s.i s.j s.elemSum with
  | (.ok (), sum) => (.ok (), { s with sum := sum, elemSum := 0 })
  | (.error e, sum) => (.error e, { s with sum := sum })

/-- `for (k = 0; k < sum.rows(); k++)` and the statements behind it -/
def mulEntry (this m : Matrix) (s : Vars) : Outcome Exn Vars :=
  andThen (forRange (addProduct this m) s.sum.rows s) storeSum

def nextRow (s : Vars) : Outcome Exn Vars := (.ok (), { s with i := s.i + 1 })

/-- `for (j = 0; j < sum.cols(); i++)` -/
def mulCols (this m : Matrix) (fuel : ℕ) (s : Vars) : Option (Outcome Exn Vars) :=
  whileThrow (fun s => s.j < s.sum.cols) (fun s => some (andThen (mulEntry this m s) nextRow)) fuel
    { s with j := 0 }

def mulRows (this m : Matrix) (fuel : ℕ) (s : Vars) : Option (Outcome Exn Vars) :=
  whileThrow (fun s => s.i < s.sum.rows)
    (fun s => (mulCols this m fuel s).map fun r => andThen r nextRow) fuel { s with i := 0 }

/-- `*this * m`, with fuel for the rounds of each loop -/
def mul (this m : Matrix) (fuel : ℕ) : Option (Except Exn Matrix) :=
  if this.cols ≠ m.rows then some (.error (.outOfRange "cols does not match row"))
  else (mulRows this m fuel ⟨0, 0, 0, Matrix.ofSize this.rows m.cols⟩).map fun r =>
    r.1.map fun _ => r.2.sum

def Returns (this m : Matrix) (r : Except Exn Matrix) : Prop :=
  ∃ n, ∀ fuel, n ≤ fuel → mul this m fuel = some r

def value (m : Matrix) (i j : ℕ) : ℤ := ((elemAt m.vectors i j).map Int32.toInt).getD 0

structure IsProduct (a b p : Matrix) : Prop where
  rows : p.rows = a.rows
  cols : p.cols = b.cols
  entries : ∀ i j, i < a.rows → j < b.cols →
    value p i j = ∑ k ∈ Finset.range a.cols, value a i k * value b k j

/-- What `operator*` is for: the product, and an exception exactly where there is none. -/
structure Multiplies (a b : Matrix) : Prop where
  product : a.cols = b.rows → ∃ p, Returns a b (.ok p) ∧ IsProduct a b p
  throws : (∃ what, Returns a b (.error (.outOfRange what))) ↔ a.cols ≠ b.rows

lemma Returns.unique {a b : Matrix} {r r' : Except Exn Matrix} (h : Returns a b r)
    (h' : Returns a b r') : r = r' := by
  obtain ⟨n, hn⟩ := h
  obtain ⟨n', hn'⟩ := h'
  have hr := hn (max n n') (Nat.le_max_left n n')
  have hr' := hn' (max n n') (Nat.le_max_right n n')
  exact Option.some.inj (hr.symm.trans hr')

/-! ### Matrices that do not match -/

lemma returns_of_ne {a b : Matrix} (h : a.cols ≠ b.rows) :
    Returns a b (.error (.outOfRange "cols does not match row")) :=
  ⟨0, fun _ _ => if_pos h⟩

/-! ### Products with entries -/

section Entries

variable {a b : Matrix} {s : Vars}

lemma elemAt_eq_none {m : Matrix} {i j : ℕ} (h : m.rows ≤ i ∨ m.cols ≤ j) :
    elemAt m.vectors i j = none := by
  cases hrow : m.vectors[i]? with
  | none => rw [elemAt, hrow, Option.bind_none]
  | some row =>
    obtain ⟨hi, rfl⟩ := List.getElem?_eq_some_iff.mp hrow
    have hwidth := m.width_eq _ (List.getElem_mem hi)
    rw [m.length_eq] at hi
    rw [elemAt, hrow, Option.bind_some, List.getElem?_eq_none]
    omega

/-- The innermost loop changes `elemSum` alone. -/
structure SameEntry (s t : Vars) : Prop where
  i : t.i = s.i
  j : t.j = s.j
  sum : t.sum = s.sum

lemma addProduct_ok {t : Vars} {k : ℕ} (ht : SameEntry s t) (hi : s.i < a.rows) (hk : k < a.cols)
    (hk' : k < b.rows) (hj : s.j < b.cols) :
    ∃ t', addProduct a b k t = (.ok (), t') ∧ SameEntry s t' := by
  obtain ⟨x, hx⟩ := elemAt_of_lt a (ht.i.symm ▸ hi) hk
  obtain ⟨y, hy⟩ := elemAt_of_lt b hk' (ht.j.symm ▸ hj)
  refine ⟨{ t with elemSum := t.elemSum + x * y }, ?_, ht.i, ht.j, ht.sum⟩
  rw [addProduct, entry_ok hx, orThrow_ok, entry_ok hy, orThrow_ok]

lemma addProduct_throws {t : Vars} {k : ℕ} (h : a.rows ≤ t.i ∨ a.cols ≤ k) :
    addProduct a b k t = (.error indexError, t) := by
  rw [addProduct, entry_error (elemAt_eq_none h)]
  rfl

lemma storeSum_ok (hi : s.i < s.sum.rows) (hj : s.j < s.sum.cols) :
    ∃ s', storeSum s = (.ok (), s') ∧ s'.i = s.i ∧ s'.j = s.j ∧ s'.sum.rows = s.sum.rows ∧
      s'.sum.cols = s.sum.cols := by
  obtain ⟨x, hx⟩ := elemAt_of_lt s.sum hi hj
  refine ⟨{ s with sum := s.sum.put s.i s.j s.elemSum, elemSum := 0 }, ?_, rfl, rfl, rfl, rfl⟩
  rw [storeSum, Matrix.setEntry, entry_ok hx, orThrow_ok]

/-- The state of the loops when the product has entries: the column stays the first one, and the
row may be the one behind the last. -/
structure InColumn (a b : Matrix) (s : Vars) : Prop where
  row : s.i ≤ a.rows
  column : s.j = 0
  rows : s.sum.rows = a.rows
  cols : s.sum.cols = b.cols

variable (hcols : a.cols = b.rows) (hr : 0 < a.rows) (hc : 0 < b.cols)

include hcols hr hc

/-- Behind the last row, and where `k` counts further than the columns of `a`, there is nothing to
multiply. -/
lemma mulEntry_throws (hs : InColumn a b s) (hend : a.rows ≤ s.i ∨ a.cols < a.rows) :
    ∃ s', mulEntry a b s = (.error indexError, s') := by
  have hj : s.j < b.cols := hs.column ▸ hc
  -- the first round that throws
  obtain ⟨k, hk, hbefore, hout⟩ : ∃ k, k < a.rows ∧ (0 < k → s.i < a.rows ∧ k ≤ a.cols) ∧
      (a.rows ≤ s.i ∨ a.cols ≤ k) := by
    by_cases hi : a.rows ≤ s.i
    · exact ⟨0, hr, fun h => absurd h (Nat.lt_irrefl 0), .inl hi⟩
    · exact ⟨a.cols, hend.resolve_left hi, fun _ => ⟨Nat.lt_of_not_le hi, le_rfl⟩, .inr le_rfl⟩
  obtain ⟨s', hrun, -⟩ := forRange_throws (f := addProduct a b) (I := fun _ => SameEntry s)
    (J := fun _ => True) (e := indexError) (hs.rows.symm ▸ hk) (⟨rfl, rfl, rfl⟩ : SameEntry s s)
    (fun k' hk' t ht => by
      obtain ⟨hi, hkc⟩ := hbefore (Nat.zero_lt_of_lt hk')
      exact addProduct_ok ht hi (by omega) (by omega) hj)
    (fun t ht => ⟨t, addProduct_throws (ht.i.symm ▸ hout), trivial⟩)
  exact ⟨s', by rw [mulEntry, hrun]; rfl⟩

omit hr in
lemma mulEntry_ok (hs : InColumn a b s) (hi : s.i < a.rows) (hle : a.rows ≤ a.cols) :
    ∃ s', mulEntry a b s = (.ok (), s') ∧ s'.i = s.i ∧ s'.j = s.j ∧ s'.sum.rows = s.sum.rows ∧
      s'.sum.cols = s.sum.cols := by
  have hj : s.j < b.cols := hs.column ▸ hc
  obtain ⟨t, hrun, ht⟩ := forRange_ok (f := addProduct a b) (I := fun _ => SameEntry s)
    (n := s.sum.rows) (⟨rfl, rfl, rfl⟩ : SameEntry s s) fun k hk t ht =>
      addProduct_ok ht hi (by rw [hs.rows] at hk; omega) (by rw [hs.rows] at hk; omega) hj
  obtain ⟨s', hstore, hi', hj', hrows', hcols'⟩ := storeSum_ok (s := t)
    (by rw [ht.i, ht.sum, hs.rows]; exact hi) (by rw [ht.j, ht.sum, hs.cols]; exact hj)
  rw [ht.i] at hi'
  rw [ht.j] at hj'
  rw [ht.sum] at hrows' hcols'
  exact ⟨s', by rw [mulEntry, hrun, andThen_ok, hstore], hi', hj', hrows', hcols'⟩

/-- **The loop over the columns never gets to its end**: it throws at the latest behind the last
row. -/
lemma mulCols_throws (hs : InColumn a b s) {fuel : ℕ} (hfuel : a.rows < fuel) :
    ∃ s', mulCols a b fuel s = some (.error indexError, s') := by
  refine whileThrow_throws (I := InColumn a b) (M := fun t => a.rows - t.i)
    (fun t ht => by rw [ht.column, ht.cols]; exact hc) (fun t ht => ?_)
    ⟨hs.row, rfl, hs.rows, hs.cols⟩ (Nat.lt_of_le_of_lt (Nat.sub_le _ _) hfuel)
  by_cases hend : a.rows ≤ t.i ∨ a.cols < a.rows
  · obtain ⟨t', hrun⟩ := mulEntry_throws hcols hr hc ht hend
    exact .inl ⟨t', by rw [hrun]; rfl⟩
  · obtain ⟨hi, hle⟩ : t.i < a.rows ∧ a.rows ≤ a.cols := by omega
    obtain ⟨t', hrun, hi', hj', hrows', hcols'⟩ := mulEntry_ok hcols hc ht hi hle
    refine .inr ⟨{ t' with i := t'.i + 1 }, by rw [hrun]; rfl, ⟨?_, ?_, ?_, ?_⟩, ?_⟩
    · exact (congrArg (· + 1) hi').trans_le hi
    · exact hj'.trans ht.column
    · exact hrows'.trans ht.rows
    · exact hcols'.trans ht.cols
    · simp only [hi']
      omega

lemma returns_of_entries : Returns a b (.error indexError) := by
  refine ⟨a.rows + 1, fun fuel hfuel => ?_⟩
  obtain ⟨k, rfl⟩ : ∃ k, fuel = k + 1 := ⟨fuel - 1, by omega⟩
  have hstart : InColumn a b ⟨0, 0, 0, Matrix.ofSize a.rows b.cols⟩ :=
    ⟨Nat.zero_le _, rfl, rfl, rfl⟩
  obtain ⟨s', hrun⟩ := mulCols_throws hcols hr hc hstart hfuel
  have hrows : mulRows a b (k + 1) ⟨0, 0, 0, Matrix.ofSize a.rows b.cols⟩ =
      some (.error indexError, s') :=
    whileThrow_error (show 0 < a.rows from hr) (by rw [hrun]; rfl)
  rw [mul, if_neg (not_not.mpr hcols), hrows]
  rfl

end Entries

/-! ### Products without entries -/

lemma returns_of_empty {a b : Matrix} (hcols : a.cols = b.rows) (h : a.rows = 0 ∨ b.cols = 0) :
    Returns a b (.ok (Matrix.ofSize a.rows b.cols)) := by
  refine ⟨a.rows + 1, fun fuel hfuel => ?_⟩
  have hrows : ∃ s', mulRows a b fuel ⟨0, 0, 0, Matrix.ofSize a.rows b.cols⟩ = some (.ok (), s') ∧
      s'.sum = Matrix.ofSize a.rows b.cols ∧ ¬s'.i < s'.sum.rows := by
    refine whileThrow_ok (I := fun s : Vars => s.sum = Matrix.ofSize a.rows b.cols)
      (M := fun s : Vars => a.rows - s.i) (fun s hs hi => ?_) rfl hfuel
    rw [hs] at hi
    replace hi : s.i < a.rows := hi
    obtain ⟨k, rfl⟩ : ∃ k, fuel = k + 1 := ⟨fuel - 1, by omega⟩
    have hskip : ¬0 < s.sum.cols := by
      have hempty : b.cols = 0 := h.resolve_left (by omega)
      rw [hs]
      exact hempty.not_gt
    have hcolumns : mulCols a b (k + 1) s = some (.ok (), { s with j := 0 }) := by
      rw [mulCols, whileThrow, if_neg hskip]
    refine ⟨{ s with i := s.i + 1, j := 0 }, by rw [hcolumns]; rfl, hs, ?_⟩
    dsimp only
    omega
  obtain ⟨s', hrun, hsum, -⟩ := hrows
  rw [mul, if_neg (not_not.mpr hcols), hrun, ← hsum]
  rfl

lemma isProduct_of_empty {a b : Matrix} (h : a.rows = 0 ∨ b.cols = 0) :
    IsProduct a b (Matrix.ofSize a.rows b.cols) where
  rows := rfl
  cols := rfl
  entries i j hi hj := by omega

/-- **`operator*` multiplies** exactly where there is no product or the product has no entries. -/
theorem multiplies_iff (a b : Matrix) :
    Multiplies a b ↔ a.cols ≠ b.rows ∨ a.rows = 0 ∨ b.cols = 0 := by
  constructor
  · intro h
    by_contra hnot
    obtain ⟨hcols, hr, hc⟩ : a.cols = b.rows ∧ 0 < a.rows ∧ 0 < b.cols := by omega
    exact h.throws.mp ⟨_, returns_of_entries hcols hr hc⟩ hcols
  · intro hcond
    by_cases hcols : a.cols = b.rows
    · have hempty := hcond.resolve_left (not_not.mpr hcols)
      have hret := returns_of_empty hcols hempty
      refine ⟨fun _ => ⟨_, hret, isProduct_of_empty hempty⟩, ?_, fun hne => absurd hcols hne⟩
      rintro ⟨what, hthrow⟩
      cases hret.unique hthrow
    · exact ⟨fun h => absurd h hcols, fun _ => hcols, fun _ => ⟨_, returns_of_ne hcols⟩⟩

/-- The product of two matrices of one entry each throws. -/
theorem multiplies_single : ¬Multiplies (Matrix.ofSize 1 1) (Matrix.ofSize 1 1) := by
  intro h
  have hret : Returns (Matrix.ofSize 1 1) (Matrix.ofSize 1 1) (.error indexError) :=
    returns_of_entries rfl Nat.one_pos Nat.one_pos
  exact h.throws.mp ⟨_, hret⟩ rfl

end Zinzhi.MatrixProduct
