import Zinzhi.IntMatrix

/-!
`operator>>` of `Matrix` for rows of different lengths.

The last row gives the number of columns. A longer row loses what it has behind them; at the first
shorter one the input throws, when the matrix has already been replaced and filled up to there.
-/

namespace Zinzhi.MatrixInput

open Zinzhi.GrowVector (Exn indexError)
open Zinzhi.Loops Zinzhi.TextStream Zinzhi.IntMatrix

/-- The matrix holds exactly the rows, or the input threw and left it as it was. -/
def LosesNothing (rows : List (List Int32)) (this : Matrix)
    (out : Option (Outcome Exn Matrix × Stream)) : Prop :=
  (∃ m s, out = some ((.ok (), m), s) ∧ m.rows = rows.length ∧ m.vectors = rows) ∨
    ∃ what s, out = some ((.error (.outOfRange what), this), s)

def lastWidth (rows : List (List Int32)) : ℕ := (rows.getLastD []).length

/-- The rows with `w` columns each, up to the first value that is missing, and zeros from there. -/
def cutShort (w : ℕ) (rows : List (List Int32)) : Matrix where
  rows := rows.length
  cols := w
  vectors := rows.mapIdx fun i row =>
    ((if i ≤ rows.findIdx (·.length < w) then row else []).take w).rightpad w 0
  length_eq := List.length_mapIdx
  width_eq row hrow := by
    obtain ⟨i, hi, rfl⟩ := List.mem_mapIdx.mp hrow
    rw [List.length_rightpad, List.length_take]
    omega

/-! ### How far the copy has come -/

/-- The entries before the column `j` of the row `i` are copied, and the others are zero. -/
structure Copied (rows : List (List Int32)) (w i j : ℕ) (m : Matrix) : Prop where
  height : m.rows = rows.length
  width : m.cols = w
  entries : ∀ i' j', i' < rows.length → j' < w → elemAt m.vectors i' j' =
    if i' < i ∨ i' = i ∧ j' < j then elemAt rows i' j' else some 0

variable {rows : List (List Int32)} {w i j : ℕ} {m : Matrix}

lemma copied_start (rows : List (List Int32)) (w : ℕ) :
    Copied rows w 0 0 (Matrix.ofSize rows.length w) where
  height := rfl
  width := rfl
  entries i' j' hi' hj' := by
    rw [if_neg (by omega)]
    simp [elemAt, Matrix.ofSize, hi', hj']

lemma Copied.step (hm : Copied rows w i j m) (hi : i < rows.length) (hj : j < w)
    (hrow : j < rows[i].length) :
    ∃ m', orThrow (entry rows i j) (fun x m => m.setEntry i j x) m = (.ok (), m') ∧
      Copied rows w i (j + 1) m' := by
  have hx : elemAt rows i j = some rows[i][j] := by simp [elemAt, hi, hrow]
  have hi' : i < m.rows := hm.height ▸ hi
  have hj' : j < m.cols := hm.width ▸ hj
  obtain ⟨y, hy⟩ := elemAt_of_lt m hi' hj'
  refine ⟨m.put i j rows[i][j], ?_, hm.height, hm.width, fun i' j' hi'l hj'l => ?_⟩
  · rw [entry_ok hx, orThrow_ok, Matrix.setEntry, entry_ok hy, orThrow_ok]
  · rw [elemAt_put m hi' hj']
    by_cases h : i' = i ∧ j' = j
    · rw [if_pos h, if_pos (by omega), h.1, h.2, hx]
    · rw [if_neg h, hm.entries i' j' hi'l hj'l]
      exact if_congr (by omega) rfl rfl

lemma Copied.nextRow (hm : Copied rows w i w m) : Copied rows w (i + 1) 0 m where
  height := hm.height
  width := hm.width
  entries i' j' hi' hj' := by
    rw [hm.entries i' j' hi' hj']
    exact if_congr (by omega) rfl rfl

lemma copyRow_ok (hm : Copied rows w i 0 m) (hi : i < rows.length) (hw : w ≤ rows[i].length) :
    ∃ m', forRange (fun j => orThrow (entry rows i j) fun x m => m.setEntry i j x) w m =
      (.ok (), m') ∧ Copied rows w (i + 1) 0 m' := by
  obtain ⟨m', hrun, hm'⟩ := forRange_ok (I := fun j => Copied rows w i j) (n := w) hm
    (f := fun j => orThrow (entry rows i j) fun x m => m.setEntry i j x)
    fun j hj m hm => hm.step hi hj (by omega)
  exact ⟨m', hrun, hm'.nextRow⟩

lemma copyRow_throws (hm : Copied rows w i 0 m) (hi : i < rows.length) (hw : rows[i].length < w) :
    ∃ m', forRange (fun j => orThrow (entry rows i j) fun x m => m.setEntry i j x) w m =
      (.error indexError, m') ∧ Copied rows w i rows[i].length m' := by
  refine forRange_throws (I := fun j => Copied rows w i j) hw hm
    (fun j hj m hm => hm.step hi (by omega) hj) fun m hm => ⟨m, ?_, hm⟩
  have hnone : elemAt rows i rows[i].length = none := by simp [elemAt, hi]
  rw [entry_error hnone]
  rfl

/-! ### What it leaves -/

lemma getElem?_padded (row : List Int32) (hj : j < w) :
    ((row.take w).rightpad w 0)[j]? = some (row.getD j 0) := by
  rw [List.rightpad, List.getElem?_append]
  by_cases h : j < row.length
  · rw [if_pos (by simp; omega), List.getElem?_take_of_lt hj]
    simp [h]
  · rw [if_neg (by simp; omega), List.getElem?_replicate_of_lt (by simp; omega)]
    simp [Nat.le_of_not_lt h]

lemma Copied.eq_cutShort (hi : rows.findIdx (·.length < w) < rows.length)
    (hm : Copied rows w (rows.findIdx (·.length < w))
      rows[rows.findIdx (·.length < w)].length m) : m = cutShort w rows := by
  refine Agrees.eq ⟨hm.height, hm.width, fun i' j' hi' hj' => ?_⟩
  replace hi' : i' < rows.length := hi'.resolve_right fun h => Nat.not_lt_zero j' h.2
  replace hj' : j' < w := hj'
  have hshort : rows[rows.findIdx (·.length < w)].length < w := by
    simpa using List.findIdx_getElem (w := hi)
  rw [hm.entries i' j' hi' hj']
  have hcut : elemAt (cutShort w rows).vectors i' j' =
      some ((if i' ≤ rows.findIdx (·.length < w) then rows[i'] else []).getD j' 0) := by
    rw [elemAt, cutShort, List.getElem?_mapIdx, List.getElem?_eq_getElem hi', Option.map_some,
      Option.bind_some, getElem?_padded _ hj']
  rw [hcut]
  rcases Nat.lt_trichotomy i' (rows.findIdx (·.length < w)) with hlt | heq | hgt
  · -- a row before the first short one has all its columns
    have hlong : j' < rows[i'].length := by
      have hnot := List.not_of_lt_findIdx hlt
      simp only [decide_eq_false_iff_not, Nat.not_lt] at hnot
      exact Nat.lt_of_lt_of_le hj' hnot
    rw [if_pos (.inl hlt), if_pos hlt.le]
    simp [elemAt, hi', hlong]
  · subst heq
    rw [if_pos le_rfl]
    by_cases hlong : j' < rows[rows.findIdx (·.length < w)].length
    · rw [if_pos (.inr ⟨rfl, hlong⟩)]
      simp [elemAt, hi, hlong]
    · rw [if_neg (by omega)]
      simp [Nat.le_of_not_lt hlong]
  · rw [if_neg (by omega), if_neg (by omega)]
    rfl

lemma copyFrom_throws (h : ∃ row ∈ rows, row.length < w) :
    copyFrom rows rows.length w (Matrix.ofSize rows.length w) =
      (.error indexError, cutShort w rows) := by
  have hi : rows.findIdx (·.length < w) < rows.length := by
    rw [List.findIdx_lt_length]
    simpa using h
  have hshort : rows[rows.findIdx (·.length < w)].length < w := by
    simpa using List.findIdx_getElem (w := hi)
  obtain ⟨m, hrun, rfl⟩ := forRange_throws (J := fun m => m = cutShort w rows) (e := indexError)
    (I := fun i => Copied rows w i 0)
    (f := fun i => forRange (fun j => orThrow (entry rows i j) fun x m => m.setEntry i j x) w)
    hi (copied_start rows w)
    (fun i hlt m hm => by
      have hnot := List.not_of_lt_findIdx hlt
      simp only [decide_eq_false_iff_not, Nat.not_lt] at hnot
      exact copyRow_ok hm (hlt.trans hi) hnot)
    (fun m hm => by
      obtain ⟨m', hrun, hm'⟩ := copyRow_throws hm hi hshort
      exact ⟨m', hrun, hm'.eq_cutShort hi⟩)
  exact hrun

lemma copyFrom_long (h : ∀ row ∈ rows, w ≤ row.length) :
    ∃ m, copyFrom rows rows.length w (Matrix.ofSize rows.length w) = (.ok (), m) ∧ m.cols = w := by
  obtain ⟨m, hrun, hm⟩ := forRange_ok (I := fun i => Copied rows w i 0) (n := rows.length)
    (f := fun i => forRange (fun j => orThrow (entry rows i j) fun x m => m.setEntry i j x) w)
    (copied_start rows w) fun i hi m hm => copyRow_ok hm hi (h _ (List.getElem_mem hi))
  exact ⟨m, hrun, hm.width⟩

lemma copyFrom_exact (h : ∀ row ∈ rows, row.length = w) :
    copyFrom rows rows.length w (Matrix.ofSize rows.length w) =
      (.ok (), ⟨rows.length, w, rows, rfl, h⟩) :=
  copyFrom_ok (t := ⟨rows.length, w, rows, rfl, h⟩) rfl rfl

lemma read_rowsText {text : List Char} (h : RowsText rows text) (this : Matrix)
    (rest : List Char) :
    read this ⟨'[' :: (text ++ ']' :: rest), false⟩ =
      some (copyFrom rows rows.length (lastWidth rows)
        (Matrix.ofSize rows.length (lastWidth rows)), ⟨rest, false⟩) := by
  have hrows := readRows_rowsText h [] none (c := '[') (by decide) (by decide) rest
  rw [List.nil_append] at hrows
  simp only [IntMatrix.read, hrows, assign_ok, andThen_ok]
  rfl

section Outcome

variable {this : Matrix} {s : Stream}

/-- A row that is too short makes the input throw. -/
lemma losesNothing_short (h : ∃ row ∈ rows, row.length < w) :
    LosesNothing rows this
      (some (copyFrom rows rows.length w (Matrix.ofSize rows.length w), s)) ↔
      this = cutShort w rows := by
  rw [copyFrom_throws h]
  constructor
  · rintro (⟨m, s', hout, -⟩ | ⟨what, s', hout⟩)
    · cases hout
    · cases hout
      rfl
  · rintro rfl
    exact .inr ⟨_, _, rfl⟩

/-- Without one it gives a matrix, whose rows are all of one length. -/
lemma losesNothing_long (h : ∀ row ∈ rows, w ≤ row.length) :
    LosesNothing rows this
      (some (copyFrom rows rows.length w (Matrix.ofSize rows.length w), s)) ↔
      ∀ row ∈ rows, row.length = w := by
  constructor
  · obtain ⟨m, hrun, hcols⟩ := copyFrom_long h
    rw [hrun]
    rintro (⟨m', s', hout, -, hvec⟩ | ⟨what, s', hout⟩)
    · cases hout
      intro row hrow
      rw [← hcols]
      exact m.width_eq row (hvec ▸ hrow)
    · cases hout
  · intro hall
    rw [copyFrom_exact hall]
    exact .inl ⟨_, _, rfl, rfl, rfl⟩

end Outcome

/-- **The input loses nothing and fails cleanly** exactly for rows of one length, and where a row is
shorter than the last one and the matrix was already what the failing input makes of it. -/
theorem read_losesNothing_iff {text : List Char} (h : RowsText rows text) (this : Matrix)
    (rest : List Char) :
    LosesNothing rows this (IntMatrix.read this ⟨'[' :: (text ++ ']' :: rest), false⟩) ↔
      (∀ row ∈ rows, row.length = lastWidth rows) ∨
        (∃ row ∈ rows, row.length < lastWidth rows) ∧ this = cutShort (lastWidth rows) rows := by
  rw [read_rowsText h]
  by_cases hshort : ∃ row ∈ rows, row.length < lastWidth rows
  · have hne : ¬∀ row ∈ rows, row.length = lastWidth rows := by
      obtain ⟨row, hrow, hlt⟩ := hshort
      exact fun hall => hlt.ne (hall row hrow)
    rw [or_iff_right hne, and_iff_right hshort, losesNothing_short hshort]
  · rw [or_iff_left fun hor => hshort hor.1]
    push Not at hshort
    exact losesNothing_long hshort

/-- Two rows of two numbers, read into a matrix of another size. -/
theorem read_losesNothing_square :
    LosesNothing [[1, 2], [3, 4]] (Matrix.ofSize 7 1)
      (IntMatrix.read (Matrix.ofSize 7 1)
        ⟨'[' :: (rowsText [[1, 2], [3, 4]] ++ ']' :: []), false⟩) :=
  (read_losesNothing_iff (rowsText_printed [1, 2] [[3, 4]]) (Matrix.ofSize 7 1) []).mpr
    (.inl (by decide))

/-- A longer first row loses a number without an exception, and a shorter one throws when the matrix
has two rows already. -/
theorem read_losesNothing_ragged :
    ¬LosesNothing [[1, 2], [3]] (Matrix.ofSize 1 1)
      (IntMatrix.read (Matrix.ofSize 1 1)
        ⟨'[' :: (rowsText [[1, 2], [3]] ++ ']' :: []), false⟩) ∧
    ¬LosesNothing [[1], [2, 3]] (Matrix.ofSize 1 1)
      (IntMatrix.read (Matrix.ofSize 1 1)
        ⟨'[' :: (rowsText [[1], [2, 3]] ++ ']' :: []), false⟩) := by
  constructor
  · have hlong : ∀ row ∈ [[1, 2], [(3 : Int32)]], lastWidth [[1, 2], [3]] ≤ row.length := by decide
    rw [read_rowsText (rowsText_printed [1, 2] [[3]]), losesNothing_long hlong]
    decide
  · have hshort : ∃ row ∈ [[(1 : Int32)], [2, 3]], row.length < lastWidth [[1], [2, 3]] := by
      decide
    rw [read_rowsText (rowsText_printed [1] [[2, 3]]), losesNothing_short hshort]
    intro heq
    exact absurd (congrArg Matrix.rows heq) (by decide)

end Zinzhi.MatrixInput
