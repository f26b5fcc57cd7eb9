import Zinzhi.GrowVector
import Zinzhi.Loops
import Zinzhi.TextStream

/-!
`Matrix` of `dtc-matrix`, how it is printed and how it is read.

It stands on the `Vector<T>` of `lab1_1.5`, which is a list to its user: a vector is the list of its
elements here, with the exception `operator[]` throws. Sizes are below `2^31`, as the `int`
counters of the vectors ask.
-/

namespace Zinzhi.IntMatrix

open Zinzhi.GrowVector (Exn indexError)
open Zinzhi.Loops Zinzhi.TextStream

variable {α : Type}

/-- `operator[]` of a vector -/
def index (xs : List α) (i : ℕ) : Except Exn α :=
  match xs[i]? with
  | some x => .ok x
  | none => .error indexError

/-- On a vector and on the list it stores, `operator[]` gives the same element or throws the same
exception. -/
theorem index_represents {v : GrowVector.Vec α} {xs : List α} (hv : GrowVector.Represents v xs)
    (i : ℕ) : GrowVector.index v i = (index xs i).map some := by
  obtain ⟨rest, rfl⟩ := GrowVector.represents_iff.mp hv
  have hsize : (GrowVector.stored xs rest).size = xs.length := rfl
  rw [GrowVector.index, hsize, index]
  split_ifs with hi
  · rw [List.getElem?_eq_getElem hi]
    exact congrArg Except.ok (Cells.read_held hi rest)
  · rw [List.getElem?_eq_none (Nat.le_of_not_lt hi)]
    rfl

@[ext] structure Matrix where
  rows : ℕ
  cols : ℕ
  vectors : List (List Int32)
  length_eq : vectors.length = rows
  width_eq : ∀ row ∈ vectors, row.length = cols

def Matrix.ofSize (rows cols : ℕ) : Matrix where
  rows := rows
  cols := cols
  vectors := List.replicate rows (List.replicate cols 0)
  length_eq := List.length_replicate
  width_eq row hrow := by rw [List.eq_of_mem_replicate hrow, List.length_replicate]

/-- `vec[i][j]` -/
def entry (vec : List (List Int32)) (i j : ℕ) : Except Exn Int32 := do
  index (← index vec i) j

def Matrix.put (m : Matrix) (i j : ℕ) (x : Int32) : Matrix where
  rows := m.rows
  cols := m.cols
  vectors := m.vectors.modify i (·.set j x)
  length_eq := by rw [List.length_modify, m.length_eq]
  width_eq row hrow := by
    obtain ⟨k, hk, rfl⟩ := List.mem_iff_getElem.mp hrow
    rw [List.length_modify] at hk
    rw [List.getElem_modify]
    split_ifs
    · rw [List.length_set, m.width_eq _ (List.getElem_mem hk)]
    · exact m.width_eq _ (List.getElem_mem hk)

/-- `m[i][j] = x` -/
def Matrix.setEntry (m : Matrix) (i j : ℕ) (x : Int32) : Outcome Exn Matrix :=
  orThrow (entry m.vectors i j) (fun _ m => (.ok (), m.put i j x)) m

/-- `m[i][j] = vec[i][j]` for `i < rows` and `j < cols` -/
def copyFrom (vec : List (List Int32)) (rows cols : ℕ) : Matrix → Outcome Exn Matrix :=
  forRange (fun i => forRange (fun j => orThrow (entry vec i j) fun x m => m.setEntry i j x) cols)
    rows

def Matrix.copyElems (this m : Matrix) (minRows minCols : ℕ) : Outcome Exn Matrix :=
  copyFrom m.vectors minRows minCols this

/-- `operator=` with another matrix, which clears all rows there were -/
def Matrix.assign (_this m : Matrix) : Outcome Exn Matrix :=
  (Matrix.ofSize m.rows m.cols).copyElems m m.rows m.cols

/-! ### `operator<<` -/

def printRow (cols : ℕ) (row : List Int32) : List Char → Outcome Exn (List Char) :=
  forRange (fun j => orThrow (index row j) fun e out => (.ok (), out ++ decimal e.toInt ++ [' ']))
    cols

def print (m : Matrix) (out : List Char) : Outcome Exn (List Char) :=
  andThen
    (forRange (fun i => orThrow (index m.vectors i) fun row out =>
        andThen (printRow m.cols row (out ++ [' '])) fun out =>
          (.ok (), if i + 1 ≠ m.rows then out ++ ['\n', ';'] else out))
      m.rows (out ++ ['[']))
    fun out => (.ok (), out ++ [']'])

/-! ### `operator>>` -/

/-- `while (in >> e) row.push_back(e)` -/
def readRow (row : List Int32) (s : Stream) : List Int32 × Stream :=
  match _h : s.getInt with
  | (some e, s') => readRow (row ++ [e]) s'
  | (none, s') => (row, s')
termination_by s.rest.length
decreasing_by exact length_getInt_lt _h

lemma length_readRow_le (row : List Int32) (s : Stream) :
    (readRow row s).2.rest.length ≤ s.rest.length := by
  fun_induction readRow row s with
  | case1 row s e s' h ih => exact ih.trans (length_getInt_lt h).le
  | case2 row s s' h => simpa [h] using length_getInt_le s

/-- The loop over the rows; `cols` has no value before the first one. -/
def readRows (vec : List (List Int32)) (cols : Option ℕ) (s : Stream) :
    List (List Int32) × Option ℕ × Stream :=
  match _h : s.getChar with
  | (none, s') => (vec, cols, s')
  | (some c, s') =>
    if c = ']' then (vec, cols, s')
    else
      readRows (vec ++ [(readRow [] s').1]) (some (readRow [] s').1.length) (readRow [] s').2.clear
termination_by s.rest.length
decreasing_by exact (length_readRow_le [] s').trans_lt (length_getChar_lt _h)

/-- `in >> m`; no result when `cols` is used without a value. -/
def read (m : Matrix) (s : Stream) : Option (Outcome Exn Matrix × Stream) :=
  match readRows [] none s with
  | (vec, some cols, s) =>
    some (andThen (m.assign (Matrix.ofSize vec.length cols)) (copyFrom vec vec.length cols), s)
  | (_, none, _) => none

/-! ### Copying the entries -/

def elemAt (vec : List (List Int32)) (i j : ℕ) : Option Int32 := vec[i]?.bind fun row => row[j]?

lemma index_ok {xs : List α} {i : ℕ} (hi : i < xs.length) : index xs i = .ok xs[i] := by
  rw [index, List.getElem?_eq_getElem hi]

lemma entry_ok {vec : List (List Int32)} {i j : ℕ} {x : Int32} (h : elemAt vec i j = some x) :
    entry vec i j = .ok x := by
  obtain ⟨row, hrow, hx⟩ := Option.bind_eq_some_iff.mp h
  simp only [entry, index, hrow, bind, Except.bind, hx]

lemma entry_error {vec : List (List Int32)} {i j : ℕ} (h : elemAt vec i j = none) :
    entry vec i j = .error indexError := by
  cases hrow : vec[i]? with
  | none => simp only [entry, index, hrow, bind, Except.bind]
  | some row =>
    rw [elemAt, hrow, Option.bind_some] at h
    simp only [entry, index, hrow, bind, Except.bind, h]

lemma elemAt_of_lt (m : Matrix) {i j : ℕ} (hi : i < m.rows) (hj : j < m.cols) :
    ∃ x, elemAt m.vectors i j = some x := by
  have hi' : i < m.vectors.length := by rwa [m.length_eq]
  have hj' : j < m.vectors[i].length := by rwa [m.width_eq _ (List.getElem_mem hi')]
  exact ⟨m.vectors[i][j], by simp [elemAt, hi', hj']⟩

lemma elemAt_put (m : Matrix) {i j : ℕ} (hi : i < m.rows) (hj : j < m.cols) (x : Int32)
    (i' j' : ℕ) : elemAt (m.put i j x).vectors i' j' =
      if i' = i ∧ j' = j then some x else elemAt m.vectors i' j' := by
  rw [elemAt, Matrix.put, List.getElem?_modify]
  by_cases h : i' = i
  · subst h
    have hi' : i' < m.vectors.length := by rwa [m.length_eq]
    have hj' : j < m.vectors[i'].length := by rwa [m.width_eq _ (List.getElem_mem hi')]
    simp [elemAt, List.getElem?_eq_getElem hi', List.getElem?_set, hj', @eq_comm _ j]
  · simp [elemAt, h, Ne.symm h]

/-- The rows before `i`, and in the row `i` the entries before `j`, are those of `t`. -/
structure Agrees (t : Matrix) (i j : ℕ) (m : Matrix) : Prop where
  rows : m.rows = t.rows
  cols : m.cols = t.cols
  entries : ∀ i' j', i' < i ∨ i' = i ∧ j' < j → j' < t.cols →
    elemAt m.vectors i' j' = elemAt t.vectors i' j'

section Copy

variable {t m : Matrix} {i j : ℕ}

lemma setEntry_agrees {x : Int32} (hx : elemAt t.vectors i j = some x) (hm : Agrees t i j m)
    (hi : i < t.rows) (hj : j < t.cols) :
    ∃ m', m.setEntry i j x = (.ok (), m') ∧ Agrees t i (j + 1) m' := by
  have hi' : i < m.rows := hm.rows ▸ hi
  have hj' : j < m.cols := hm.cols ▸ hj
  obtain ⟨y, hy⟩ := elemAt_of_lt m hi' hj'
  refine ⟨m.put i j x, by rw [Matrix.setEntry, entry_ok hy, orThrow_ok], hm.rows, hm.cols, ?_⟩
  intro i' j' hlt hj'c
  rw [elemAt_put m hi' hj']
  split_ifs with h
  · rw [h.1, h.2, hx]
  · exact hm.entries i' j' (by omega) hj'c

lemma Agrees.eq (hm : Agrees t t.rows 0 m) : m = t := by
  have hlen : m.vectors.length = t.vectors.length := by
    rw [m.length_eq, t.length_eq, hm.rows]
  refine Matrix.ext hm.rows hm.cols (List.ext_getElem hlen fun i hi hi' => ?_)
  have hw := m.width_eq _ (List.getElem_mem hi)
  have hw' := t.width_eq _ (List.getElem_mem hi')
  rw [hm.cols] at hw
  refine List.ext_getElem? fun j => ?_
  by_cases hj : j < t.cols
  · simpa [elemAt, hi, hi'] using hm.entries i j (.inl (by rwa [← t.length_eq])) hj
  · rw [List.getElem?_eq_none (by omega), List.getElem?_eq_none (by omega)]

/-- **The copying loops** make a matrix of the same size equal to the one they copy. -/
lemma copyFrom_ok (hrows : m.rows = t.rows) (hcols : m.cols = t.cols) :
    copyFrom t.vectors t.rows t.cols m = (.ok (), t) := by
  have hrun : ∃ m', copyFrom t.vectors t.rows t.cols m = (.ok (), m') ∧ Agrees t t.rows 0 m' := by
    refine forRange_ok (I := fun i => Agrees t i 0)
      ⟨hrows, hcols, fun i' j' h => absurd h (by omega)⟩ fun i hi m hm => ?_
    obtain ⟨m', hrun, hm'⟩ := forRange_ok (I := fun j => Agrees t i j) (n := t.cols) hm
      (f := fun j => orThrow (entry t.vectors i j) fun x m => m.setEntry i j x)
      fun j hj m hm => by
        obtain ⟨x, hx⟩ := elemAt_of_lt t hi hj
        rw [entry_ok hx, orThrow_ok]
        exact setEntry_agrees hx hm hi hj
    exact ⟨m', hrun, hm'.rows, hm'.cols, fun i' j' h hj' => hm'.entries i' j' (by omega) hj'⟩
  obtain ⟨m', hrun, hm'⟩ := hrun
  rw [hrun, hm'.eq]

lemma assign_ok (this m : Matrix) : this.assign m = (.ok (), m) :=
  copyFrom_ok rfl rfl

end Copy

/-! ### The text of a matrix -/

def entriesText (row : List Int32) : List Char := row.flatMap fun e => decimal e.toInt ++ [' ']

lemma entriesText_cons (e : Int32) (row : List Int32) :
    entriesText (e :: row) = decimal e.toInt ++ ' ' :: entriesText row := by
  simp [entriesText]

def rowsText : List (List Int32) → List Char
  | [] => []
  | row :: rows =>
    ' ' :: (entriesText row ++ ((if rows = [] then [] else ['\n', ';']) ++ rowsText rows))

lemma printRow_ok (row : List Int32) (out : List Char) :
    printRow row.length row out = (.ok (), out ++ entriesText row) := by
  obtain ⟨out', hrun, hout⟩ := forRange_ok (n := row.length) (s := out)
    (f := fun j => orThrow (index row j) fun e out =>
      (.ok (), out ++ decimal e.toInt ++ [' ']))
    (I := fun j o => o ++ entriesText (row.drop j) = out ++ entriesText row) rfl
    fun j hj o ho => by
      refine ⟨o ++ decimal row[j].toInt ++ [' '], by rw [index_ok hj, orThrow_ok], ?_⟩
      rw [← ho, List.drop_eq_getElem_cons hj, entriesText_cons]
      simp only [List.append_assoc, List.singleton_append]
  rw [printRow, hrun, ← hout]
  simp [entriesText]

lemma print_ok (m : Matrix) (out : List Char) :
    print m out = (.ok (), out ++ '[' :: (rowsText m.vectors ++ [']'])) := by
  obtain ⟨out', hrun, hout⟩ := forRange_ok (n := m.rows) (s := out ++ ['['])
    (f := fun i => orThrow (index m.vectors i) fun row out =>
      andThen (printRow m.cols row (out ++ [' '])) fun out =>
        (.ok (), if i + 1 ≠ m.rows then out ++ ['\n', ';'] else out))
    (I := fun i o => o ++ rowsText (m.vectors.drop i) = out ++ ['['] ++ rowsText m.vectors) rfl
    fun i hi o ho => by
      have hi' : i < m.vectors.length := by rwa [m.length_eq]
      have hrow := printRow_ok m.vectors[i] (o ++ [' '])
      rw [m.width_eq _ (List.getElem_mem hi')] at hrow
      refine ⟨_, by rw [index_ok hi', orThrow_ok, hrow, andThen_ok], ?_⟩
      rw [List.drop_eq_getElem_cons hi', rowsText] at ho
      rw [← ho]
      -- the separator is left out after the last row
      have hlast : m.vectors.drop (i + 1) = [] ↔ i + 1 = m.rows := by
        rw [List.drop_eq_nil_iff, m.length_eq]
        omega
      simp only [hlast]
      split_ifs <;> simp_all
  rw [print, hrun, andThen_ok]
  rw [List.drop_eq_nil_of_le m.length_eq.le] at hout
  simp_all [rowsText]

lemma readRow_some {row : List Int32} {s s' : Stream} {e : Int32} (h : s.getInt = (some e, s')) :
    readRow row s = readRow (row ++ [e]) s' := by
  rw [readRow]
  split <;> simp_all

lemma readRow_none {row : List Int32} {s s' : Stream} (h : s.getInt = (none, s')) :
    readRow row s = (row, s') := by
  rw [readRow]
  split <;> simp_all

/-- A text with the numbers `es` and any white space around them. Between two of them there may be
none where the second one has a sign. -/
inductive RowText : List Int32 → List Char → Prop
  | nil {ws : List Char} (hws : ∀ c ∈ ws, isSpace c = true) : RowText [] ws
  | cons {ws num text : List Char} {e : Int32} {es : List Int32}
    (hws : ∀ c ∈ ws, isSpace c = true) (hnum : Numeral e.toInt num) (hends : EndsNumber text)
    (hes : RowText es text) : RowText (e :: es) (ws ++ (num ++ text))

/-- The texts of one or more rows, with semicolons between them. -/
inductive RowsText : List (List Int32) → List Char → Prop
  | single {row : List Int32} {text : List Char} (hrow : RowText row text) : RowsText [row] text
  | cons {row : List Int32} {rows : List (List Int32)} {text texts : List Char}
    (hrow : RowText row text) (hrows : RowsText rows texts) :
    RowsText (row :: rows) (text ++ ';' :: texts)

/-- A character that no number starts with, and that stands for itself. -/
def Stops (c : Char) : Prop := isSpace c = false ∧ c.isDigit = false ∧ c ≠ '-' ∧ c ≠ '+'

instance (c : Char) : Decidable (Stops c) := inferInstanceAs (Decidable (_ ∧ _ ∧ _ ∧ _))

/-- **The numbers of a row are read**, up to the character that ends it. -/
lemma readRow_rowText {es : List Int32} {text : List Char} (h : RowText es text) {c : Char}
    (hc : Stops c) (row : List Int32) (tail : List Char) :
    readRow row ⟨text ++ c :: tail, false⟩ = (row ++ es, ⟨c :: tail, true⟩) := by
  obtain ⟨hspace, hdigit, hminus, hplus⟩ := hc
  induction h generalizing row with
  | nil hws =>
    have hget := getInt_cons hspace hdigit hminus hplus tail
    rw [← getInt_spaces hws] at hget
    rw [readRow_none hget, List.append_nil]
  | @cons ws num text e es hws hnum hends hes ih =>
    have hends' : EndsNumber (text ++ c :: tail) := by
      cases text with
      | nil =>
        rintro c' ⟨⟩
        exact hdigit
      | cons a text => exact hends
    have hget := getInt_numeral hnum hends'
    rw [← getInt_spaces hws] at hget
    rw [List.append_assoc, List.append_assoc, readRow_some hget, ih, List.append_assoc,
      List.singleton_append]

lemma readRows_row {vec : List (List Int32)} {cols : Option ℕ} {c : Char} {text text' : List Char}
    {row : List Int32} (hspace : isSpace c = false) (hc : c ≠ ']')
    (hrow : readRow [] ⟨text, false⟩ = (row, ⟨text', true⟩)) :
    readRows vec cols ⟨c :: text, false⟩ =
      readRows (vec ++ [row]) (some row.length) ⟨text', false⟩ := by
  have hget := getChar_cons hspace text
  rw [readRows]
  split <;> simp_all [Stream.clear]

lemma readRows_end (vec : List (List Int32)) (cols : Option ℕ) (rest : List Char) :
    readRows vec cols ⟨']' :: rest, false⟩ = (vec, cols, ⟨rest, false⟩) := by
  have hget := getChar_cons (c := ']') (by decide) rest
  rw [readRows]
  split <;> simp_all

lemma RowsText.ne_nil {rows : List (List Int32)} {text : List Char} (h : RowsText rows text) :
    rows ≠ [] := by
  cases h <;> exact List.cons_ne_nil _ _

/-- **The rows of a text are read**, after the bracket or the separator before them. The last one
gives the number of columns. -/
lemma readRows_rowsText {rows : List (List Int32)} {text : List Char} (h : RowsText rows text)
    (vec : List (List Int32)) (cols : Option ℕ) {c : Char} (hspace : isSpace c = false)
    (hc : c ≠ ']') (rest : List Char) :
    readRows vec cols ⟨c :: (text ++ ']' :: rest), false⟩ =
      (vec ++ rows, some (rows.getLastD []).length, ⟨rest, false⟩) := by
  induction h generalizing vec cols c with
  | single hrow =>
    rw [readRows_row hspace hc (readRow_rowText hrow (by decide) [] rest), readRows_end]
    rfl
  | cons hrow hrows ih =>
    rw [List.append_assoc, List.cons_append,
      readRows_row hspace hc (readRow_rowText hrow (by decide) [] _),
      ih _ _ (by decide) (by decide)]
    obtain ⟨row', rows, rfl⟩ := List.exists_cons_of_ne_nil hrows.ne_nil
    simp [List.getLast?_cons]

lemma rowText_entries (row : List Int32) (ws : List Char) (hws : ∀ c ∈ ws, isSpace c = true) :
    RowText row (' ' :: (entriesText row ++ ws)) := by
  have hblank : ∀ c ∈ [' '], isSpace c = true := by simp [isSpace]
  induction row with
  | nil => exact .nil (List.forall_mem_cons.mpr ⟨by decide, hws⟩)
  | cons e es ih =>
    have h := RowText.cons hblank (numeral_decimal e.toInt) (by simp [EndsNumber]) ih
    rw [entriesText_cons]
    simpa using h

lemma rowsText_printed (row : List Int32) (rows : List (List Int32)) :
    RowsText (row :: rows) (rowsText (row :: rows)) := by
  induction rows generalizing row with
  | nil =>
    have h := RowsText.single (rowText_entries row [] (by simp))
    simpa [rowsText] using h
  | cons row' rows ih =>
    have h := RowsText.cons (rowText_entries row ['\n'] (by simp [isSpace])) (ih row')
    rw [rowsText, if_neg (List.cons_ne_nil _ _)]
    simpa using h

/-- **A printed matrix is read back**, whatever matrix it is read into and whatever comes after
it. -/
theorem read_print (m : Matrix) (hm : 1 ≤ m.rows) (this : Matrix) (rest : List Char) :
    ∃ text, print m [] = (.ok (), text) ∧
      read this ⟨text ++ rest, false⟩ = some ((.ok (), m), ⟨rest, false⟩) := by
  obtain ⟨row, rows, hrows⟩ := List.exists_cons_of_length_pos (m.length_eq.symm ▸ hm)
  have htext := rowsText_printed row rows
  rw [← hrows] at htext
  have hwidth : (m.vectors.getLastD []).length = m.cols := by
    refine m.width_eq _ ?_
    rw [List.getLastD_eq_getLast?, List.getLast?_eq_getLast_of_ne_nil (by simp [hrows])]
    exact List.getLast_mem _
  have hread := readRows_rowsText htext [] none (c := '[') (by decide) (by decide) rest
  rw [hwidth, List.nil_append] at hread
  refine ⟨_, print_ok m [], ?_⟩
  have hcopy : copyFrom m.vectors m.rows m.cols (Matrix.ofSize m.rows m.cols) = (.ok (), m) :=
    copyFrom_ok rfl rfl
  simp [read, hread, m.length_eq, assign_ok, hcopy]

/-- Two rows with numbers of both signs, read into a matrix of another size. -/
theorem read_print_signs :
    1 ≤ 2 ∧ ∃ text, print ⟨2, 2, [[10, -3], [0, 25]], rfl, by decide⟩ [] = (.ok (), text) ∧
      read (Matrix.ofSize 7 1) ⟨text ++ [], false⟩ =
        some ((.ok (), ⟨2, 2, [[10, -3], [0, 25]], rfl, by decide⟩), ⟨[], false⟩) :=
  ⟨by decide, read_print ⟨2, 2, [[10, -3], [0, 25]], rfl, by decide⟩ (by decide)
    (Matrix.ofSize 7 1) []⟩

end Zinzhi.IntMatrix
