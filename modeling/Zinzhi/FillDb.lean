import Zinzhi.GcfReaders
import Zinzhi.Lines
import Zinzhi.Loops
import Mathlib.Logic.Function.Basic

/-!
The read loop of `filldb`, which sorts the lines of its input by the record they announce.

Both tests look for a tag anywhere in the line, and the first reader leaves of it only the first
token. A `BDUi` line with the other tag in a field is so taken for both records.
-/

namespace Zinzhi.FillDb

open Zinzhi.GcfReaders Zinzhi.Lines Zinzhi.Loops Zinzhi.Strtok

def BUFSIZ : ℕ := 8192

def MAXENTRIES : ℕ := 22500

structure State where
  i : ℕ
  j : ℕ
  tradables : ℕ → Record
  underlyings : ℕ → Record

def State.initial : State := ⟨0, 0, fun _ => Record.zero, fun _ => Record.zero⟩

section Loop

variable (unfit : ℕ → ℤ → ℤ)

/-- `read_BDt(line, tradables[i++])` -/
def storeTradable (line : List Char) (st : State) : Except Exit (List Char × State) :=
  (readBDt unfit line (st.tradables st.i)).map fun (line, r) =>
    (line, { st with i := st.i + 1, tradables := Function.update st.tradables st.i r })

/-- `read_BDUi(line, underlyings[j++])` -/
def storeUnderlying (line : List Char) (st : State) : Except Exit (List Char × State) :=
  (readBDUi unfit line (st.underlyings st.j)).map fun (line, r) =>
    (line, { st with j := st.j + 1, underlyings := Function.update st.underlyings st.j r })

/-- `if (strstr(line, "BDt"))` -/
def testBDt (line : List Char) (st : State) : Except Exit (List Char × State) :=
  if BDt.tag <:+: line then storeTradable unfit line st else .ok (line, st)

/-- `if (strstr(line, "BDUi"))` -/
def testBDUi (line : List Char) (st : State) : Except Exit (List Char × State) :=
  if BDUi.tag <:+: line then storeUnderlying unfit line st else .ok (line, st)

/-- The body of the loop; the second test is made on the line the first reader leaves. -/
def processLine (line : List Char) (st : State) : Except Exit State :=
  (testBDt unfit line st).bind fun (line, st) => (testBDUi unfit line st).map Prod.snd

/-- `while (fgets(line, BUFSIZ, stdin) != NULL)` -/
def readLoop (stdin : List Char) (st : State) : Except Exit State :=
  if _h : stdin = [] then .ok st
  else
    (processLine unfit (cut '\n' (BUFSIZ - 1) stdin).1 st).bind
      (readLoop (cut '\n' (BUFSIZ - 1) stdin).2)
termination_by stdin.length
decreasing_by exact length_rest_lt '\n' (by decide) _h

end Loop

/-! ### Inputs -/

inductive Kind
  | tradable
  | underlying
  deriving DecidableEq

def Kind.tag : Kind → List Char
  | .tradable => BDt.tag
  | .underlying => BDUi.tag

def lineText (kind : Kind) (fields : List (List Char)) : List Char :=
  kind.tag ++ ';' :: fields.flatMap (· ++ [';'])

/-- A line without its newline. -/
structure Line where
  kind : Kind
  fields : List (List Char)
  printable : ∀ f ∈ fields, ∀ c ∈ f, ' ' ≤ c ∧ c ≤ '~' ∧ c ≠ ';'
  short : (lineText kind fields).length < BUFSIZ

def Line.text (l : Line) : List Char := lineText l.kind l.fields

/-- The last line may end without a newline. -/
def inputText (ended : Bool) : List Line → List Char
  | [] => []
  | l :: ls =>
    l.text ++ ((if ls = [] ∧ ended = false then [] else ['\n']) ++ inputText ended ls)

structure Input where
  lines : List Line
  few : lines.length < MAXENTRIES
  ended : Bool

def Input.text (input : Input) : List Char := inputText input.ended input.lines

def ofKind (kind : Kind) (ls : List Line) : List Line := ls.filter fun l => l.kind = kind

structure Column (read : List Char → Record → Except Exit (List Char × Record)) (ls : List Line)
    (n : ℕ) (entries : ℕ → Record) : Prop where
  size : n = ls.length
  entry : ∀ k l, ls[k]? = some l → (read l.text Record.zero).map Prod.snd = .ok (entries k)

/-- Each line is stored once, as the record it announces. -/
structure Stored (unfit : ℕ → ℤ → ℤ) (ls : List Line) (st : State) : Prop where
  tradables : Column (readBDt unfit) (ofKind .tradable ls) st.i st.tradables
  underlyings : Column (readBDUi unfit) (ofKind .underlying ls) st.j st.underlyings

/-- No field of a `BDUi` line has the other tag in it. -/
def Unmixed (ls : List Line) : Prop :=
  ∀ l ∈ ls, l.kind = .underlying → ∀ f ∈ l.fields, ¬BDt.tag <:+: f

/-- A line is read by the reader it announces. -/
def storeAnnounced (unfit : ℕ → ℤ → ℤ) (l : Line) (st : State) : Except Exit State :=
  match l.kind with
  | .tradable => (storeTradable unfit l.text st).map Prod.snd
  | .underlying => (storeUnderlying unfit l.text st).map Prod.snd

def announced (unfit : ℕ → ℤ → ℤ) (ls : List Line) (st : State) : Except Exit State :=
  ls.foldlM (fun st l => storeAnnounced unfit l st) st

/-! ### One line -/

lemma delim_notMem (l : Line) {f : List Char} (hf : f ∈ l.fields) : ';' ∉ f :=
  fun h => (l.printable f hf _ h).2.2 rfl

lemma Kind.tag_ne_nil (k : Kind) : k.tag ≠ [] := by cases k <;> decide

lemma Kind.notMem_tag (k : Kind) : ';' ∉ k.tag ∧ nul ∉ k.tag ∧ '\n' ∉ k.tag := by
  cases k <;> decide

lemma newline_notMem_text (l : Line) : '\n' ∉ l.text := by
  have htag := l.kind.notMem_tag.2.2
  have hfields : '\n' ∉ l.fields.flatMap (· ++ [';']) := by
    intro h
    obtain ⟨f, hf, hmem⟩ := List.mem_flatMap.mp h
    rcases List.mem_append.mp hmem with h | h
    · exact absurd (l.printable f hf _ h).1 (by decide)
    · exact absurd (List.mem_singleton.mp h) (by decide)
  simp [Line.text, lineText, htag, hfields]

lemma infix_fields_iff {t : List Char} (hne : t ≠ []) (ht : ';' ∉ t) (fields : List (List Char)) :
    t <:+: fields.flatMap (· ++ [';']) ↔ ∃ f ∈ fields, t <:+: f := by
  induction fields with
  | nil => simp [hne]
  | cons f fields ih =>
    rw [List.flatMap_cons, List.append_assoc, List.singleton_append, List.exists_mem_cons_iff,
      ← ih]
    constructor
    · exact fun h => infix_of_not_mem h ht
    · rintro (h | h)
      · exact h.trans (List.prefix_append f _).isInfix
      · exact h.trans ((List.suffix_cons _ _).trans (List.suffix_append f _)).isInfix

lemma tag_infix_text (l : Line) : l.kind.tag <:+: l.text := (List.prefix_append _ _).isInfix

/-- The line has the tag `BDt` in it where its first token is that tag or a field has it. -/
lemma bdt_infix_text_iff (l : Line) :
    BDt.tag <:+: l.text ↔ l.kind = .tradable ∨ ∃ f ∈ l.fields, BDt.tag <:+: f := by
  have hfirst : BDt.tag <:+: l.kind.tag ↔ l.kind = .tradable := by cases l.kind <;> decide
  have hne : BDt.tag ≠ [] := Kind.tag_ne_nil .tradable
  have hdelim : ';' ∉ BDt.tag := (Kind.notMem_tag .tradable).1
  rw [← hfirst, ← infix_fields_iff hne hdelim]
  constructor
  · exact fun h => infix_of_not_mem h hdelim
  · rintro (h | h)
    · exact h.trans (List.prefix_append _ _).isInfix
    · exact h.trans ((List.suffix_cons _ _).trans (List.suffix_append _ _)).isInfix

/-- A newline does not make a tag occur. -/
lemma infix_tail_iff {t text tail : List Char} (htail : tail = [] ∨ tail = ['\n']) (hne : t ≠ [])
    (ht : '\n' ∉ t) : t <:+: text ++ tail ↔ t <:+: text := by
  obtain rfl | rfl := htail
  · rw [List.append_nil]
  · constructor
    · intro h
      obtain h | h := infix_of_not_mem h ht
      · exact h
      · exact absurd (List.infix_nil.mp h) hne
    · exact fun h => h.trans (List.prefix_append _ _).isInfix

section Process

variable (unfit : ℕ → ℤ → ℤ) (l : Line) {tail : List Char} (htail : tail = [] ∨ tail = ['\n'])

include htail

lemma readLine_text (tag : List Char) {fields : List Field}
    (hnl : ∀ f ∈ fields, ¬f.tag <+: ['\n']) (r : Record) :
    readLine unfit tag fields (l.text ++ tail) r =
      ((l.kind.tag :: l.fields).foldlM
        (fun r v => readToken unfit tag fields l.kind.tag v r) r).map (l.kind.tag, ·) := by
  obtain ⟨hdelim, hnul, -⟩ := l.kind.notMem_tag
  rw [Line.text, lineText, List.append_assoc, List.cons_append]
  exact readLine_eq hnl hnul htail l.kind.tag_ne_nil hdelim (fun v hv => delim_notMem l hv) r

lemma readLine_tail {tag : List Char} {fields : List Field}
    (hnl : ∀ f ∈ fields, ¬f.tag <+: ['\n']) (r : Record) :
    readLine unfit tag fields (l.text ++ tail) r = readLine unfit tag fields l.text r := by
  have h := readLine_text unfit l (.inl rfl) tag hnl r
  rw [List.append_nil] at h
  rw [h, readLine_text unfit l htail tag hnl r]

omit htail in
lemma storeTradable_ok {line line' : List Char} {st st' : State}
    (h : storeTradable unfit line st = .ok (line', st')) :
    ∃ r, readBDt unfit line (st.tradables st.i) = .ok (line', r) ∧
      st' = { st with i := st.i + 1, tradables := Function.update st.tradables st.i r } := by
  obtain ⟨⟨_, r⟩, hread, heq⟩ := map_eq_ok_iff.mp h
  obtain ⟨rfl, rfl⟩ := Prod.mk.inj heq
  exact ⟨r, hread, rfl⟩

omit htail in
lemma storeUnderlying_ok {line line' : List Char} {st st' : State}
    (h : storeUnderlying unfit line st = .ok (line', st')) :
    ∃ r, readBDUi unfit line (st.underlyings st.j) = .ok (line', r) ∧
      st' = { st with j := st.j + 1, underlyings := Function.update st.underlyings st.j r } := by
  obtain ⟨⟨_, r⟩, hread, heq⟩ := map_eq_ok_iff.mp h
  obtain ⟨rfl, rfl⟩ := Prod.mk.inj heq
  exact ⟨r, hread, rfl⟩

omit htail in
/-- **One line** counts as a `BDt` line where the tag occurs in it. -/
lemma processLine_i {line : List Char} {st st' : State}
    (h : processLine unfit line st = .ok st') :
    st'.i = st.i + if BDt.tag <:+: line then 1 else 0 := by
  obtain ⟨⟨line₁, st₁⟩, h₁, h⟩ := bind_eq_ok_iff.mp h
  obtain ⟨⟨line₂, st₂⟩, h₂, rfl⟩ := map_eq_ok_iff.mp h
  have hi₁ : st₁.i = st.i + if BDt.tag <:+: line then 1 else 0 := by
    unfold testBDt at h₁
    split_ifs at h₁ ⊢
    · obtain ⟨r, -, rfl⟩ := storeTradable_ok unfit h₁
      rfl
    · exact congrArg State.i (Prod.mk.inj (Except.ok.inj h₁)).2.symm
  have hi₂ : st₂.i = st₁.i := by
    unfold testBDUi at h₂
    split_ifs at h₂
    · obtain ⟨r, -, rfl⟩ := storeUnderlying_ok unfit h₂
      rfl
    · exact congrArg State.i (Prod.mk.inj (Except.ok.inj h₂)).2.symm
  exact hi₂.trans hi₁

lemma processLine_tail (st : State) :
    processLine unfit (l.text ++ tail) st = processLine unfit l.text st := by
  have hbdt : BDt.tag <:+: l.text ++ tail ↔ BDt.tag <:+: l.text :=
    infix_tail_iff htail (Kind.tag_ne_nil .tradable) (Kind.notMem_tag .tradable).2.2
  have hbdui : BDUi.tag <:+: l.text ++ tail ↔ BDUi.tag <:+: l.text :=
    infix_tail_iff htail (Kind.tag_ne_nil .underlying) (Kind.notMem_tag .underlying).2.2
  have hstore : storeTradable unfit (l.text ++ tail) st = storeTradable unfit l.text st := by
    rw [storeTradable, storeTradable, readBDt,
      readLine_tail unfit l htail BDt.newline_no_field]
  have hstore' : storeUnderlying unfit (l.text ++ tail) st = storeUnderlying unfit l.text st := by
    rw [storeUnderlying, storeUnderlying, readBDUi,
      readLine_tail unfit l htail BDUi.newline_no_field]
  rw [processLine, processLine, testBDt, testBDt]
  simp only [hbdt, hstore]
  split_ifs
  · rfl
  · simp only [Except.bind, testBDUi, hbdui, hstore']
    split_ifs <;> rfl

omit htail in
lemma processLine_unmixed (hl : l.kind = .underlying → ∀ f ∈ l.fields, ¬BDt.tag <:+: f)
    (st : State) : processLine unfit l.text st = storeAnnounced unfit l st := by
  rw [storeAnnounced]
  cases hk : l.kind with
  | tradable =>
    have hthis : BDt.tag <:+: l.text := (bdt_infix_text_iff l).mpr (.inl hk)
    -- what the reader leaves of the line does not have the other tag
    have hread :=
      readLine_text unfit l (.inl rfl) BDt.tag BDt.newline_no_field (st.tradables st.i)
    rw [List.append_nil, hk] at hread
    obtain ⟨res, hres⟩ : ∃ res : Except Exit Record,
        readBDt unfit l.text (st.tradables st.i) = res.map (BDt.tag, ·) := ⟨_, hread⟩
    rw [processLine, testBDt, if_pos hthis, storeTradable, hres]
    cases res <;> rfl
  | underlying =>
    have hother : ¬BDt.tag <:+: l.text := by
      rw [bdt_infix_text_iff]
      rintro (h | ⟨f, hf, h⟩)
      · exact nomatch hk.symm.trans h
      · exact hl hk f hf h
    have hthis := tag_infix_text l
    rw [hk] at hthis
    replace hthis : BDUi.tag <:+: l.text := hthis
    simp only [processLine, testBDt, if_neg hother, Except.bind, testBDUi, if_pos hthis]

end Process

/-! ### The whole input -/

section Input

variable (unfit : ℕ → ℤ → ℤ)

lemma readLoop_cut {stdin : List Char} (hne : stdin ≠ []) (st : State) :
    readLoop unfit stdin st =
      (processLine unfit (cut '\n' (BUFSIZ - 1) stdin).1 st).bind
        (readLoop unfit (cut '\n' (BUFSIZ - 1) stdin).2) := by
  rw [readLoop, dif_neg hne]

lemma readLoop_nil (st : State) : readLoop unfit [] st = .ok st := by
  rw [readLoop, dif_pos rfl]

/-- A newline that is read alone, after a line that just fits the buffer, is no line. -/
lemma readLoop_newline (rest : List Char) (st : State) :
    readLoop unfit ('\n' :: rest) st = readLoop unfit rest st := by
  have hcut : cut '\n' (BUFSIZ - 1) ('\n' :: rest) = (['\n'], rest) :=
    cut_line (q := []) (by simp) (by decide) rest
  rw [readLoop_cut unfit (List.cons_ne_nil _ _), hcut]
  rfl

lemma text_ne_nil (l : Line) : l.text ≠ [] := by
  simp [Line.text, lineText]

lemma readLoop_line (l : Line) (rest : List Char) (st : State) :
    readLoop unfit (l.text ++ '\n' :: rest) st =
      (processLine unfit l.text st).bind (readLoop unfit rest) := by
  have hlen : l.text.length < BUFSIZ := l.short
  have hnl := newline_notMem_text l
  rw [readLoop_cut unfit (List.append_ne_nil_of_left_ne_nil (text_ne_nil l) _)]
  by_cases hroom : l.text.length < BUFSIZ - 1
  · rw [cut_line hnl hroom, processLine_tail unfit l (.inr rfl)]
  · rw [cut_piece hnl (by omega) (.inl (by omega))]
    rw [funext (readLoop_newline unfit rest)]

lemma readLoop_last (l : Line) (st : State) :
    readLoop unfit l.text st = processLine unfit l.text st := by
  have hlen : l.text.length < BUFSIZ := l.short
  have hcut := cut_piece (k := BUFSIZ - 1) (newline_notMem_text l) (by omega)
    (.inr (rfl : ([] : List Char) = []))
  rw [List.append_nil] at hcut
  rw [readLoop_cut unfit (text_ne_nil l), hcut]
  cases processLine unfit l.text st with
  | error e => rfl
  | ok st' => exact readLoop_nil unfit st'

/-- **The loop takes the input line by line.** -/
lemma readLoop_input (ended : Bool) (ls : List Line) (st : State) :
    readLoop unfit (inputText ended ls) st =
      ls.foldlM (fun st l => processLine unfit l.text st) st := by
  induction ls generalizing st with
  | nil => exact readLoop_nil unfit st
  | cons l ls ih =>
    rw [inputText, List.foldlM_cons]
    split_ifs with hlast
    · obtain ⟨rfl, -⟩ := hlast
      rw [inputText, List.append_nil, List.append_nil, readLoop_last]
      cases processLine unfit l.text st <;> rfl
    · rw [List.singleton_append, readLoop_line]
      cases processLine unfit l.text st with
      | error e => rfl
      | ok st' => exact ih st'

/-- Unmixed lines go where they are announced, also when a reader ends the program. -/
lemma foldlM_unmixed {ls : List Line} (hls : Unmixed ls) (st : State) :
    ls.foldlM (fun st l => processLine unfit l.text st) st = announced unfit ls st := by
  induction ls generalizing st with
  | nil => rfl
  | cons l ls ih =>
    have hrest : Unmixed ls := fun l' hl' => hls l' (List.mem_cons_of_mem _ hl')
    rw [announced, List.foldlM_cons, List.foldlM_cons,
      processLine_unmixed unfit l (hls l List.mem_cons_self)]
    exact congrArg _ (funext fun st' => ih hrest st')

lemma foldlM_i {ls : List Line} {st st' : State}
    (h : ls.foldlM (fun st l => processLine unfit l.text st) st = .ok st') :
    st'.i = st.i + (ls.filter fun l => BDt.tag <:+: l.text).length := by
  induction ls generalizing st with
  | nil =>
    obtain rfl : st = st' := Except.ok.inj h
    rfl
  | cons l ls ih =>
    rw [List.foldlM_cons] at h
    obtain ⟨st₁, h₁, h⟩ := bind_eq_ok_iff.mp h
    rw [ih h, processLine_i unfit h₁, List.filter_cons]
    by_cases hl : BDt.tag <:+: l.text
    · simp [hl]
      omega
    · simp [hl]

/-- The counts agree only if every line with the tag in it announces a `BDt`. -/
lemma unmixed_of_count {ls : List Line}
    (h : (ls.filter fun l => BDt.tag <:+: l.text).length = (ofKind .tradable ls).length) :
    Unmixed ls := by
  have hle : (fun l : Line => decide (l.kind = .tradable)) ≤
      fun l => decide (BDt.tag <:+: l.text) := by
    intro l hl
    simp only [decide_eq_true_eq] at hl ⊢
    exact (bdt_infix_text_iff l).mpr (.inl hl)
  have heq := (List.monotone_filter_right ls hle).eq_of_length h.symm
  intro l hl hkind f hf hinfix
  have hmem : l ∈ ls.filter fun l => BDt.tag <:+: l.text := by
    rw [List.mem_filter, decide_eq_true_eq]
    exact ⟨hl, (bdt_infix_text_iff l).mpr (.inr ⟨f, hf, hinfix⟩)⟩
  rw [← heq, List.mem_filter, decide_eq_true_eq] at hmem
  exact nomatch hmem.2.symm.trans hkind

end Input

/-! ### What is stored -/

section Stored

variable {unfit : ℕ → ℤ → ℤ} {read : List Char → Record → Except Exit (List Char × Record)}
  {ls : List Line} {n : ℕ} {entries : ℕ → Record}

/-- A line is read into the next entry, which is still as `calloc` left it. -/
lemma Column.push (hcol : Column read ls n entries) {l : Line} {line : List Char} {r : Record}
    (hread : read l.text Record.zero = .ok (line, r)) :
    Column read (ls ++ [l]) (n + 1) (Function.update entries n r) := by
  refine ⟨by simp [hcol.size], fun k l' hk => ?_⟩
  rcases Nat.lt_or_ge k ls.length with hlt | hge
  · rw [List.getElem?_append_left hlt] at hk
    rw [Function.update_of_ne (by rw [hcol.size]; omega)]
    exact hcol.entry k l' hk
  · rw [List.getElem?_append_right hge, List.getElem?_singleton] at hk
    obtain ⟨hsub, hl⟩ := Option.ite_none_right_eq_some.mp hk
    obtain rfl := Option.some.inj hl
    obtain rfl : k = n := by rw [hcol.size]; omega
    rw [hread, Function.update_self]
    rfl

/-- `Stored`, with the entries from `i` and from `j` on unused. -/
structure Progress (unfit : ℕ → ℤ → ℤ) (ls : List Line) (st : State) : Prop extends
    Stored unfit ls st where
  unusedTradables : ∀ k, st.i ≤ k → st.tradables k = Record.zero
  unusedUnderlyings : ∀ k, st.j ≤ k → st.underlyings k = Record.zero

lemma unused_update {r : Record} (h : ∀ k, n ≤ k → entries k = Record.zero) (k : ℕ)
    (hk : n + 1 ≤ k) : Function.update entries n r k = Record.zero := by
  rw [Function.update_of_ne (by omega)]
  exact h k (by omega)

lemma Progress.step {done : List Line} {st st' : State} (hp : Progress unfit done st) (l : Line)
    (h : storeAnnounced unfit l st = .ok st') : Progress unfit (done ++ [l]) st' := by
  unfold storeAnnounced at h
  cases hk : l.kind with
  | tradable =>
    rw [hk] at h
    obtain ⟨⟨line, st₁⟩, hstore, rfl⟩ := map_eq_ok_iff.mp h
    obtain ⟨r, hread, rfl⟩ := storeTradable_ok unfit hstore
    rw [hp.unusedTradables st.i le_rfl] at hread
    refine ⟨⟨?_, ?_⟩, unused_update hp.unusedTradables, hp.unusedUnderlyings⟩
    · simpa [ofKind, hk] using hp.tradables.push hread
    · simpa [ofKind, hk] using hp.underlyings
  | underlying =>
    rw [hk] at h
    obtain ⟨⟨line, st₁⟩, hstore, rfl⟩ := map_eq_ok_iff.mp h
    obtain ⟨r, hread, rfl⟩ := storeUnderlying_ok unfit hstore
    rw [hp.unusedUnderlyings st.j le_rfl] at hread
    refine ⟨⟨?_, ?_⟩, hp.unusedTradables, unused_update hp.unusedUnderlyings⟩
    · simpa [ofKind, hk] using hp.tradables
    · simpa [ofKind, hk] using hp.underlyings.push hread

lemma Progress.run {done ls : List Line} {st st' : State} (hp : Progress unfit done st)
    (h : announced unfit ls st = .ok st') : Progress unfit (done ++ ls) st' := by
  induction ls generalizing done st with
  | nil =>
    obtain rfl : st = st' := Except.ok.inj h
    rwa [List.append_nil]
  | cons l ls ih =>
    rw [announced, List.foldlM_cons] at h
    obtain ⟨st₁, h₁, h⟩ := bind_eq_ok_iff.mp h
    have hp' := ih (hp.step l h₁) h
    rwa [List.append_assoc, List.singleton_append] at hp'

lemma progress_initial : Progress unfit [] State.initial where
  tradables := ⟨rfl, fun k l h => by simp [ofKind] at h⟩
  underlyings := ⟨rfl, fun k l h => by simp [ofKind] at h⟩
  unusedTradables _ _ := rfl
  unusedUnderlyings _ _ := rfl

end Stored

/-- **Each line is stored once, as the record it announces**, exactly if no field of a `BDUi` line
has the tag of the other record in it. Then the program also ends where a reader refuses a
line. -/
theorem stored_iff_unmixed (unfit : ℕ → ℤ → ℤ) (input : Input) :
    (Unmixed input.lines →
      readLoop unfit input.text State.initial = announced unfit input.lines State.initial) ∧
    ∀ st, readLoop unfit input.text State.initial = .ok st →
      (Stored unfit input.lines st ↔ Unmixed input.lines) := by
  have hloop := readLoop_input unfit input.ended input.lines State.initial
  rw [Input.text, hloop]
  refine ⟨fun h => foldlM_unmixed unfit h _, fun st hst => ⟨fun h => ?_, fun h => ?_⟩⟩
  · have hi := foldlM_i unfit hst
    rw [h.tradables.size] at hi
    exact unmixed_of_count (by simpa [State.initial] using hi.symm)
  · rw [foldlM_unmixed unfit h] at hst
    exact (progress_initial.run hst).toStored

/-- A `BDUi` line whose source id is `BDt`. -/
def mixedLine : Line where
  kind := .underlying
  fields := [['S', 'i', 'B', 'D', 't']]
  printable := by simp
  short := by decide

/-- It is counted as a `BDt` line as well, and nothing of it is left for the record it
announces. -/
theorem mixedLine_not_stored :
    ∃ st, readLoop (fun _ n => n) (Input.text ⟨[mixedLine], by decide, true⟩) State.initial =
        .ok st ∧ ¬Stored (fun _ n => n) [mixedLine] st := by
  have hread : readBDt (fun _ n => n) mixedLine.text Record.zero = .ok (BDUi.tag, Record.zero) := by
    have h := readLine_text (fun _ n => n) mixedLine (.inl rfl) BDt.tag BDt.newline_no_field
      Record.zero
    rw [List.append_nil] at h
    exact h
  have hread' : readBDUi (fun _ n => n) BDUi.tag Record.zero = .ok (BDUi.tag, Record.zero) := by
    have hlast : strtok ';' ⟨[], BDUi.tag⟩ = (some BDUi.tag, ⟨BDUi.tag, []⟩) :=
      strtok_last (Kind.tag_ne_nil .underlying) (Kind.notMem_tag .underlying).1 []
    rw [readBDUi, readLine, Buffer.ofText, readTokens_some hlast]
    change (readTokens _ _ _ ⟨BDUi.tag, []⟩ _).map _ = _
    rw [readTokens_none (strtok_nil _)]
    rfl
  have hloop := readLoop_input (fun _ n => n) true [mixedLine] State.initial
  let st₁ : State :=
    { State.initial with i := 1, tradables := Function.update (fun _ => Record.zero) 0 Record.zero }
  have hbdt : testBDt (fun _ n => n) mixedLine.text State.initial = .ok (BDUi.tag, st₁) := by
    rw [testBDt, if_pos (by decide)]
    change (readBDt _ mixedLine.text Record.zero).map _ = _
    rw [hread]
    rfl
  let st₂ : State :=
    { st₁ with j := 1, underlyings := Function.update (fun _ => Record.zero) 0 Record.zero }
  have hbdui : testBDUi (fun _ n => n) BDUi.tag st₁ = .ok (BDUi.tag, st₂) := by
    rw [testBDUi, if_pos (by decide)]
    change (readBDUi _ BDUi.tag Record.zero).map _ = _
    rw [hread']
    rfl
  refine ⟨st₂, ?_, fun h => absurd h.tradables.size (by decide)⟩
  rw [Input.text, hloop, List.foldlM_cons, processLine, hbdt]
  simp only [Except.bind, hbdui]
  rfl

end Zinzhi.FillDb
