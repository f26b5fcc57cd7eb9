import Zinzhi.Db
import Zinzhi.Rows
import Mathlib.Data.List.TakeWhile
import Mathlib.Data.Nat.Digits.Defs

/-!
The format of the index file of `db.c`.

The index file is the text of a table of pointers and of a row of records. What the functions that
read and write it do is told by two functions of an offset: the pointer that is there, and the
record that starts there.
-/

namespace Zinzhi.Db

open Zinzhi.Files Zinzhi.TextStream Zinzhi.Rows

/-! ### Numbers -/

lemma length_decimal_nat {n w : ℕ} (hw : 0 < w) (hn : n < 10 ^ w) : (decimal n).length ≤ w := by
  have := Nat.toDigits_length 10 n w hw hn
  simpa [decimal, show ¬(n : ℤ) < 0 by omega] using this

lemma length_decimal_pos (n : ℤ) : 0 < (decimal n).length := by
  have := List.length_pos_iff.mpr (Nat.toDigits_ne_nil (n := n.natAbs) (b := 10))
  rw [decimal, List.length_append]
  omega

lemma length_padded {n w : ℕ} (hw : 0 < w) (hn : n < 10 ^ w) : (padded w n).length = w := by
  have := length_decimal_nat hw hn
  rw [padded, List.length_append, List.length_replicate]
  omega

lemma atol_decimal (n : ℤ) : atol (decimal n) = n := by
  have h := scanInt_decimal n (show EndsNumber [] by simp [EndsNumber])
  rw [List.append_nil] at h
  rw [atol, h]
  rfl

/-- **A number in a field is read back.** -/
lemma atol_padded (w : ℕ) (n : ℤ) : atol (padded w n) = n := by
  rw [padded]
  generalize w - (decimal n).length = k
  induction k with
  | zero => exact atol_decimal n
  | succ k ih =>
    rw [List.replicate_succ, List.cons_append, atol, scanInt_space rfl]
    exact ih

/-! ### Records -/

structure Info where
  key : List Char
  datoff : ℕ
  datlen : ℕ

def Info.text (x : Info) : List Char :=
  x.key ++ SEP :: decimal x.datoff ++ SEP :: decimal x.datlen ++ [NEWLINE]

/-- A record that can be written and read. -/
structure Info.Ok (x : Info) : Prop where
  nul : NUL ∉ x.key
  sep : SEP ∉ x.key
  min : IDXLEN_MIN ≤ x.text.length
  max : x.text.length ≤ IDXLEN_MAX
  pos : 0 < x.datlen
  small : x.datlen ≤ DATLEN_MAX

structure Record where
  info : Info
  ptr : ℕ

def Record.front (r : Record) : List Char :=
  padded PTR_SZ r.ptr ++ padded IDXLEN_SZ r.info.text.length

def Record.text (r : Record) : List Char := r.front ++ r.info.text

structure Record.Ok (r : Record) : Prop where
  info : r.info.Ok
  ptr : r.ptr ≤ PTR_MAX

instance : Extent Record := ⟨fun r => r.text.length⟩

variable {x y : Info} {r r' : Record} {db : DB} {off o v w : ℕ}

lemma strchr_append {s rest : List Char} (hs : SEP ∉ s) :
    strchr (s ++ SEP :: rest) = some (s, rest) := by
  have hne : ∀ c ∈ s, decide (c ≠ SEP) = true := fun c hc =>
    decide_eq_true fun (h : c = SEP) => hs (h ▸ hc)
  rw [strchr, if_pos (by simp), List.takeWhile_append_of_pos hne, List.dropWhile_append_of_pos hne]
  simp

lemma notMem_decimal {c : Char} (n : ℕ) (hc : c.isDigit = false) : c ∉ decimal n := by
  intro hmem
  rw [decimal, if_neg (by omega), List.nil_append] at hmem
  simp [isDigit_toDigits _ c hmem] at hc

lemma cstr_of_notMem {s : List Char} (hs : NUL ∉ s) : cstr s = s :=
  List.takeWhile_eq_self_iff.mpr fun c hc => decide_eq_true fun (h : c = NUL) => hs (h ▸ hc)

/-- **A record that was written is read back.** -/
lemma splitRecord_text (hx : x.Ok) : splitRecord x.text = .ok (x.key, x.datoff, x.datlen) := by
  have hlast : x.text.getLast? = some NEWLINE := by rw [Info.text, List.getLast?_concat]
  have hdrop : x.text.dropLast = x.key ++ SEP :: (decimal x.datoff ++ SEP :: decimal x.datlen) := by
    rw [Info.text, List.dropLast_concat]
    simp
  have hnul : NUL ∉ x.text.dropLast := by
    rw [hdrop]
    simpa using ⟨hx.nul, by decide, notMem_decimal _ rfl, by decide, notMem_decimal _ rfl⟩
  have hpos := hx.pos
  have hsmall := hx.small
  rw [splitRecord, if_neg (by simp [hlast]), cstr_of_notMem hnul, hdrop, strchr_append hx.sep]
  simp only [strchr_append (notMem_decimal x.datoff rfl), atol_decimal]
  rw [if_neg (notMem_decimal x.datlen rfl), if_neg (by omega), if_neg (by omega)]
  simp

lemma length_ptr (hv : v ≤ PTR_MAX) : (padded PTR_SZ v).length = 7 :=
  length_padded (by decide) (show v < 10000000 from Nat.lt_succ_of_le hv)

lemma Record.Ok.length_front (hr : r.Ok) : r.front.length = 11 := by
  have hlen : r.info.text.length < 10 ^ 4 := Nat.lt_of_le_of_lt hr.info.max (by decide)
  rw [Record.front, List.length_append, length_ptr hr.ptr, length_padded (by decide) hlen]

lemma Record.Ok.length_text (hr : r.Ok) : r.text.length = 11 + r.info.text.length := by
  rw [Record.text, List.length_append, hr.length_front]

lemma Record.Ok.pos (hr : r.Ok) : 0 < Extent.extent r := by
  show 0 < r.text.length
  rw [hr.length_text]
  omega

/-! ### The index file -/

abbrev tableLen : ℕ := (NHASH_DEF + 1) * PTR_SZ + 1

structure Index where
  heads : List ℕ
  recs : List Record
  table : heads.length = NHASH_DEF + 1
  headsOk : ∀ p ∈ heads, p ≤ PTR_MAX
  recsOk : ∀ r ∈ recs, r.Ok

namespace Index

def tableText (heads : List ℕ) : List Char := heads.flatMap fun p : ℕ => padded PTR_SZ p

variable (I : Index)

def text : List Char := tableText I.heads ++ [NEWLINE] ++ I.recs.flatMap Record.text

/-- The record that starts at an offset. -/
def info (off : ℕ) : Option Info := (item? tableLen I.recs off).map Record.info

/-- The pointer at an offset: a field of the table, or the first field of a record. -/
def next (off : ℕ) : Option ℕ :=
  if off < (NHASH_DEF + 1) * PTR_SZ then
    if off % PTR_SZ = 0 then I.heads[off / PTR_SZ]? else none
  else (item? tableLen I.recs off).map Record.ptr

def size : ℕ := tableLen + span I.recs

lemma length_flatMap_text (recs : List Record) : (recs.flatMap Record.text).length = span recs := by
  rw [List.length_flatMap]
  rfl

lemma length_tableText {heads : List ℕ} (h : ∀ p ∈ heads, p ≤ PTR_MAX) :
    (tableText heads).length = 7 * heads.length := by
  induction heads with
  | nil => rfl
  | cons p heads ih =>
    rw [tableText, List.flatMap_cons, List.length_append, length_ptr (h p (by simp)), ← tableText,
      ih fun q hq => h q (by simp [hq]), List.length_cons]
    omega

lemma length_text : I.text.length = I.size := by
  rw [text, List.length_append, List.length_append, length_flatMap_text,
    length_tableText I.headsOk, I.table]
  rfl

lemma recs_pos : ∀ r ∈ I.recs, 0 < Extent.extent r := fun r hr => (I.recsOk r hr).pos

variable {I}

lemma text_at {pre post : List Record} (hrecs : I.recs = pre ++ r :: post) :
    ∃ l, I.text = l ++ r.text ++ post.flatMap Record.text ∧ l.length = 967 + span pre := by
  refine ⟨tableText I.heads ++ [NEWLINE] ++ pre.flatMap Record.text, ?_, ?_⟩
  · rw [text, hrecs]
    simp
  · rw [List.length_append, List.length_append, length_flatMap_text,
      length_tableText I.headsOk, I.table]
    rfl

lemma exists_setHead {i : ℕ} (hi : I.heads[i]? = some v) (hw : w ≤ PTR_MAX) :
    ∃ l m, I.text = l ++ padded PTR_SZ v ++ m ∧ l.length = 7 * i ∧
      ∃ J : Index, J.heads = I.heads.set i w ∧ J.recs = I.recs ∧
        J.text = l ++ padded PTR_SZ w ++ m := by
  obtain ⟨hlt, hv⟩ := List.getElem?_eq_some_iff.mp hi
  have hsplit : I.heads = I.heads.take i ++ v :: I.heads.drop (i + 1) := by
    rw [← hv, ← List.drop_eq_getElem_cons hlt, List.take_append_drop]
  have hset : I.heads.set i w = I.heads.take i ++ w :: I.heads.drop (i + 1) := by
    rw [List.set_eq_take_append_cons_drop, if_pos hlt]
  refine ⟨tableText (I.heads.take i),
    tableText (I.heads.drop (i + 1)) ++ [NEWLINE] ++ I.recs.flatMap Record.text, ?_, ?_,
    ⟨I.heads.set i w, I.recs, by rw [List.length_set, I.table], fun p hp => ?_, I.recsOk⟩, rfl, rfl,
    ?_⟩
  · rw [text]
    conv_lhs => rw [hsplit]
    simp [tableText]
  · rw [length_tableText fun p hp => I.headsOk p (List.mem_of_mem_take hp), List.length_take]
    omega
  · rcases List.mem_or_eq_of_mem_set hp with hp | rfl
    · exact I.headsOk p hp
    · exact hw
  · simp only [text, hset]
    simp [tableText]

/-- **A record is replaced** by another of the same length. -/
lemma exists_setRecord (hat : At tableLen I.recs off r) (hr' : r'.Ok)
    (hlen : r'.text.length = r.text.length) :
    ∃ l m, I.text = l ++ r.text ++ m ∧ l.length = off ∧
      ∃ J : Index, J.heads = I.heads ∧ J.text = l ++ r'.text ++ m ∧ J.size = I.size ∧
        item? tableLen J.recs = Function.update (item? tableLen I.recs) off (some r') := by
  obtain ⟨pre, post, hrecs, rfl⟩ := hat
  have hpre : ∀ b ∈ pre, 0 < Extent.extent b := fun b hb => I.recs_pos b (by simp [hrecs, hb])
  obtain ⟨l, htext, hl⟩ := text_at hrecs
  refine ⟨l, post.flatMap Record.text, htext, hl, ⟨I.heads, pre ++ r' :: post, I.table, I.headsOk,
    fun q hq => ?_⟩, rfl, ?_, ?_, ?_⟩
  · have hok := I.recsOk q
    rw [hrecs] at hok
    simp only [List.mem_append, List.mem_cons] at hq hok
    rcases hq with hq | rfl | hq
    · exact hok (.inl hq)
    · exact hr'
    · exact hok (.inr (.inr hq))
  · rw [text, hrecs] at htext
    simp only [List.flatMap_append, List.flatMap_cons, ← List.append_assoc] at htext
    obtain ⟨hl', -⟩ := List.append_inj' (List.append_cancel_right htext) rfl
    simp [text, ← hl']
  · simp only [size, hrecs, span_append, span_cons]
    rw [show Extent.extent r' = Extent.extent r from hlen]
  · have hitem : item? tableLen (pre ++ r' :: post) = _ := item?_replace hpre hlen
    rwa [← hrecs] at hitem

lemma next_eq (I : Index) (off : ℕ) : I.next off =
    if off < 966 then if off % 7 = 0 then I.heads[off / 7]? else none
    else (item? tableLen I.recs off).map Record.ptr := rfl

lemma next_of_at (hat : At tableLen I.recs o r) :
    I.next o = some r.ptr ∧ I.info o = some r.info := by
  have hitem := item?_of_at I.recs_pos hat
  have hle : 967 ≤ o := hat.le.1
  rw [next_eq, if_neg (by omega), info, hitem]
  exact ⟨rfl, rfl⟩

/-- What is known of a record by its offset. -/
structure Has (I : Index) (o : ℕ) (x : Info) (v : ℕ) : Prop where
  row : At tableLen I.recs o ⟨x, v⟩
  next : I.next o = some v
  ok : x.Ok
  ptr : v ≤ PTR_MAX
  low : 967 ≤ o
  high : o + (11 + x.text.length) ≤ I.size

lemma has_of_info (hx : I.info o = some x) : ∃ v, I.Has o x v := by
  obtain ⟨⟨y, v⟩, hitem, rfl⟩ := Option.map_eq_some_iff.mp hx
  have hat := at_of_item? hitem
  have hok := I.recsOk _ hat.mem
  have hend : o + (Record.text ⟨y, v⟩).length ≤ I.size := hat.le.2
  rw [hok.length_text] at hend
  exact ⟨v, hat, (next_of_at hat).1, hok.info, hok.ptr, hat.le.1, hend⟩

/-- **A pointer field**, in the table or in a record, and what the file is when it is changed. -/
lemma exists_setPtr (hn : I.next off = some v) (hw : w ≤ PTR_MAX) :
    ∃ l m, I.text = l ++ padded PTR_SZ v ++ m ∧ l.length = off ∧ v ≤ PTR_MAX ∧
      ∃ J : Index, J.text = l ++ padded PTR_SZ w ++ m ∧ J.size = I.size ∧ J.info = I.info ∧
        J.next = Function.update I.next off (some w) := by
  rw [next_eq] at hn
  split at hn
  · -- a field of the table
    next hlt =>
    split at hn
    · next hmod =>
      have hoff : off = 7 * (off / 7) := by omega
      obtain ⟨l, m, htext, hl, J, hheads, hrecs, hJ⟩ := exists_setHead hn hw
      refine ⟨l, m, htext, by rw [hl]; exact hoff.symm, I.headsOk v (List.mem_of_getElem? hn), J,
        hJ, by simp [size, hrecs], ?_, ?_⟩
      · funext p
        simp [info, hrecs]
      · have hi := (List.getElem?_eq_some_iff.mp hn).1
        funext p
        rw [Function.update_apply, next_eq, next_eq, hheads, hrecs]
        split
        · by_cases hp : p = off
          · simp [hp, hmod, hi]
          · rw [if_neg hp]
            split
            · rw [List.getElem?_set_ne (by omega)]
            · rfl
        · rw [if_neg (by omega)]
    · cases hn
  · -- the first field of a record
    next hlt =>
    obtain ⟨⟨x, u⟩, hitem, rfl⟩ := Option.map_eq_some_iff.mp hn
    have hat := at_of_item? hitem
    have hok := I.recsOk _ hat.mem
    have hok' : Record.Ok ⟨x, w⟩ := ⟨hok.info, hw⟩
    obtain ⟨l, m, htext, hl, J, hheads, hJ, hsize, hitems⟩ :=
      exists_setRecord hat hok' (by rw [hok.length_text, hok'.length_text])
    refine ⟨l, padded IDXLEN_SZ x.text.length ++ x.text ++ m, ?_, hl, hok.ptr, J, ?_, hsize, ?_, ?_⟩
    · rw [htext]
      simp [Record.text, Record.front]
    · rw [hJ]
      simp [Record.text, Record.front]
    · funext p
      rw [info, info, hitems, Function.update_apply]
      split
      · next hp => rw [hp, hitem]; rfl
      · rfl
    · funext p
      rw [Function.update_apply, next_eq, next_eq, hheads, hitems, Function.update_apply]
      by_cases hp : p = off
      · simp [hp, hlt]
      · simp [hp]

/-- **A record is written over**, with a text of the same length. -/
lemma exists_setInfo (hx : I.Has o x v) (hy : y.Ok) (hlen : y.text.length = x.text.length)
    (hw : w ≤ PTR_MAX) :
    ∃ l m, I.text = l ++ Record.text ⟨x, v⟩ ++ m ∧ l.length = o ∧
      ∃ J : Index, J.text = l ++ Record.text ⟨y, w⟩ ++ m ∧ J.size = I.size ∧
        J.info = Function.update I.info o (some y) ∧
        J.next = Function.update I.next o (some w) := by
  have hok : Record.Ok ⟨x, v⟩ := ⟨hx.ok, hx.ptr⟩
  have hok' : Record.Ok ⟨y, w⟩ := ⟨hy, hw⟩
  obtain ⟨l, m, htext, hl, J, hheads, hJ, hsize, hitems⟩ :=
    exists_setRecord hx.row hok' (by rw [hok.length_text, hok'.length_text, hlen])
  refine ⟨l, m, htext, hl, J, hJ, hsize, ?_, ?_⟩
  · funext p
    rw [info, hitems, Function.update_apply, Function.update_apply]
    split <;> rfl
  · have hlow := hx.low
    funext p
    rw [Function.update_apply, next_eq, next_eq, hheads, hitems, Function.update_apply]
    by_cases hp : p = o
    · rw [if_neg (by omega), if_pos hp, if_pos hp]
      rfl
    · simp [hp]

/-- **A record is added.** -/
lemma exists_append (I : Index) (hy : y.Ok) (hw : w ≤ PTR_MAX) :
    ∃ J : Index, J.text = I.text ++ Record.text ⟨y, w⟩ ∧ J.size = I.size + (11 + y.text.length) ∧
      J.info = Function.update I.info I.size (some y) ∧
      J.next = Function.update I.next I.size (some w) := by
  have hok : Record.Ok ⟨y, w⟩ := ⟨hy, hw⟩
  have hitems : item? tableLen (I.recs ++ [⟨y, w⟩]) =
      Function.update (item? tableLen I.recs) I.size (some ⟨y, w⟩) := item?_concat I.recs_pos
  have hext : Extent.extent (⟨y, w⟩ : Record) = 11 + y.text.length := hok.length_text
  have hlow : 967 ≤ I.size := Nat.le_add_right _ _
  refine ⟨⟨I.heads, I.recs ++ [⟨y, w⟩], I.table, I.headsOk, fun r hr => ?_⟩, ?_, ?_, ?_, ?_⟩
  · rcases List.mem_append.mp hr with hr | hr
    · exact I.recsOk r hr
    · rw [List.mem_singleton.mp hr]
      exact hok
  · simp [text]
  · simp only [size, span_append, span_cons, span_nil, hext]
    omega
  · funext p
    rw [info, hitems, Function.update_apply, Function.update_apply]
    split <;> rfl
  · funext p
    rw [Function.update_apply, next_eq, next_eq, hitems, Function.update_apply]
    by_cases hp : p = I.size
    · rw [if_neg (by omega), if_pos hp, if_pos hp]
      rfl
    · rw [if_neg hp, if_neg hp]

end Index

/-! ### The functions -/

variable {I : Index} {key data : List Char}

def DB.moved (db : DB) (pos : ℕ) : DB := { db with idxpos := pos }

/-- The index file has been written up to this offset. -/
def DB.wroteIdx (db : DB) (idx : List Char) (pos : ℕ) : DB := { db with idx := idx, idxpos := pos }

/-- What `_db_writedat` leaves behind. -/
def DB.wroteDat (db : DB) (off : ℕ) (data dat : List Char) : DB :=
  { db with datoff := off, datlen := data.length + 1, dat := dat }

/-- What `_db_readidx` leaves behind. -/
def DB.loaded (db : DB) (o : ℕ) (x : Info) (v : ℕ) : DB :=
  { db with
    idxoff := o, ptrval := v, idxlen := x.text.length, idxbuf := x.key, datoff := x.datoff,
    datlen := x.datlen, idxpos := o + (11 + x.text.length) }

lemma readptr_eq (hidx : db.idx = I.text) (hn : I.next off = some v) :
    readptr db off = .ok (db.moved (off + 7), (v : ℤ)) := by
  obtain ⟨l, m, htext, hl, hv, -⟩ := Index.exists_setPtr hn (Nat.zero_le _)
  have hread : readAt db.idx off PTR_SZ = padded PTR_SZ v := by
    have := readAt_mid l (padded PTR_SZ v) m
    rwa [length_ptr hv, hl, ← htext, ← hidx] at this
  rw [readptr, if_neg (by omega), Int.toNat_natCast, hread,
    if_neg (by rw [length_ptr hv]; exact fun h => h rfl), atol_padded, DB.moved]

lemma writeptr_eq (hidx : db.idx = I.text) (hn : I.next off = some v) (hw : w ≤ PTR_MAX) :
    ∃ J : Index, writeptr db off w = .ok (db.wroteIdx J.text (off + 7)) ∧
      J.size = I.size ∧ J.info = I.info ∧ J.next = Function.update I.next off (some w) := by
  obtain ⟨l, m, htext, hl, hv, J, hJ, hsize, hinfo, hnext⟩ := Index.exists_setPtr hn hw
  refine ⟨J, ?_, hsize, hinfo, hnext⟩
  have hwrite : writeAt NUL db.idx off (padded PTR_SZ w) = J.text := by
    rw [hidx, htext, hJ, ← hl]
    exact writeAt_mid NUL (by rw [length_ptr hv, length_ptr hw])
  rw [writeptr, if_neg (by omega), if_neg (by omega), Int.toNat_natCast, hwrite, DB.wroteIdx]

/-- **A record is read by its offset**, or where the last read of the index file ended. -/
lemma readidx_eq (hidx : db.idx = I.text) (hx : I.Has o x v) {offset : ℤ} (hge : 0 ≤ offset)
    (hpos : (if offset = 0 then db.idxpos else offset.toNat) = o) :
    readidx db offset = .ok (db.loaded o x v, (v : ℤ)) := by
  have hok : Record.Ok ⟨x, v⟩ := ⟨hx.ok, hx.ptr⟩
  have hmin := hx.ok.min
  have hmax := hx.ok.max
  obtain ⟨l, m, htext, hl, -⟩ := Index.exists_setRecord hx.row hok rfl
  have hfront : readAt db.idx o 11 = Record.front ⟨x, v⟩ := by
    have := readAt_mid l (Record.front ⟨x, v⟩) (x.text ++ m)
    rw [hok.length_front, hl] at this
    rw [hidx, htext, ← this]
    simp [Record.text]
  have hrecord : readAt db.idx (o + 11) x.text.length = x.text := by
    have := readAt_mid (l ++ Record.front ⟨x, v⟩) x.text m
    rw [List.length_append, hok.length_front, hl] at this
    rw [hidx, htext]
    simpa [Record.text] using this
  have htake : (Record.front ⟨x, v⟩).take PTR_SZ = padded PTR_SZ v := by
    rw [Record.front, List.take_left' (length_ptr hx.ptr)]
  have hdrop : (Record.front ⟨x, v⟩).drop PTR_SZ = padded IDXLEN_SZ x.text.length := by
    rw [Record.front, List.drop_left' (length_ptr hx.ptr)]
  rw [readidx, if_neg (by omega), hpos]
  simp only [show PTR_SZ + IDXLEN_SZ = 11 from rfl, hfront, hok.length_front, htake, hdrop,
    atol_padded, Int.toNat_natCast, hrecord]
  rw [if_neg (by simp), if_neg (by omega), if_neg (by simp), splitRecord_text hx.ok]
  simp only [DB.loaded, Nat.add_assoc]
  rfl

/-- What `_db_writeidx` leaves behind, but for the file. -/
def DB.written (db : DB) (o : ℕ) (y : Info) (w : ℕ) (idx : List Char) : DB :=
  { db with
    ptrval := w, idxbuf := y.text, idxoff := o, idxpos := o + (11 + y.text.length), idx := idx }

lemma writeidx_eq {whence : Whence} (hseek : whence.lseek db.idx = some o) (hy : y.Ok)
    (hw : w ≤ PTR_MAX) (hoff : db.datoff = y.datoff) (hdatlen : db.datlen = y.datlen) :
    writeidx db y.key whence w =
      .ok (db.written o y w (writeAt NUL db.idx o (Record.text ⟨y, w⟩))) := by
  have hmin := hy.min
  have hmax := hy.max
  have htext : y.key ++ SEP :: decimal db.datoff ++ SEP :: decimal db.datlen ++ [NEWLINE] =
      y.text := by
    rw [hoff, hdatlen]
    rfl
  have hlen := Record.Ok.length_text (r := ⟨y, w⟩) ⟨hy, hw⟩
  simp only [writeidx, htext, hseek]
  rw [if_neg (by omega), if_neg (by omega), DB.written, ← hlen]
  rfl

/-- **A record is written over.** -/
lemma writeidx_set (hidx : db.idx = I.text) (hx : I.Has o x v) (hy : y.Ok)
    (hlen : y.text.length = x.text.length) (hw : w ≤ PTR_MAX) (hoff : db.datoff = y.datoff)
    (hdatlen : db.datlen = y.datlen) :
    ∃ J : Index, writeidx db y.key (.set o) w = .ok (db.written o y w J.text) ∧
      J.size = I.size ∧ J.info = Function.update I.info o (some y) ∧
      J.next = Function.update I.next o (some w) := by
  have hok : Record.Ok ⟨x, v⟩ := ⟨hx.ok, hx.ptr⟩
  have hok' : Record.Ok ⟨y, w⟩ := ⟨hy, hw⟩
  obtain ⟨l, m, htext, hl, J, hJ, hsize, hinfo, hnext⟩ := Index.exists_setInfo hx hy hlen hw
  refine ⟨J, ?_, hsize, hinfo, hnext⟩
  have hseek : (Whence.set o).lseek db.idx = some o := by
    rw [Whence.lseek, if_neg (by omega), Int.toNat_natCast]
  rw [writeidx_eq hseek hy hw hoff hdatlen, hidx, htext, hJ, ← hl,
    writeAt_mid NUL (by rw [hok.length_text, hok'.length_text, hlen])]

/-- **A record is added at the end.** -/
lemma writeidx_append (hidx : db.idx = I.text) (hy : y.Ok) (hw : w ≤ PTR_MAX)
    (hoff : db.datoff = y.datoff) (hdatlen : db.datlen = y.datlen) :
    ∃ J : Index, writeidx db y.key .append w = .ok (db.written I.size y w J.text) ∧
      J.size = I.size + (11 + y.text.length) ∧ J.info = Function.update I.info I.size (some y) ∧
      J.next = Function.update I.next I.size (some w) := by
  obtain ⟨J, hJ, hsize, hinfo, hnext⟩ := I.exists_append hy hw
  refine ⟨J, ?_, hsize, hinfo, hnext⟩
  have hseek : Whence.append.lseek db.idx = some I.size := by
    rw [Whence.lseek, hidx, I.length_text]
  rw [writeidx_eq hseek hy hw hoff hdatlen, hidx, hJ, ← I.length_text, writeAt_end]

lemma writedat_set (db : DB) (data : List Char) (n : ℕ) :
    writedat db data (.set n) =
      .ok (db.wroteDat n data (writeAt NUL db.dat n (data ++ [NEWLINE]))) := by
  rw [writedat, Whence.lseek, if_neg (by omega), Int.toNat_natCast, DB.wroteDat]

lemma writedat_append (db : DB) (data : List Char) :
    writedat db data .append =
      .ok (db.wroteDat db.dat.length data (db.dat ++ (data ++ [NEWLINE]))) := by
  rw [writedat, Whence.lseek]
  simp only [writeAt_end, DB.wroteDat]

end Zinzhi.Db
