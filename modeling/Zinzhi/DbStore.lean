import Zinzhi.Chains
import Zinzhi.DbFormat
import Zinzhi.Loops

/-!
What the operations of `db.c` do to the keys and data that are stored.
-/

namespace Zinzhi.Db

open Zinzhi.Files Zinzhi.TextStream Zinzhi.Rows Zinzhi.Chains Zinzhi.Loops

variable {I J : Index} {db db' : DB} {x y : Info} {key data : List Char} {a o p v w fuel : ℕ}
  {os : List ℕ}

/-! ### Walking along a chain -/

/-- A search leaves the files and the chain alone. -/
structure Same (db db' : DB) : Prop where
  idx : db'.idx = db.idx
  dat : db'.dat = db.dat
  chainoff : db'.chainoff = db.chainoff

/-- **The search along a chain** ends with the first record that is looked for, or with none. -/
theorem walk_spec (hidx : db.idx = I.text) (hch : Chain 0 I.next a os)
    (hinfo : ∀ o ∈ os, I.info o ≠ none) (hfuel : os.length < fuel) (found : DB → Bool)
    {q : Info → Bool} (hfound : ∀ db o x v, found (DB.loaded db o x v) = q x)
    (hv : I.next a = some v) :
    (∃ db' prev, walk found fuel db a v = .ok (db', prev, 0) ∧ Same db db' ∧
        ∀ o ∈ os, ∀ x, I.info o = some x → q x = false) ∨
      ∃ l o r x u, os = l ++ o :: r ∧ I.Has o x u ∧ I.info o = some x ∧ q x = true ∧
        walk found fuel db a v = .ok (db.loaded o x u, (lastCell a l : ℕ), (o : ℤ)) := by
  induction os generalizing a v db fuel with
  | nil =>
    obtain ⟨fuel, rfl⟩ := Nat.exists_eq_succ_of_ne_zero (Nat.ne_of_gt hfuel)
    have hzero : v = 0 := by
      have : some 0 = some v := Eq.trans (Eq.symm hch) hv
      simpa using this.symm
    subst hzero
    exact .inl ⟨db, a, by simp [walk], ⟨rfl, rfl, rfl⟩, by simp⟩
  | cons o os ih =>
    obtain ⟨fuel, rfl⟩ := Nat.exists_eq_succ_of_ne_zero (Nat.ne_of_gt (Nat.zero_lt_of_lt hfuel))
    obtain ⟨hnext, hne, hrest⟩ := hch
    obtain rfl : v = o := Option.some.inj (hv.symm.trans hnext)
    obtain ⟨x, hx⟩ := Option.ne_none_iff_exists'.mp (hinfo v (by simp))
    obtain ⟨u, hhas⟩ := Index.has_of_info hx
    have hread : readidx db (v : ℤ) = .ok (db.loaded v x u, (u : ℤ)) :=
      readidx_eq hidx hhas (by omega) (by rw [if_neg (by omega), Int.toNat_natCast])
    have hwalk : walk found (fuel + 1) db a v = if q x then .ok (db.loaded v x u, (a : ℤ), (v : ℤ))
        else walk found fuel (db.loaded v x u) v u := by
      rw [walk, if_neg (by omega), hread]
      simp only [Bind.bind, Except.bind, hfound]
      rfl
    cases hq : q x with
    | true =>
      -- found
      refine .inr ⟨[], v, os, x, u, rfl, hhas, hx, hq, ?_⟩
      rw [hwalk, hq]
      rfl
    | false =>
      -- the search goes on along the chain
      have hidx' : (db.loaded v x u).idx = I.text := hidx
      rw [hwalk, hq]
      rcases ih hidx' hrest (fun o' ho' => hinfo o' (by simp [ho'])) (by simpa using hfuel)
        hhas.next with
        ⟨db', prev, hrun, hsame, hnone⟩ | ⟨l, o', r, x', u', rfl, hhas', hx', hq', hrun⟩
      · refine .inl ⟨db', prev, hrun, ⟨hsame.idx, hsame.dat, hsame.chainoff⟩, ?_⟩
        intro o' ho' x' hx'
        rcases List.mem_cons.mp ho' with rfl | ho'
        · obtain rfl : x = x' := Option.some.inj (hx.symm.trans hx')
          exact hq
        · exact hnone o' ho' x' hx'
      · refine .inr ⟨v :: l, o', r, x', u', rfl, hhas', hx', hq', ?_⟩
        rw [lastCell_cons]
        exact hrun

/-! ### What is stored -/

/-- The free list and the hash chains. -/
abbrev Home := Fin (NHASH_DEF + 1)

def cell (i : Home) : ℕ := PTR_SZ * i

def bucket (key : List Char) : Home := ⟨hash key + 1, Nat.succ_lt_succ (Nat.mod_lt _ (by decide))⟩

structure Stored (dat : List Char) (x : Info) (d : List Char) : Prop where
  len : x.datlen = d.length + 1
  text : readAt dat x.datoff x.datlen = d ++ [NEWLINE]
  nul : NUL ∉ d

/-- The files hold the keys and the data of the map `m`; `home` tells the chain of each record. -/
structure Inv (I : Index) (dat : List Char) (home : ℕ → Home)
    (m : List Char → Option (List Char)) : Prop where
  family : Family 0 I.next cell (fun o => I.info o ≠ none) home
  live : ∀ o x, I.info o = some x → home o ≠ 0 →
    home o = bucket x.key ∧ ∃ d, m x.key = some d ∧ Stored dat x d
  stored : ∀ k d, m k = some d → ∃ o x, I.info o = some x ∧ home o ≠ 0 ∧ x.key = k
  single : ∀ o o' x x', I.info o = some x → I.info o' = some x' → home o ≠ 0 → home o' ≠ 0 →
    x.key = x'.key → o = o'
  free : ∀ o x, I.info o = some x → home o = 0 → ∀ c ∈ x.key, c = SPACE
  inside : ∀ o x, I.info o = some x → x.datoff + x.datlen ≤ dat.length
  apart : ∀ o o' x x', I.info o = some x → I.info o' = some x' → o ≠ o' →
    x.datoff + x.datlen ≤ x'.datoff ∨ x'.datoff + x'.datlen ≤ x.datoff

/-- The files hold the map `m`, and are no longer than `n`. -/
def DB.Holds (db : DB) (m : List Char → Option (List Char)) (n : ℕ) : Prop :=
  ∃ I home, db.idx = Index.text I ∧ Inv I db.dat home m ∧ I.size ≤ n ∧ db.dat.length ≤ n

variable {dat : List Char} {home : ℕ → Home} {m : List Char → Option (List Char)} {n : ℕ}

lemma bucket_ne_zero (key : List Char) : bucket key ≠ 0 := by
  rw [Ne, Fin.ext_iff]
  exact Nat.succ_ne_zero _

lemma cell_zero : cell 0 = 0 := rfl

lemma cell_lt (i : Home) : cell i < 967 := by
  have : (i : ℕ) < 138 := i.isLt
  show 7 * (i : ℕ) < 967
  omega

lemma cell_injective : Function.Injective cell := fun i j h => by
  have h' : 7 * (i : ℕ) = 7 * (j : ℕ) := h
  exact Fin.ext (by omega)

lemma Index.chain_length (I : Index) (hch : Chain 0 I.next a os)
    (hinfo : ∀ o ∈ os, I.info o ≠ none) : os.length ≤ I.size := by
  have hsub : os ⊆ List.range I.size := fun o ho => by
    obtain ⟨x, hx⟩ := Option.ne_none_iff_exists'.mp (hinfo o ho)
    obtain ⟨u, hhas⟩ := Index.has_of_info hx
    have := hhas.high
    exact List.mem_range.mpr (by omega)
  simpa using (List.subperm_of_subset hch.nodup hsub).length_le

/-- What `_db_find_and_lock` leaves behind when it finds the record. -/
def DB.found (db : DB) (o : ℕ) (x : Info) (v : ℕ) (i : Home) (l : List ℕ) : DB :=
  { db.loaded o x v with chainoff := cell i, ptroff := (lastCell (cell i) l : ℕ) }

namespace Inv

variable (hinv : Inv I dat home m)

include hinv

lemma exists_head (i : Home) : ∃ v, I.next (cell i) = some v := by
  obtain ⟨os, hos, -⟩ := hinv.family.chain i
  cases os with
  | nil => exact ⟨0, hos⟩
  | cons o os => exact ⟨o, hos.1⟩

/-- **`_db_find_and_lock`** finds the record of a key, and the pointer to it. -/
theorem findAndLock_spec (hidx : db.idx = I.text) (hfuel : I.size < fuel) (key : List Char) :
    (∃ db', findAndLock fuel db key = .ok (db', -1) ∧ db'.idx = db.idx ∧ db'.dat = db.dat ∧
        db'.chainoff = cell (bucket key) ∧ m key = none) ∨
      ∃ l o r x v, Chain 0 I.next (cell (bucket key)) (l ++ o :: r) ∧
        (∀ o', o' ∈ l ++ o :: r ↔ I.info o' ≠ none ∧ home o' = bucket key) ∧ I.Has o x v ∧
        I.info o = some x ∧ x.key = key ∧
        findAndLock fuel db key = .ok (db.found o x v (bucket key) l, 0) := by
  obtain ⟨os, hos, hmem⟩ := hinv.family.chain (bucket key)
  have hinfo : ∀ o ∈ os, I.info o ≠ none := fun o ho => ((hmem o).mp ho).1
  obtain ⟨v, hv⟩ := hinv.exists_head (bucket key)
  have hlen := I.chain_length hos hinfo
  have hcell : (hash key * PTR_SZ + HASH_OFF : ℤ) = (cell (bucket key) : ℕ) := by
    show (hash key * 7 + 7 : ℤ) = ((7 * (hash key + 1) : ℕ) : ℤ)
    push_cast
    omega
  obtain ⟨db₁, hdb₁⟩ : ∃ db₁ : DB, db₁ = { db with
      chainoff := cell (bucket key), ptroff := cell (bucket key),
      idxpos := cell (bucket key) + 7 } := ⟨_, rfl⟩
  have hidx₁ : db₁.idx = I.text := by rw [hdb₁]; exact hidx
  have hread : readptr { db with chainoff := cell (bucket key), ptroff := cell (bucket key) }
      (cell (bucket key)) = .ok (db₁, (v : ℤ)) := by
    rw [hdb₁]
    exact readptr_eq (I := I) hidx hv
  have hrun : findAndLock fuel db key =
      (walk (fun db => db.idxbuf = key) fuel db₁ (cell (bucket key)) v).bind fun r =>
        .ok ({ r.1 with ptroff := r.2.1 }, if r.2.2 = 0 then -1 else 0) := by
    simp only [findAndLock, hcell, hread, Bind.bind, Except.bind]
    rw [hdb₁]
    rfl
  rcases walk_spec (q := fun x => x.key = key) hidx₁ hos hinfo (Nat.lt_of_le_of_lt hlen hfuel)
    (fun db => db.idxbuf = key) (fun _ _ _ _ => rfl) hv with
    ⟨db', prev, hwalk, hsame, hnone⟩ | ⟨l, o, r, x, u, rfl, hhas, hx, hq, hwalk⟩
  · refine .inl ⟨{ db' with ptroff := prev }, by rw [hrun, hwalk]; rfl, ?_, ?_, ?_, ?_⟩
    · rw [show db.idx = db₁.idx by rw [hdb₁]]
      exact hsame.idx
    · rw [show db.dat = db₁.dat by rw [hdb₁]]
      exact hsame.dat
    · rw [show ((cell (bucket key) : ℕ) : ℤ) = db₁.chainoff by rw [hdb₁]]
      exact hsame.chainoff
    · -- a key that is stored has its record on this chain
      by_contra hne
      obtain ⟨d, hd⟩ := Option.ne_none_iff_exists'.mp hne
      obtain ⟨o, x, hx, hhome, rfl⟩ := hinv.stored key d hd
      have ho : o ∈ os := (hmem o).mpr ⟨by simp [hx], (hinv.live o x hx hhome).1⟩
      simpa using hnone o ho x hx
  · have hne : (o : ℤ) ≠ 0 := by
      have := hhas.low
      omega
    refine .inr ⟨l, o, r, x, u, hos, hmem, hhas, hx, by simpa using hq, ?_⟩
    rw [hrun, hwalk, hdb₁]
    simp only [Except.bind, if_neg hne]
    rfl

lemma live_of_mem {l r : List ℕ}
    (hmem : ∀ o', o' ∈ l ++ o :: r ↔ I.info o' ≠ none ∧ home o' = bucket x.key)
    (hx : I.info o = some x) : ∃ d, m x.key = some d ∧ Stored dat x d := by
  have hhome : home o = bucket x.key := ((hmem o).mp (by simp)).2
  exact (hinv.live o x hx (by rw [hhome]; exact bucket_ne_zero _)).2

end Inv

/-! ### `db_fetch` -/

lemma readdat_eq {d : List Char} (hdat : db.dat = dat) (hd : Stored dat x d)
    (hoff : db.datoff = x.datoff) (hlen : db.datlen = x.datlen) :
    readdat db = .ok ({ db with datbuf := d }, d) := by
  have hread : readAt db.dat db.datoff.toNat db.datlen = d ++ [NEWLINE] := by
    rw [hdat, hoff, hlen, Int.toNat_natCast, hd.text]
  have hlength : (d ++ [NEWLINE]).length = db.datlen := by
    rw [hlen, hd.len, List.length_append, List.length_singleton]
  simp only [readdat, hread]
  rw [if_neg (by omega), if_neg (by simp [hlength]), if_neg (by simp), List.dropLast_concat,
    cstr_of_notMem hd.nul]

/-- **`db_fetch`** returns the data of a key. -/
theorem fetch_spec (hdb : db.Holds m n) (hfuel : n < fuel) (key : List Char) :
    ∃ db', fetch fuel db key = .ok (db', m key) ∧ db'.Holds m n := by
  obtain ⟨I, home, hidx, hinv, hsize, hlen⟩ := hdb
  rcases hinv.findAndLock_spec hidx (Nat.lt_of_le_of_lt hsize hfuel) key with
    ⟨db', hfind, hidx', hdat', -, hnone⟩ | ⟨l, o, r, x, v, hch, hmem, hhas, hx, rfl, hfind⟩
  · refine ⟨db', ?_, I, home, hidx'.trans hidx, hdat' ▸ hinv, hsize, hdat' ▸ hlen⟩
    rw [fetch, hfind, ok_bind, hnone]
    rfl
  · obtain ⟨d, hd, hstored⟩ := hinv.live_of_mem hmem hx
    have hread : readdat (db.found o x v (bucket x.key) l) = _ := readdat_eq rfl hstored rfl rfl
    refine ⟨{ db.found o x v (bucket x.key) l with datbuf := d }, ?_, I, home, hidx, hinv, hsize,
      hlen⟩
    rw [fetch, hfind, ok_bind, hd]
    exact bind_eq_ok_iff.mpr ⟨_, hread, rfl⟩

/-! ### `_db_dodelete` -/

def Info.blank (x : Info) : Info := { x with key := List.replicate x.key.length SPACE }

lemma Info.length_blank (x : Info) : x.blank.text.length = x.text.length := by
  simp [Info.text, Info.blank]

lemma Info.Ok.blank (hx : x.Ok) : x.blank.Ok := by
  refine ⟨?_, ?_, ?_, ?_, hx.pos, hx.small⟩
  · exact fun hmem => absurd (List.eq_of_mem_replicate hmem) (by decide)
  · exact fun hmem => absurd (List.eq_of_mem_replicate hmem) (by decide)
  · rw [x.length_blank]
    exact hx.min
  · rw [x.length_blank]
    exact hx.max

lemma Index.next_le (hn : I.next p = some v) : v ≤ PTR_MAX :=
  (Index.exists_setPtr hn (Nat.zero_le _)).choose_spec.choose_spec.2.2.1

/-- The first lines of `_db_dodelete`. -/
def DB.blanked (db : DB) : DB :=
  { db with
    datbuf := List.replicate (db.datlen - 1) SPACE
    idxbuf := List.replicate db.idxbuf.length SPACE }

/-- **`_db_dodelete`** overwrites a record and its data with blanks, and moves it from its chain to
the free list. -/
theorem dodelete_spec {f : ℕ} (hidx : db.idx = I.text) (hhas : I.Has o x v)
    (hp : I.next p = some o) (hf : I.next 0 = some f) (hpo : p ≠ o) (hp0 : p ≠ 0)
    (hoff : db.idxoff = o) (hkey : db.idxbuf = x.key) (hdatoff : db.datoff = x.datoff)
    (hdatlen : db.datlen = x.datlen) (hptrval : db.ptrval = v) (hptroff : db.ptroff = p) :
    ∃ db' J, dodelete db = .ok db' ∧ db'.idx = Index.text J ∧
      db'.dat = writeAt NUL db.dat x.datoff (List.replicate (x.datlen - 1) SPACE ++ [NEWLINE]) ∧
      db'.chainoff = db.chainoff ∧ J.size = I.size ∧
      J.info = Function.update I.info o (some x.blank) ∧
      J.next = Function.update (Function.update (Function.update I.next o (some f)) 0 (some o)) p
        (some v) := by
  have hlow := hhas.low
  have hpos := hhas.ok.pos
  have hblanks : db.blanked.datbuf = List.replicate (x.datlen - 1) SPACE := by
    rw [← hdatlen]
    rfl
  obtain ⟨A, hA⟩ : ∃ A, A = db.blanked.wroteDat x.datoff db.blanked.datbuf
      (writeAt NUL db.dat x.datoff (db.blanked.datbuf ++ [NEWLINE])) := ⟨_, rfl⟩
  have hA₁ : A.idx = I.text := by rw [hA]; exact hidx
  have hA₂ : A.idxbuf = x.blank.key := by rw [hA, Info.blank, ← hkey]; rfl
  have hA₃ : A.idxoff = o := by rw [hA]; exact hoff
  have hA₄ : A.datoff = x.datoff := by rw [hA]; rfl
  have hA₅ : A.datlen = x.datlen := by
    rw [hA, DB.wroteDat, hblanks, List.length_replicate, Nat.sub_add_cancel hpos]
  have hA₆ : A.ptrval = v := by rw [hA]; exact hptrval
  have hA₇ : A.ptroff = p := by rw [hA]; exact hptroff
  have hwrite₀ : writedat db.blanked db.blanked.datbuf (.set db.blanked.datoff) = .ok A := by
    rw [show db.blanked.datoff = x.datoff from hdatoff, hA]
    exact writedat_set ..
  have hread : readptr A FREE_OFF = .ok (A.moved 7, (f : ℤ)) := readptr_eq hA₁ hf
  obtain ⟨J₁, hwrite₁, hsize₁, hinfo₁, hnext₁⟩ := writeidx_set
    (show (A.moved 7).idx = I.text from hA₁) hhas hhas.ok.blank x.length_blank (Index.next_le hf)
    hA₄ hA₅
  obtain ⟨J₂, hwrite₂, hsize₂, hinfo₂, hnext₂⟩ := writeptr_eq
    (show ((A.moved 7).written o x.blank f J₁.text).idx = J₁.text from rfl)
    (show J₁.next 0 = some f by rw [hnext₁, Function.update_of_ne (by omega), hf])
    (Index.next_le hp)
  obtain ⟨J₃, hwrite₃, hsize₃, hinfo₃, hnext₃⟩ := writeptr_eq
    (show (((A.moved 7).written o x.blank f J₁.text).wroteIdx J₂.text 7).idx = J₂.text from rfl)
    (show J₂.next p = some o by
      rw [hnext₂, Function.update_of_ne hp0, hnext₁, Function.update_of_ne hpo, hp]) hhas.ptr
  refine ⟨(((A.moved 7).written o x.blank f J₁.text).wroteIdx J₂.text 7).wroteIdx J₃.text (p + 7),
    J₃, bind_eq_ok_iff.mpr ⟨A, hwrite₀, bind_eq_ok_iff.mpr ⟨_, hread,
      bind_eq_ok_iff.mpr ⟨_, ?_, bind_eq_ok_iff.mpr ⟨_, hwrite₂, ?_⟩⟩⟩⟩, rfl, ?_, ?_,
    by rw [hsize₃, hsize₂, hsize₁], by rw [hinfo₃, hinfo₂, hinfo₁], by rw [hnext₃, hnext₂, hnext₁]⟩
  · rw [← hA₂, ← hA₃] at hwrite₁
    exact hwrite₁
  · rw [← hA₇, ← hA₆] at hwrite₃
    exact hwrite₃
  · rw [hA, ← hblanks]
    rfl
  · rw [hA]
    rfl

/-! ### The chains after an operation -/

section Families

variable {P : ℕ → Prop} {next next' : ℕ → Option ℕ} {l r : List ℕ} {i j : Home}

lemma ne_of_mem_chain (hlow : ∀ o, P o → 967 ≤ o) (hmem : ∀ x, x ∈ l ++ o :: r ↔ P x ∧ home x = i)
    (hch : Chain 0 next (cell i) (l ++ o :: r)) :
    lastCell (cell i) l ≠ o ∧ ∀ k, k ≠ i → lastCell (cell i) l ≠ cell k := by
  have ho := hlow o ((hmem o).mp (by simp)).1
  rcases List.mem_cons.mp (lastCell_mem (cell i) l) with hlast | hlast
  · rw [hlast]
    have := cell_lt i
    exact ⟨by omega, fun k hk heq => hk (cell_injective heq).symm⟩
  · have hp := hlow _ ((hmem _).mp (List.mem_append_left _ hlast)).1
    refine ⟨fun heq => ?_, fun k _ heq => ?_⟩
    · rw [heq] at hlast
      exact (List.nodup_middle.mp hch.nodup).notMem (List.mem_append_left _ hlast)
    · have := cell_lt k
      omega

/-- **A record is moved** from one chain to the front of another. -/
lemma family_move (hfam : Family 0 next cell P home) (hlow : ∀ o, P o → 967 ≤ o)
    (hmem : ∀ x, x ∈ l ++ o :: r ↔ P x ∧ home x = i)
    (hch : Chain 0 next (cell i) (l ++ o :: r)) (hij : j ≠ i)
    (hlast : next' (lastCell (cell i) l) = next o) (hj : next' (cell j) = some o)
    (ho : next' o = next (cell j))
    (hsame : ∀ x, x ≠ lastCell (cell i) l → x ≠ o → x ≠ cell j → next' x = next x) :
    Family 0 next' cell P (Function.update home o j) := by
  have hP := ((hmem o).mp (by simp)).1
  have hlo := hlow o hP
  obtain ⟨hpo, hpk⟩ := ne_of_mem_chain hlow hmem hch
  have hcut : Family 0 (Function.update next (lastCell (cell i) l) (next o)) cell
      (fun x => P x ∧ x ≠ o) home :=
    hfam.unlink hch hmem (Function.update_self ..) fun x _ hx => Function.update_of_ne hx ..
  have hpush : Family 0 next' cell _ _ := hcut.push (fun h => h.2 rfl) (by omega)
    (fun k => by have := cell_lt k; omega) hj
    (by rw [Function.update_of_ne (hpk j hij).symm, ho]) fun x hxo hxj => ?_
  · refine hpush.of_iff fun x => ?_
    by_cases hx : x = o
    · simp [hx, hP]
    · simp [hx]
  · by_cases hx : x = lastCell (cell i) l
    · rw [hx, hlast, Function.update_self]
    · rw [Function.update_of_ne hx, hsame x hx hxo hxj]

lemma family_new (hfam : Family 0 next cell P home) (ho : ¬P o) (hlo : 967 ≤ o)
    (hj : next' (cell j) = some o) (hnext : next' o = next (cell j))
    (hsame : ∀ x, x ≠ o → x ≠ cell j → next' x = next x) :
    Family 0 next' cell (fun x => P x ∨ x = o) (Function.update home o j) :=
  hfam.push ho (by omega) (fun k => by have := cell_lt k; omega) hj hnext hsame

end Families

/-! ### The map after an operation -/

lemma Inv.low (I : Index) : ∀ o, I.info o ≠ none → 967 ≤ o := fun o ho => by
  obtain ⟨x, hx⟩ := Option.ne_none_iff_exists'.mp ho
  obtain ⟨v, hhas⟩ := Index.has_of_info hx
  exact hhas.low

/-- **A record goes to the free list.** -/
lemma Inv.clear {dat' : List Char} (hinv : Inv I dat home m) (hx : I.info o = some x)
    (hhome : home o ≠ 0) (hinfo : J.info = Function.update I.info o (some x.blank))
    (hfam : Family 0 J.next cell (fun o => J.info o ≠ none) (Function.update home o 0))
    (hlen : dat'.length = dat.length)
    (hsame : ∀ off n, off + n ≤ x.datoff ∨ x.datoff + x.datlen ≤ off →
      readAt dat' off n = readAt dat off n) :
    Inv J dat' (Function.update home o 0) (Function.update m x.key none) := by
  have hcases {o' : ℕ} {x' : Info} (hx' : J.info o' = some x') :
      o' = o ∧ x' = x.blank ∨ o' ≠ o ∧ I.info o' = some x' := by
    rw [hinfo, Function.update_apply] at hx'
    split at hx'
    · next ho => exact .inl ⟨ho, (Option.some.inj hx').symm⟩
    · next ho => exact .inr ⟨ho, hx'⟩
  have hlive {o' : ℕ} {x' : Info} (hx' : J.info o' = some x')
      (hh : Function.update home o 0 o' ≠ 0) :
      o' ≠ o ∧ I.info o' = some x' ∧ home o' ≠ 0 ∧ x'.key ≠ x.key := by
    rcases hcases hx' with ⟨rfl, -⟩ | ⟨hne, hx'⟩
    · simp at hh
    · rw [Function.update_of_ne hne] at hh
      exact ⟨hne, hx', hh, fun hk => hne (hinv.single o' o x' x hx' hx hh hhome hk)⟩
  refine ⟨hfam, fun o' x' hx' hh => ?_, fun k d hk => ?_, fun o₁ o₂ x₁ x₂ h₁ h₂ hh₁ hh₂ hk => ?_,
    fun o' x' hx' hh => ?_, fun o' x' hx' => ?_, fun o₁ o₂ x₁ x₂ h₁ h₂ hne => ?_⟩
  · -- the other records in use have what they had
    obtain ⟨hne, hx', hh', hk⟩ := hlive hx' hh
    obtain ⟨hb, d, hd, hstored⟩ := hinv.live o' x' hx' hh'
    refine ⟨by rw [Function.update_of_ne hne, hb], d, by rw [Function.update_of_ne hk, hd],
      hstored.len, ?_, hstored.nul⟩
    rw [hsame _ _ (hinv.apart o' o x' x hx' hx hne), hstored.text]
  · -- a key that is stored is not the deleted one
    have hne : k ≠ x.key := by
      rintro rfl
      simp at hk
    rw [Function.update_of_ne hne] at hk
    obtain ⟨o', x', hx', hh, rfl⟩ := hinv.stored k d hk
    have hne' : o' ≠ o := by
      rintro rfl
      exact hne (by rw [Option.some.inj (hx'.symm.trans hx)])
    exact ⟨o', x', by rw [hinfo, Function.update_of_ne hne', hx'],
      by rwa [Function.update_of_ne hne'], rfl⟩
  · obtain ⟨-, h₁, hh₁, -⟩ := hlive h₁ hh₁
    obtain ⟨-, h₂, hh₂, -⟩ := hlive h₂ hh₂
    exact hinv.single o₁ o₂ x₁ x₂ h₁ h₂ hh₁ hh₂ hk
  · -- the records of the free list are blank
    rcases hcases hx' with ⟨-, rfl⟩ | ⟨hne, hx'⟩
    · exact fun c hc => List.eq_of_mem_replicate hc
    · rw [Function.update_of_ne hne] at hh
      exact hinv.free o' x' hx' hh
  · rw [hlen]
    rcases hcases hx' with ⟨-, rfl⟩ | ⟨-, hx'⟩
    · exact hinv.inside o x hx
    · exact hinv.inside o' x' hx'
  · -- their data lies apart as before
    rcases hcases h₁ with ⟨rfl, rfl⟩ | ⟨hne₁, h₁⟩
    · rcases hcases h₂ with ⟨rfl, -⟩ | ⟨-, h₂⟩
      · exact absurd rfl hne
      · exact hinv.apart o₁ o₂ x x₂ hx h₂ hne
    · rcases hcases h₂ with ⟨rfl, rfl⟩ | ⟨-, h₂⟩
      · exact hinv.apart o₁ o₂ x₁ x h₁ hx hne
      · exact hinv.apart o₁ o₂ x₁ x₂ h₁ h₂ hne

/-- **A record is given a key and data.** The key is that of no other record. -/
lemma Inv.put {dat' d : List Char} (hinv : Inv I dat home m)
    (hold : ∀ x, I.info o = some x → home o ≠ 0 → x.key = y.key)
    (hother : ∀ o' x', I.info o' = some x' → home o' ≠ 0 → o' ≠ o → x'.key ≠ y.key)
    (hinfo : J.info = Function.update I.info o (some y))
    (hfam : Family 0 J.next cell (fun o => J.info o ≠ none) (Function.update home o (bucket y.key)))
    (hd : Stored dat' y d) (hinside : y.datoff + y.datlen ≤ dat'.length)
    (hlen : dat.length ≤ dat'.length)
    (hsame : ∀ o' x', I.info o' = some x' → o' ≠ o →
      readAt dat' x'.datoff x'.datlen = readAt dat x'.datoff x'.datlen)
    (hapart : ∀ o' x', I.info o' = some x' → o' ≠ o →
      x'.datoff + x'.datlen ≤ y.datoff ∨ y.datoff + y.datlen ≤ x'.datoff) :
    Inv J dat' (Function.update home o (bucket y.key)) (Function.update m y.key (some d)) := by
  have hcases {o' : ℕ} {x' : Info} (hx' : J.info o' = some x') :
      o' = o ∧ x' = y ∨ o' ≠ o ∧ I.info o' = some x' := by
    rw [hinfo, Function.update_apply] at hx'
    split at hx'
    · next ho => exact .inl ⟨ho, (Option.some.inj hx').symm⟩
    · next ho => exact .inr ⟨ho, hx'⟩
  refine ⟨hfam, fun o' x' hx' hh => ?_, fun k d' hk => ?_, fun o₁ o₂ x₁ x₂ h₁ h₂ hh₁ hh₂ hk => ?_,
    fun o' x' hx' hh => ?_, fun o' x' hx' => ?_, fun o₁ o₂ x₁ x₂ h₁ h₂ hne => ?_⟩
  · -- the record has the new data, the others what they had
    rcases hcases hx' with ⟨rfl, rfl⟩ | ⟨hne, hx'⟩
    · exact ⟨Function.update_self .., d, Function.update_self .., hd⟩
    · rw [Function.update_of_ne hne] at hh
      obtain ⟨hb, d', hd', hstored⟩ := hinv.live o' x' hx' hh
      refine ⟨by rw [Function.update_of_ne hne, hb], d',
        by rw [Function.update_of_ne (hother o' x' hx' hh hne), hd'], hstored.len, ?_, hstored.nul⟩
      rw [hsame o' x' hx' hne, hstored.text]
  · -- a key that is stored is the new one, or was stored before
    by_cases hky : k = y.key
    · exact ⟨o, y, by rw [hinfo, Function.update_self],
        by rw [Function.update_self]; exact bucket_ne_zero _, hky.symm⟩
    · rw [Function.update_of_ne hky] at hk
      obtain ⟨o', x', hx', hh, rfl⟩ := hinv.stored k d' hk
      have hne : o' ≠ o := by
        rintro rfl
        exact hky (hold x' hx' hh)
      exact ⟨o', x', by rw [hinfo, Function.update_of_ne hne, hx'],
        by rwa [Function.update_of_ne hne], rfl⟩
  · -- no two records have one key
    rcases hcases h₁ with ⟨rfl, rfl⟩ | ⟨hne₁, h₁⟩
    · rcases hcases h₂ with ⟨rfl, -⟩ | ⟨hne₂, h₂⟩
      · rfl
      · rw [Function.update_of_ne hne₂] at hh₂
        exact absurd hk.symm (hother o₂ x₂ h₂ hh₂ hne₂)
    · rw [Function.update_of_ne hne₁] at hh₁
      rcases hcases h₂ with ⟨rfl, rfl⟩ | ⟨hne₂, h₂⟩
      · exact absurd hk (hother o₁ x₁ h₁ hh₁ hne₁)
      · rw [Function.update_of_ne hne₂] at hh₂
        exact hinv.single o₁ o₂ x₁ x₂ h₁ h₂ hh₁ hh₂ hk
  · rcases hcases hx' with ⟨rfl, -⟩ | ⟨hne, hx'⟩
    · rw [Function.update_self] at hh
      exact absurd hh (bucket_ne_zero _)
    · rw [Function.update_of_ne hne] at hh
      exact hinv.free o' x' hx' hh
  · rcases hcases hx' with ⟨-, rfl⟩ | ⟨-, hx'⟩
    · exact hinside
    · exact (hinv.inside o' x' hx').trans hlen
  · -- the new data lies apart from that of the others
    rcases hcases h₁ with ⟨rfl, rfl⟩ | ⟨hne₁, h₁⟩
    · rcases hcases h₂ with ⟨rfl, -⟩ | ⟨hne₂, h₂⟩
      · exact absurd rfl hne
      · exact (hapart o₂ x₂ h₂ hne₂).symm
    · rcases hcases h₂ with ⟨rfl, rfl⟩ | ⟨-, h₂⟩
      · exact hapart o₁ x₁ h₁ hne₁
      · exact hinv.apart o₁ o₂ x₁ x₂ h₁ h₂ hne

/-! ### `db_delete` -/

section Found

variable {l r : List ℕ}

lemma Inv.dodelete_found (hinv : Inv I dat home m) (hidx : db.idx = I.text) (hdat : db.dat = dat)
    (hch : Chain 0 I.next (cell (bucket x.key)) (l ++ o :: r))
    (hmem : ∀ o', o' ∈ l ++ o :: r ↔ I.info o' ≠ none ∧ home o' = bucket x.key)
    (hhas : I.Has o x v) (hx : I.info o = some x) :
    ∃ db' J, dodelete (db.found o x v (bucket x.key) l) = .ok db' ∧ db'.idx = Index.text J ∧
      Inv J db'.dat (Function.update home o 0) (Function.update m x.key none) ∧
      db'.chainoff = cell (bucket x.key) ∧ J.size = I.size ∧ db'.dat.length = dat.length ∧
      J.info = Function.update I.info o (some x.blank) := by
  have hlow := Inv.low I
  have hhome : home o = bucket x.key := ((hmem o).mp (by simp)).2
  have hb := bucket_ne_zero x.key
  have hlo := hhas.low
  obtain ⟨hpo, hpk⟩ := ne_of_mem_chain hlow hmem hch
  obtain ⟨f, hf⟩ := hinv.exists_head 0
  have hp0 : lastCell (cell (bucket x.key)) l ≠ 0 := hpk 0 hb.symm
  obtain ⟨db', J, hrun, hidx', hdat', hchain, hsize, hinfo, hnext⟩ :=
    dodelete_spec (show (db.found o x v (bucket x.key) l).idx = I.text from hidx) hhas hch.split.1
      hf hpo hp0 rfl rfl rfl rfl rfl rfl
  have hlen : (List.replicate (x.datlen - 1) SPACE ++ [NEWLINE]).length = x.datlen := by
    have := hhas.ok.pos
    rw [List.length_append, List.length_replicate, List.length_singleton]
    omega
  have hin : x.datoff + (List.replicate (x.datlen - 1) SPACE ++ [NEWLINE]).length ≤ dat.length := by
    rw [hlen]
    exact hinv.inside o x hx
  have hdat'' : db'.dat =
      writeAt NUL dat x.datoff (List.replicate (x.datlen - 1) SPACE ++ [NEWLINE]) := by
    rw [hdat', ← hdat]
    rfl
  have hfam : Family 0 J.next cell (fun o => J.info o ≠ none) (Function.update home o 0) := by
    have hmove : Family 0 J.next cell (fun o => I.info o ≠ none) (Function.update home o 0) := by
      refine family_move hinv.family hlow hmem hch hb.symm ?_ ?_ ?_ fun q hq hqo hq0 => ?_
      · rw [hnext, Function.update_self, hhas.next]
      · rw [hnext, cell_zero, Function.update_of_ne hp0.symm, Function.update_self]
      · rw [hnext, Function.update_of_ne hpo.symm, Function.update_of_ne (by omega),
          Function.update_self, hf]
      · rw [cell_zero] at hq0
        rw [hnext, Function.update_of_ne hq, Function.update_of_ne hq0, Function.update_of_ne hqo]
    refine hmove.of_iff fun q => ?_
    rw [hinfo, Function.update_apply]
    split
    · next hq => simp [hq, hx]
    · rfl
  refine ⟨db', J, hrun, hidx', ?_, hchain, hsize, by rw [hdat'', length_writeAt NUL hin], hinfo⟩
  refine hinv.clear hx (by rw [hhome]; exact hb) hinfo hfam (by rw [hdat'', length_writeAt NUL hin])
    fun off n hap => ?_
  rw [hdat'', readAt_writeAt_of_apart NUL hin (by rw [hlen]; exact hap)]

end Found

lemma Inv.delete_present {d : List Char} (hinv : Inv I dat home m) (hidx : db.idx = I.text)
    (hdat : db.dat = dat) (hfuel : I.size < fuel) (hd : m key = some d) :
    ∃ db' J home', delete fuel db key = .ok (db', 0) ∧ db'.idx = Index.text J ∧
      Inv J db'.dat home' (Function.update m key none) ∧ J.size = I.size ∧
      db'.dat.length = dat.length ∧ ∃ o x, J.info o = some x ∧ home' o = 0 ∧
        x.key.length = key.length ∧ x.datlen = d.length + 1 := by
  rcases hinv.findAndLock_spec hidx hfuel key with
    ⟨db', -, -, -, -, hnone⟩ | ⟨l, o, r, x, v, hch, hmem, hhas, hx, rfl, hfind⟩
  · rw [hnone] at hd
    cases hd
  · obtain ⟨db', J, hrun, hidx', hinv', -, hsize, hlen, hinfo⟩ :=
      hinv.dodelete_found hidx hdat hch hmem hhas hx
    obtain ⟨d', hd', hstored⟩ := hinv.live_of_mem hmem hx
    obtain rfl : d' = d := Option.some.inj (hd'.symm.trans hd)
    refine ⟨db', J, _, ?_, hidx', hinv', hsize, hlen, o, x.blank,
      by rw [hinfo, Function.update_self], Function.update_self ..,
      List.length_replicate, hstored.len⟩
    rw [delete, hfind, ok_bind]
    exact bind_eq_ok_iff.mpr ⟨_, hrun, rfl⟩

/-- **`db_delete`** takes a key out of the map. -/
theorem delete_spec (hdb : db.Holds m n) (hfuel : n < fuel) (key : List Char) :
    ∃ db', delete fuel db key = .ok (db', if (m key).isSome then 0 else -1) ∧
      db'.Holds (Function.update m key none) n := by
  obtain ⟨I, home, hidx, hinv, hsize, hlen⟩ := hdb
  have hfuel' := Nat.lt_of_le_of_lt hsize hfuel
  cases hd : m key with
  | some d =>
    obtain ⟨db', J, home', hrun, hidx', hinv', hsize', hlen', -⟩ :=
      hinv.delete_present hidx rfl hfuel' hd
    exact ⟨db', hrun, J, home', hidx', hinv', by omega, by omega⟩
  | none =>
    rcases hinv.findAndLock_spec hidx hfuel' key with
      ⟨db', hfind, hidx', hdat', -, -⟩ | ⟨l, o, r, x, v, hch, hmem, hhas, hx, rfl, -⟩
    · refine ⟨db', ?_, I, home, hidx'.trans hidx, ?_, hsize, hdat' ▸ hlen⟩
      · rw [delete, hfind, ok_bind]
        rfl
      · rw [Function.update_eq_self_iff.mpr hd.symm, hdat']
        exact hinv
    · obtain ⟨d, hd', -⟩ := hinv.live_of_mem hmem hx
      rw [hd] at hd'
      cases hd'

/-! ### `db_store` -/

/-- What `db_store` can be called with. The length of the key leaves room for the other fields of an
index record. -/
structure Storable (key data : List Char) : Prop where
  named : key ≠ []
  short : key.length ≤ 1010
  nul : NUL ∉ key
  sep : SEP ∉ key
  filled : data ≠ []
  small : data.length ≤ 1023
  plain : NUL ∉ data

lemma Storable.ok (hs : Storable key data) {off : ℕ} (hoff : off ≤ PTR_MAX) :
    Info.Ok ⟨key, off, data.length + 1⟩ := by
  have hkey := List.length_pos_iff.mpr hs.named
  have hshort := hs.short
  have hsmall := hs.small
  have hlen : (Info.text ⟨key, off, data.length + 1⟩).length =
      key.length + (decimal off).length + (decimal (data.length + 1 : ℕ)).length + 3 := by
    simp only [Info.text, List.length_append, List.length_cons, List.length_nil]
    omega
  have hoff₁ := length_decimal_pos off
  have hoff₂ : (decimal off).length ≤ 7 := length_decimal_nat (by decide) (Nat.lt_succ_of_le hoff)
  have hlen₁ := length_decimal_pos (data.length + 1 : ℕ)
  have hlen₂ : (decimal (data.length + 1 : ℕ)).length ≤ 4 :=
    length_decimal_nat (by decide) (by omega)
  refine ⟨hs.nul, hs.sep, ?_, ?_, Nat.succ_pos _, Nat.succ_le_succ hsmall⟩
  · rw [hlen]
    show 6 ≤ _
    omega
  · rw [hlen]
    show _ ≤ 1024
    omega

lemma Index.info_size (I : Index) : I.info I.size = none := by
  by_contra hsome
  obtain ⟨x, hx⟩ := Option.ne_none_iff_exists'.mp hsome
  obtain ⟨v, hhas⟩ := Index.has_of_info hx
  have := hhas.high
  omega

lemma Inv.key_ne (hinv : Inv I dat home m) (hnew : m key = none) (hx : I.info o = some x)
    (hh : home o ≠ 0) : x.key ≠ key := by
  rintro rfl
  obtain ⟨-, d, hd, -⟩ := hinv.live o x hx hh
  rw [hnew] at hd
  cases hd

lemma Inv.appendRecord_spec {f n : ℕ} (hinv : Inv I dat home m) (hidx : db.idx = I.text)
    (hdat : db.dat = dat) (hchain : db.chainoff = cell (bucket key)) (hs : Storable key data)
    (hnew : m key = none) (hf : I.next (cell (bucket key)) = some f) (hsize : I.size ≤ n)
    (hlen : dat.length ≤ n) (hn : n ≤ PTR_MAX) :
    ∃ db', appendRecord db key data f = .ok db' ∧
      db'.Holds (Function.update m key (some data)) (n + 1035) := by
  obtain ⟨y, hy⟩ : ∃ y : Info, y = ⟨key, dat.length, data.length + 1⟩ := ⟨_, rfl⟩
  have hkey : y.key = key := by rw [hy]
  have hok : y.Ok := by
    rw [hy]
    exact hs.ok (hlen.trans hn)
  have hmax : y.text.length ≤ 1024 := hok.max
  have hlow : 967 ≤ I.size := Nat.le_add_right _ _
  have hcell := cell_lt (bucket y.key)
  rw [← hkey] at hchain hnew hf ⊢
  have hnone := I.info_size
  obtain ⟨A, hA⟩ : ∃ A, A = db.wroteDat dat.length data (dat ++ (data ++ [NEWLINE])) := ⟨_, rfl⟩
  have hdat₁ : writedat db data .append = .ok A := by
    rw [hA, ← hdat]
    exact writedat_append ..
  have hA₁ : A.idx = I.text := by rw [hA]; exact hidx
  have hA₂ : A.dat = dat ++ (data ++ [NEWLINE]) := by rw [hA]; rfl
  have hA₃ : A.chainoff = cell (bucket y.key) := by rw [hA]; exact hchain
  have hdatlen : A.dat.length = dat.length + (data.length + 1) := by rw [hA₂]; simp
  obtain ⟨J₁, hwrite₁, hsize₁, hinfo₁, hnext₁⟩ := writeidx_append hA₁ hok
    (Index.next_le hf) (by rw [hA, hy]; rfl) (by rw [hA, hy]; rfl)
  obtain ⟨J, hwrite₂, hsize₂, hinfo₂, hnext₂⟩ := writeptr_eq
    (show (A.written I.size y f J₁.text).idx = J₁.text from rfl)
    (show J₁.next (cell (bucket y.key)) = some f by
      rw [hnext₁, Function.update_of_ne (by omega), hf]) (hsize.trans hn)
  rw [hinfo₁] at hinfo₂
  rw [hnext₁] at hnext₂
  have hfam : Family 0 J.next cell (fun o => J.info o ≠ none)
      (Function.update home I.size (bucket y.key)) := by
    refine (family_new hinv.family (o := I.size) (not_not.mpr hnone) hlow
      ?_ ?_ fun q hq hqc => ?_).of_iff fun q => ?_
    · rw [hnext₂, Function.update_self]
    · rw [hnext₂, Function.update_of_ne (by omega), Function.update_self, hf]
    · rw [hnext₂, Function.update_of_ne hqc, Function.update_of_ne hq]
    · rw [hinfo₂, Function.update_apply]
      split
      · next hq => simp [hq]
      · next hq => simp [hq]
  refine ⟨(A.written I.size y f J₁.text).wroteIdx J.text (cell (bucket y.key) + 7), ?_, J,
    Function.update home I.size (bucket y.key), rfl, ?_, by omega, ?_⟩
  · rw [← hA₃] at hwrite₂
    rw [appendRecord, hdat₁, ok_bind, hwrite₁, ok_bind]
    exact hwrite₂
  · show Inv J A.dat _ _
    have hread : readAt A.dat y.datoff y.datlen = data ++ [NEWLINE] := by
      have := readAt_mid dat (data ++ [NEWLINE]) []
      rw [List.append_nil, ← hA₂, List.length_append] at this
      rw [hy]
      exact this
    refine hinv.put (by simp [hnone]) (fun o' x' hx' hh _ => hinv.key_ne hnew hx' hh) hinfo₂ hfam
      ⟨by rw [hy], hread, hs.plain⟩ (by rw [hy]; exact hdatlen.ge) (by omega)
      (fun o' x' hx' _ => ?_)
      fun o' x' hx' _ => .inl (by rw [hy]; exact hinv.inside o' x' hx')
    rw [hA₂]
    exact readAt_append (hinv.inside o' x' hx')
  · have := hs.small
    show A.dat.length ≤ _
    omega

/-- **`_db_findfree`** takes the first record of the free list that fits off it. -/
lemma Inv.findfree_spec (hinv : Inv I dat home m) (hidx : db.idx = I.text) (hfuel : I.size < fuel)
    (keylen datlen : ℕ) :
    (∃ db', findfree fuel db keylen datlen = .ok (db', -1) ∧ Same db db' ∧
        ∀ o x, I.info o = some x → home o = 0 → x.key.length = keylen → x.datlen ≠ datlen) ∨
      ∃ l o r x v J, Chain 0 I.next (cell 0) (l ++ o :: r) ∧
        (∀ o', o' ∈ l ++ o :: r ↔ I.info o' ≠ none ∧ home o' = 0) ∧ I.Has o x v ∧
        I.info o = some x ∧ x.key.length = keylen ∧ x.datlen = datlen ∧
        findfree fuel db keylen datlen = .ok
          ((db.loaded o x v).wroteIdx (Index.text J) (lastCell (cell 0) l + 7), 0) ∧
        J.size = I.size ∧ J.info = I.info ∧
        J.next = Function.update I.next (lastCell (cell 0) l) (some v) := by
  obtain ⟨os, hos, hmem⟩ := hinv.family.chain 0
  have hinfo : ∀ o ∈ os, I.info o ≠ none := fun o ho => ((hmem o).mp ho).1
  obtain ⟨f, hf⟩ := hinv.exists_head 0
  have hread : readptr db FREE_OFF = .ok (db.moved 7, (f : ℤ)) := readptr_eq hidx hf
  rcases walk_spec (q := fun x => x.key.length = keylen ∧ x.datlen = datlen)
    (show (db.moved 7).idx = I.text from hidx) hos hinfo
    (Nat.lt_of_le_of_lt (I.chain_length hos hinfo) hfuel)
    (fun db => db.idxbuf.length = keylen ∧ db.datlen = datlen) (fun _ _ _ _ => rfl) hf with
    ⟨db', prev, hwalk, hsame, hnone⟩ | ⟨l, o, r, x, v, rfl, hhas, hx, hq, hwalk⟩
  · -- no record of the free list fits
    refine .inl ⟨db', ?_, ⟨hsame.idx, hsame.dat, hsame.chainoff⟩, fun o x hx hfree hkey hdat => ?_⟩
    · rw [findfree, hread, ok_bind]
      exact bind_eq_ok_iff.mpr ⟨_, hwalk, rfl⟩
    · have := hnone o ((hmem o).mpr ⟨by simp [hx], hfree⟩) x hx
      simp [hkey, hdat] at this
  · -- the first that fits is taken off the list
    have hne : (o : ℤ) ≠ 0 := by
      have := hhas.low
      omega
    obtain ⟨J, hwrite, hsize, hinfo', hnext⟩ := writeptr_eq
      (show ((db.moved 7).loaded o x v).idx = I.text from hidx) hos.split.1 hhas.ptr
    have hfit : x.key.length = keylen ∧ x.datlen = datlen := by simpa using hq
    refine .inr ⟨l, o, r, x, v, J, hos, hmem, hhas, hx, hfit.1, hfit.2, ?_, hsize, hinfo', hnext⟩
    rw [findfree, hread, ok_bind]
    refine bind_eq_ok_iff.mpr ⟨_, hwalk, ?_⟩
    simp only [if_neg hne]
    exact bind_eq_ok_iff.mpr ⟨_, hwrite, rfl⟩

lemma Inv.overwrite (hinv : Inv I dat home m) (hx : I.info o = some x)
    (hlen : x.datlen = data.length + 1) (hplain : NUL ∉ data) {dat' : List Char}
    (hdat : dat' = writeAt NUL dat x.datoff (data ++ [NEWLINE])) :
    dat'.length = dat.length ∧ (∀ key, Stored dat' { x with key := key } data) ∧
      ∀ o' x', I.info o' = some x' → o' ≠ o →
        readAt dat' x'.datoff x'.datlen = readAt dat x'.datoff x'.datlen := by
  have hlength : (data ++ [NEWLINE]).length = x.datlen := by
    rw [hlen, List.length_append, List.length_singleton]
  have hin : x.datoff + (data ++ [NEWLINE]).length ≤ dat.length := by
    rw [hlength]
    exact hinv.inside o x hx
  refine ⟨by rw [hdat, length_writeAt NUL hin], fun key => ⟨hlen, ?_, hplain⟩,
    fun o' x' hx' hne => ?_⟩
  · rw [hdat, ← hlength]
    exact readAt_writeAt NUL hin
  · rw [hdat, readAt_writeAt_of_apart NUL hin]
    rw [hlength]
    exact hinv.apart o' o x' x hx' hx hne

lemma Info.Ok.rekey (hok : x.Ok) (hs : Storable key data) (hlen : x.key.length = key.length) :
    ({ x with key := key } : Info).text.length = x.text.length ∧
      ({ x with key := key } : Info).Ok := by
  have htext : ({ x with key := key } : Info).text.length = x.text.length := by
    simp [Info.text, hlen]
  exact ⟨htext, hs.nul, hs.sep, htext ▸ hok.min, htext ▸ hok.max, hok.pos, hok.small⟩

lemma Inv.reuseRecord_spec {l r : List ℕ} {f n : ℕ} (hinv : Inv I dat home m)
    (hch : Chain 0 I.next (cell 0) (l ++ o :: r))
    (hmem : ∀ o', o' ∈ l ++ o :: r ↔ I.info o' ≠ none ∧ home o' = 0) (hhas : I.Has o x v)
    (hx : I.info o = some x) (hJ : J.size = I.size ∧ J.info = I.info ∧
      J.next = Function.update I.next (lastCell (cell 0) l) (some v))
    (hidx : db.idx = J.text) (hdat : db.dat = dat) (hoff : db.idxoff = o)
    (hdatoff : db.datoff = x.datoff) (hchain : db.chainoff = cell (bucket key))
    (hs : Storable key data) (hnew : m key = none) (hkeylen : x.key.length = key.length)
    (hdatlen : x.datlen = data.length + 1) (hf : I.next (cell (bucket key)) = some f)
    (hsize : I.size ≤ n) (hlen : dat.length ≤ n) :
    ∃ db', reuseRecord db key data f = .ok db' ∧
      db'.Holds (Function.update m key (some data)) n ∧
      db'.idx.length = I.size ∧ db'.dat.length = dat.length := by
  obtain ⟨hsizeJ, hinfoJ, hnextJ⟩ := hJ
  obtain ⟨y, hy⟩ : ∃ y : Info, y = { x with key := key } := ⟨_, rfl⟩
  have hkey : y.key = key := by rw [hy]
  obtain ⟨htext, hok⟩ := hhas.ok.rekey hs hkeylen
  rw [← hy] at htext hok
  rw [← hkey] at hchain hnew hf ⊢
  have hlo := hhas.low
  have hcell := cell_lt (bucket y.key)
  have hb := bucket_ne_zero y.key
  obtain ⟨hpo, hpk⟩ := ne_of_mem_chain (Inv.low I) hmem hch
  have hpb := hpk _ hb
  obtain ⟨A, hA⟩ : ∃ A, A = db.wroteDat x.datoff data
      (writeAt NUL dat x.datoff (data ++ [NEWLINE])) := ⟨_, rfl⟩
  have hdat₁ : writedat db data (.set db.datoff) = .ok A := by
    rw [hA, ← hdat, hdatoff]
    exact writedat_set ..
  have hA₁ : A.idx = J.text := by rw [hA]; exact hidx
  have hA₂ : A.dat = writeAt NUL dat x.datoff (data ++ [NEWLINE]) := by rw [hA]; rfl
  have hA₃ : A.chainoff = cell (bucket y.key) := by rw [hA]; exact hchain
  have hA₄ : A.idxoff = o := by rw [hA]; exact hoff
  obtain ⟨v', hhas'⟩ := Index.has_of_info (I := J) (o := o) (x := x) (by rw [hinfoJ, hx])
  obtain ⟨J₁, hwrite₁, hsize₁, hinfo₁, hnext₁⟩ := writeidx_set hA₁ hhas' hok
    htext (Index.next_le hf) (by rw [hA, hy]; rfl) (by rw [hA, hy]; exact hdatlen.symm)
  obtain ⟨J₂, hwrite₂, hsize₂, hinfo₂, hnext₂⟩ := writeptr_eq
    (show (A.written o y f J₁.text).idx = J₁.text from rfl)
    (show J₁.next (cell (bucket y.key)) = some f by
      rw [hnext₁, Function.update_of_ne (by omega), hnextJ, Function.update_of_ne hpb.symm, hf])
    (Index.next_le hch.split.1)
  rw [hinfo₁, hinfoJ] at hinfo₂
  rw [hnext₁, hnextJ] at hnext₂
  have hfam : Family 0 J₂.next cell (fun o => J₂.info o ≠ none)
      (Function.update home o (bucket y.key)) := by
    refine (family_move hinv.family (Inv.low I) hmem hch hb ?_ ?_ ?_
      fun q hq hqo hqc => ?_).of_iff fun q => ?_
    · rw [hnext₂, Function.update_of_ne hpb, Function.update_of_ne hpo, Function.update_self,
        hhas.next]
    · rw [hnext₂, Function.update_self]
    · rw [hnext₂, Function.update_of_ne (by omega), Function.update_self, hf]
    · rw [hnext₂, Function.update_of_ne hqc, Function.update_of_ne hqo, Function.update_of_ne hq]
    · rw [hinfo₂, Function.update_apply]
      split
      · next hq => simp [hq, hx]
      · rfl
  obtain ⟨hlength, hstored, hsame⟩ := hinv.overwrite hx hdatlen hs.plain hA₂
  have hhome : home o = 0 := ((hmem o).mp (by simp)).2
  refine ⟨(A.written o y f J₁.text).wroteIdx J₂.text (cell (bucket y.key) + 7), ?_, ⟨J₂,
    Function.update home o (bucket y.key), rfl, ?_, by omega, hlength.trans_le hlen⟩,
    J₂.length_text.trans (by omega), hlength⟩
  · rw [← hA₃] at hwrite₂
    rw [← hA₄] at hwrite₁
    rw [reuseRecord, hdat₁, ok_bind, hwrite₁, ok_bind]
    exact hwrite₂
  · refine hinv.put (fun x' hx' hh => absurd hhome hh)
      (fun o' x' hx' hh _ => hinv.key_ne hnew hx' hh) hinfo₂ hfam
      (hy ▸ hstored key) ?_ hlength.ge hsame fun o' x' hx' hne => ?_
    · rw [hy]
      exact (hinv.inside o x hx).trans hlength.ge
    · rw [hy]
      exact hinv.apart o' o x' x hx' hx hne

/-- The map after a call of `db_store`, and what the call returns. -/
def storing (m : List Char → Option (List Char)) (key data : List Char) (flag : ℕ) :
    (List Char → Option (List Char)) × ℤ × Option Errno :=
  if flag ≠ DB_INSERT ∧ flag ≠ DB_REPLACE ∧ flag ≠ DB_STORE then (m, -1, some .EINVAL)
  else if flag = DB_REPLACE ∧ m key = none then (m, -1, some .ENOENT)
  else if flag = DB_INSERT ∧ m key ≠ none then (m, 1, none)
  else (Function.update m key (some data), 0, none)

/-- A key that is not there is stored in a record of the free list, or in a new one. -/
lemma Inv.store_new {db₁ : DB} (hinv : Inv I dat home m) (hidx : db₁.idx = I.text)
    (hdat : db₁.dat = dat) (hchain : db₁.chainoff = cell (bucket key)) (hs : Storable key data)
    (hnew : m key = none) (hsize : I.size ≤ n) (hlen : dat.length ≤ n) (hn : n ≤ PTR_MAX)
    (hfuel : n < fuel) :
    ∃ db', (do
        let (db, ptrval) ← readptr db₁ db₁.chainoff
        let (db, found) ← findfree fuel db key.length (data.length + 1)
        if found < 0 then appendRecord db key data ptrval
        else reuseRecord db key data ptrval) = .ok db' ∧
      db'.Holds (Function.update m key (some data)) (n + 1035) ∧
      ∀ o x, I.info o = some x → home o = 0 → x.key.length = key.length →
        x.datlen = data.length + 1 → db'.idx.length = I.size ∧ db'.dat.length = dat.length := by
  obtain ⟨f, hf⟩ := hinv.exists_head (bucket key)
  have hread : readptr db₁ db₁.chainoff = .ok (db₁.moved (cell (bucket key) + 7), (f : ℤ)) := by
    rw [hchain]
    exact readptr_eq hidx hf
  rcases hinv.findfree_spec (show (db₁.moved (cell (bucket key) + 7)).idx = I.text from hidx)
    (Nat.lt_of_le_of_lt hsize hfuel) key.length (data.length + 1) with
    ⟨db₂, hfree, hsame, hnone⟩ |
      ⟨l, o, r, x, v, J, hch, hmem, hhas, hx, hkeylen, hdatlen, hfree, hsizeJ, hinfoJ, hnextJ⟩
  · -- no free record fits, and the files grow
    obtain ⟨db', happend, hholds⟩ := hinv.appendRecord_spec (hsame.idx.trans hidx)
      (hsame.dat.trans hdat) (hsame.chainoff.trans hchain) hs hnew hf hsize hlen hn
    refine ⟨db', ?_, hholds,
      fun o x hx hhome hkey hdatlen => absurd hdatlen (hnone o x hx hhome hkey)⟩
    rw [hread, ok_bind]
    exact bind_eq_ok_iff.mpr ⟨_, hfree, happend⟩
  · -- a free one is used again
    obtain ⟨db', hreuse, ⟨I', home', hidx', hinv', hsize', hlen'⟩, hlengths⟩ :=
      hinv.reuseRecord_spec hch hmem hhas hx ⟨hsizeJ, hinfoJ, hnextJ⟩
        (show (((db₁.moved (cell (bucket key) + 7)).loaded o x v).wroteIdx J.text
          (lastCell (cell 0) l + 7)).idx = J.text from rfl) hdat rfl rfl hchain hs hnew hkeylen
        hdatlen hf hsize hlen
    refine ⟨db', ?_, ⟨I', home', hidx', hinv', by omega, by omega⟩, fun _ _ _ _ _ _ => hlengths⟩
    rw [hread, ok_bind]
    exact bind_eq_ok_iff.mpr ⟨_, hfree, hreuse⟩

/-- A key that is there gets other data, in the same place or in a new record. -/
lemma Inv.store_old {l r : List ℕ} {db₁ : DB} (hinv : Inv I dat home m) (hidx : db.idx = I.text)
    (hdat : db.dat = dat) (hch : Chain 0 I.next (cell (bucket x.key)) (l ++ o :: r))
    (hmem : ∀ o', o' ∈ l ++ o :: r ↔ I.info o' ≠ none ∧ home o' = bucket x.key)
    (hhas : I.Has o x v) (hx : I.info o = some x) (hs : Storable x.key data) (hsize : I.size ≤ n)
    (hlen : dat.length ≤ n) (hn : n ≤ PTR_MAX) (hdb₁ : db₁ = db.found o x v (bucket x.key) l) :
    ∃ db', (if data.length + 1 ≠ db₁.datlen then do
          let db ← dodelete db₁
          let (db, ptrval) ← readptr db db.chainoff
          appendRecord db x.key data ptrval
        else writedat db₁ data (.set db₁.datoff)) = .ok db' ∧
      db'.Holds (Function.update m x.key (some data)) (n + 1035) := by
  have hdatlen : db₁.datlen = x.datlen := by rw [hdb₁]; rfl
  have hdatoff : db₁.datoff = x.datoff := by rw [hdb₁]; rfl
  by_cases hne : data.length + 1 = x.datlen
  · -- data of the same length is written over
    have hhome : home o = bucket x.key := ((hmem o).mp (by simp)).2
    have hb := bucket_ne_zero x.key
    obtain ⟨hlength, hstored, hsame⟩ := hinv.overwrite hx hne.symm hs.plain rfl
    refine ⟨db₁.wroteDat x.datoff data (writeAt NUL dat x.datoff (data ++ [NEWLINE])), ?_, I, home,
      by rw [hdb₁]; exact hidx, ?_, by omega, ?_⟩
    · rw [if_neg (by rw [hdatlen]; exact not_not.mpr hne), hdatoff, writedat_set, ← hdat, hdb₁]
      rfl
    · have hput := hinv.put (J := I) (y := x) (o := o) (d := data)
        (fun x' hx' _ => by rw [Option.some.inj (hx'.symm.trans hx)])
        (fun o' x' hx' hh hne' hk =>
          hne' (hinv.single o' o x' x hx' hx hh (by rw [hhome]; exact hb) hk))
        (by rw [← hx, Function.update_eq_self])
        (by rw [← hhome, Function.update_eq_self]; exact hinv.family) (hstored x.key)
        (by rw [hlength]; exact hinv.inside o x hx) hlength.ge hsame
        fun o' x' hx' hne' => hinv.apart o' o x' x hx' hx hne'
      rwa [← hhome, Function.update_eq_self] at hput
    · show (writeAt NUL dat x.datoff (data ++ [NEWLINE])).length ≤ _
      omega
  · -- otherwise the record is deleted, and a new one appended
    obtain ⟨db₂, J, hrun, hidx₂, hinv₂, hchain₂, hsize₂, hlen₂, -⟩ :=
      hinv.dodelete_found hidx hdat hch hmem hhas hx
    obtain ⟨f, hf⟩ := hinv₂.exists_head (bucket x.key)
    have hread : readptr db₂ db₂.chainoff = .ok (db₂.moved (cell (bucket x.key) + 7), (f : ℤ)) := by
      rw [hchain₂]
      exact readptr_eq hidx₂ hf
    obtain ⟨db', happend, hholds⟩ := hinv₂.appendRecord_spec
      (show (db₂.moved (cell (bucket x.key) + 7)).idx = J.text from hidx₂) rfl hchain₂ hs
      (Function.update_self ..) hf
      (hsize₂.trans_le hsize) (hlen₂.trans_le hlen) hn
    rw [Function.update_idem] at hholds
    refine ⟨db', ?_, hholds⟩
    rw [if_pos (by rw [hdatlen]; exact hne), hdb₁, hrun, ok_bind, hread, ok_bind]
    exact happend

lemma Storable.datlen_ok (hs : Storable key data) :
    ¬(data.length + 1 < DATLEN_MIN ∨ data.length + 1 > DATLEN_MAX) := by
  have := List.length_pos_iff.mpr hs.filled
  have := hs.small
  show ¬(data.length + 1 < 2 ∨ data.length + 1 > 1024)
  omega

lemma Inv.store_absent (hinv : Inv I dat home m) (hidx : db.idx = I.text) (hdat : db.dat = dat)
    (hs : Storable key data) (hnew : m key = none) (hsize : I.size ≤ n) (hlen : dat.length ≤ n)
    (hn : n ≤ PTR_MAX) (hfuel : n < fuel) {flag : ℕ} (hflag : flag = DB_INSERT ∨ flag = DB_STORE) :
    ∃ db', store fuel db key data flag = .ok (db', 0, none) ∧
      db'.Holds (Function.update m key (some data)) (n + 1035) ∧
      ∀ o x, I.info o = some x → home o = 0 → x.key.length = key.length →
        x.datlen = data.length + 1 → db'.idx.length = I.size ∧ db'.dat.length = dat.length := by
  have hvalid : ¬(flag ≠ DB_INSERT ∧ flag ≠ DB_REPLACE ∧ flag ≠ DB_STORE) := fun h =>
    hflag.elim h.1 h.2.2
  have hreplace : flag ≠ DB_REPLACE := by
    rcases hflag with rfl | rfl
    · decide
    · decide
  rcases hinv.findAndLock_spec hidx (Nat.lt_of_le_of_lt hsize hfuel) key with
    ⟨db₁, hfind, hidx₁, hdat₁, hchain₁, -⟩ | ⟨l, o, r, x, v, hch, hmem, hhas, hx, rfl, -⟩
  · obtain ⟨db', hrun, hholds⟩ := hinv.store_new (hidx₁.trans hidx) (hdat₁.trans hdat) hchain₁ hs
      hnew hsize hlen hn hfuel
    obtain ⟨⟨db₂, ptrval⟩, hread, hrun⟩ := bind_eq_ok_iff.mp hrun
    obtain ⟨⟨db₃, found⟩, hfree, hrun⟩ := bind_eq_ok_iff.mp hrun
    refine ⟨db', ?_, hholds⟩
    simp only [store, if_neg hvalid, if_neg hs.datlen_ok, if_neg hreplace, hfind, ok_bind,
      show (-1 : ℤ) < 0 from by decide, if_true, hread, hfree]
    dsimp only at hrun
    split at hrun
    · next hneg =>
      rw [if_pos hneg, hrun, ok_bind]
      rfl
    · next hneg =>
      rw [if_neg hneg, hrun, ok_bind]
      rfl
  · obtain ⟨d, hd, -⟩ := hinv.live_of_mem hmem hx
    rw [hnew] at hd
    cases hd

/-- **`db_store`** puts a key into the map, as its flag allows. -/
theorem store_spec (hdb : db.Holds m n) (hfuel : n < fuel) (key data : List Char) (flag : ℕ)
    (hs : Storable key data) (hn : n ≤ PTR_MAX) :
    ∃ db', store fuel db key data flag = .ok (db', (storing m key data flag).2) ∧
      db'.Holds (storing m key data flag).1 (n + 1035) := by
  have hwiden {db : DB} {m : List Char → Option (List Char)} (h : db.Holds m n) :
      db.Holds m (n + 1035) := by
    obtain ⟨I, home, hidx, hinv, hsize, hlen⟩ := h
    exact ⟨I, home, hidx, hinv, by omega, by omega⟩
  by_cases hflag : flag ≠ DB_INSERT ∧ flag ≠ DB_REPLACE ∧ flag ≠ DB_STORE
  · -- an invalid flag
    rw [store, storing, if_pos hflag, if_pos hflag]
    exact ⟨db, rfl, hwiden hdb⟩
  obtain ⟨I, home, hidx, hinv, hsize, hlen⟩ := hdb
  rcases hinv.findAndLock_spec hidx (Nat.lt_of_le_of_lt hsize hfuel) key with
    ⟨db₁, hfind, hidx₁, hdat₁, -, hnone⟩ | ⟨l, o, r, x, v, hch, hmem, hhas, hx, rfl, hfind⟩
  · by_cases hreplace : flag = DB_REPLACE
    · -- there is nothing to replace
      rw [storing, if_neg hflag, if_pos ⟨hreplace, hnone⟩]
      refine ⟨db₁, ?_, hwiden ⟨I, home, hidx₁.trans hidx, hdat₁ ▸ hinv, hsize, hdat₁ ▸ hlen⟩⟩
      simp only [store, if_neg hflag, if_neg hs.datlen_ok, hfind, ok_bind, if_pos hreplace,
        show (-1 : ℤ) < 0 from by decide, if_true]
      rfl
    · obtain ⟨db', hrun, hholds, -⟩ := hinv.store_absent hidx rfl hs hnone hsize hlen hn hfuel
        (show flag = DB_INSERT ∨ flag = DB_STORE by tauto)
      rw [storing, if_neg hflag, if_neg fun h => hreplace h.1, if_neg fun h => h.2 hnone]
      exact ⟨db', hrun, hholds⟩
  · obtain ⟨d, hd, -⟩ := hinv.live_of_mem hmem hx
    obtain ⟨db₁, hdb₁⟩ : ∃ db₁, db₁ = db.found o x v (bucket x.key) l := ⟨_, rfl⟩
    rw [← hdb₁] at hfind
    simp only [store, storing, if_neg hflag, if_neg hs.datlen_ok, hfind, ok_bind, hd, and_true,
      ne_eq, reduceCtorEq, not_false_eq_true, and_false, if_false, lt_self_iff_false]
    split
    · -- `DB_INSERT` finds the key there
      exact ⟨db₁, rfl, hwiden ⟨I, home, by rw [hdb₁]; exact hidx, by rw [hdb₁]; exact hinv, hsize,
        by rw [hdb₁]; exact hlen⟩⟩
    · obtain ⟨db', hrun, hholds⟩ := hinv.store_old hidx rfl hch hmem hhas hx hs hsize hlen hn hdb₁
      refine ⟨db', ?_, hholds⟩
      split at hrun
      · next hne =>
        obtain ⟨db₂, hdelete, hrun⟩ := bind_eq_ok_iff.mp hrun
        obtain ⟨⟨db₃, ptrval⟩, hread, hrun⟩ := bind_eq_ok_iff.mp hrun
        rw [if_pos hne, hdelete, ok_bind, hread, ok_bind]
        exact bind_eq_ok_iff.mpr ⟨_, hrun, rfl⟩
      · next hne =>
        rw [if_neg hne, hrun, ok_bind]
        rfl

end Zinzhi.Db
