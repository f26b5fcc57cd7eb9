import Zinzhi.Clients
import Zinzhi.DbStore

/-!
Whole runs of programs that use the library of `db.c`.

To such a program a database is a map from keys to data.
-/

namespace Zinzhi.Db

open Zinzhi.Files Zinzhi.TextStream Zinzhi.Rows Zinzhi.Chains Zinzhi.Loops Zinzhi.Clients

variable {I : Index} {db db' : DB} {x : Info} {dat key data : List Char} {home : ℕ → Home}
  {m : List Char → Option (List Char)} {n fuel limit : ℕ} {pre post : List Record}

/-! ### Opening -/

def Index.empty : Index where
  heads := List.replicate (NHASH_DEF + 1) 0
  recs := []
  table := List.length_replicate
  headsOk p hp := by
    rw [List.eq_of_mem_replicate hp]
    exact Nat.zero_le _
  recsOk := by simp

lemma Index.text_empty : Index.empty.text = emptyTable := by
  simp [Index.text, Index.empty, Index.tableText, emptyTable, List.flatMap_replicate]

/-- **A new database** holds nothing. -/
lemma holds_create (idx dat : List Char) : (dbOpen idx dat true).Holds (fun _ => none) 967 := by
  have hinfo : Index.empty.info = fun _ => none := by
    funext o
    simp [Index.info, Index.empty, item?]
  have hnone {o : ℕ} {x : Info} (hx : Index.empty.info o = some x) : False := by
    rw [hinfo] at hx
    cases hx
  refine ⟨Index.empty, fun _ => 0, Index.text_empty.symm,
    ⟨⟨cell_injective, ?_, fun i => ⟨[], ?_, ?_⟩⟩,
    fun o x hx => (hnone hx).elim, fun k d hd => ?_, fun o o' x x' hx => (hnone hx).elim,
    fun o x hx => (hnone hx).elim, fun o x hx => (hnone hx).elim,
    fun o o' x x' hx => (hnone hx).elim⟩, Nat.le_refl _, Nat.zero_le _⟩
  · exact fun i hi => hi (by rw [hinfo])
  · have hi : (i : ℕ) < 138 := i.isLt
    have hlt : 7 * (i : ℕ) < 966 := by omega
    show Index.empty.next (7 * (i : ℕ)) = some 0
    rw [Index.next_eq, if_pos hlt, if_pos (by omega), Nat.mul_div_cancel_left _ (by decide)]
    exact List.getElem?_replicate_of_lt hi
  · simp [hinfo]
  · cases hd

lemma DB.Holds.reopen (h : db.Holds m n) : (dbOpen db.idx db.dat false).Holds m n := h

/-! ### Reading all records -/

/-- What a program reads that calls `db_nextrec` until it returns nothing. -/
def readRest (limit : ℕ) : (fuel : ℕ) → DB → Except String (DB × List (List Char × List Char))
  | 0, _ => .error "no fuel"
  | fuel + 1, db => do
    let (db, entry) ← nextrec limit db
    match entry with
    | none => return (db, [])
    | some entry =>
      let (db, entries) ← readRest limit fuel db
      return (db, entry :: entries)

def readAll (fuel : ℕ) (db : DB) : Except String (DB × List (List Char × List Char)) :=
  readRest fuel fuel (rewind db)

/-- Whether `db_nextrec` passes a key over. -/
def Blank (key : List Char) : Bool := key.all (· = SPACE)

lemma readidx_end (hidx : db.idx = I.text) (hpos : db.idxpos = I.size) :
    readidx db 0 = .ok ({ db with idxoff := I.size, idxpos := I.size }, -1) := by
  have hread : readAt db.idx db.idxpos (PTR_SZ + IDXLEN_SZ) = [] := by
    rw [hidx, hpos, ← I.length_text, readAt_end]
  simp only [readidx, if_true, hread]
  rw [if_neg (by decide), if_pos (by decide), if_pos (by decide), hpos]

lemma Inv.home_ne_zero (hinv : Inv I dat home m) {o : ℕ} (hx : I.info o = some x)
    (hblank : Blank x.key = false) : home o ≠ 0 := fun hfree => by
  have := List.all_eq_true.mpr fun c hc => decide_eq_true (hinv.free o x hx hfree c hc)
  exact Bool.false_ne_true (hblank.symm.trans this)

section Reading

variable (hinv : Inv I dat home m) (hidx : db.idx = I.text) (hdat : db.dat = dat)

include hinv hidx hdat

/-- **`db_nextrec`** finds the next record whose key is not blank. -/
lemma nextrec_spec (hrecs : I.recs = pre ++ post) (hpos : db.idxpos = 967 + span pre)
    (hlimit : post.length < limit) :
    (∃ db', nextrec limit db = .ok (db', none) ∧ db'.idx = db.idx ∧ db'.dat = db.dat ∧
        ∀ r ∈ post, Blank r.info.key) ∨
      ∃ db' mid r rest d, nextrec limit db = .ok (db', some (r.info.key, d)) ∧ db'.idx = db.idx ∧
        db'.dat = db.dat ∧ post = mid ++ r :: rest ∧ (∀ r ∈ mid, Blank r.info.key) ∧
        Blank r.info.key = false ∧ m r.info.key = some d ∧
        db'.idxpos = 967 + span (pre ++ mid ++ [r]) := by
  induction post generalizing pre db limit with
  | nil =>
    obtain ⟨limit, rfl⟩ := Nat.exists_eq_succ_of_ne_zero (Nat.ne_of_gt hlimit)
    have hend := readidx_end hidx (by rw [hpos, Index.size, hrecs, List.append_nil]; rfl)
    refine .inl ⟨{ db with idxoff := I.size, idxpos := I.size }, ?_, rfl, rfl, by simp⟩
    rw [nextrec, hend, ok_bind]
    rfl
  | cons r post ih =>
    obtain ⟨limit, rfl⟩ := Nat.exists_eq_succ_of_ne_zero (Nat.ne_of_gt (Nat.zero_lt_of_lt hlimit))
    obtain ⟨o, ho⟩ : ∃ o, o = 967 + span pre := ⟨_, rfl⟩
    have hat : At tableLen I.recs o r := ⟨pre, post, hrecs, ho⟩
    have hx : I.info o = some r.info := (Index.next_of_at hat).2
    obtain ⟨v, hhas⟩ := Index.has_of_info hx
    have hread := readidx_eq hidx hhas (Int.le_refl 0) (by rw [if_pos rfl, hpos, ho])
    have hok := I.recsOk r (by simp [hrecs])
    have hext : Extent.extent r = 11 + r.info.text.length := hok.length_text
    have hnext : (db.loaded o r.info v).idxpos = 967 + span (pre ++ [r]) := by
      rw [span_append, span_cons, span_nil, hext, ← Nat.add_assoc, ← ho]
      rfl
    have hstep : nextrec (limit + 1) db =
        if Blank r.info.key then nextrec limit (db.loaded o r.info v)
        else readdat (db.loaded o r.info v) >>= fun d => .ok (d.1, some (r.info.key, d.2)) := by
      rw [nextrec, hread, ok_bind]
      simp only [if_neg (show ¬(v : ℤ) < 0 by omega)]
      rfl
    cases hblank : Blank r.info.key with
    | true =>
      -- a blank key is passed over
      rw [hstep, hblank, if_pos rfl]
      rcases ih (show (db.loaded o r.info v).idx = I.text from hidx) hdat (by simp [hrecs]) hnext
        (by simpa using hlimit) with ⟨db', hrun, hidx', hdat', hall⟩ |
          ⟨db', mid, r', rest, d, hrun, hidx', hdat', rfl, hmid, hr', hd, hpos'⟩
      · exact .inl ⟨db', hrun, hidx', hdat', List.forall_mem_cons.mpr ⟨hblank, hall⟩⟩
      · exact .inr ⟨db', r :: mid, r', rest, d, hrun, hidx', hdat', rfl,
          List.forall_mem_cons.mpr ⟨hblank, hmid⟩, hr', hd, by simpa using hpos'⟩
    | false =>
      -- this is the next record
      obtain ⟨-, d, hd, hstored⟩ := hinv.live o r.info hx (hinv.home_ne_zero hx hblank)
      have hdata : readdat (db.loaded o r.info v) = _ := readdat_eq hdat hstored rfl rfl
      refine .inr ⟨{ db.loaded o r.info v with datbuf := d }, [], r, post, d, ?_, rfl, rfl, rfl,
        by simp, hblank, hd, by simpa using hnext⟩
      rw [hstep, hblank, if_neg (by simp), hdata, ok_bind]

/-- What is read from here on are the keys that are not blank, with their data. -/
lemma readRest_spec (hrecs : I.recs = pre ++ post) (hpos : db.idxpos = 967 + span pre)
    (hfuel : post.length < fuel) (hlimit : I.recs.length < limit) :
    ∃ db' entries, readRest limit fuel db = .ok (db', entries) ∧ db'.idx = db.idx ∧
      db'.dat = db.dat ∧ (∀ e ∈ entries, m e.1 = some e.2) ∧
      entries.map Prod.fst = (post.map (·.info.key)).filter (!Blank ·) := by
  induction fuel generalizing pre post db with
  | zero => exact absurd hfuel (Nat.not_lt_zero _)
  | succ fuel ih =>
    have hpost : post.length < limit := by
      rw [hrecs, List.length_append] at hlimit
      omega
    rcases nextrec_spec hinv hidx hdat hrecs hpos hpost with ⟨db', hrun, hidx', hdat', hall⟩ |
      ⟨db₁, mid, r, rest, d, hrun, hidx₁, hdat₁, rfl, hmid, hr, hd, hpos₁⟩
    · -- nothing is left to read
      refine ⟨db', [], ?_, hidx', hdat', by simp, ?_⟩
      · rw [readRest, hrun, ok_bind]
        rfl
      · simpa using hall
    · -- one more record, and those behind it
      obtain ⟨db', entries, hrest, hidx', hdat', hmap, hkeys⟩ := ih (hidx₁.trans hidx)
        (hdat₁.trans hdat) (show I.recs = pre ++ mid ++ [r] ++ rest by simp [hrecs]) hpos₁
        (by simp at hfuel; omega)
      refine ⟨db', (r.info.key, d) :: entries, ?_, hidx'.trans hidx₁, hdat'.trans hdat₁,
        List.forall_mem_cons.mpr ⟨hd, hmap⟩, ?_⟩
      · rw [readRest, hrun, ok_bind]
        exact bind_eq_ok_iff.mpr ⟨_, hrest, rfl⟩
      · have hnone : (mid.map (·.info.key)).filter (!Blank ·) = [] := by simpa using hmid
        rw [List.map_append, List.filter_append, hnone]
        simp [hr, hkeys]

end Reading

/-- No key is in two records, but for blank ones. -/
lemma Inv.nodup_keys (hinv : Inv I dat home m) (hrecs : I.recs = pre ++ post) :
    ((post.map (·.info.key)).filter (!Blank ·)).Nodup := by
  induction post generalizing pre with
  | nil => exact List.nodup_nil
  | cons r post ih =>
    have hrest := ih (show I.recs = pre ++ [r] ++ post by simp [hrecs])
    rw [List.map_cons, List.filter_cons]
    split
    · next hr =>
      refine List.nodup_cons.mpr ⟨fun hmem => ?_, hrest⟩
      obtain ⟨hmem, hblank⟩ := List.mem_filter.mp hmem
      obtain ⟨r', hr', hkey⟩ := List.mem_map.mp hmem
      obtain ⟨mid, rest, rfl⟩ := List.append_of_mem hr'
      have h₁ := (Index.next_of_at (I := I) ⟨pre, mid ++ r' :: rest, hrecs, rfl⟩).2
      have h₂ := (Index.next_of_at (I := I) (r := r')
        ⟨pre ++ r :: mid, rest, by simp [hrecs], rfl⟩).2
      have hvisible : Blank r.info.key = false := by simpa using hr
      have heq := hinv.single _ _ _ _ h₁ h₂ (hinv.home_ne_zero h₁ hvisible)
        (hinv.home_ne_zero h₂ (by rw [hkey]; exact hvisible)) hkey.symm
      have hpos := I.recs_pos r (by simp [hrecs])
      rw [span_append, span_cons] at heq
      omega
    · exact hrest

/-- **Reading all records** yields every key that is not blank once, with its data. -/
lemma readAll_spec (hdb : db.Holds m n) (hfuel : n < fuel) :
    ∃ db' entries, readAll fuel db = .ok (db', entries) ∧ db'.Holds m n ∧
      (entries.map Prod.fst).Nodup ∧
      ∀ k d, (k, d) ∈ entries ↔ m k = some d ∧ Blank k = false := by
  obtain ⟨I, home, hidx, hinv, hsize, hlen⟩ := hdb
  have hrecs : I.recs.length < fuel := by
    have := length_le_span I.recs_pos
    have : I.size = 967 + span I.recs := rfl
    omega
  obtain ⟨db', entries, hrun, hidx', hdat', hmap, hkeys⟩ := readRest_spec hinv
    (show (rewind db).idx = I.text from hidx) rfl (show I.recs = [] ++ I.recs from rfl) rfl hrecs
    hrecs
  have hnodup := hinv.nodup_keys (show I.recs = [] ++ I.recs from rfl)
  refine ⟨db', entries, hrun,
    ⟨I, home, hidx'.trans hidx, hdat'.symm ▸ hinv, hsize, hdat'.symm ▸ hlen⟩,
    hkeys.symm ▸ hnodup, fun k d => ⟨fun hmem => ⟨hmap _ hmem, ?_⟩, ?_⟩⟩
  · have hk : k ∈ entries.map Prod.fst := List.mem_map.mpr ⟨_, hmem, rfl⟩
    rw [hkeys] at hk
    simpa using (List.mem_filter.mp hk).2
  · rintro ⟨hd, hblank⟩
    obtain ⟨o, x, hx, -, rfl⟩ := hinv.stored k d hd
    obtain ⟨v, hhas⟩ := Index.has_of_info hx
    have hk : x.key ∈ entries.map Prod.fst := by
      rw [hkeys]
      exact List.mem_filter.mpr ⟨List.mem_map.mpr ⟨_, hhas.row.mem, rfl⟩, by simp [hblank]⟩
    obtain ⟨⟨k', d'⟩, hmem, hk'⟩ := List.mem_map.mp hk
    obtain rfl : k' = x.key := hk'
    obtain rfl : d' = d := Option.some.inj ((hmap _ hmem).symm.trans hd)
    exact hmem

/-! ### The contract -/

inductive Call
  | reopen
  | store (key data : List Char) (flag : ℕ)
  | fetch (key : List Char)
  | delete (key : List Char)
  | readAll

inductive Reply
  | opened
  | stored (rc : ℤ) (errno : Option Errno)
  | fetched (data : Option (List Char))
  | deleted (rc : ℤ)
  | entries (entries : List (List Char × List Char))

/-- What is stored, and a bound on the lengths of the files. -/
structure Known where
  map : List Char → Option (List Char)
  size : ℕ

def contract : Contract Call Reply Known where
  start := ⟨fun _ => none, 967⟩
  legal s
    | .store key data _ => Storable key data ∧ s.size ≤ PTR_MAX
    | _ => True
  allowed s
    | .reopen, r => r = .opened
    | .store key data flag, r =>
      let (_, rc, errno) := storing s.map key data flag
      r = .stored rc errno
    | .fetch key, r => r = .fetched (s.map key)
    | .delete key, r => r = .deleted (if (s.map key).isSome then 0 else -1)
    | .readAll, r => ∃ entries, r = .entries entries ∧ (entries.map Prod.fst).Nodup ∧
      ∀ k d, (k, d) ∈ entries ↔ s.map k = some d ∧ Blank k = false
  after s
    | .store key data flag, _ => ⟨(storing s.map key data flag).1, s.size + 1035⟩
    | .delete key, _ => { s with map := Function.update s.map key none }
    | _, _ => s

def exec (fuel : ℕ) (db : DB) : Call → Option (DB × Reply)
  | .reopen => some (dbOpen db.idx db.dat false, .opened)
  | .store key data flag =>
    (store fuel db key data flag).toOption.map fun (db, rc, errno) => (db, .stored rc errno)
  | .fetch key => (fetch fuel db key).toOption.map fun (db, data) => (db, .fetched data)
  | .delete key => (delete fuel db key).toOption.map fun (db, rc) => (db, .deleted rc)
  | .readAll => (readAll fuel db).toOption.map fun (db, entries) => (db, .entries entries)

def Tied (db : DB) (s : Known) : Prop := db.Holds s.map s.size ∧ s.size ≤ PTR_MAX + 1035

theorem exec_simulates (hfuel : PTR_MAX + 1035 < fuel) : Simulates contract (exec fuel) Tied := by
  rintro db s call ⟨hdb, hsize⟩ hlegal
  have hlt : s.size < fuel := Nat.lt_of_le_of_lt hsize hfuel
  cases call with
  | reopen => exact ⟨_, _, rfl, rfl, hdb.reopen, hsize⟩
  | store key data flag =>
    obtain ⟨hs, hn⟩ := hlegal
    obtain ⟨db', hrun, hdb'⟩ := store_spec hdb hlt key data flag hs hn
    exact ⟨db', _, by rw [exec, hrun]; rfl, rfl, hdb', Nat.add_le_add_right hn _⟩
  | fetch key =>
    obtain ⟨db', hrun, hdb'⟩ := fetch_spec hdb hlt key
    exact ⟨db', _, by rw [exec, hrun]; rfl, rfl, hdb', hsize⟩
  | delete key =>
    obtain ⟨db', hrun, hdb'⟩ := delete_spec hdb hlt key
    exact ⟨db', _, by rw [exec, hrun]; rfl, rfl, hdb', hsize⟩
  | readAll =>
    obtain ⟨db', entries, hrun, hdb', hentries⟩ := readAll_spec hdb hlt
    exact ⟨db', _, by rw [exec, hrun]; rfl, ⟨entries, rfl, hentries⟩, hdb', hsize⟩

/-! ### Runs -/

section Runs

variable {client : List Reply → Call} {idx : List Char} {rs : List Reply}

lemma play_tied (hfuel : PTR_MAX + 1035 < fuel) (hobeys : Obeys contract client)
    (hplay : play (exec fuel) client (dbOpen idx dat true) n = some (db, rs)) :
    Tied db (known contract client rs) := by
  obtain ⟨db₁, rs₁, hplay₁, -, -, ht⟩ := play_simulates (exec_simulates hfuel)
    ⟨holds_create idx dat, by decide⟩ hobeys n
  obtain ⟨rfl, rfl⟩ : db₁ = db ∧ rs₁ = rs := by simpa [hplay₁] using hplay
  exact ht

/-- A program that stores two keys, reads and deletes one of them, and starts over with the file. -/
def storeAndDelete (rs : List Reply) : Call :=
  match rs.length with
  | 0 => .store "key".toList "data".toList DB_INSERT
  | 1 => .store "other".toList "more data".toList DB_STORE
  | 2 => .fetch "key".toList
  | 3 => .delete "other".toList
  | 4 => .readAll
  | _ => .reopen

lemma storeAndDelete_obeys : Obeys contract storeAndDelete := by
  intro rs _
  match rs with
  | [] =>
    exact ⟨⟨by decide, by decide, by decide, by decide, by decide, by decide, by decide⟩,
      show 967 ≤ 9999999 by decide⟩
  | [_] =>
    exact ⟨⟨by decide, by decide, by decide, by decide, by decide, by decide, by decide⟩,
      show 967 + 1035 ≤ 9999999 by decide⟩
  | [_, _] => trivial
  | [_, _, _] => trivial
  | [_, _, _, _] => trivial
  | _ :: _ :: _ :: _ :: _ :: _ => trivial

/-- **A database is a map on every run.** No call fails, and each gives the answer that the map
gives. -/
theorem db_keeps_map (hfuel : PTR_MAX + 1035 < fuel) (hobeys : Obeys contract client)
    (idx dat : List Char) (n : ℕ) :
    ∃ db rs, play (exec fuel) client (dbOpen idx dat true) n = some (db, rs) ∧ rs.length = n ∧
      Trace contract client rs := by
  obtain ⟨db, rs, hplay, hlen, htrace, -⟩ := play_simulates (exec_simulates hfuel)
    ⟨holds_create idx dat, by decide⟩ hobeys n
  exact ⟨db, rs, hplay, hlen, htrace⟩

theorem storeAndDelete_runs :
    ∃ db rs, play (exec 20000000) storeAndDelete (dbOpen [] [] true) 6 = some (db, rs) ∧
      rs.length = 6 ∧ Trace contract storeAndDelete rs :=
  db_keeps_map (by decide) storeAndDelete_obeys [] [] 6

end Runs

end Zinzhi.Db
