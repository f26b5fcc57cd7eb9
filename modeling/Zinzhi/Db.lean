import Zinzhi.Files
import Zinzhi.TextStream

/-!
`db.c`, a database of keys and data in an index file and a data file. The functions are named
without `db_` and `_db_`.

The index file starts with the free list pointer and the hash table, and goes on with the index
records; a pointer is the offset of an index record, as seven characters. Files are sequences of
characters, one for each byte. `err_dump` and `err_quit` end the program with a message. One process
uses the database, so its locks are always granted; reads and writes are complete. `_db_dodelete`
passes `idxbuf` to `_db_writeidx`, which prints it into `idxbuf`; C leaves that undefined, and the
key is taken to be read first. The loops over a chain are given fuel.
-/

namespace Zinzhi.Db

open Zinzhi.Files Zinzhi.TextStream

abbrev IDXLEN_SZ : ℕ := 4
abbrev SEP : Char := ':'
abbrev SPACE : Char := ' '
abbrev NEWLINE : Char := '\n'
abbrev NUL : Char := '\x00'
abbrev PTR_SZ : ℕ := 7
abbrev PTR_MAX : ℕ := 9999999
abbrev NHASH_DEF : ℕ := 137
abbrev FREE_OFF : ℕ := 0
abbrev HASH_OFF : ℕ := PTR_SZ
abbrev DB_INSERT : ℕ := 1
abbrev DB_REPLACE : ℕ := 2
abbrev DB_STORE : ℕ := 3
abbrev IDXLEN_MIN : ℕ := 6
abbrev IDXLEN_MAX : ℕ := 1024
abbrev DATLEN_MIN : ℕ := 2
abbrev DATLEN_MAX : ℕ := 1024

/-- The two files, the offset at which the index file is read next, and the `DB` structure. -/
structure DB where
  idx : List Char
  dat : List Char
  idxpos : ℕ
  idxbuf : List Char
  datbuf : List Char
  idxoff : ℤ
  idxlen : ℕ
  datoff : ℤ
  datlen : ℕ
  ptrval : ℤ
  ptroff : ℤ
  chainoff : ℤ

inductive Errno
  | EINVAL
  | ENOENT
  deriving DecidableEq, Repr

/-! ### Strings -/

/-- The string that an array of characters holds. -/
def cstr (buf : List Char) : List Char := buf.takeWhile (· ≠ NUL)

/-- What is in front of the first `SEP` of a string, and what is behind it. -/
def strchr (s : List Char) : Option (List Char × List Char) :=
  if SEP ∈ s then some (s.takeWhile (· ≠ SEP), (s.dropWhile (· ≠ SEP)).tail) else none

/-- `atol` and `atoi` -/
def atol (s : List Char) : ℤ := (scanInt s).1.getD 0

/-- `%*lld` and `%*d` -/
def padded (width : ℕ) (n : ℤ) : List Char :=
  List.replicate (width - (decimal n).length) SPACE ++ decimal n

/-- The value of a `char`. -/
def charValue (c : Char) : ℤ := if c.toNat < 128 then c.toNat else (c.toNat : ℤ) - 256

/-! ### Reading -/

def hash (key : List Char) : ℕ :=
  ((key.zipIdx 1).foldl (fun hval ci => hval + BitVec.ofInt 64 (charValue ci.1 * ci.2)) 0).toNat %
    NHASH_DEF

def readptr (db : DB) (offset : ℤ) : Except String (DB × ℤ) :=
  if offset < 0 then .error "_db_readptr: lseek error to ptr field"
  else
    let asciiptr := readAt db.idx offset.toNat PTR_SZ
    if asciiptr.length ≠ PTR_SZ then .error "_db_readptr: read error of ptr field"
    else .ok ({ db with idxpos := offset.toNat + PTR_SZ }, atol asciiptr)

/-- The part of `_db_readidx` that takes a record apart. -/
def splitRecord (record : List Char) : Except String (List Char × ℤ × ℕ) :=
  if record.getLast? ≠ some NEWLINE then .error "_db_readidx: missing newline"
  else match strchr (cstr record.dropLast) with
    | none => .error "_db_readidx: missing first separator"
    | some (key, ptr1) =>
      match strchr ptr1 with
      | none => .error "_db_readidx: missing second separator"
      | some (start, ptr2) =>
        if SEP ∈ ptr2 then .error "_db_readidx: too many separators"
        else if atol start < 0 then .error "_db_readidx: starting offset < 0"
        else if atol ptr2 ≤ 0 ∨ atol ptr2 > DATLEN_MAX then .error "_db_readidx: invalid length"
        else .ok (key, atol start, (atol ptr2).toNat)

def readidx (db : DB) (offset : ℤ) : Except String (DB × ℤ) :=
  if offset < 0 then .error "_db_readidx: lseek error"
  else
    let pos := if offset = 0 then db.idxpos else offset.toNat
    let front := readAt db.idx pos (PTR_SZ + IDXLEN_SZ)
    if front.length ≠ PTR_SZ + IDXLEN_SZ then
      if front.length = 0 ∧ offset = 0 then .ok ({ db with idxoff := pos, idxpos := pos }, -1)
      else .error "_db_readidx: readv error of index record"
    else
      let ptrval := atol (front.take PTR_SZ)
      let idxlen := atol (front.drop PTR_SZ)
      if idxlen < IDXLEN_MIN ∨ idxlen > IDXLEN_MAX then .error "_db_readidx: invalid length"
      else
        let record := readAt db.idx (pos + (PTR_SZ + IDXLEN_SZ)) idxlen.toNat
        if record.length ≠ idxlen.toNat then .error "_db_readidx: read error of index record"
        else do
          let (key, datoff, datlen) ← splitRecord record
          return ({ db with
            idxoff := pos, ptrval := ptrval, idxlen := idxlen.toNat, idxbuf := key,
            datoff := datoff, datlen := datlen,
            idxpos := pos + (PTR_SZ + IDXLEN_SZ) + idxlen.toNat }, ptrval)

def readdat (db : DB) : Except String (DB × List Char) :=
  if db.datoff < 0 then .error "_db_readdat: lseek error"
  else
    let record := readAt db.dat db.datoff.toNat db.datlen
    if record.length ≠ db.datlen then .error "_db_readdat: read error"
    else if record.getLast? ≠ some NEWLINE then .error "_db_readdat: missing newline"
    else .ok ({ db with datbuf := cstr record.dropLast }, cstr record.dropLast)

/-! ### Writing -/

/-- `SEEK_SET` with an offset, or `SEEK_END` with the offset 0. -/
inductive Whence
  | set (offset : ℤ)
  | append

def Whence.lseek (file : List Char) : Whence → Option ℕ
  | .set offset => if offset < 0 then none else some offset.toNat
  | .append => some file.length

def writedat (db : DB) (data : List Char) (whence : Whence) : Except String DB :=
  match whence.lseek db.dat with
  | none => .error "_db_writedat: lseek error"
  | some pos =>
    .ok { db with
      datoff := pos, datlen := data.length + 1,
      dat := writeAt NUL db.dat pos (data ++ [NEWLINE]) }

def writeidx (db : DB) (key : List Char) (whence : Whence) (ptrval : ℤ) : Except String DB :=
  if ptrval < 0 ∨ ptrval > PTR_MAX then .error "_db_writeidx: invalid ptr: %d"
  else
    let idxbuf := key ++ SEP :: decimal db.datoff ++ SEP :: decimal db.datlen ++ [NEWLINE]
    if idxbuf.length < IDXLEN_MIN ∨ idxbuf.length > IDXLEN_MAX then
      .error "_db_writeidx: invalid length"
    else
      let record := padded PTR_SZ ptrval ++ padded IDXLEN_SZ idxbuf.length ++ idxbuf
      match whence.lseek db.idx with
      | none => .error "_db_writeidx: lseek error"
      | some pos =>
        .ok { db with
          ptrval := ptrval, idxbuf := idxbuf, idxoff := pos, idxpos := pos + record.length,
          idx := writeAt NUL db.idx pos record }

def writeptr (db : DB) (offset ptrval : ℤ) : Except String DB :=
  if ptrval < 0 ∨ ptrval > PTR_MAX then .error "_db_writeptr: invalid ptr: %d"
  else if offset < 0 then .error "_db_writeptr: lseek error to ptr field"
  else .ok { db with
    idxpos := offset.toNat + PTR_SZ, idx := writeAt NUL db.idx offset.toNat (padded PTR_SZ ptrval) }

/-! ### Searching -/

/-- The loops of `_db_find_and_lock` and `_db_findfree`: from the index record at `offset`, which
the pointer at `prev` points to, to the first one that is looked for. -/
def walk (found : DB → Bool) : (fuel : ℕ) → DB → (prev offset : ℤ) → Except String (DB × ℤ × ℤ)
  | 0, _, _, _ => .error "no fuel"
  | fuel + 1, db, prev, offset =>
    if offset = 0 then .ok (db, prev, offset)
    else do
      let (db, nextoffset) ← readidx db offset
      if found db then return (db, prev, offset)
      else walk found fuel db offset nextoffset

def findAndLock (fuel : ℕ) (db : DB) (key : List Char) : Except String (DB × ℤ) := do
  let chainoff : ℤ := hash key * PTR_SZ + HASH_OFF
  let db := { db with chainoff := chainoff, ptroff := chainoff }
  let (db, offset) ← readptr db db.ptroff
  let (db, ptroff, offset) ← walk (fun db => db.idxbuf = key) fuel db db.ptroff offset
  return ({ db with ptroff := ptroff }, if offset = 0 then -1 else 0)

def findfree (fuel : ℕ) (db : DB) (keylen datlen : ℕ) : Except String (DB × ℤ) := do
  let (db, offset) ← readptr db FREE_OFF
  let (db, saveoffset, offset) ←
    walk (fun db => db.idxbuf.length = keylen ∧ db.datlen = datlen) fuel db FREE_OFF offset
  if offset = 0 then
    return (db, -1)
  else
    let db ← writeptr db saveoffset db.ptrval
    return (db, 0)

/-! ### Operations -/

def dodelete (db : DB) : Except String DB := do
  let db := { db with
    datbuf := List.replicate (db.datlen - 1) SPACE
    idxbuf := List.replicate db.idxbuf.length SPACE }
  let db ← writedat db db.datbuf (.set db.datoff)
  let (db, freeptr) ← readptr db FREE_OFF
  let saveptr := db.ptrval
  let db ← writeidx db db.idxbuf (.set db.idxoff) freeptr
  let db ← writeptr db FREE_OFF db.idxoff
  writeptr db db.ptroff saveptr

def fetch (fuel : ℕ) (db : DB) (key : List Char) : Except String (DB × Option (List Char)) := do
  let (db, rc) ← findAndLock fuel db key
  if rc < 0 then
    return (db, none)
  else
    let (db, data) ← readdat db
    return (db, some data)

def delete (fuel : ℕ) (db : DB) (key : List Char) : Except String (DB × ℤ) := do
  let (db, rc) ← findAndLock fuel db key
  if rc = 0 then
    let db ← dodelete db
    return (db, 0)
  else
    return (db, -1)

/-- The new record goes to the ends of both files and to the front of the hash chain. -/
def appendRecord (db : DB) (key data : List Char) (ptrval : ℤ) : Except String DB := do
  let db ← writedat db data .append
  let db ← writeidx db key .append ptrval
  writeptr db db.chainoff db.idxoff

/-- The new record goes over the one that `_db_findfree` found, and to the front of the hash
chain. -/
def reuseRecord (db : DB) (key data : List Char) (ptrval : ℤ) : Except String DB := do
  let db ← writedat db data (.set db.datoff)
  let db ← writeidx db key (.set db.idxoff) ptrval
  writeptr db db.chainoff db.idxoff

def store (fuel : ℕ) (db : DB) (key data : List Char) (flag : ℕ) :
    Except String (DB × ℤ × Option Errno) :=
  if flag ≠ DB_INSERT ∧ flag ≠ DB_REPLACE ∧ flag ≠ DB_STORE then .ok (db, -1, some .EINVAL)
  else
    let datlen := data.length + 1
    if datlen < DATLEN_MIN ∨ datlen > DATLEN_MAX then .error "db_store: invalid data length"
    else do
      let (db, rc) ← findAndLock fuel db key
      if rc < 0 then
        if flag = DB_REPLACE then
          return (db, -1, some .ENOENT)
        else
          let (db, ptrval) ← readptr db db.chainoff
          let (db, found) ← findfree fuel db key.length datlen
          if found < 0 then
            let db ← appendRecord db key data ptrval
            return (db, 0, none)
          else
            let db ← reuseRecord db key data ptrval
            return (db, 0, none)
      else
        if flag = DB_INSERT then
          return (db, 1, none)
        else if datlen ≠ db.datlen then
          let db ← dodelete db
          let (db, ptrval) ← readptr db db.chainoff
          let db ← appendRecord db key data ptrval
          return (db, 0, none)
        else
          let db ← writedat db data (.set db.datoff)
          return (db, 0, none)

def rewind (db : DB) : DB :=
  let offset := (NHASH_DEF + 1) * PTR_SZ
  { db with idxoff := (offset + 1 : ℕ), idxpos := offset + 1 }

/-- `db_nextrec`; the key and the data. -/
def nextrec : (fuel : ℕ) → DB → Except String (DB × Option (List Char × List Char))
  | 0, _ => .error "no fuel"
  | fuel + 1, db => do
    let (db, rc) ← readidx db 0
    if rc < 0 then
      return (db, none)
    else if db.idxbuf.all (· = SPACE) then
      nextrec fuel db
    else
      let key := db.idxbuf
      let (db, data) ← readdat db
      return (db, some (key, data))

/-- The free list pointer and the hash table, all zero. -/
def emptyTable : List Char :=
  (List.replicate (NHASH_DEF + 1) (padded PTR_SZ 0)).flatten ++ [NEWLINE]

/-- `db_open` on files that can be opened, with `O_CREAT` and `O_TRUNC` or without. -/
def dbOpen (idx dat : List Char) (create : Bool) : DB :=
  rewind {
    idx := if create then emptyTable else idx
    dat := if create then [] else dat
    idxpos := 0
    idxbuf := []
    datbuf := []
    idxoff := 0
    idxlen := 0
    datoff := 0
    datlen := 0
    ptrval := 0
    ptroff := 0
    chainoff := 0 }

end Zinzhi.Db
