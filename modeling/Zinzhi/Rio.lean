import Zinzhi.Lines

/-!
The robust I/O package: buffered reading of lines from a descriptor and writing of buffers.

A descriptor is the list of what its next `read` or `write` calls return, which leaves open how
the kernel splits a byte stream. When the list is used up a `read` is at end of file and a
`write` takes everything. Of the two buffer pointers of `rio_t` only the bytes between them are
kept.
-/

namespace Zinzhi.Rio

open Zinzhi.Lines

def RIO_BUFSIZE : ℕ := 8192

structure Chunk where
  bytes : List UInt8
  nonempty : bytes ≠ []
  fits : bytes.length ≤ RIO_BUFSIZE

inductive ReadResult where
  | data (chunk : Chunk)
  | eintr
  | error

inductive WriteResult where
  | wrote (n : ℕ) (pos : 0 < n)
  | eintr
  | error

/-- `rio_t` with its unread bytes and the coming results of `read`. -/
structure RioT where
  unread : List UInt8
  reads : List ReadResult

structure Out where
  sent : List UInt8
  writes : List WriteResult

/-- The loop that refills an empty buffer, `some []` at end of file and `none` on an error. -/
def refill : List ReadResult → Option (List UInt8) × List ReadResult
  | [] => (some [], [])
  | .data chunk :: reads => (some chunk.bytes, reads)
  | .eintr :: reads => refill reads
  | .error :: reads => (none, reads)

/-- The bytes copied to the user, `none` for a return of `-1`. -/
def rioRead (rp : RioT) (n : ℕ) : Option (List UInt8) × RioT :=
  match if rp.unread = [] then refill rp.reads else (some rp.unread, rp.reads) with
  | (none, reads) => (none, ⟨[], reads⟩)
  | (some buf, reads) => (some (buf.take n), ⟨buf.drop n, reads⟩)

def newline : UInt8 := 10

/-- The bytes at the start of a buffer overwritten. -/
def store (bytes usrbuf : List UInt8) : List UInt8 := bytes ++ usrbuf.drop bytes.length

/-- The loop of `rio_readlineb` with `k` rounds left; `line` is what stands before `bufp`. -/
def readlineLoop (usrbuf : List UInt8) : ℕ → ℕ → List UInt8 → RioT → ℤ × List UInt8 × RioT
  | 0, n, line, rp => (n, store (line ++ [0]) usrbuf, rp)
  | k + 1, n, line, rp =>
    match rioRead rp 1 with
    | (some [c], rp) =>
      if c = newline then (n, store (line ++ [c] ++ [0]) usrbuf, rp)
      else readlineLoop usrbuf k (n + 1) (line ++ [c]) rp
    | (some [], rp) =>
      if n = 1 then (0, store line usrbuf, rp) else (n, store (line ++ [0]) usrbuf, rp)
    | (some (_ :: _ :: _), rp) | (none, rp) => (-1, store line usrbuf, rp)

def rioReadlineb (rp : RioT) (usrbuf : List UInt8) (maxlen : ℕ) : ℤ × List UInt8 × RioT :=
  readlineLoop usrbuf (maxlen - 1) 1 [] rp

/-- The wrapper turns an error into end of file. -/
def rioReadlinebW (rp : RioT) (usrbuf : List UInt8) (maxlen : ℕ) : ℤ × List UInt8 × RioT :=
  let (rc, usrbuf, rp) := rioReadlineb rp usrbuf maxlen
  if rc < 0 then (0, usrbuf, rp) else (rc, usrbuf, rp)

/-- The loop of `rio_writen` on the bytes left, `false` on an error. -/
def writenLoop (left sent : List UInt8) : List WriteResult → Bool × Out
  | [] => (true, ⟨sent ++ left, []⟩)
  | result :: writes =>
    if left = [] then (true, ⟨sent, result :: writes⟩)
    else
      match result with
      | .wrote n _ => writenLoop (left.drop n) (sent ++ left.take n) writes
      | .eintr => writenLoop left sent writes
      | .error => (false, ⟨sent, writes⟩)

def rioWriten (fd : Out) (usrbuf : List UInt8) (n : ℕ) : ℤ × Out :=
  let (ok, fd) := writenLoop (usrbuf.take n) fd.sent fd.writes
  (if ok then n else -1, fd)

/-! ### Descriptors without errors -/

def received : List ReadResult → List UInt8
  | [] => []
  | .data chunk :: reads => chunk.bytes ++ received reads
  | _ :: reads => received reads

/-- No call fails other than by an interrupt. -/
def ReadsOk (reads : List ReadResult) : Prop := ReadResult.error ∉ reads

def WritesOk (writes : List WriteResult) : Prop := WriteResult.error ∉ writes

def RioT.content (rp : RioT) : List UInt8 := rp.unread ++ received rp.reads

lemma refill_spec {reads : List ReadResult} (h : ReadsOk reads) :
    ∃ buf rest, refill reads = (some buf, rest) ∧ ReadsOk rest ∧
      buf ++ received rest = received reads ∧ (buf = [] → received reads = []) := by
  induction reads with
  | nil => exact ⟨[], [], rfl, h, rfl, fun _ => rfl⟩
  | cons result reads ih =>
    have hrest : ReadsOk reads := fun hm => h (List.mem_cons_of_mem _ hm)
    cases result with
    | data chunk =>
      exact ⟨chunk.bytes, reads, rfl, hrest, rfl, fun h => absurd h chunk.nonempty⟩
    | eintr => exact ih hrest
    | error => exact absurd List.mem_cons_self h

lemma rioRead_one {rp : RioT} (h : ReadsOk rp.reads) :
    ∃ rp', ReadsOk rp'.reads ∧ rioRead rp 1 = (some (rp.content.take 1), rp') ∧
      rp'.content = rp.content.drop 1 := by
  obtain ⟨buf, rest, havail, hok, happ, hnil⟩ : ∃ buf rest,
      (if rp.unread = [] then refill rp.reads else (some rp.unread, rp.reads)) =
        (some buf, rest) ∧ ReadsOk rest ∧ buf ++ received rest = rp.content ∧
        (buf = [] → rp.content = []) := by
    by_cases hu : rp.unread = []
    · -- an empty buffer is refilled first
      rw [if_pos hu, RioT.content, hu]
      exact refill_spec h
    · rw [if_neg hu]
      exact ⟨rp.unread, rp.reads, rfl, h, rfl, fun hc => absurd hc hu⟩
  refine ⟨⟨buf.drop 1, rest⟩, hok, ?_, ?_⟩
  · simp only [rioRead, havail, ← happ]
    cases buf with
    | nil => rw [happ, hnil rfl]
    | cons b bs => rfl
  · rw [← happ]
    cases buf with
    | nil =>
      rw [hnil rfl, List.nil_append] at happ
      simp [RioT.content, happ]
    | cons b bs => rfl

/-- What `rio_readlineb` returns for a piece: one more than its length unless a newline ends it. -/
def count (piece : List UInt8) : ℕ :=
  if piece.getLast? = some newline then piece.length else piece.length + 1

lemma count_cons {c : UInt8} (hc : c ≠ newline) (piece : List UInt8) :
    count (c :: piece) = count piece + 1 := by
  have hlast : (c :: piece).getLast? = some newline ↔ piece.getLast? = some newline := by
    cases piece with
    | nil => simp [hc]
    | cons b bs => simp [List.getLast?_cons]
  simp only [count, hlast, List.length_cons]
  split_ifs <;> rfl

/-- The loop reads a piece of at most `k` bytes and puts a NUL behind it. -/
lemma readlineLoop_spec (usrbuf : List UInt8) {k : ℕ} {line : List UInt8} {rp : RioT}
    (h : ReadsOk rp.reads) (hne : line ≠ [] ∨ rp.content ≠ [] ∧ 0 < k) :
    ∃ rp', ReadsOk rp'.reads ∧ rp'.content = (cut newline k rp.content).2 ∧
      readlineLoop usrbuf k (line.length + 1) line rp =
        (((line.length + count (cut newline k rp.content).1 : ℕ) : ℤ),
          store (line ++ (cut newline k rp.content).1 ++ [0]) usrbuf, rp') := by
  induction k generalizing line rp with
  | zero => exact ⟨rp, h, rfl, by simp [readlineLoop, cut, count]⟩
  | succ k ih =>
    obtain ⟨rp', h', hread, hcontent⟩ := rioRead_one h
    rw [readlineLoop, hread]
    cases hc : rp.content with
    | nil =>
      -- end of file after some bytes of the line
      have hline : line ≠ [] := hne.resolve_right fun hr => hr.1 hc
      have hlen : line.length + 1 ≠ 1 := by simpa using hline
      refine ⟨rp', h', by rw [hcontent, hc]; rfl, ?_⟩
      simp [hline, cut, count]
    | cons c cs =>
      rw [hc] at hcontent
      by_cases hnl : c = newline
      · refine ⟨rp', h', by simp [hcontent, cut, hnl], ?_⟩
        simp [cut, hnl, count]
      · obtain ⟨rp2, h2, hcontent2, hloop⟩ := @ih (line ++ [c]) rp' h' (.inl (by simp))
        have hcs : rp'.content = cs := hcontent
        rw [hcs] at hcontent2 hloop
        refine ⟨rp2, h2, by rw [hcontent2, cut, if_neg hnl], ?_⟩
        have hcut : (cut newline (k + 1) (c :: cs)).1 = c :: (cut newline k cs).1 := by
          rw [cut, if_neg hnl]
        rw [hcut, count_cons hnl]
        simp only [List.take_succ_cons, List.take_zero, if_neg hnl]
        rw [List.length_append, List.length_singleton] at hloop
        rw [hloop, List.append_assoc line [c], List.singleton_append]
        congr 2
        omega

/-- At end of file the line reader returns `0` and leaves the buffer alone. -/
lemma rioReadlinebW_eof {rp : RioT} (h : ReadsOk rp.reads) (hc : rp.content = [])
    (usrbuf : List UInt8) {maxlen : ℕ} (hmax : 1 < maxlen) :
    ∃ rp', ReadsOk rp'.reads ∧ rp'.content = [] ∧
      rioReadlinebW rp usrbuf maxlen = (0, usrbuf, rp') := by
  obtain ⟨k, rfl⟩ : ∃ k, maxlen = k + 2 := ⟨maxlen - 2, by omega⟩
  obtain ⟨rp', h', hread, hcontent⟩ := rioRead_one h
  rw [hc] at hread hcontent
  refine ⟨rp', h', hcontent, ?_⟩
  simp [rioReadlinebW, rioReadlineb, readlineLoop, hread, store]

/-- Otherwise it returns the count of the next piece, which stands in the buffer with a NUL
behind it. -/
lemma rioReadlinebW_spec {rp : RioT} (h : ReadsOk rp.reads) (hc : rp.content ≠ [])
    (usrbuf : List UInt8) {maxlen : ℕ} (hmax : 1 < maxlen) :
    ∃ rp', ReadsOk rp'.reads ∧ rp'.content = (cut newline (maxlen - 1) rp.content).2 ∧
      rioReadlinebW rp usrbuf maxlen =
        ((count (cut newline (maxlen - 1) rp.content).1 : ℤ),
          store ((cut newline (maxlen - 1) rp.content).1 ++ [0]) usrbuf, rp') := by
  obtain ⟨rp', h', hcontent, hloop⟩ :=
    @readlineLoop_spec usrbuf (maxlen - 1) [] rp h (.inr ⟨hc, by omega⟩)
  refine ⟨rp', h', hcontent, ?_⟩
  simp only [List.length_nil, Nat.zero_add, List.nil_append] at hloop
  simp only [rioReadlinebW, rioReadlineb, hloop]
  rw [if_neg (by omega)]

lemma writenLoop_ok {writes : List WriteResult} (h : WritesOk writes) (left sent : List UInt8) :
    ∃ rest, WritesOk rest ∧ writenLoop left sent writes = (true, ⟨sent ++ left, rest⟩) := by
  induction writes generalizing left sent with
  | nil => exact ⟨[], h, rfl⟩
  | cons result writes ih =>
    have hrest : WritesOk writes := fun hm => h (List.mem_cons_of_mem _ hm)
    by_cases hleft : left = []
    · exact ⟨result :: writes, h, by cases result <;> simp [writenLoop, hleft]⟩
    · cases result with
      | wrote n pos =>
        obtain ⟨rest, hok, heq⟩ := ih hrest (left.drop n) (sent ++ left.take n)
        refine ⟨rest, hok, ?_⟩
        rw [writenLoop, if_neg hleft, heq, List.append_assoc, List.take_append_drop]
      | eintr =>
        obtain ⟨rest, hok, heq⟩ := ih hrest left sent
        exact ⟨rest, hok, by rw [writenLoop, if_neg hleft, heq]⟩
      | error => exact absurd List.mem_cons_self h

lemma rioWriten_ok {fd : Out} (h : WritesOk fd.writes) (usrbuf : List UInt8) (n : ℕ) :
    ∃ rest, WritesOk rest ∧
      rioWriten fd usrbuf n = ((n : ℤ), ⟨fd.sent ++ usrbuf.take n, rest⟩) := by
  obtain ⟨rest, hok, heq⟩ := writenLoop_ok h (usrbuf.take n) fd.sent
  exact ⟨rest, hok, by simp [rioWriten, heq]⟩

end Zinzhi.Rio
