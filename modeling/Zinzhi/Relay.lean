import Zinzhi.Rio
import Mathlib.Tactic.Ring

/-!
The proxy's way back: `client` reads the response of the end server line by line and writes each
line to the browser.
-/

namespace Zinzhi.Relay

open Zinzhi.Lines Zinzhi.Rio

def addInt (a b : ℤ) : ℤ := (a + b).bmod (2 ^ 32)

/-- The loop of `client` with its line buffer `response_body`, which returns `readsize`. -/
def clientLoop : ℕ → RioT → List UInt8 → ℤ → Out → Option (ℤ × Out)
  | 0, _, _, _, _ => none
  | fuel + 1, responseRio, responseBody, readsize, fd =>
    let (lines, responseBody, responseRio) := rioReadlinebW responseRio responseBody 2048
    if lines = 0 then some (readsize, fd)
    else
      let readsize := addInt readsize lines
      let (status, fd) := rioWriten fd responseBody lines.toNat
      if status = -1 then some (readsize, fd)
      else clientLoop fuel responseRio responseBody readsize fd

def client (fuel : ℕ) (clientfd : List ReadResult) (responseBody : List UInt8) (fd : Out) :
    Option (ℤ × Out) :=
  clientLoop fuel ⟨[], clientfd⟩ responseBody 0 fd

/-! ### What is sent -/

/-- A piece as it is written: a NUL takes the place of a missing newline. -/
def written (piece : List UInt8) : List UInt8 :=
  if piece.getLast? = some newline then piece else piece ++ [0]

def relayed (data : List UInt8) : List UInt8 :=
  if _h : data = [] then []
  else written (cut newline 2047 data).1 ++ relayed (cut newline 2047 data).2
termination_by data.length
decreasing_by exact length_rest_lt newline (by omega) _h

lemma length_written (piece : List UInt8) : (written piece).length = count piece := by
  unfold written count
  split_ifs <;> simp

lemma take_store (piece usrbuf : List UInt8) :
    (store (piece ++ [0]) usrbuf).take (count piece) = written piece := by
  unfold store written count
  split_ifs
  · rw [List.append_assoc, List.take_left]
  · exact List.take_left' (by simp)

lemma addInt_addInt (r a b : ℤ) : addInt (addInt r a) b = addInt r (a + b) := by
  unfold addInt
  rw [Int.bmod_add_bmod, add_assoc]

/-- With fuel for every byte the loop ends, having written `relayed` of what was to be read. -/
lemma clientLoop_eq {fuel : ℕ} {rio : RioT} (hr : ReadsOk rio.reads)
    (hfuel : rio.content.length < fuel) (body : List UInt8) {readsize : ℤ}
    (hsize : addInt readsize 0 = readsize) {fd : Out} (hw : WritesOk fd.writes) :
    ∃ rest, clientLoop fuel rio body readsize fd =
      some (addInt readsize (relayed rio.content).length,
        ⟨fd.sent ++ relayed rio.content, rest⟩) := by
  induction fuel generalizing rio body readsize fd with
  | zero => exact absurd hfuel (Nat.not_lt_zero _)
  | succ fuel ih =>
    rw [clientLoop, relayed]
    split_ifs with hc
    · -- the response is over
      obtain ⟨rio', -, -, hread⟩ := @rioReadlinebW_eof rio hr hc body 2048 (by omega)
      refine ⟨fd.writes, ?_⟩
      simp [hread, hsize]
    · -- one more piece
      obtain ⟨rio', hr', hcontent, hread⟩ :
          ∃ rio', ReadsOk rio'.reads ∧ rio'.content = (cut newline 2047 rio.content).2 ∧
            rioReadlinebW rio body 2048 = ((count (cut newline 2047 rio.content).1 : ℤ),
              store ((cut newline 2047 rio.content).1 ++ [0]) body, rio') :=
        @rioReadlinebW_spec rio hr hc body 2048 (by omega)
      have hpiece := List.length_pos_iff.mpr (cut_ne_nil newline (by omega : 0 < 2047) hc)
      have hrest := length_rest_lt newline (by omega : 0 < 2047) hc
      rw [← hcontent] at hrest ⊢
      generalize (cut newline 2047 rio.content).1 = piece at hread hpiece ⊢
      obtain ⟨rest, hw', hwrite⟩ := rioWriten_ok hw (store (piece ++ [0]) body) (count piece)
      have hcount : 0 < count piece := by unfold count; split_ifs <;> omega
      obtain ⟨rest', hloop⟩ := @ih rio' hr' (by omega) (store (piece ++ [0]) body) _
        (addInt_addInt readsize (count piece) 0) ⟨fd.sent ++ written piece, rest⟩ hw'
      refine ⟨rest', ?_⟩
      rw [take_store] at hwrite
      simp only [hread, Int.toNat_natCast, hwrite]
      rw [if_neg (by omega), if_neg (by omega), hloop, addInt_addInt, List.append_assoc,
        List.length_append, length_written, Nat.cast_add]

/-- The response comes through as it is exactly if its lines fit, and else grows. -/
lemma relayed_cases (data : List UInt8) :
    Fits newline 2047 data ∧ relayed data = data ∨
      ¬Fits newline 2047 data ∧ data.length < (relayed data).length := by
  induction hn : data.length using Nat.strong_induction_on generalizing data with
  | _ n ih =>
    rw [relayed]
    split_ifs with hdata
    · refine .inl ⟨⟨by simp [hdata], fun run hrun _ => ?_⟩, hdata.symm⟩
      rw [hdata] at hrun
      simp [List.eq_nil_of_infix_nil hrun]
    · have hrest := length_rest_lt newline (by omega : 0 < 2047) hdata
      have happ := cut_append newline 2047 data
      have hlen := congrArg List.length happ
      rw [List.length_append] at hlen
      have hrec := ih _ (by omega) (cut newline 2047 data).2 rfl
      rw [fits_iff 2047 hdata, List.length_append, length_written]
      by_cases hend : ∃ q, (cut newline 2047 data).1 = q ++ [newline]
      · obtain ⟨q, hq⟩ := hend
        have hlast : (cut newline 2047 data).1.getLast? = some newline := by simp [hq]
        have hcount : count (cut newline 2047 data).1 = (cut newline 2047 data).1.length :=
          if_pos hlast
        rcases hrec with ⟨hfits, heq⟩ | ⟨hnot, hlt⟩
        · refine .inl ⟨⟨⟨q, hq⟩, hfits⟩, ?_⟩
          rw [heq, written, if_pos hlast, happ]
        · exact .inr ⟨fun h => hnot h.2, by omega⟩
      · -- the piece grows by a byte, and what follows does not shrink
        have hcount : count (cut newline 2047 data).1 = (cut newline 2047 data).1.length + 1 := by
          refine if_neg fun hlast => hend ?_
          obtain ⟨q, hq⟩ := List.getLast?_eq_some_iff.mp hlast
          exact ⟨q, hq⟩
        refine .inr ⟨fun h => hend h.1, ?_⟩
        rcases hrec with ⟨-, heq⟩ | ⟨-, hlt⟩
        · rw [heq]; omega
        · omega

lemma addInt_zero_eq_iff (n : ℕ) : addInt 0 n = n ↔ n < 2 ^ 31 := by
  rw [addInt, zero_add, Int.bmod_def]
  split_ifs <;> omega

/-- **The response is relayed unchanged exactly if its lines fit**: it ends with a newline, has no
2047 bytes in a row without one, and its length is an `int`. -/
theorem client_unchanged_iff (clientfd : List ReadResult) (responseBody : List UInt8)
    (writes : List WriteResult) (fuel : ℕ) (hr : ReadsOk clientfd) (hw : WritesOk writes)
    (hfuel : (received clientfd).length < fuel) :
    ∃ rsize fd, client fuel clientfd responseBody ⟨[], writes⟩ = some (rsize, fd) ∧
      (fd.sent = received clientfd ∧ rsize = (received clientfd).length ↔
        Fits newline 2047 (received clientfd) ∧ (received clientfd).length < 2 ^ 31) := by
  obtain ⟨rest, hloop⟩ := @clientLoop_eq fuel ⟨[], clientfd⟩ hr hfuel responseBody 0 rfl
    ⟨[], writes⟩ hw
  refine ⟨_, _, hloop, ?_⟩
  change relayed (received clientfd) = received clientfd ∧
    addInt 0 (relayed (received clientfd)).length = (received clientfd).length ↔ _
  rcases relayed_cases (received clientfd) with ⟨hfits, heq⟩ | ⟨hnot, hlt⟩
  · rw [heq, addInt_zero_eq_iff]
    exact and_congr_left' (iff_of_true rfl hfits)
  · refine iff_of_false (fun h => ?_) fun h => hnot h.1
    rw [h.1] at hlt
    exact lt_irrefl _ hlt

/-- Two lines that arrive in three parts, with an interrupt between. -/
def twoLines : List ReadResult :=
  [.data ⟨[72, 13], by simp, by simp [RIO_BUFSIZE]⟩, .eintr,
    .data ⟨[10], by simp, by simp [RIO_BUFSIZE]⟩, .data ⟨[65, 10], by simp, by simp [RIO_BUFSIZE]⟩]

/-- They leave unchanged, the first of them in two parts. -/
theorem client_unchanged_lines :
    ∃ rsize fd, client 6 twoLines [] ⟨[], [.wrote 1 Nat.one_pos]⟩ = some (rsize, fd) ∧
      fd.sent = [72, 13, 10, 65, 10] ∧ rsize = 5 := by
  have hr : ReadsOk twoLines := by simp [ReadsOk, twoLines]
  obtain ⟨rsize, fd, hrun, hiff⟩ := client_unchanged_iff twoLines [] [.wrote 1 Nat.one_pos] 6 hr
    (by simp [WritesOk]) (by decide)
  refine ⟨rsize, fd, hrun, hiff.mpr ⟨⟨?_, ?_⟩, by decide⟩⟩
  · intro x hx
    simpa [twoLines, received, newline] using hx.symm
  · intro run hrun _
    exact lt_of_le_of_lt hrun.length_le (by decide)

/-- A single byte without a newline reaches the browser with a NUL behind it. -/
theorem client_appends_nul :
    let response : List ReadResult := [.data ⟨[65], by simp, by simp [RIO_BUFSIZE]⟩]
    received response = [65] ∧ client 2 response [] ⟨[], []⟩ = some (2, ⟨[65, 0], []⟩) := by
  exact ⟨rfl, rfl⟩

end Zinzhi.Relay
