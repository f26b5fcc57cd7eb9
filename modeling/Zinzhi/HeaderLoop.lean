import Zinzhi.Loops
import Zinzhi.Rio

/-!
The proxy's way forward: `server` reads the header lines of a request until the empty one, and
collects what is to be sent to the end server.

The line buffer is not initialised, and neither is `header`, so both start with any bytes. Of
`header` only the text is kept, and it is not bounded: what happens when its 5000 bytes overflow is
no matter of the loop.
-/

namespace Zinzhi.HeaderLoop

open Zinzhi.Lines Zinzhi.Loops Zinzhi.Rio

def MAXLINE : ℕ := 8192

def ascii (text : String) : List UInt8 := text.toList.map fun c => c.toNat.toUInt8

def crlf : List UInt8 := ascii "\r\n"

lemma crlf_eq : crlf = [13, newline] := rfl

/-! ### Strings in buffers -/

def cString (buf : List UInt8) : List UInt8 := buf.takeWhile (· ≠ 0)

def strcmp : List UInt8 → List UInt8 → ℤ
  | [], [] => 0
  | [], _ :: _ => -1
  | _ :: _, [] => 1
  | a :: s, b :: t => if a = b then strcmp s t else if a < b then -1 else 1

/-- The first place where the other string begins, NULL if there is none. -/
def strstr (haystack needle : List UInt8) : Option (List UInt8) :=
  haystack.tails.find? fun s => needle.isPrefixOf s

/-! ### The loop -/

structure Server where
  rio : RioT
  requestHeaderIn : List UInt8
  header : List UInt8

/-- What is added to the header for a line. -/
def headerLine (hostname line : List UInt8) : List UInt8 :=
  if strstr line (ascii "Connection: keep-alive") = none then
    if strstr line (ascii "Host:") ≠ none then ascii "Host:" ++ hostname ++ ascii "\n" else line
  else ascii "Connection: close\n"

def readHeaderLine (hostname : List UInt8) (s : Server) : Server :=
  let (_, requestHeaderIn, rio) := rioReadlinebW s.rio s.requestHeaderIn MAXLINE
  ⟨rio, requestHeaderIn, s.header ++ headerLine hostname (cString requestHeaderIn)⟩

def Goes (s : Server) : Prop := strcmp (cString s.requestHeaderIn) crlf ≠ 0

instance : DecidablePred Goes := fun _ => inferInstanceAs (Decidable (_ ≠ _))

def headerLoop (hostname : List UInt8) : ℕ → Server → Option Server :=
  whileLoop Goes (readHeaderLine hostname)

/-! ### What a round reads -/

lemma strcmp_eq_zero_iff (s t : List UInt8) : strcmp s t = 0 ↔ s = t := by
  induction s generalizing t with
  | nil => cases t <;> simp [strcmp]
  | cons a s ih =>
    cases t with
    | nil => simp [strcmp]
    | cons b t =>
      rw [strcmp]
      split_ifs with h hlt
      · rw [ih, h, List.cons_inj_right]
      · simp [h]
      · simp [h]

lemma eq_crlf_of_not_goes {s : Server} (h : ¬Goes s) : cString s.requestHeaderIn = crlf :=
  (strcmp_eq_zero_iff _ _).mp (not_not.mp h)

lemma goes_iff (s : Server) : Goes s ↔ cString s.requestHeaderIn ≠ crlf :=
  not_congr (strcmp_eq_zero_iff _ _)

/-- A line in the buffer is cut at a NUL of its own or at the one behind it. -/
lemma cString_store (piece buf : List UInt8) :
    cString (store (piece ++ [0]) buf) = cString piece := by
  rw [cString, cString, store, List.append_assoc, List.takeWhile_append]
  split_ifs with h
  · have hself := List.IsPrefix.eq_of_length (List.takeWhile_prefix (· ≠ (0 : UInt8))) h
    rw [hself]
    exact List.append_nil _
  · rfl

/-- No other piece than the empty line compares equal to it: its newline ends the piece. -/
lemma cString_cut_eq_crlf_iff (k : ℕ) (data : List UInt8) :
    cString (cut newline k data).1 = crlf ↔ (cut newline k data).1 = crlf := by
  constructor
  · intro h
    have hpre : crlf <+: (cut newline k data).1 := h ▸ List.takeWhile_prefix _
    rcases cut_cases newline k data with ⟨q, hq, hsep, -⟩ | ⟨hsep, -⟩
    · -- a piece that ends with a newline
      rw [hq, crlf_eq] at hpre ⊢
      obtain ⟨t, ht⟩ := hpre
      cases q with
      | nil => cases ht
      | cons a q =>
        cases q with
        | nil =>
          obtain ⟨rfl, -⟩ := List.cons.inj ht
          rfl
        | cons b q =>
          obtain ⟨rfl, -⟩ := List.cons.inj (List.cons.inj ht).2
          exact absurd (by simp) hsep
    · -- one without a newline
      exact absurd (hpre.subset (by decide)) hsep
  · intro h
    rw [h]
    decide

/-- The empty line is in the buffer or among the lines to come. -/
def Blank (s : Server) : Prop :=
  cString s.requestHeaderIn = crlf ∨ crlf ∈ pieces newline (MAXLINE - 1) s.rio.content

/-- What the lines up to the empty one are turned into. -/
def forwarded (hostname : List UInt8) : List (List UInt8) → List UInt8
  | [] => []
  | line :: lines =>
    headerLine hostname (cString line) ++ if line = crlf then [] else forwarded hostname lines

def pending (hostname : List UInt8) (s : Server) : List UInt8 :=
  if Goes s then forwarded hostname (pieces newline (MAXLINE - 1) s.rio.content) else []

section Round

variable (hostname : List UInt8) {s : Server} (h : ReadsOk s.rio.reads)

include h

/-- At end of file a round finds the last line again. -/
lemma readHeaderLine_eof (hc : s.rio.content = []) :
    ∃ rio, ReadsOk rio.reads ∧ rio.content = [] ∧ readHeaderLine hostname s =
      ⟨rio, s.requestHeaderIn, s.header ++ headerLine hostname (cString s.requestHeaderIn)⟩ := by
  obtain ⟨rio, h', hcontent, hread⟩ :=
    @rioReadlinebW_eof s.rio h hc s.requestHeaderIn MAXLINE (by decide)
  exact ⟨rio, h', hcontent, by rw [readHeaderLine, hread]⟩

lemma readHeaderLine_line (hc : s.rio.content ≠ []) :
    ∃ rio buf line rest, (cut newline (MAXLINE - 1) s.rio.content) = (line, rest) ∧
      ReadsOk rio.reads ∧ rio.content = rest ∧ cString buf = cString line ∧
      readHeaderLine hostname s = ⟨rio, buf, s.header ++ headerLine hostname (cString line)⟩ := by
  obtain ⟨rio, h', hcontent, hread⟩ :=
    @rioReadlinebW_spec s.rio h hc s.requestHeaderIn MAXLINE (by decide)
  refine ⟨rio, _, _, _, rfl, h', hcontent, cString_store _ s.requestHeaderIn, ?_⟩
  rw [readHeaderLine, hread]
  simp only [cString_store]

lemma readsOk_readHeaderLine : ReadsOk (readHeaderLine hostname s).rio.reads := by
  by_cases hc : s.rio.content = []
  · obtain ⟨rio, h', -, heq⟩ := readHeaderLine_eof hostname h hc
    rwa [heq]
  · obtain ⟨rio, buf, line, rest, -, h', -, -, heq⟩ := readHeaderLine_line hostname h hc
    rwa [heq]

/-- A round neither brings an empty line nor loses it. -/
lemma blank_readHeaderLine_iff (hgoes : Goes s) :
    Blank (readHeaderLine hostname s) ↔ Blank s := by
  have hbuf := (goes_iff s).mp hgoes
  by_cases hc : s.rio.content = []
  · obtain ⟨rio, -, hcontent, heq⟩ := readHeaderLine_eof hostname h hc
    rw [heq, Blank, Blank, hcontent, hc]
  · obtain ⟨rio, buf, line, rest, hcut, -, hcontent, hline, heq⟩ :=
      readHeaderLine_line hostname h hc
    have hcrlf := cString_cut_eq_crlf_iff (MAXLINE - 1) s.rio.content
    rw [hcut] at hcrlf
    rw [heq, Blank, Blank, or_iff_right hbuf, pieces_of_ne_nil newline (by decide) hc, hcut,
      List.mem_cons, hline, hcontent, hcrlf, @eq_comm _ crlf]

omit h in
lemma content_ne_nil (hgoes : Goes s) (hblank : Blank s) : s.rio.content ≠ [] := by
  intro hc
  have hmem := hblank.resolve_left ((goes_iff s).mp hgoes)
  rw [hc, pieces_nil] at hmem
  cases hmem

lemma length_readHeaderLine_lt (hgoes : Goes s) (hblank : Blank s) :
    (readHeaderLine hostname s).rio.content.length < s.rio.content.length := by
  have hc := content_ne_nil hgoes hblank
  obtain ⟨rio, buf, line, rest, hcut, -, hcontent, -, heq⟩ := readHeaderLine_line hostname h hc
  have hlt := length_rest_lt newline (by decide : 0 < MAXLINE - 1) hc
  rw [hcut] at hlt
  rw [heq, hcontent]
  exact hlt

/-- A round adds the next line's part of what is still to be collected. -/
lemma header_readHeaderLine (hgoes : Goes s) (hblank : Blank s) :
    (readHeaderLine hostname s).header ++ pending hostname (readHeaderLine hostname s) =
      s.header ++ pending hostname s := by
  have hc := content_ne_nil hgoes hblank
  obtain ⟨rio, buf, line, rest, hcut, -, hcontent, hline, heq⟩ := readHeaderLine_line hostname h hc
  have hcrlf := cString_cut_eq_crlf_iff (MAXLINE - 1) s.rio.content
  rw [hcut] at hcrlf
  have hnext : Goes (readHeaderLine hostname s) ↔ line ≠ crlf := by
    rw [heq, goes_iff, hline]
    exact not_congr hcrlf
  simp only [pending, hnext, ite_not]
  rw [if_pos hgoes, pieces_of_ne_nil newline (by decide) hc, hcut, heq, forwarded, hcontent,
    List.append_assoc]

end Round

/-- **What is collected** on a request with an empty line: its lines up to that one, rewritten. -/
theorem headerLoop_header (hostname : List UInt8) {s : Server} (h : ReadsOk s.rio.reads)
    (hgoes : Goes s) (hblank : crlf ∈ pieces newline (MAXLINE - 1) s.rio.content) :
    ∃ fuel s', headerLoop hostname fuel s = some s' ∧
      s'.header = s.header ++ forwarded hostname (pieces newline (MAXLINE - 1) s.rio.content) := by
  let I : Server → Prop := fun t => ReadsOk t.rio.reads ∧ Blank t ∧
    t.header ++ pending hostname t = s.header ++ pending hostname s
  have hstep : ∀ t, I t → Goes t → I (readHeaderLine hostname t) := by
    rintro t ⟨h, hblank, heq⟩ hgoes
    exact ⟨readsOk_readHeaderLine hostname h,
      (blank_readHeaderLine_iff hostname h hgoes).mpr hblank,
      (header_readHeaderLine hostname h hgoes hblank).trans heq⟩
  have hstart : I s := ⟨h, .inr hblank, rfl⟩
  obtain ⟨s', hrun⟩ := @whileLoop_ends _ _ _ _ I (fun t => t.rio.content.length)
    (fun t ht hgoes => ⟨hstep t ht hgoes, length_readHeaderLine_lt hostname ht.1 hgoes ht.2.1⟩)
    _ s hstart (Nat.lt_succ_self _)
  obtain ⟨⟨-, -, heq⟩, hend⟩ := whileLoop_keeps hstep hstart hrun
  refine ⟨_, s', hrun, ?_⟩
  rwa [pending, pending, if_neg hend, if_pos hgoes, List.append_nil] at heq

end Zinzhi.HeaderLoop
