import Zinzhi.Strtok
import Zinzhi.TextStream

/-!
`read_BDt` and `read_BDUi`: one line of tagged fields is read into a record.

A record is the bytes at its address, in the layout of a 64-bit Linux. A string that is too long
for its array goes on into what stands behind it; every record of `filldb` has room for `MAXENTRIES`
of them, so no line reaches the end of that memory. A number that does not fit its type is
undefined in C: what is stored then is the parameter `unfit`.
-/

namespace Zinzhi.GcfReaders

open Zinzhi.Strtok Zinzhi.TextStream

abbrev Record := ℕ → UInt8

/-- A record of `calloc` -/
def Record.zero : Record := fun _ => 0

def Record.store (r : Record) (offset : ℕ) (bytes : List UInt8) : Record :=
  fun k => if offset ≤ k then (bytes[k - offset]?).getD (r k) else r k

/-- `exit(status)` after a text on `stderr` -/
structure Exit where
  status : ℕ
  stderr : String

/-! ### Conversions -/

/-- `%ld`, `%d` and `%hd` with the size of their type, `%s`, and `strcpy` of what follows the
tag. -/
inductive Conv
  | signed (size : ℕ)
  | word
  | copy

/-- Two's complement, the lowest byte first. -/
def intBytes (size : ℕ) (n : ℤ) : List UInt8 :=
  (List.range size).map fun k => UInt8.ofNat ((n / 256 ^ k) % 256).toNat

def strBytes (text : List Char) : List UInt8 := text.map Char.toUInt8 ++ [0]

/-- The number a conversion to `size` bytes stores. -/
def fit (unfit : ℕ → ℤ → ℤ) (size : ℕ) (n : ℤ) : ℤ :=
  if -2 ^ (8 * size - 1) ≤ n ∧ n < 2 ^ (8 * size - 1) then n else unfit size n

/-- The bytes a conversion stores; none if nothing is converted. -/
def convert (unfit : ℕ → ℤ → ℤ) (text : List Char) : Conv → Option (List UInt8)
  | .signed size => (scanInt text).1.map fun n => intBytes size (fit unfit size n)
  | .word =>
    let word := (skipSpace text).takeWhile fun c => !isSpace c
    if word = [] then none else some (strBytes word)
  | .copy => some (strBytes text)

/-- A branch of a reader: the tag it tests for, the conversion and the member of the record, and
what is printed, with the token and the line, if nothing could be converted. -/
structure Field where
  tag : List Char
  conv : Conv
  offset : ℕ
  error : (pch line : List Char) → String

/-- The tag is matched once more, by the format or by `read_name` and its like. -/
def Field.scan (unfit : ℕ → ℤ → ℤ) (f : Field) (pch : List Char) : Option (List UInt8) :=
  if f.tag <+: pch then convert unfit (pch.drop f.tag.length) f.conv else none

/-! ### The readers -/

section Readers

variable (unfit : ℕ → ℤ → ℤ) (tag : List Char) (fields : List Field)

/-- What is done with one token; one in which the tag of the message occurs is skipped. -/
def readToken (line pch : List Char) (r : Record) : Except Exit Record :=
  if tag <:+: pch then .ok r
  else match fields.find? fun f => f.tag.isPrefixOf pch with
    | none => .ok r
    | some f =>
      match f.scan unfit pch with
      | some bytes => .ok (r.store f.offset bytes)
      | none => .error ⟨2, f.error pch line⟩

def readTokens (b : Buffer) (r : Record) : Except Exit (Buffer × Record) :=
  match _h : strtok ';' b with
  | (none, b') => .ok (b', r)
  | (some pch, b') => (readToken unfit tag fields b'.str pch r).bind (readTokens b')
termination_by b.after.length
decreasing_by exact length_strtok_lt _h

def readLine (line : List Char) (r : Record) : Except Exit (List Char × Record) :=
  (readTokens unfit tag fields (Buffer.ofText line) r).map fun (b, r) => (b.str, r)

end Readers

/-! ### The tokens of a line -/

section Tokens

variable {unfit : ℕ → ℤ → ℤ} {tag : List Char} {fields : List Field}

lemma readTokens_congr {b₁ b₂ : Buffer} (h : strtok ';' b₁ = strtok ';' b₂) (r : Record) :
    readTokens unfit tag fields b₁ r = readTokens unfit tag fields b₂ r := by
  rw [readTokens, readTokens]
  split <;> split <;> simp_all

lemma readTokens_none {b b' : Buffer} (h : strtok ';' b = (none, b')) (r : Record) :
    readTokens unfit tag fields b r = .ok (b', r) := by
  rw [readTokens]
  split <;> simp_all

lemma readTokens_some {b b' : Buffer} {pch : List Char} (h : strtok ';' b = (some pch, b'))
    (r : Record) : readTokens unfit tag fields b r =
      (readToken unfit tag fields b'.str pch r).bind (readTokens unfit tag fields b') := by
  rw [readTokens]
  split <;> simp_all

/-- The string of a buffer whose first token was taken is that token. -/
lemma str_of_first {first : List Char} (hnul : nul ∉ first) (x after : List Char) :
    Buffer.str ⟨first ++ nul :: x, after⟩ = first := by
  have hall : ∀ c ∈ first, decide (c ≠ nul) = true :=
    fun c hc => decide_eq_true fun e => hnul (e ▸ hc)
  rw [Buffer.str, List.append_assoc, List.takeWhile_append_of_pos hall]
  simp

/-- No field is for the newline that ends a line. -/
lemma readToken_newline (hnl : ∀ f ∈ fields, ¬f.tag <+: ['\n']) (line : List Char) {pch : List Char}
    (hpch : pch = [] ∨ pch = ['\n']) (r : Record) :
    readToken unfit tag fields line pch r = .ok r := by
  have hnone : (fields.find? fun f => f.tag.isPrefixOf pch) = none := by
    rw [List.find?_eq_none]
    intro f hf hpre
    rw [List.isPrefixOf_iff_prefix] at hpre
    obtain rfl | rfl := hpch
    · exact hnl f hf (by simp [List.prefix_nil.mp hpre])
    · exact hnl f hf hpre
  rw [readToken, hnone]
  split_ifs <;> rfl

section Line

variable (hnl : ∀ f ∈ fields, ¬f.tag <+: ['\n']) {first : List Char} (hnul : nul ∉ first)
  {tail : List Char} (htail : tail = [] ∨ tail = ['\n'])

include hnl hnul htail

lemma readTokens_vals {vals : List (List Char)} (hvals : ∀ v ∈ vals, ';' ∉ v) (x : List Char)
    (r : Record) :
    (readTokens unfit tag fields ⟨first ++ nul :: x, vals.flatMap (· ++ [';']) ++ tail⟩ r).map
        (fun (b, r) => (b.str, r)) =
      (vals.foldlM (fun r v => readToken unfit tag fields first v r) r).map (first, ·) := by
  induction vals generalizing x r with
  | nil =>
    obtain rfl | rfl := htail
    · -- the line is over
      rw [List.flatMap_nil, List.nil_append, readTokens_none (strtok_nil _)]
      simp only [Except.map, str_of_first hnul]
      rfl
    · -- only its newline is left
      rw [List.flatMap_nil, List.nil_append,
        readTokens_some (strtok_last (List.cons_ne_nil _ _) (by decide) _),
        readToken_newline hnl _ (.inr rfl), Except.bind, readTokens_none (strtok_nil _),
        List.append_assoc]
      simp only [Except.map, List.cons_append, str_of_first hnul]
      rfl
  | cons v vals ih =>
    have hv := hvals v List.mem_cons_self
    have hrest (x : List Char) (r : Record) :=
      ih (fun w hw => hvals w (List.mem_cons_of_mem _ hw)) x r
    rw [List.flatMap_cons, List.append_assoc, List.append_assoc, List.singleton_append,
      List.foldlM_cons]
    by_cases hne : v = []
    · -- an empty field is skipped
      subst hne
      rw [List.nil_append, readTokens_congr (strtok_delim _ _), List.append_assoc,
        List.cons_append, hrest, readToken_newline hnl _ (.inl rfl)]
      rfl
    · rw [readTokens_some (strtok_token hne hv _ _), List.append_assoc, List.append_assoc,
        List.cons_append, str_of_first hnul]
      cases readToken unfit tag fields first v r with
      | error e => rfl
      | ok r' => exact hrest _ r'

/-- **A line is read token by token**, and what is left of it is its first token. A newline at its
end is no field of its own. -/
theorem readLine_eq (hne : first ≠ []) (hfirst : ';' ∉ first) {vals : List (List Char)}
    (hvals : ∀ v ∈ vals, ';' ∉ v) (r : Record) :
    readLine unfit tag fields (first ++ ';' :: (vals.flatMap (· ++ [';']) ++ tail)) r =
      ((first :: vals).foldlM (fun r v => readToken unfit tag fields first v r) r).map
        (first, ·) := by
  rw [readLine, Buffer.ofText, readTokens_some (strtok_token hne hfirst _ _), List.nil_append,
    str_of_first hnul, List.foldlM_cons]
  cases readToken unfit tag fields first first r with
  | error e => rfl
  | ok r' => exact readTokens_vals hnl hnul htail hvals [] r'

end Line

end Tokens

def plain (text : String) : (pch line : List Char) → String := fun _ _ => text

def quoted (text : List Char) : String := "\"" ++ String.ofList text ++ "\""

namespace BDt

def tag : List Char := ['B', 'D', 't']

def idCode : Field := ⟨['i'], .signed 8, 0, plain "could not read idCode \n"⟩
def sourceId : Field := ⟨['S', 'i'], .word, 8, plain "could not read sourceId \n"⟩
def sourceSystem : Field := ⟨['s'], .signed 4, 28, plain "could not read sourceSystem \n"⟩
def updateCode : Field := ⟨['u'], .signed 2, 32, plain "could not read updateCode \n"⟩
def exchangeId : Field := ⟨['E', 'x'], .signed 4, 36, plain "could not read exchangeId \n"⟩
def marketId : Field :=
  ⟨['M', 'k'], .signed 4, 40,
    fun pch _ => "could not read marketId , line was " ++ quoted pch ++ "\n"⟩
def instrumentSourceId : Field := ⟨['I', 'N', 'i'], .word, 44, plain "could not read Ini \n"⟩
def symbol : Field := ⟨['S', 'Y', 'm'], .word, 64, plain "could not read SYm \n"⟩
def name : Field :=
  ⟨['N', 'A', 'm'], .copy, 96, fun _ line => "could not read NAm \n" ++ quoted line ++ " \n"⟩
def abbrevName : Field :=
  ⟨['S', 'N', 'm'], .copy, 176, fun pch _ => "could not read SNm \n" ++ quoted pch ++ " \n"⟩
def isin : Field := ⟨['I', 'S', 'n'], .word, 208, plain "could not read ISn \n"⟩
def issueCurr : Field := ⟨['C', 'U', 'i'], .word, 220, plain "could not read CUin \n"⟩
def tradingCurr : Field := ⟨['C', 'U', 't'], .word, 224, plain "could not read CUtn \n"⟩
def instrSubType : Field := ⟨['I', 'N', 't'], .signed 8, 232, plain "could not read INtn \n"⟩
def securityType : Field := ⟨['S', 'T', 'y'], .signed 2, 240, plain "could not read STyn \n"⟩

/-- In the order of the tests. -/
def fields : List Field :=
  [idCode, sourceId, sourceSystem, updateCode, exchangeId, marketId, instrumentSourceId, symbol,
    name, abbrevName, isin, issueCurr, tradingCurr, instrSubType, securityType]

lemma newline_no_field : ∀ f ∈ fields, ¬f.tag <+: ['\n'] := by decide

end BDt

namespace BDUi

def tag : List Char := ['B', 'D', 'U', 'i']

def idCode : Field := ⟨['i'], .signed 8, 0, plain "could not read idCode \n"⟩
def sourceId : Field := ⟨['S', 'i'], .word, 8, plain "could not read sourceId \n"⟩
def sourceSystem : Field := ⟨['s'], .signed 4, 28, plain "could not read sourceSystem \n"⟩
def updateCode : Field := ⟨['u'], .signed 2, 32, plain "could not read updateCode \n"⟩
def underlyingId : Field := ⟨['U', 'L', 'i'], .signed 4, 36, plain "could not read ULi \n"⟩
def underlyingExternalId : Field :=
  ⟨['U', 'E', 'i'], .copy, 40,
    fun pch _ => "could not read UEi , line was " ++ quoted pch ++ "\n"⟩
def underlyingExternalType : Field :=
  ⟨['U', 'E', 't'], .signed 4, 76, plain "could not read UEt \n"⟩
def underlyingInstrumentType : Field :=
  ⟨['U', 'L', 't'], .signed 4, 80, plain "could not read ULt \n"⟩
def micCode : Field := ⟨['M', 'I', 'c'], .word, 97, plain "could not read MIc \n"⟩
def tradingCurr : Field :=
  ⟨['C', 'U', 't'], .copy, 102, fun _ line => "could not read CUt \n" ++ quoted line ++ " \n"⟩

/-- In the order of the tests; the member `isin`, from the byte 84 on, has none. -/
def fields : List Field :=
  [idCode, sourceId, sourceSystem, updateCode, underlyingId, underlyingExternalId,
    underlyingExternalType, underlyingInstrumentType, micCode, tradingCurr]

lemma newline_no_field : ∀ f ∈ fields, ¬f.tag <+: ['\n'] := by decide

end BDUi

def readBDt (unfit : ℕ → ℤ → ℤ) : List Char → Record → Except Exit (List Char × Record) :=
  readLine unfit BDt.tag BDt.fields

def readBDUi (unfit : ℕ → ℤ → ℤ) : List Char → Record → Except Exit (List Char × Record) :=
  readLine unfit BDUi.tag BDUi.fields

end Zinzhi.GcfReaders
