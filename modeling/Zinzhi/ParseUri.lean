import Zinzhi.TextStream
import Mathlib.Data.List.TakeWhile

/-!
`parse_uri` of the proxy: the host, the port and the path of a URI.

A string is the list of its characters up to the terminating NUL, and a pointer into it the rest of
the string from there on. Undefined behaviour is `none`: the use of a null pointer, and `atoi` of a
number that is no `int`.
-/

namespace Zinzhi.ParseUri

open Zinzhi.TextStream

/-! ### The library functions -/

/-- Negative, zero or positive, as the first `n` characters compare when the case is ignored. -/
def strncasecmp : List Char → List Char → ℕ → ℤ
  | _, _, 0 => 0
  | [], [], _ + 1 => 0
  | [], _ :: _, _ + 1 => -1
  | _ :: _, [], _ + 1 => 1
  | a :: s, b :: t, n + 1 =>
    if a.toLower = b.toLower then strncasecmp s t n
    else if a.toLower < b.toLower then -1 else 1

/-- The first place with one of the characters, NULL if there is none. -/
def strpbrk (s accept : List Char) : Option (List Char) :=
  let t := s.dropWhile fun c => c ∉ accept
  if t = [] then none else some t

def strchr (s : List Char) (c : Char) : Option (List Char) := strpbrk s [c]

/-- The number at the beginning of a text, and 0 if there is none. -/
def number (s : List Char) : ℤ := (scanInt s).1.getD 0

def FitsInt (n : ℤ) : Prop := -2 ^ 31 ≤ n ∧ n < 2 ^ 31

instance (n : ℤ) : Decidable (FitsInt n) := inferInstanceAs (Decidable (_ ∧ _))

def atoi (s : List Char) : Option ℤ := if FitsInt (number s) then some (number s) else none

/-! ### The parser -/

structure Buffers where
  hostname : List Char
  pathname : List Char
  port : ℤ

def portAt (hostend : List Char) : Option ℤ :=
  if hostend.head? = some ':' then atoi hostend.tail else some 80

def parseUri (uri : List Char) (out : Buffers) : Option (ℤ × Buffers) :=
  if strncasecmp uri "http://".toList 7 ≠ 0 then some (-1, { out with hostname := [] })
  else do
    let hostbegin := uri.drop 7
    let hostend ← strpbrk hostbegin [' ', ':', '/', '\r', '\n']
    let len := hostbegin.length - hostend.length
    let hostname := hostbegin.take len
    let port ← portAt hostend
    let pathname :=
      match strchr hostbegin '/' with
      | none => []
      | some pathbegin => pathbegin.tail
    return (0, ⟨hostname, pathname, port⟩)

/-! ### What is to be parsed -/

/-- `http://`, in any case. -/
def HasScheme (uri : List Char) : Prop := (uri.take 7).map Char.toLower = "http://".toList

def isDelim (c : Char) : Bool := c ∈ [' ', ':', '/', '\r', '\n']

/-- The longest beginning without a delimiter. -/
def hostOf (rest : List Char) : List Char := rest.takeWhile fun c => !isDelim c

def afterHost (rest : List Char) : List Char := rest.dropWhile fun c => !isDelim c

def portOf (rest : List Char) : ℤ :=
  if (afterHost rest).head? = some ':' then number (afterHost rest).tail else 80

def pathOf (rest : List Char) : List Char := (rest.dropWhile (· ≠ '/')).tail

/-- There is a delimiter, and a port that is given is an `int`. -/
def Delimited (rest : List Char) : Prop :=
  (∃ c ∈ rest, isDelim c = true) ∧ FitsInt (portOf rest)

/-! ### The library functions on any string -/

lemma strncasecmp_eq_zero_iff (s t : List Char) :
    strncasecmp s t t.length = 0 ↔ (s.take t.length).map Char.toLower = t.map Char.toLower := by
  induction t generalizing s with
  | nil => simp [strncasecmp]
  | cons b t ih =>
    cases s with
    | nil => simp [strncasecmp]
    | cons a s =>
      simp only [strncasecmp, List.length_cons, List.take_succ_cons, List.map_cons,
        List.cons.injEq]
      split_ifs with h hlt
      · rw [ih s]
        simp [h]
      · simp [h]
      · simp [h]

lemma dropWhile_ne_nil_iff {p : Char → Bool} {s : List Char} :
    s.dropWhile (fun c => !p c) ≠ [] ↔ ∃ c ∈ s, p c = true := by
  rw [ne_eq, List.dropWhile_eq_nil_iff]
  simp

/-- The part of a string before a pointer into it. -/
lemma take_length_sub {p : Char → Bool} (s : List Char) :
    s.take (s.length - (s.dropWhile p).length) = s.takeWhile p := by
  have hlen := congrArg List.length (List.takeWhile_append_dropWhile (p := p) (l := s))
  rw [List.length_append] at hlen
  rw [← hlen, Nat.add_sub_cancel]
  nth_rewrite 2 [← List.takeWhile_append_dropWhile (p := p) (l := s)]
  exact List.take_left

lemma strchr_tail (s : List Char) (c : Char) :
    (match strchr s c with
      | none => []
      | some t => t.tail) = (s.dropWhile (· ≠ c)).tail := by
  have hpred : (fun d => decide (d ∉ [c])) = fun d => decide (d ≠ c) := by
    funext d
    simp
  rw [strchr, strpbrk, hpred]
  split_ifs with h
  · rw [h]
    rfl
  · rfl

/-! ### What is parsed -/

lemma parseUri_of_not_hasScheme {uri : List Char} (h : ¬HasScheme uri) (out : Buffers) :
    parseUri uri out = some (-1, { out with hostname := [] }) := by
  have hcmp := strncasecmp_eq_zero_iff uri "http://".toList
  rw [parseUri, if_pos]
  exact fun hzero => h (hcmp.mp hzero)

lemma strpbrk_delims (rest : List Char) :
    strpbrk rest [' ', ':', '/', '\r', '\n'] =
      if afterHost rest = [] then none else some (afterHost rest) := by
  have hpred : (fun c => decide (c ∉ [' ', ':', '/', '\r', '\n'])) = fun c => !isDelim c := by
    funext c
    simp [isDelim]
  rw [strpbrk, hpred]
  rfl

lemma portAt_afterHost (rest : List Char) :
    portAt (afterHost rest) = if FitsInt (portOf rest) then some (portOf rest) else none := by
  unfold portAt portOf atoi
  split_ifs with h hint hint
  · rfl
  · rfl
  · rfl
  · exact absurd (by decide) hint

lemma parseUri_of_hasScheme {uri : List Char} (h : HasScheme uri) (out : Buffers) :
    parseUri uri out =
      if afterHost (uri.drop 7) = [] then none
      else if FitsInt (portOf (uri.drop 7)) then
        some (0, ⟨hostOf (uri.drop 7), pathOf (uri.drop 7), portOf (uri.drop 7)⟩)
      else none := by
  have hcmp : strncasecmp uri "http://".toList 7 = 0 :=
    (strncasecmp_eq_zero_iff uri "http://".toList).mpr h
  rw [parseUri, if_neg (not_not.mpr hcmp)]
  generalize uri.drop 7 = rest
  have hhost : rest.take (rest.length - (afterHost rest).length) = hostOf rest :=
    take_length_sub rest
  simp only [strpbrk_delims, strchr_tail]
  split_ifs with hnil hport
  · rfl
  · simp only [Option.bind_eq_bind, Option.bind_some, portAt_afterHost, if_pos hport, hhost]
    rfl
  · simp only [Option.bind_eq_bind, Option.bind_some, portAt_afterHost, if_neg hport]
    rfl

/-- **Exactly the URIs with a delimiter after the host are parsed**, if the port is an `int`. -/
lemma parseUri_eq_some_iff {uri : List Char} (h : HasScheme uri) (out : Buffers) :
    parseUri uri out =
        some (0, ⟨hostOf (uri.drop 7), pathOf (uri.drop 7), portOf (uri.drop 7)⟩) ↔
      Delimited (uri.drop 7) := by
  rw [parseUri_of_hasScheme h, Delimited, ← dropWhile_ne_nil_iff]
  change _ ↔ afterHost (uri.drop 7) ≠ [] ∧ _
  split_ifs with hnil hport
  · simp [hnil]
  · simp [hnil, hport]
  · simp [hport]

/-! ### Reading a URI back -/

def portText : Option ℕ → List Char
  | none => []
  | some p => ':' :: decimal p

def pathText : Option (List Char) → List Char
  | none => []
  | some path => '/' :: path

def uriText (host : List Char) (port : Option ℕ) (path : Option (List Char)) : List Char :=
  "http://".toList ++ (host ++ (portText port ++ pathText path))

section ReadBack

variable {host : List Char} (hhost : ∀ c ∈ host, isDelim c = false)

include hhost

/-- A delimiter-free host is found, and what follows it is left. -/
lemma host_append {rest : List Char} (hrest : ∀ c ∈ rest.head?, isDelim c = true) :
    hostOf (host ++ rest) = host ∧ afterHost (host ++ rest) = rest := by
  have hpos : ∀ c ∈ host, (!isDelim c) = true := fun c hc => by simp [hhost c hc]
  have hnil : rest.takeWhile (fun c => !isDelim c) = [] ∧
      rest.dropWhile (fun c => !isDelim c) = rest := by
    cases rest with
    | nil => exact ⟨rfl, rfl⟩
    | cons c cs =>
      have hc : ¬(!isDelim c) = true := by simp [hrest c rfl]
      exact ⟨List.takeWhile_cons_of_neg hc, List.dropWhile_cons_of_neg hc⟩
  rw [hostOf, afterHost, List.takeWhile_append_of_pos hpos, List.dropWhile_append_of_pos hpos,
    hnil.1, hnil.2, List.append_nil]
  exact ⟨rfl, rfl⟩

omit hhost in
lemma delim_head (port : Option ℕ) (path : Option (List Char)) :
    ∀ c ∈ (portText port ++ pathText path).head?, isDelim c = true := by
  intro c hc
  cases port with
  | some p =>
    obtain rfl : ':' = c := Option.some.inj hc
    decide
  | none =>
    cases path with
    | none => cases hc
    | some path =>
      obtain rfl : '/' = c := Option.some.inj hc
      decide

lemma portOf_append (port : Option ℕ) (path : Option (List Char)) :
    portOf (host ++ (portText port ++ pathText path)) = port.elim 80 (fun p => (p : ℤ)) := by
  rw [portOf, (host_append hhost (delim_head port path)).2]
  cases port with
  | none =>
    rw [if_neg]
    · rfl
    · cases path <;> simp [portText, pathText]
  | some p =>
    have hends : EndsNumber (pathText path) := by
      intro c hc
      cases path with
      | none => cases hc
      | some path =>
        obtain rfl : '/' = c := Option.some.inj hc
        decide
    change number (decimal p ++ pathText path) = p
    rw [number, scanInt_decimal p hends]
    rfl

lemma pathOf_append (port : Option ℕ) (path : Option (List Char)) :
    pathOf (host ++ (portText port ++ pathText path)) = path.getD [] := by
  have hslash : ∀ c ∈ host, decide (c ≠ '/') = true := by
    intro c hc
    have hne : c ≠ '/' := by
      rintro rfl
      cases (hhost _ hc).symm.trans (by decide : isDelim '/' = true)
    simp [hne]
  have hport : ∀ c ∈ portText port, decide (c ≠ '/') = true := by
    intro c hc
    cases port with
    | none => cases hc
    | some p =>
      have hne : c ≠ '/' := by
        rintro rfl
        rcases List.mem_cons.mp hc with h | h
        · cases h
        · rw [decimal, if_neg (by omega), List.nil_append] at h
          cases (isDigit_toDigits _ _ h).symm.trans (by decide : Char.isDigit '/' = false)
      simp [hne]
  rw [pathOf, List.dropWhile_append_of_pos hslash, List.dropWhile_append_of_pos hport]
  cases path with
  | none => rfl
  | some path => rfl

lemma delimited_append (port : Option ℕ) (path : Option (List Char)) :
    Delimited (host ++ (portText port ++ pathText path)) ↔
      (port.isSome ∨ path.isSome) ∧ ∀ p, port = some p → FitsInt p := by
  rw [Delimited, ← dropWhile_ne_nil_iff, portOf_append hhost]
  change afterHost _ ≠ [] ∧ _ ↔ _
  rw [(host_append hhost (delim_head port path)).2]
  refine and_congr ?_ ?_
  · cases port <;> cases path <;> simp [portText, pathText]
  · cases port with
    | none => exact iff_of_true (by decide) nofun
    | some p => simp

end ReadBack

/-- **What `parse_uri` does with any string.** Without the scheme it refuses. With it, the host, the
port and the path are found exactly if a delimiter ends the host and the port is an `int`; and a URI
put together from a host without delimiters, a port and a path is taken apart again exactly if it
has one of the latter two. -/
theorem parseUri_exact (uri : List Char) (out : Buffers) :
    (¬HasScheme uri → parseUri uri out = some (-1, { out with hostname := [] })) ∧
      (HasScheme uri → (parseUri uri out =
          some (0, ⟨hostOf (uri.drop 7), pathOf (uri.drop 7), portOf (uri.drop 7)⟩) ↔
        Delimited (uri.drop 7))) ∧
      ∀ (host : List Char) (port : Option ℕ) (path : Option (List Char)),
        (∀ c ∈ host, isDelim c = false) →
        (parseUri (uriText host port path) out =
            some (0, ⟨host, path.getD [], port.elim 80 (fun p => (p : ℤ))⟩) ↔
          (port.isSome ∨ path.isSome) ∧ ∀ p, port = some p → FitsInt p) := by
  refine ⟨fun h => parseUri_of_not_hasScheme h out, fun h => parseUri_eq_some_iff h out, ?_⟩
  intro host port path hhost
  have hscheme : HasScheme (uriText host port path) := rfl
  have hrest : (uriText host port path).drop 7 = host ++ (portText port ++ pathText path) := rfl
  rw [← delimited_append hhost, ← hrest, ← parseUri_eq_some_iff hscheme out, hrest,
    (host_append hhost (delim_head port path)).1, pathOf_append hhost, portOf_append hhost]

/-- A URI with a port and a path, and one of another scheme. -/
theorem parseUri_exact_localhost :
    parseUri "http://localhost:8080/a/b".toList ⟨[], [], 0⟩ =
        some (0, ⟨"localhost".toList, "a/b".toList, 8080⟩) ∧
      parseUri "ftp://localhost/".toList ⟨[], [], 0⟩ = some (-1, ⟨[], [], 0⟩) := by
  constructor
  · refine ((parseUri_exact [] ⟨[], [], 0⟩).2.2 "localhost".toList (some 8080) (some "a/b".toList)
      (by simp [isDelim])).mpr ⟨.inl rfl, ?_⟩
    rintro p ⟨⟩
    decide
  · exact (parseUri_exact "ftp://localhost/".toList ⟨[], [], 0⟩).1 (by unfold HasScheme; decide)

/-- A host and nothing else: `strpbrk` finds no delimiter, and its null pointer is used. -/
theorem parseUri_host_only :
    HasScheme "http://localhost".toList ∧
      parseUri "http://localhost".toList ⟨[], [], 0⟩ = none := by
  have hscheme : HasScheme "http://localhost".toList := rfl
  refine ⟨hscheme, ?_⟩
  rw [parseUri_of_hasScheme hscheme]
  rfl

end Zinzhi.ParseUri
