import Zinzhi.GcfMembers
import Mathlib.Data.List.TakeWhile

/-!
The records of `gcf.h`, and what is read of them from a line with their fields in any order.

A text is made of bytes, without the characters that end a field, a string or a line. The array
`isin` of `BasicDataTradable` has room for an ISIN, but not for the NUL behind it; that one falls
into `issueCurr`. `BasicDataUnderLyingInfo` has an `isin` too, for which `read_BDUi` has no branch.
-/

namespace Zinzhi.GcfRecords

open Zinzhi.GcfReaders Zinzhi.GcfMembers Zinzhi.Strtok Zinzhi.TextStream

structure Text where
  chars : List Char
  byte : ∀ c ∈ chars, c.toNat < 256
  clean : ∀ c ∈ chars, c ≠ ';' ∧ c ≠ nul ∧ c ≠ '\n'

/-- A text that `%s` reads as a whole. -/
structure Word extends Text where
  ne_nil : chars ≠ []
  noSpace : ∀ c ∈ chars, isSpace c = false

def intMember (f : Field) (size : ℕ) (n : ℤ) : Member :=
  ⟨f.tag, decimal n, f.offset, intBytes size n⟩

def strMember (f : Field) (s : List Char) : Member := ⟨f.tag, s, f.offset, strBytes s⟩

/-- The string at an address is `s`, which has no NUL in it. -/
def HasString (r : Record) (offset : ℕ) (s : List Char) : Prop :=
  bytesAt r offset (s.length + 1) = strBytes s

lemma length_strBytes (s : List Char) : (strBytes s).length = s.length + 1 := by simp [strBytes]

lemma length_intBytes (size : ℕ) (n : ℤ) : (intBytes size n).length = size := by simp [intBytes]

lemma hasString_iff {f : Field} {s : List Char} {r : Record} :
    HasString r f.offset s ↔ (strMember f s).HeldIn r := by
  rw [HasString, Member.HeldIn, strMember, length_strBytes]

/-! ### Values -/

lemma toUInt8_ne_zero (t : Text) {c : Char} (hc : c ∈ t.chars) : c.toUInt8 ≠ 0 := by
  intro hzero
  have hnat : c.toNat % 256 = 0 := congrArg UInt8.toNat hzero
  rw [Nat.mod_eq_of_lt (t.byte c hc)] at hnat
  exact (t.clean c hc).2.1 (Char.toNat_inj.mp hnat)

/-- The bytes of a text are zeros only if there is none of it. -/
lemma strBytes_eq_zero_iff (t : Text) : (∀ b ∈ strBytes t.chars, b = 0) ↔ t.chars = [] := by
  constructor
  · intro h
    by_contra hne
    obtain ⟨c, cs, hcs⟩ := List.exists_cons_of_ne_nil hne
    have hc : c ∈ t.chars := hcs ▸ List.mem_cons_self
    exact toUInt8_ne_zero t hc (h _ (List.mem_append_left _ (List.mem_map_of_mem hc)))
  · intro h
    simp [h, strBytes]

lemma isDigit_of_mem_decimal {n : ℤ} {c : Char} (h : c ∈ decimal n) :
    c = '-' ∨ c.isDigit = true := by
  rcases List.mem_append.mp h with h | h
  · split_ifs at h
    · exact .inl (List.mem_singleton.mp h)
    · cases h
  · exact .inr (isDigit_toDigits _ c h)

lemma notMem_decimal {c : Char} (hminus : c ≠ '-') (hdigit : c.isDigit = false) (n : ℤ) :
    c ∉ decimal n := by
  intro h
  rcases isDigit_of_mem_decimal h with h | h
  · exact hminus h
  · rw [hdigit] at h
    cases h

lemma convert_signed (unfit : ℕ → ℤ → ℤ) {size : ℕ} {n : ℤ} (hlo : -2 ^ (8 * size - 1) ≤ n)
    (hhi : n < 2 ^ (8 * size - 1)) :
    convert unfit (decimal n) (.signed size) = some (intBytes size n) := by
  have hscan : scanInt (decimal n ++ []) = _ := scanInt_decimal n (by simp [EndsNumber])
  rw [List.append_nil] at hscan
  rw [convert, hscan, Option.map_some, fit, if_pos ⟨hlo, hhi⟩]

lemma convert_word (unfit : ℕ → ℤ → ℤ) (w : Word) :
    convert unfit w.chars .word = some (strBytes w.chars) := by
  obtain ⟨c, cs, hcs⟩ := List.exists_cons_of_ne_nil w.ne_nil
  have hskip : skipSpace w.chars = w.chars := by
    rw [hcs]
    exact skipSpace_cons (w.noSpace c (hcs ▸ List.mem_cons_self)) cs
  have htake : (w.chars.takeWhile fun c => !isSpace c) = w.chars :=
    List.takeWhile_eq_self_iff.mpr fun c hc => by simp [w.noSpace c hc]
  simp only [convert, hskip, htake, if_neg w.ne_nil]

/-! ### Members that have a branch -/

/-- A member with a branch of its own, whose tag has no `B` in it. -/
structure Known (unfit : ℕ → ℤ → ℤ) (fields : List Field) (m : Member) : Prop where
  readBy : m.ReadBy unfit fields
  delim : ';' ∉ m.token
  letter : 'B' ∉ m.tag

section Known

variable (unfit : ℕ → ℤ → ℤ) {fields : List Field}
  (htags : ∀ f ∈ fields, ';' ∉ f.tag ∧ 'B' ∉ f.tag) {f : Field} (hf : f ∈ fields)

include htags hf

lemma known_int {size : ℕ} (hconv : f.conv = .signed size) {n : ℤ}
    (hlo : -2 ^ (8 * size - 1) ≤ n) (hhi : n < 2 ^ (8 * size - 1)) :
    Known unfit fields (intMember f size n) where
  readBy := ⟨f, hf, rfl, rfl, by rw [hconv]; exact convert_signed unfit hlo hhi⟩
  delim := List.not_mem_append (htags f hf).1 (notMem_decimal (by decide) (by decide) n)
  letter := (htags f hf).2

lemma known_word (hconv : f.conv = .word) (w : Word) :
    Known unfit fields (strMember f w.chars) where
  readBy := ⟨f, hf, rfl, rfl, by rw [hconv]; exact convert_word unfit w⟩
  delim := List.not_mem_append (htags f hf).1 fun h => (w.clean _ h).1 rfl
  letter := (htags f hf).2

lemma known_copy (hconv : f.conv = .copy) (t : Text) :
    Known unfit fields (strMember f t.chars) where
  readBy := ⟨f, hf, rfl, rfl, by rw [hconv]; rfl⟩
  delim := List.not_mem_append (htags f hf).1 fun h => (t.clean _ h).1 rfl
  letter := (htags f hf).2

end Known

/-- The tag of a message does not start in the tag of a member. -/
lemma infix_token_iff {c : Char} {t pre s : List Char} (hpre : c ∉ pre) :
    (c :: t) <:+: pre ++ s ↔ (c :: t) <:+: s := by
  induction pre with
  | nil => rfl
  | cons a pre ih =>
    obtain ⟨hne, hmem⟩ : c ≠ a ∧ c ∉ pre := by simpa using hpre
    rw [List.cons_append, List.infix_cons_iff, ih hmem, List.cons_prefix_cons]
    exact or_iff_right fun h => hne h.1

section Stored

variable {unfit : ℕ → ℤ → ℤ} {fields : List Field}

/-- A member with a branch is stored where its text does not have the tag of the message in it. -/
lemma stored_iff {t : List Char} {m : Member} (hm : Known unfit fields m) :
    stored ('B' :: t) fields m = true ↔ ¬('B' :: t) <:+: m.text := by
  obtain ⟨f, hf, hft, -, -⟩ := hm.readBy
  have hany : (fields.any fun f => f.tag.isPrefixOf m.token) = true := by
    rw [List.any_eq_true]
    exact ⟨f, hf, List.isPrefixOf_iff_prefix.mpr (hft ▸ List.prefix_append m.tag m.text)⟩
  rw [stored, hany, Bool.and_true, Bool.not_eq_true', decide_eq_false_iff_not, Member.token,
    infix_token_iff hm.letter]

lemma not_infix_decimal (t : List Char) (n : ℤ) : ¬('B' :: t) <:+: decimal n := fun h =>
  notMem_decimal (by decide) (by decide) n (h.subset List.mem_cons_self)

lemma stored_of_texts {t : List Char} {m : Member} (hm : Known unfit fields m)
    {texts : List (List Char)} (htext : (∃ n, m.text = decimal n) ∨ m.text ∈ texts)
    (huntagged : ∀ s ∈ texts, ¬('B' :: t) <:+: s) : stored ('B' :: t) fields m = true := by
  rw [stored_iff hm]
  rcases htext with ⟨n, hn⟩ | htext
  · rw [hn]
    exact not_infix_decimal t n
  · exact huntagged _ htext

end Stored

def letter : Word := ⟨⟨['A'], by simp, by simp [nul]⟩, by simp, by simp [isSpace]⟩

/-! ### `BDt` -/

/-- `BDt` -/
structure BasicDataTradable where
  idCode : Int64
  sourceId : Word
  sourceSystem : Int32
  updateCode : Int16
  exchangeId : Int32
  marketId : Int32
  instrumentSourceId : Word
  symbol : Word
  name : Text
  abbrevName : Text
  isin : Word
  issueCurr : Word
  tradingCurr : Word
  instrSubType : Int64
  securityType : Int16

namespace BasicDataTradable

def members (d : BasicDataTradable) : List Member :=
  [intMember BDt.idCode 8 d.idCode.toInt,
    strMember BDt.sourceId d.sourceId.chars,
    intMember BDt.sourceSystem 4 d.sourceSystem.toInt,
    intMember BDt.updateCode 2 d.updateCode.toInt,
    intMember BDt.exchangeId 4 d.exchangeId.toInt,
    intMember BDt.marketId 4 d.marketId.toInt,
    strMember BDt.instrumentSourceId d.instrumentSourceId.chars,
    strMember BDt.symbol d.symbol.chars,
    strMember BDt.name d.name.chars,
    strMember BDt.abbrevName d.abbrevName.chars,
    strMember BDt.isin d.isin.chars,
    strMember BDt.issueCurr d.issueCurr.chars,
    strMember BDt.tradingCurr d.tradingCurr.chars,
    intMember BDt.instrSubType 8 d.instrSubType.toInt,
    intMember BDt.securityType 2 d.securityType.toInt]

def texts (d : BasicDataTradable) : List (List Char) :=
  [d.sourceId.chars, d.instrumentSourceId.chars, d.symbol.chars, d.name.chars, d.abbrevName.chars,
    d.isin.chars, d.issueCurr.chars, d.tradingCurr.chars]

/-- Every text and its NUL fit their array, with as many bytes as given for that of `isin`. -/
structure Fits (d : BasicDataTradable) (isinSize : ℕ) : Prop where
  sourceId : d.sourceId.chars.length < 20
  instrumentSourceId : d.instrumentSourceId.chars.length < 20
  symbol : d.symbol.chars.length < 32
  name : d.name.chars.length < 80
  abbrevName : d.abbrevName.chars.length < 32
  isin : d.isin.chars.length < isinSize
  issueCurr : d.issueCurr.chars.length < 4
  tradingCurr : d.tradingCurr.chars.length < 4

variable (unfit : ℕ → ℤ → ℤ) (d : BasicDataTradable)

lemma known_members : ∀ m ∈ d.members, Known unfit BDt.fields m := by
  have htags : ∀ f ∈ BDt.fields, ';' ∉ f.tag ∧ 'B' ∉ f.tag := by decide
  simp only [members, List.forall_mem_cons]
  exact ⟨known_int unfit htags (by simp [BDt.fields]) rfl d.idCode.le_toInt d.idCode.toInt_lt,
    known_word unfit htags (by simp [BDt.fields]) rfl d.sourceId,
    known_int unfit htags (by simp [BDt.fields]) rfl d.sourceSystem.le_toInt
      d.sourceSystem.toInt_lt,
    known_int unfit htags (by simp [BDt.fields]) rfl d.updateCode.le_toInt d.updateCode.toInt_lt,
    known_int unfit htags (by simp [BDt.fields]) rfl d.exchangeId.le_toInt d.exchangeId.toInt_lt,
    known_int unfit htags (by simp [BDt.fields]) rfl d.marketId.le_toInt d.marketId.toInt_lt,
    known_word unfit htags (by simp [BDt.fields]) rfl d.instrumentSourceId,
    known_word unfit htags (by simp [BDt.fields]) rfl d.symbol,
    known_copy unfit htags (by simp [BDt.fields]) rfl d.name,
    known_copy unfit htags (by simp [BDt.fields]) rfl d.abbrevName,
    known_word unfit htags (by simp [BDt.fields]) rfl d.isin,
    known_word unfit htags (by simp [BDt.fields]) rfl d.issueCurr,
    known_word unfit htags (by simp [BDt.fields]) rfl d.tradingCurr,
    known_int unfit htags (by simp [BDt.fields]) rfl d.instrSubType.le_toInt
      d.instrSubType.toInt_lt,
    known_int unfit htags (by simp [BDt.fields]) rfl d.securityType.le_toInt
      d.securityType.toInt_lt,
    List.forall_mem_nil _⟩

variable {unfit d}

lemma Fits.chain (h : d.Fits 12) : d.members.IsChain Before := by
  obtain ⟨h1, h2, h3, h4, h5, h6, h7, h8⟩ := h
  simp only [members, List.isChain_cons_cons, Before, intMember, strMember, length_intBytes,
    length_strBytes]
  refine ⟨?_, ?_, ?_, ?_, ?_, ?_, ?_, ?_, ?_, ?_, ?_, ?_, ?_, ?_, .singleton _⟩
  all_goals simp only [BDt.idCode, BDt.sourceId, BDt.sourceSystem, BDt.updateCode, BDt.exchangeId,
    BDt.marketId, BDt.instrumentSourceId, BDt.symbol, BDt.name, BDt.abbrevName, BDt.isin,
    BDt.issueCurr, BDt.tradingCurr, BDt.instrSubType, BDt.securityType]
  all_goals omega

/-- Any of the fields of a record, in any order. -/
lemma readBDt_members {ms : List Member} (hms : ∀ m ∈ ms, m ∈ d.members) (r : Record) :
    readBDt unfit (lineOf BDt.tag ms) r =
      .ok (BDt.tag, (ms.filter (stored BDt.tag BDt.fields)).foldl put r) := by
  have hfields : BDt.fields.Pairwise Distinct := by
    unfold Distinct
    decide
  refine readLine_members BDt.newline_no_field (by decide) (by decide) hfields (fun m hm => ?_) r
  have hknown := known_members unfit d m (hms m hm)
  exact ⟨.inl hknown.readBy, hknown.delim⟩

lemma text_mem (d : BasicDataTradable) :
    ∀ m ∈ d.members, (∃ n, m.text = decimal n) ∨ m.text ∈ d.texts := by
  simp only [members, List.forall_mem_cons, intMember, strMember, texts]
  simp

def sample : BasicDataTradable :=
  ⟨1, letter, -2, 3, -4, 5, letter, letter, letter.toText, letter.toText, letter, letter, letter,
    -6, 7⟩

lemma sample_fits : sample.Fits 12 := by
  constructor <;> decide

def neighbours (d : BasicDataTradable) : List Member :=
  [strMember BDt.isin d.isin.chars, strMember BDt.issueCurr d.issueCurr.chars,
    strMember BDt.tradingCurr d.tradingCurr.chars]

lemma neighbours_subset (d : BasicDataTradable) : d.neighbours ⊆ d.members := by
  simp [neighbours, members]

structure NeighboursHeld (d : BasicDataTradable) (r : Record) : Prop where
  isin : HasString r BDt.isin.offset d.isin.chars
  issueCurr : HasString r BDt.issueCurr.offset d.issueCurr.chars
  tradingCurr : HasString r BDt.tradingCurr.offset d.tradingCurr.chars

/-- The byte behind an ISIN is its NUL, or the first letter of the currency. -/
lemma NeighboursHeld.length_ne {r : Record} (h : NeighboursHeld d r) :
    d.isin.chars.length ≠ 12 := by
  intro hlen
  obtain ⟨c, cs, hcs⟩ := List.exists_cons_of_ne_nil d.issueCurr.ne_nil
  have hisin := heldIn_iff.mp (hasString_iff.mp h.isin) 220
  have hcurr := heldIn_iff.mp (hasString_iff.mp h.issueCurr) 220
  simp only [Member.Covers, strMember, length_strBytes, BDt.isin, BDt.issueCurr, hlen]
    at hisin hcurr
  have hnul : r 220 = 0 := by
    rw [hisin (by omega)]
    simp [strBytes, hlen]
  have hletter : r 220 = c.toUInt8 := by
    rw [hcurr (by omega), hcs]
    rfl
  have hc : c ∈ d.issueCurr.chars := hcs ▸ List.mem_cons_self
  exact toUInt8_ne_zero d.issueCurr.toText hc (hletter.symm.trans hnul)

/-- A word is read back where its token was not skipped. -/
lemma hasString_iff_stored {unfit : ℕ → ℤ → ℤ} {ms : List Member} (happart : ms.Pairwise Apart)
    {f : Field} {w : Word} (hmem : strMember f w.chars ∈ ms)
    (hknown : Known unfit BDt.fields (strMember f w.chars)) :
    HasString ((ms.filter (stored BDt.tag BDt.fields)).foldl put Record.zero) f.offset w.chars ↔
      ¬BDt.tag <:+: w.chars := by
  have hzero : ¬∀ b ∈ strBytes w.chars, b = 0 := by
    rw [strBytes_eq_zero_iff]
    exact w.ne_nil
  rw [hasString_iff, heldIn_filter_iff happart _ hmem]
  exact (or_iff_left hzero).trans (stored_iff hknown)

/-- What becomes of the three when they do not overlap. -/
lemma neighboursHeld_iff (unfit : ℕ → ℤ → ℤ) (hfits : d.Fits 12) {ps ms : List Member}
    (hps : ps.Sublist d.members) (hin : d.neighbours ⊆ ps) (hperm : ms.Perm ps) :
    NeighboursHeld d ((ms.filter (stored BDt.tag BDt.fields)).foldl put Record.zero) ↔
      ∀ s ∈ [d.isin.chars, d.issueCurr.chars, d.tradingCurr.chars], ¬BDt.tag <:+: s := by
  have happart := pairwise_apart_of_perm hfits.chain hps hperm
  have hread {f : Field} {w : Word} (hm : strMember f w.chars ∈ d.neighbours) :=
    hasString_iff_stored happart (hperm.mem_iff.mpr (hin hm))
      (known_members unfit d _ (hps.subset (hin hm)))
  have hisin := hread (f := BDt.isin) (w := d.isin) (by simp [neighbours])
  have hissue := hread (f := BDt.issueCurr) (w := d.issueCurr) (by simp [neighbours])
  have htrading := hread (f := BDt.tradingCurr) (w := d.tradingCurr) (by simp [neighbours])
  simp only [List.forall_mem_cons]
  constructor
  · rintro ⟨h1, h2, h3⟩
    exact ⟨hisin.mp h1, hissue.mp h2, htrading.mp h3, List.forall_mem_nil _⟩
  · rintro ⟨h1, h2, h3, -⟩
    exact ⟨hisin.mpr h1, hissue.mpr h2, htrading.mpr h3⟩

/-- **`isin`, `issueCurr` and `tradingCurr` are read back** from a line with these fields, and any
others, in any order, exactly for an ISIN of less than twelve characters. None of them may have the
tag of the message in it. -/
theorem readBDt_neighbours_iff (unfit : ℕ → ℤ → ℤ) (hfits : d.Fits 13) {ps ms : List Member}
    (hps : ps.Sublist d.members) (hin : d.neighbours ⊆ ps) (hperm : ms.Perm ps) :
    (∃ r, readBDt unfit (lineOf BDt.tag ms) Record.zero = .ok (BDt.tag, r) ∧
      NeighboursHeld d r) ↔
      d.isin.chars.length < 12 ∧
        ∀ s ∈ [d.isin.chars, d.issueCurr.chars, d.tradingCurr.chars], ¬BDt.tag <:+: s := by
  have hrun : readBDt unfit (lineOf BDt.tag ms) Record.zero = _ :=
    readBDt_members (fun m hm => hps.subset (hperm.mem_iff.mp hm)) Record.zero
  constructor
  · rintro ⟨r, hr, hheld⟩
    have hlen : d.isin.chars.length < 12 :=
      Nat.lt_of_le_of_ne (Nat.le_of_lt_succ hfits.isin) hheld.length_ne
    rw [hrun] at hr
    cases hr
    exact ⟨hlen, (neighboursHeld_iff unfit { hfits with isin := hlen } hps hin hperm).mp hheld⟩
  · rintro ⟨hlen, hs⟩
    exact ⟨_, hrun, (neighboursHeld_iff unfit { hfits with isin := hlen } hps hin hperm).mpr hs⟩

theorem readBDt_neighbours_reverse :
    ∃ r, readBDt (fun _ n => n) (lineOf BDt.tag sample.members.reverse) Record.zero =
      .ok (BDt.tag, r) ∧ NeighboursHeld sample r :=
  (readBDt_neighbours_iff (fun _ n => n) { sample_fits with isin := by decide }
    (List.Sublist.refl sample.members) (neighbours_subset sample)
    (List.reverse_perm sample.members)).mpr (by decide)

/-- An ISIN of the length they have. -/
def swedish : BasicDataTradable :=
  { sample with
    isin := ⟨⟨['S', 'E', '0', '0', '0', '0', '0', '0', '0', '0', '0', '1'], by simp,
      by simp [nul]⟩, by simp, by simp [isSpace]⟩
    issueCurr := ⟨⟨['S', 'E', 'K'], by simp, by simp [nul]⟩, by simp, by simp [isSpace]⟩
    tradingCurr := ⟨⟨['E', 'U', 'R'], by simp, by simp [nul]⟩, by simp, by simp [isSpace]⟩ }

/-- Its NUL and the first letter of the currency are stored in the same byte. -/
theorem readBDt_neighbours_overlap :
    ∃ r, readBDt (fun _ n => n) (lineOf BDt.tag swedish.neighbours) Record.zero =
      .ok (BDt.tag, r) ∧ ¬NeighboursHeld swedish r :=
  ⟨_, readBDt_members (neighbours_subset swedish) Record.zero, fun h => h.length_ne rfl⟩

end BasicDataTradable

/-! ### `BDUi` -/

/-- `BDUi` -/
structure BasicDataUnderLyingInfo where
  idCode : Int64
  sourceId : Word
  sourceSystem : Int32
  updateCode : Int16
  underlyingId : Int32
  underlyingExternalId : Text
  underlyingExternalType : Int32
  underlyingInstrumentType : Int32
  isin : Text
  micCode : Word
  tradingCurr : Text

namespace BasicDataUnderLyingInfo

/-- The member no branch is for. -/
def isinMember (s : List Char) : Member := ⟨['I', 'S', 'n'], s, 84, strBytes s⟩

/-- The members before and behind it, in the order of the declaration. -/
def front (d : BasicDataUnderLyingInfo) : List Member :=
  [intMember BDUi.idCode 8 d.idCode.toInt,
    strMember BDUi.sourceId d.sourceId.chars,
    intMember BDUi.sourceSystem 4 d.sourceSystem.toInt,
    intMember BDUi.updateCode 2 d.updateCode.toInt,
    intMember BDUi.underlyingId 4 d.underlyingId.toInt,
    strMember BDUi.underlyingExternalId d.underlyingExternalId.chars,
    intMember BDUi.underlyingExternalType 4 d.underlyingExternalType.toInt,
    intMember BDUi.underlyingInstrumentType 4 d.underlyingInstrumentType.toInt]

def back (d : BasicDataUnderLyingInfo) : List Member :=
  [strMember BDUi.micCode d.micCode.chars, strMember BDUi.tradingCurr d.tradingCurr.chars]

def members (d : BasicDataUnderLyingInfo) : List Member :=
  d.front ++ isinMember d.isin.chars :: d.back

def texts (d : BasicDataUnderLyingInfo) : List (List Char) :=
  [d.sourceId.chars, d.underlyingExternalId.chars, d.micCode.chars, d.tradingCurr.chars]

structure Fits (d : BasicDataUnderLyingInfo) : Prop where
  sourceId : d.sourceId.chars.length < 20
  underlyingExternalId : d.underlyingExternalId.chars.length < 33
  isin : d.isin.chars.length < 13
  micCode : d.micCode.chars.length < 5
  tradingCurr : d.tradingCurr.chars.length < 4

variable (unfit : ℕ → ℤ → ℤ) (d : BasicDataUnderLyingInfo)

lemma known_members : ∀ m ∈ d.front ++ d.back, Known unfit BDUi.fields m := by
  have htags : ∀ f ∈ BDUi.fields, ';' ∉ f.tag ∧ 'B' ∉ f.tag := by decide
  simp only [front, back, List.cons_append, List.nil_append, List.forall_mem_cons]
  exact ⟨known_int unfit htags (by simp [BDUi.fields]) rfl d.idCode.le_toInt d.idCode.toInt_lt,
    known_word unfit htags (by simp [BDUi.fields]) rfl d.sourceId,
    known_int unfit htags (by simp [BDUi.fields]) rfl d.sourceSystem.le_toInt
      d.sourceSystem.toInt_lt,
    known_int unfit htags (by simp [BDUi.fields]) rfl d.updateCode.le_toInt d.updateCode.toInt_lt,
    known_int unfit htags (by simp [BDUi.fields]) rfl d.underlyingId.le_toInt
      d.underlyingId.toInt_lt,
    known_copy unfit htags (by simp [BDUi.fields]) rfl d.underlyingExternalId,
    known_int unfit htags (by simp [BDUi.fields]) rfl d.underlyingExternalType.le_toInt
      d.underlyingExternalType.toInt_lt,
    known_int unfit htags (by simp [BDUi.fields]) rfl d.underlyingInstrumentType.le_toInt
      d.underlyingInstrumentType.toInt_lt,
    known_word unfit htags (by simp [BDUi.fields]) rfl d.micCode,
    known_copy unfit htags (by simp [BDUi.fields]) rfl d.tradingCurr,
    List.forall_mem_nil _⟩

lemma isin_unknown (s : List Char) : ∀ f ∈ BDUi.fields, ¬f.tag <+: (isinMember s).token := by
  simp only [BDUi.fields, List.forall_mem_cons, isinMember, Member.token, BDUi.idCode,
    BDUi.sourceId, BDUi.sourceSystem, BDUi.updateCode, BDUi.underlyingId,
    BDUi.underlyingExternalId, BDUi.underlyingExternalType, BDUi.underlyingInstrumentType,
    BDUi.micCode, BDUi.tradingCurr, List.cons_append, List.cons_prefix_cons]
  simp

variable {unfit d}

lemma Fits.chain (h : d.Fits) : d.members.IsChain Before := by
  obtain ⟨h1, h2, h3, h4, h5⟩ := h
  simp only [members, front, back, isinMember, List.cons_append, List.nil_append,
    List.isChain_cons_cons, Before, intMember, strMember, length_intBytes, length_strBytes]
  refine ⟨?_, ?_, ?_, ?_, ?_, ?_, ?_, ?_, ?_, ?_, .singleton _⟩
  all_goals simp only [BDUi.idCode, BDUi.sourceId, BDUi.sourceSystem, BDUi.updateCode,
    BDUi.underlyingId, BDUi.underlyingExternalId, BDUi.underlyingExternalType,
    BDUi.underlyingInstrumentType, BDUi.micCode, BDUi.tradingCurr]
  all_goals omega

lemma mem_members {m : Member} :
    m ∈ d.members ↔ m ∈ d.front ++ d.back ∨ m = isinMember d.isin.chars := by
  simp only [members, List.mem_append, List.mem_cons]
  tauto

lemma readBDUi_members {ms : List Member} (hms : ∀ m ∈ ms, m ∈ d.members) (r : Record) :
    readBDUi unfit (lineOf BDUi.tag ms) r =
      .ok (BDUi.tag, (ms.filter (stored BDUi.tag BDUi.fields)).foldl put r) := by
  have hfields : BDUi.fields.Pairwise Distinct := by
    unfold Distinct
    decide
  refine readLine_members BDUi.newline_no_field (by decide) (by decide) hfields (fun m hm => ?_) r
  rcases mem_members.mp (hms m hm) with hmem | rfl
  · have hknown := known_members unfit d m hmem
    exact ⟨.inl hknown.readBy, hknown.delim⟩
  · have htag : ';' ∉ ['I', 'S', 'n'] := by decide
    exact ⟨.inr (isin_unknown _), List.not_mem_append htag fun h => (d.isin.clean _ h).1 rfl⟩

lemma text_mem (d : BasicDataUnderLyingInfo) :
    ∀ m ∈ d.front ++ d.back, (∃ n, m.text = decimal n) ∨ m.text ∈ d.texts := by
  simp only [front, back, List.cons_append, List.nil_append, List.forall_mem_cons, intMember,
    strMember, texts]
  simp

lemma not_stored_isin (s : List Char) : stored BDUi.tag BDUi.fields (isinMember s) = false := by
  have hany : (BDUi.fields.any fun f => f.tag.isPrefixOf (isinMember s).token) = false := by
    rw [List.any_eq_false]
    exact fun f hf h => isin_unknown s f hf (List.isPrefixOf_iff_prefix.mp h)
  rw [stored, hany, Bool.and_false]

/-- The members with a branch are all stored, or left zero rightly, where no text has the tag of the
message in it. -/
lemma forall_stored_iff (unfit : ℕ → ℤ → ℤ) (d : BasicDataUnderLyingInfo) :
    (∀ m ∈ d.front ++ d.back, stored BDUi.tag BDUi.fields m = true ∨ ∀ b ∈ m.bytes, b = 0) ↔
      ∀ s ∈ d.texts, ¬BDUi.tag <:+: s := by
  constructor
  · intro h
    have htext {f : Field} (t : Text) (hm : strMember f t.chars ∈ d.front ++ d.back) :
        ¬BDUi.tag <:+: t.chars := by
      rcases h _ hm with hstored | hzero
      · exact (stored_iff (known_members unfit d _ hm)).mp hstored
      · rw [(strBytes_eq_zero_iff t).mp hzero]
        decide
    simp only [texts, List.forall_mem_cons]
    exact ⟨htext (f := BDUi.sourceId) d.sourceId.toText (by simp [front]),
      htext (f := BDUi.underlyingExternalId) d.underlyingExternalId (by simp [front]),
      htext (f := BDUi.micCode) d.micCode.toText (by simp [back]),
      htext (f := BDUi.tradingCurr) d.tradingCurr (by simp [back]), List.forall_mem_nil _⟩
  · intro h m hm
    exact .inl (stored_of_texts (known_members unfit d m hm) (text_mem d m hm) h)

/-- What is stored is the record, but for the ISIN and the texts with the tag of the message in
them. -/
lemma isImage_iff (unfit : ℕ → ℤ → ℤ) (hfits : d.Fits) {ms : List Member}
    (hperm : ms.Perm d.members) :
    IsImage d.members ((ms.filter (stored BDUi.tag BDUi.fields)).foldl put Record.zero) ↔
      d.isin.chars = [] ∧ ∀ s ∈ d.texts, ¬BDUi.tag <:+: s := by
  have happart := pairwise_apart_of_perm hfits.chain (List.Sublist.refl _) hperm
  have himage := isImage_filter_iff happart (stored BDUi.tag BDUi.fields)
  have hisin : (stored BDUi.tag BDUi.fields (isinMember d.isin.chars) = true ∨
      ∀ b ∈ (isinMember d.isin.chars).bytes, b = 0) ↔ d.isin.chars = [] := by
    rw [not_stored_isin, or_iff_right Bool.false_ne_true]
    exact strBytes_eq_zero_iff d.isin
  rw [← hisin, ← forall_stored_iff unfit]
  constructor
  · intro h
    have hall := himage.mp (h.perm hperm.symm)
    have hmem {m : Member} (hm : m ∈ d.front ++ d.back ∨ m = isinMember d.isin.chars) : m ∈ ms :=
      hperm.mem_iff.mpr (mem_members.mpr hm)
    exact ⟨hall _ (hmem (.inr rfl)), fun m hm => hall m (hmem (.inl hm))⟩
  · rintro ⟨hisin, hall⟩
    refine (himage.mpr fun m hm => ?_).perm hperm
    rcases mem_members.mp (hperm.mem_iff.mp hm) with hm | rfl
    · exact hall m hm
    · exact hisin

/-- **`read_BDUi` recovers a record** from its fields in any order exactly when it has no ISIN, and
no text with the tag of the message in it. -/
theorem readBDUi_permuted_iff (unfit : ℕ → ℤ → ℤ) (hfits : d.Fits) {ms : List Member}
    (hperm : ms.Perm d.members) :
    (∃ r, readBDUi unfit (lineOf BDUi.tag ms) Record.zero = .ok (BDUi.tag, r) ∧
      IsImage d.members r) ↔
      d.isin.chars = [] ∧ ∀ s ∈ d.texts, ¬BDUi.tag <:+: s := by
  have hrun : readBDUi unfit (lineOf BDUi.tag ms) Record.zero = _ :=
    readBDUi_members (fun m hm => hperm.mem_iff.mp hm) Record.zero
  rw [← isImage_iff unfit hfits hperm]
  constructor
  · rintro ⟨r, hr, himage⟩
    rw [hrun] at hr
    cases hr
    exact himage
  · exact fun himage => ⟨_, hrun, himage⟩

def sample (isin : Text) : BasicDataUnderLyingInfo :=
  ⟨1, letter, -2, 3, 4, letter.toText, 5, 6, isin, letter, letter.toText⟩

lemma sample_fits {isin : Text} (h : isin.chars.length < 13) : (sample isin).Fits :=
  ⟨by simp [sample, letter], by simp [sample, letter], h, by simp [sample, letter],
    by simp [sample, letter]⟩

def noText : Text := ⟨[], by simp, by simp⟩

/-- Without an ISIN, and with the last field first. -/
theorem readBDUi_permuted_reverse :
    ∃ r, readBDUi (fun _ n => n) (lineOf BDUi.tag (sample noText).members.reverse) Record.zero =
      .ok (BDUi.tag, r) ∧ IsImage (sample noText).members r :=
  (readBDUi_permuted_iff (fun _ n => n) (sample_fits (by decide))
    (List.reverse_perm (sample noText).members)).mpr ⟨rfl, by decide⟩

/-- With one, `isin` stays empty. -/
theorem readBDUi_no_isin :
    ∃ r, readBDUi (fun _ n => n) (lineOf BDUi.tag (sample letter.toText).members) Record.zero =
      .ok (BDUi.tag, r) ∧ ¬IsImage (sample letter.toText).members r := by
  refine ⟨_, readBDUi_members (fun m hm => hm) Record.zero, fun h => ?_⟩
  have hfits : (sample letter.toText).Fits := sample_fits (by decide)
  cases ((isImage_iff (fun _ n => n) hfits (List.Perm.refl _)).mp h).1

end BasicDataUnderLyingInfo

end Zinzhi.GcfRecords
