import Zinzhi.GcfReaders
import Mathlib.Data.List.GetD
import Mathlib.Data.List.Pairwise

/-!
The members of a record, as a line gives them and as they lie in memory.

A reader stores the bytes of a member at its place, unless the tag of the message occurs in its
token or no branch is for it. Members that lie apart are stored in any order with the same result:
each has its bytes, and every other byte is as it was.
-/

namespace Zinzhi.GcfMembers

open Zinzhi.GcfReaders Zinzhi.Strtok Zinzhi.TextStream

/-- A member with its value: its tag and its text in a line, its place in the record and its bytes
there. -/
structure Member where
  tag : List Char
  text : List Char
  offset : ℕ
  bytes : List UInt8

def Member.token (m : Member) : List Char := m.tag ++ m.text

/-- The tag of the message, and the members, each ended by a semicolon. -/
def lineOf (tag : List Char) (ms : List Member) : List Char :=
  tag ++ ';' :: ms.flatMap fun m => m.token ++ [';']

/-! ### Members in memory -/

def bytesAt (r : Record) (offset n : ℕ) : List UInt8 := (List.range n).map fun k => r (offset + k)

def Member.HeldIn (m : Member) (r : Record) : Prop := bytesAt r m.offset m.bytes.length = m.bytes

def Member.Covers (m : Member) (k : ℕ) : Prop := m.offset ≤ k ∧ k < m.offset + m.bytes.length

/-- The record has all members, and zeros in its other bytes. -/
structure IsImage (ms : List Member) (r : Record) : Prop where
  held : ∀ m ∈ ms, m.HeldIn r
  zero : ∀ k, (∀ m ∈ ms, ¬m.Covers k) → r k = 0

def Before (a b : Member) : Prop := a.offset + a.bytes.length ≤ b.offset

def Apart (a b : Member) : Prop := ∀ k, a.Covers k → ¬b.Covers k

def put (r : Record) (m : Member) : Record := r.store m.offset m.bytes

lemma heldIn_iff {m : Member} {r : Record} :
    m.HeldIn r ↔ ∀ k, m.Covers k → r k = m.bytes.getD (k - m.offset) 0 := by
  constructor
  · intro h k ⟨hle, hlt⟩
    have hk : k - m.offset < m.bytes.length := by omega
    have hget := congrArg (·[k - m.offset]?) h
    simp only [bytesAt, List.getElem?_map, List.getElem?_range hk, Option.map_some,
      Nat.add_sub_cancel' hle] at hget
    rw [List.getD_eq_getElem?_getD, ← hget, Option.getD_some]
  · intro h
    refine List.ext_getElem (by simp [bytesAt]) fun k _ hk => ?_
    have hbyte := h (m.offset + k) ⟨by omega, by omega⟩
    rw [Nat.add_sub_cancel_left, List.getD_eq_getElem _ _ hk] at hbyte
    simpa [bytesAt] using hbyte

lemma put_of_covers {m : Member} {k : ℕ} (h : m.Covers k) (r : Record) :
    put r m k = m.bytes.getD (k - m.offset) 0 := by
  obtain ⟨hle, hlt⟩ := h
  have hk : k - m.offset < m.bytes.length := by omega
  rw [put, Record.store, if_pos hle, List.getElem?_eq_getElem hk, List.getD_eq_getElem _ _ hk,
    Option.getD_some]

lemma put_of_not_covers {m : Member} {k : ℕ} (h : ¬m.Covers k) (r : Record) : put r m k = r k := by
  rw [put, Record.store]
  split_ifs with hle
  · have hk : m.bytes.length ≤ k - m.offset := by
      by_contra hlt
      exact h ⟨hle, by omega⟩
    rw [List.getElem?_eq_none hk, Option.getD_none]
  · rfl

lemma foldl_put_of_not_covers {ms : List Member} {k : ℕ} (h : ∀ m ∈ ms, ¬m.Covers k) (r : Record) :
    ms.foldl put r k = r k := by
  induction ms generalizing r with
  | nil => rfl
  | cons m ms ih =>
    rw [List.foldl_cons, ih (fun m' hm' => h m' (List.mem_cons_of_mem _ hm')),
      put_of_not_covers (h m List.mem_cons_self)]

/-- What is stored of a member stays, as the others are stored elsewhere. -/
lemma heldIn_foldl {ms : List Member} (hms : ms.Pairwise Apart) {m : Member} (hm : m ∈ ms)
    (r : Record) : m.HeldIn (ms.foldl put r) := by
  induction ms generalizing r with
  | nil => cases hm
  | cons a ms ih =>
    obtain ⟨ha, hms⟩ := List.pairwise_cons.mp hms
    rcases List.mem_cons.mp hm with rfl | hm
    · refine heldIn_iff.mpr fun k hk => ?_
      rw [List.foldl_cons, foldl_put_of_not_covers fun m' hm' => ha m' hm' k hk, put_of_covers hk]
    · exact ih hms hm _

instance : Std.Symm Apart := ⟨fun _ _ h k hb ha => h k ha hb⟩

lemma pairwise_apart {ms : List Member} (h : ms.IsChain Before) : ms.Pairwise Apart := by
  have htrans : IsTrans Member Before := ⟨fun a b c hab hbc => by unfold Before at *; omega⟩
  refine (List.isChain_iff_pairwise.mp h).imp fun hab k ha hb => ?_
  unfold Before at hab
  unfold Member.Covers at ha hb
  omega

lemma pairwise_apart_of_perm {ms ps all : List Member} (h : all.IsChain Before)
    (hps : ps.Sublist all) (hperm : ms.Perm ps) : ms.Pairwise Apart :=
  (hperm.pairwise_iff fun hab => symm hab).mpr ((pairwise_apart h).sublist hps)

section Image

variable {ms : List Member} (hms : ms.Pairwise Apart) (p : Member → Bool)

include hms

/-- Where only some of the members are stored, another one is there if its bytes are zeros. -/
lemma heldIn_filter_iff {m : Member} (hm : m ∈ ms) :
    m.HeldIn ((ms.filter p).foldl put Record.zero) ↔ p m = true ∨ ∀ b ∈ m.bytes, b = 0 := by
  by_cases hp : p m = true
  · have hstored : m ∈ ms.filter p := List.mem_filter.mpr ⟨hm, hp⟩
    exact iff_of_true (heldIn_foldl (hms.filter p) hstored _) (.inl hp)
  have hzero (k : ℕ) (hk : m.Covers k) : (ms.filter p).foldl put Record.zero k = 0 := by
    refine foldl_put_of_not_covers (fun m' hm' => ?_) _
    obtain ⟨hmem, hp'⟩ := List.mem_filter.mp hm'
    have hne : m ≠ m' := fun e => hp (e ▸ hp')
    exact hms.forall hm hmem hne k hk
  rw [or_iff_right hp, heldIn_iff]
  constructor
  · intro h b hb
    obtain ⟨j, hj, rfl⟩ := List.mem_iff_getElem.mp hb
    have hk : m.Covers (m.offset + j) := ⟨by omega, by omega⟩
    have hbyte := (h _ hk).symm.trans (hzero _ hk)
    rwa [Nat.add_sub_cancel_left, List.getD_eq_getElem _ _ hj] at hbyte
  · intro h k hk
    have hj : k - m.offset < m.bytes.length := by
      obtain ⟨hle, hlt⟩ := hk
      omega
    rw [hzero k hk, List.getD_eq_getElem _ _ hj, h _ (List.getElem_mem hj)]

lemma isImage_filter_iff :
    IsImage ms ((ms.filter p).foldl put Record.zero) ↔
      ∀ m ∈ ms, p m = true ∨ ∀ b ∈ m.bytes, b = 0 := by
  constructor
  · intro h m hm
    exact (heldIn_filter_iff hms p hm).mp (h.held m hm)
  · intro h
    refine ⟨fun m hm => (heldIn_filter_iff hms p hm).mpr (h m hm), fun k hk => ?_⟩
    exact foldl_put_of_not_covers (fun m hm => hk m (List.mem_of_mem_filter hm)) _

end Image

lemma IsImage.perm {ms ms' : List Member} {r : Record} (hperm : ms.Perm ms') (h : IsImage ms r) :
    IsImage ms' r :=
  ⟨fun m hm => h.held m (hperm.mem_iff.mpr hm),
    fun k hk => h.zero k fun m hm => hk m (hperm.mem_iff.mp hm)⟩

/-! ### Members in a line -/

section Reading

variable (unfit : ℕ → ℤ → ℤ) (tag : List Char) (fields : List Field)

/-- Neither tag begins with the other one. -/
def Distinct (f g : Field) : Prop := ¬f.tag <+: g.tag ∧ ¬g.tag <+: f.tag

/-- There is a branch for the member, which converts its text to its bytes. -/
def Member.ReadBy (m : Member) : Prop :=
  ∃ f ∈ fields, f.tag = m.tag ∧ f.offset = m.offset ∧ convert unfit m.text f.conv = some m.bytes

def stored (m : Member) : Bool :=
  !decide (tag <:+: m.token) && fields.any fun f => f.tag.isPrefixOf m.token

variable {unfit tag fields}

/-- The branch for a tag is found, whatever follows the tag. -/
lemma find_tag (hfields : fields.Pairwise Distinct) {f : Field} (hf : f ∈ fields)
    (text : List Char) :
    (fields.find? fun g => g.tag.isPrefixOf (f.tag ++ text)) = some f := by
  induction fields with
  | nil => cases hf
  | cons g gs ih =>
    obtain ⟨hg, hgs⟩ := List.pairwise_cons.mp hfields
    rcases List.mem_cons.mp hf with rfl | hf
    · exact List.find?_cons_of_pos (List.isPrefixOf_iff_prefix.mpr (List.prefix_append _ _))
    · have hno : ¬g.tag.isPrefixOf (f.tag ++ text) = true := by
        rw [List.isPrefixOf_iff_prefix]
        intro hpre
        rcases List.prefix_or_prefix_of_prefix hpre (List.prefix_append f.tag text) with h | h
        · exact (hg f hf).1 h
        · exact (hg f hf).2 h
      rw [List.find?_cons, Bool.eq_false_iff.mpr hno]
      exact ih hgs hf

/-- **One token** stores its member or nothing. -/
lemma readToken_member (hfields : fields.Pairwise Distinct) {m : Member}
    (hm : m.ReadBy unfit fields ∨ ∀ f ∈ fields, ¬f.tag <+: m.token) (line : List Char)
    (r : Record) :
    readToken unfit tag fields line m.token r =
      .ok (if stored tag fields m then put r m else r) := by
  by_cases htag : tag <:+: m.token
  · -- the token is taken for the tag of the message
    rw [readToken, if_pos htag, if_neg (by simp [stored, htag])]
  rcases hm with ⟨f, hf, hft, hfo, hconv⟩ | hno
  · -- a branch stores the member
    have hpre : f.tag <+: m.token := hft ▸ List.prefix_append m.tag m.text
    have hfind : (fields.find? fun g => g.tag.isPrefixOf m.token) = some f := by
      rw [Member.token, ← hft]
      exact find_tag hfields hf m.text
    have hscan : f.scan unfit m.token = some m.bytes := by
      rw [Field.scan, if_pos hpre, Member.token, hft, List.drop_left, hconv]
    have hstored : stored tag fields m = true := by
      simp only [stored, htag, decide_false, Bool.not_false, Bool.true_and, List.any_eq_true]
      exact ⟨f, hf, List.isPrefixOf_iff_prefix.mpr hpre⟩
    rw [readToken, if_neg htag, hfind, if_pos hstored]
    simp only [hscan, hfo, put]
  · -- there is no branch for it
    have hfind : (fields.find? fun g => g.tag.isPrefixOf m.token) = none := by
      rw [List.find?_eq_none]
      exact fun f hf h => hno f hf (List.isPrefixOf_iff_prefix.mp h)
    have hstored : stored tag fields m = false := by
      simp only [stored, htag, decide_false, Bool.not_false, Bool.true_and, List.any_eq_false]
      exact fun f hf h => hno f hf (List.isPrefixOf_iff_prefix.mp h)
    rw [readToken, if_neg htag, hfind, hstored]
    rfl

lemma foldlM_members (hfields : fields.Pairwise Distinct) {ms : List Member}
    (hms : ∀ m ∈ ms, m.ReadBy unfit fields ∨ ∀ f ∈ fields, ¬f.tag <+: m.token)
    (line : List Char) (r : Record) :
    (ms.map Member.token).foldlM (fun r v => readToken unfit tag fields line v r) r =
      .ok ((ms.filter (stored tag fields)).foldl put r) := by
  induction ms generalizing r with
  | nil => rfl
  | cons m ms ih =>
    obtain ⟨hm, hms⟩ := List.forall_mem_cons.mp hms
    rw [List.map_cons, List.foldlM_cons, readToken_member hfields hm, List.filter_cons]
    refine (ih hms _).trans ?_
    split_ifs <;> rfl

/-- **A line stores the members it has**, but for those the reader does not know or takes for the
tag of the message. -/
theorem readLine_members (hnl : ∀ f ∈ fields, ¬f.tag <+: ['\n']) (hne : tag ≠ [])
    (htag : ';' ∉ tag ∧ nul ∉ tag) (hfields : fields.Pairwise Distinct) {ms : List Member}
    (hms : ∀ m ∈ ms, (m.ReadBy unfit fields ∨ ∀ f ∈ fields, ¬f.tag <+: m.token) ∧ ';' ∉ m.token)
    (r : Record) :
    readLine unfit tag fields (lineOf tag ms) r =
      .ok (tag, (ms.filter (stored tag fields)).foldl put r) := by
  have hvals : ∀ v ∈ ms.map Member.token, ';' ∉ v := by
    intro v hv
    obtain ⟨m, hm, rfl⟩ := List.mem_map.mp hv
    exact (hms m hm).2
  have hline : readLine unfit tag fields _ r = _ :=
    readLine_eq hnl htag.2 (.inl rfl) hne htag.1 hvals r
  have htext : ((ms.map Member.token).flatMap (· ++ [';'])) =
      ms.flatMap fun m => m.token ++ [';'] := List.flatMap_map _ _ _
  have hfirst : readToken unfit tag fields tag tag r = .ok r := if_pos List.infix_rfl
  rw [List.append_nil, htext, List.foldlM_cons, hfirst] at hline
  refine hline.trans ?_
  refine congrArg (Except.map (tag, ·)) (foldlM_members hfields (fun m hm => (hms m hm).1) tag r)

end Reading

end Zinzhi.GcfMembers
