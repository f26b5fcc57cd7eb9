import Zinzhi.WordMemory
import Zinzhi.Rows

/-!
Rows of blocks with boundary tags.

A block of memory starts and ends with a word that packs its size and whether it is in use. The
row is told by the address of its first word and by the list of its blocks. What lies between the
two tags of a block is not looked at.
-/

namespace Zinzhi.BoundaryTags

open Zinzhi.WordMemory Zinzhi.Rows

structure Block where
  size : ℕ
  alloc : Bool
  deriving DecidableEq, Repr

instance : Extent Block := ⟨Block.size⟩

@[simp] lemma extent_block (b : Block) : Extent.extent b = b.size := rfl

def Block.tag (b : Block) : ℕ := pack b.size b.alloc.toNat

/-- Sizes are multiples of eight, and there is room for both tags. -/
def Block.Sized (b : Block) : Prop := 8 ∣ b.size ∧ 8 ≤ b.size

def Tags (m : Bytes) : ℕ → List Block → Prop
  | _, [] => True
  | c, b :: row => word m c = b.tag ∧ word m (c + b.size - 4) = b.tag ∧ Tags m (c + b.size) row

variable {m m' : Bytes} {c p q : ℕ} {b b' : Block} {row pre mid mid' post : List Block}

@[simp] lemma span_block (b : Block) (row : List Block) : span (b :: row) = b.size + span row :=
  span_cons b row

lemma block_le (h : At c row p b) : c ≤ p ∧ p + b.size ≤ c + span row := h.le

lemma Block.Sized.pos (hb : b.Sized) : 0 < b.size := Nat.lt_of_lt_of_le (by omega) hb.2

/-! ### Tags -/

lemma flag_le_one (b : Block) : b.alloc.toNat ≤ 1 := by cases b.alloc <;> simp

lemma sizeBits_tag (h8 : 8 ∣ b.size) (hlt : b.size < 2 ^ 32) : sizeBits b.tag = b.size :=
  sizeBits_pack h8 hlt (flag_le_one b)

lemma flagBit_tag (h8 : 8 ∣ b.size) : flagBit b.tag = b.alloc.toNat :=
  flagBit_pack h8 (flag_le_one b)

lemma tag_lt (h8 : 8 ∣ b.size) (hlt : b.size < 2 ^ 32) : b.tag < 2 ^ 32 :=
  pack_lt h8 hlt (flag_le_one b)

lemma tags_append {xs ys : List Block} :
    Tags m c (xs ++ ys) ↔ Tags m c xs ∧ Tags m (c + span xs) ys := by
  induction xs generalizing c with
  | nil => simp [Tags]
  | cons b xs ih => simp [Tags, ih, and_assoc, Nat.add_assoc]

/-- **The tags of a row are inside it.** -/
lemma Tags.congr (hsized : ∀ b ∈ row, b.Sized) (ht : Tags m c row)
    (hsame : ∀ q, c ≤ q → q < c + span row → m' q = m q) : Tags m' c row := by
  induction row generalizing c with
  | nil => trivial
  | cons b row ih =>
    obtain ⟨hhdr, hftr, hrest⟩ := ht
    have hb := (hsized b (by simp)).2
    rw [span_block] at hsame
    refine ⟨?_, ?_, ih (fun b' hb' => hsized b' (by simp [hb'])) hrest fun q hle hlt => ?_⟩
    · rw [word_congr fun q hle hlt => hsame q hle (by omega), hhdr]
    · rw [word_congr fun q hle hlt => hsame q (by omega) (by omega), hftr]
    · exact hsame q (by omega) (by omega)

/-- **Replacing a stretch of a row** by another of the same length, in a memory that changed there
only. -/
lemma Tags.replace (hsized : ∀ b ∈ pre ++ mid ++ post, b.Sized)
    (ht : Tags m c (pre ++ mid ++ post))
    (hsame : ∀ q, q < c + span pre ∨ c + span pre + span mid ≤ q → m' q = m q)
    (hmid : Tags m' (c + span pre) mid') (hspan : span mid' = span mid) :
    Tags m' c (pre ++ mid' ++ post) := by
  obtain ⟨⟨hpre, -⟩, hpost⟩ : (Tags m c pre ∧ Tags m (c + span pre) mid) ∧ _ := by
    simpa only [tags_append] using ht
  rw [span_append, ← Nat.add_assoc] at hpost
  rw [tags_append, tags_append, span_append, hspan, ← Nat.add_assoc]
  refine ⟨⟨hpre.congr (fun b hb => hsized b (by simp [hb])) fun q _ hlt => ?_, hmid⟩,
    hpost.congr (fun b hb => hsized b (by simp [hb])) fun q hle _ => ?_⟩
  · exact hsame q (.inl hlt)
  · exact hsame q (.inr hle)

lemma tags_at (ht : Tags m c row) (h : At c row p b) :
    word m p = b.tag ∧ word m (p + b.size - 4) = b.tag := by
  obtain ⟨pre, post, rfl, rfl⟩ := h
  rw [tags_append] at ht
  exact ⟨ht.2.1, ht.2.2.1⟩

end Zinzhi.BoundaryTags
