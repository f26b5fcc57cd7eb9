import Mathlib.Data.List.Infix
import Mathlib.Order.Nat

/-!
`strtok` on a character array, which it changes.

The array is kept in two parts, at the place where the next call goes on. A token stays in the
array, with the delimiter behind it overwritten by NUL, so the string that starts where the array
starts ends with the first token.
-/

namespace Zinzhi.Strtok

def nul : Char := '\x00'

structure Buffer where
  before : List Char
  after : List Char

def Buffer.ofText (text : List Char) : Buffer := ⟨[], text⟩

/-- The string at the start of the array. -/
def Buffer.str (b : Buffer) : List Char := (b.before ++ b.after).takeWhile (· ≠ nul)

def strtok (delim : Char) (b : Buffer) : Option (List Char) × Buffer :=
  let lead := b.after.takeWhile (· = delim)
  let body := b.after.dropWhile (· = delim)
  let token := body.takeWhile (· ≠ delim)
  if body = [] then (none, ⟨b.before ++ lead, []⟩)
  else match body.dropWhile (· ≠ delim) with
    | [] => (some token, ⟨b.before ++ lead ++ token, []⟩)
    | _ :: more => (some token, ⟨b.before ++ lead ++ token ++ [nul], more⟩)

variable {delim : Char}

lemma length_strtok_lt {b b' : Buffer} {token : List Char}
    (h : strtok delim b = (some token, b')) : b'.after.length < b.after.length := by
  have hle : (b.after.dropWhile (· = delim)).length ≤ b.after.length :=
    (List.dropWhile_suffix _).length_le
  unfold strtok at h
  dsimp only at h
  split_ifs at h with hbody
  · simp at h
  · have hpos := List.length_pos_of_ne_nil hbody
    split at h
    · obtain ⟨-, rfl⟩ := Prod.mk.inj h
      exact hpos.trans_le hle
    · next more heq =>
      obtain ⟨-, rfl⟩ := Prod.mk.inj h
      have hmore := (List.dropWhile_suffix (l := b.after.dropWhile (· = delim))
        (· ≠ delim)).length_le
      rw [heq] at hmore
      exact (Nat.lt_of_succ_le hmore).trans_le hle

lemma strtok_nil (before : List Char) : strtok delim ⟨before, []⟩ = (none, ⟨before, []⟩) := by
  simp [strtok]

lemma strtok_delim (before after : List Char) :
    strtok delim ⟨before, delim :: after⟩ = strtok delim ⟨before ++ [delim], after⟩ := by
  simp [strtok]

section Token

variable {token : List Char} (hne : token ≠ []) (htoken : delim ∉ token)

include hne htoken

/-- No delimiter is skipped before a token. -/
lemma token_lead (more : List Char) :
    (token ++ more).takeWhile (· = delim) = [] ∧
      (token ++ more).dropWhile (· = delim) = token ++ more := by
  obtain ⟨c, cs, rfl⟩ := List.exists_cons_of_ne_nil hne
  have hc : c ≠ delim := fun e => htoken (by simp [e])
  simp [hc]

omit hne in
lemma token_split (more : List Char) :
    (token ++ more).takeWhile (· ≠ delim) = token ++ more.takeWhile (· ≠ delim) ∧
      (token ++ more).dropWhile (· ≠ delim) = more.dropWhile (· ≠ delim) := by
  have hall : ∀ c ∈ token, decide (c ≠ delim) = true :=
    fun c hc => decide_eq_true fun e => htoken (e ▸ hc)
  exact ⟨List.takeWhile_append_of_pos hall, List.dropWhile_append_of_pos hall⟩

lemma strtok_token (before more : List Char) :
    strtok delim ⟨before, token ++ delim :: more⟩ =
      (some token, ⟨before ++ token ++ [nul], more⟩) := by
  obtain ⟨hlead, hbody⟩ := token_lead hne htoken (delim :: more)
  obtain ⟨htake, hdrop⟩ := token_split htoken (delim :: more)
  simp only [strtok, hlead, hbody, htake, hdrop]
  simp

lemma strtok_last (before : List Char) :
    strtok delim ⟨before, token⟩ = (some token, ⟨before ++ token, []⟩) := by
  obtain ⟨hlead, hbody⟩ := token_lead hne htoken []
  obtain ⟨htake, hdrop⟩ := token_split htoken []
  rw [List.append_nil] at hlead hbody htake hdrop
  simp only [strtok, hlead, hbody, htake, hdrop]
  simp [hne]

end Token

end Zinzhi.Strtok
