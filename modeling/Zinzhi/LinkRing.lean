import Mathlib.Data.List.Chain
import Mathlib.Data.List.Nodup
import Mathlib.Logic.Function.Basic

/-!
Circular doubly linked lists.

A node may have a next and a previous node. From a node `d` the ring runs through the nodes `ns`
and back to `d`, each link with its inverse. A node is put in or taken out between two
neighbours, which are the last of `d :: as` and the first of `bs ++ [d]` when the ring runs
through `as ++ bs`.
-/

namespace Zinzhi.LinkRing

variable {α : Type*}

@[ext] structure Links (α : Type*) where
  next : α → Option α
  prev : α → Option α

def Linked (L : Links α) (a b : α) : Prop := L.next a = some b ∧ L.prev b = some a

structure IsRing (L : Links α) (d : α) (ns : List α) : Prop where
  nodup : (d :: ns).Nodup
  chain : List.IsChain (Linked L) (d :: ns ++ [d])

variable {L L' : Links α} {d n : α} {as bs ns : List α}

/-! ### Parts of a ring -/

lemma chain_append_iff :
    List.IsChain (Linked L) (d :: (as ++ bs) ++ [d]) ↔
      List.IsChain (Linked L) (d :: as) ∧ List.IsChain (Linked L) (bs ++ [d]) ∧
        Linked L (as.getLastD d) (bs.headD d) := by
  have hsplit : d :: (as ++ bs) ++ [d] = (d :: as) ++ (bs ++ [d]) := by simp
  rw [hsplit, List.isChain_append]
  refine and_congr_right fun _ => and_congr_right fun _ => ?_
  cases bs <;> simp [List.getLast?_cons]

lemma IsRing.linked (h : IsRing L d (as ++ bs)) : Linked L (as.getLastD d) (bs.headD d) :=
  (chain_append_iff.mp h.chain).2.2

lemma IsRing.linked_head (h : IsRing L d ns) : Linked L d (ns.headD d) :=
  linked (by rwa [List.nil_append] : IsRing L d ([] ++ ns))

lemma IsRing.linked_last (h : IsRing L d ns) : Linked L (ns.getLastD d) d :=
  linked (by rwa [List.append_nil] : IsRing L d (ns ++ []))

lemma dropLast_getLastD (d : α) (as : List α) :
    (d :: as).dropLast ++ [as.getLastD d] = d :: as :=
  List.dropLast_append_getLast? _ (by simp [List.getLast?_cons])

lemma getLastD_mem (d : α) (as : List α) : as.getLastD d ∈ d :: as := by
  rw [← dropLast_getLastD d as]
  exact List.mem_append_right _ (List.mem_singleton_self _)

lemma headD_mem (d : α) (bs : List α) : bs.headD d ∈ d :: bs := by
  cases bs <;> simp

/-- A chain keeps its links as long as only the next of its last and the previous of its first
node change. -/
lemma chain_congr {l : List α} (h : List.IsChain (Linked L) l)
    (hnext : ∀ p ∈ l.dropLast, L'.next p = L.next p) (hprev : ∀ p ∈ l.tail, L'.prev p = L.prev p) :
    List.IsChain (Linked L') l := by
  induction l with
  | nil => exact .nil
  | cons a l ih =>
    cases l with
    | nil => exact .singleton a
    | cons b l =>
      rw [List.isChain_cons_cons] at h ⊢
      refine ⟨⟨?_, ?_⟩, ih h.2 (fun p hp => hnext p (by simp [hp])) fun p hp => ?_⟩
      · exact (hnext a (by simp)).trans h.1.1
      · exact (hprev b (by simp)).trans h.1.2
      · exact hprev p (List.mem_cons_of_mem _ hp)

lemma IsRing.congr (h : IsRing L d ns) (hnext : ∀ p ∈ d :: ns, L'.next p = L.next p)
    (hprev : ∀ p ∈ d :: ns, L'.prev p = L.prev p) : IsRing L' d ns := by
  refine ⟨h.nodup, chain_congr h.chain ?_ ?_⟩
  · rw [List.dropLast_concat]
    exact hnext
  · intro p hp
    exact hprev p (by simpa [or_comm] using hp)

def Links.flip (L : Links α) : Links α := ⟨L.prev, L.next⟩

lemma IsRing.flip (h : IsRing L d ns) : IsRing L.flip d ns.reverse where
  nodup := by simpa using h.nodup
  chain := by
    have hrev : d :: ns.reverse ++ [d] = (d :: ns ++ [d]).reverse := by simp
    rw [hrev, List.isChain_reverse]
    exact h.chain.imp fun a b hab => ⟨hab.2, hab.1⟩

/-! ### Putting in and taking out -/

/-- The two parts of a ring are still chains when the link between them is cut. -/
lemma cut (L' : Links α) (hnodup : (d :: (as ++ bs)).Nodup)
    (hleft : List.IsChain (Linked L) (d :: as)) (hright : List.IsChain (Linked L) (bs ++ [d]))
    (hnext : ∀ p ∈ d :: (as ++ bs), p ≠ as.getLastD d → L'.next p = L.next p)
    (hprev : ∀ p ∈ d :: (as ++ bs), p ≠ bs.headD d → L'.prev p = L.prev p) :
    List.IsChain (Linked L') (d :: as) ∧ List.IsChain (Linked L') (bs ++ [d]) := by
  rw [← List.cons_append] at hnext hprev hnodup
  obtain ⟨hnas, hnbs, hdisj⟩ := List.nodup_append.mp hnodup
  constructor
  · refine chain_congr hleft (fun p hp => ?_) fun p hp => ?_
    · -- the last node of `d :: as` does not occur in it before
      refine hnext p (List.mem_append_left _ ((List.dropLast_sublist _).subset hp)) ?_
      rw [← dropLast_getLastD d as, List.nodup_append] at hnas
      exact hnas.2.2 p hp _ (List.mem_singleton_self _)
    · refine hprev p (List.mem_append_left _ (List.mem_cons_of_mem _ hp)) ?_
      rintro rfl
      cases bs with
      | nil => exact (List.nodup_cons.mp hnas).1 hp
      | cons b bs => exact hdisj b (List.mem_cons_of_mem _ hp) b List.mem_cons_self rfl
  · refine chain_congr hright (fun p hp => ?_) fun p hp => ?_
    · rw [List.dropLast_concat] at hp
      refine hnext p (List.mem_append_right _ hp) ?_
      rintro rfl
      exact hdisj _ (getLastD_mem d as) _ hp rfl
    · cases bs with
      | nil => simp at hp
      | cons b bs =>
        rw [List.cons_append, List.tail_cons, List.mem_append, List.mem_singleton] at hp
        obtain hp | rfl := hp
        · refine hprev p (List.mem_append_right _ (List.mem_cons_of_mem _ hp)) ?_
          rintro rfl
          exact (List.nodup_cons.mp hnbs).1 hp
        · refine hprev p (List.mem_append_left _ List.mem_cons_self) ?_
          rintro rfl
          exact hdisj _ List.mem_cons_self _ List.mem_cons_self rfl

lemma perm_middle_cons (d n : α) (as bs : List α) :
    (d :: (as ++ n :: bs)).Perm (n :: d :: (as ++ bs)) :=
  (List.perm_middle.cons d).trans (List.Perm.swap _ _ _)

lemma getLastD_mem_append (d : α) (as bs : List α) : as.getLastD d ∈ d :: (as ++ bs) := by
  rw [← List.cons_append]
  exact List.mem_append_left _ (getLastD_mem d as)

lemma headD_mem_append (d : α) (as bs : List α) : bs.headD d ∈ d :: (as ++ bs) := by
  cases bs <;> simp

section Update

variable [DecidableEq α]

/-- The node `n` put in between `a` and `b`. -/
def Links.insert (L : Links α) (n a b : α) : Links α where
  next := Function.update (Function.update L.next n (some b)) a (some n)
  prev := Function.update (Function.update L.prev n (some a)) b (some n)

/-- The node `n` taken out from between `a` and `b`. -/
def Links.remove (L : Links α) (n a b : α) : Links α where
  next := Function.update (Function.update L.next a (some b)) n none
  prev := Function.update (Function.update L.prev b (some a)) n none

lemma next_insert (L : Links α) (n a b : α) : (L.insert n a b).next =
    Function.update (Function.update L.next n (some b)) a (some n) := rfl
lemma prev_insert (L : Links α) (n a b : α) : (L.insert n a b).prev =
    Function.update (Function.update L.prev n (some a)) b (some n) := rfl
lemma next_remove (L : Links α) (n a b : α) : (L.remove n a b).next =
    Function.update (Function.update L.next a (some b)) n none := rfl
lemma prev_remove (L : Links α) (n a b : α) : (L.remove n a b).prev =
    Function.update (Function.update L.prev b (some a)) n none := rfl

/-- **A node is put in** by linking it with the neighbours at its place. -/
theorem IsRing.insert (h : IsRing L d (as ++ bs)) (hn : n ∉ d :: (as ++ bs)) :
    IsRing (L.insert n (as.getLastD d) (bs.headD d)) d (as ++ n :: bs) := by
  have hna : n ≠ as.getLastD d := fun e => hn (e ▸ getLastD_mem_append d as bs)
  have hnb : n ≠ bs.headD d := fun e => hn (e ▸ headD_mem_append d as bs)
  have hne {p : α} (hp : p ∈ d :: (as ++ bs)) : p ≠ n := fun e => hn (e ▸ hp)
  obtain ⟨h1, h2, -⟩ := chain_append_iff.mp h.chain
  obtain ⟨h1, h2⟩ := cut (L.insert n (as.getLastD d) (bs.headD d)) h.nodup h1 h2
    (fun p hp hpa => by
      rw [next_insert, Function.update_of_ne hpa, Function.update_of_ne (hne hp)])
    (fun p hp hpb => by
      rw [prev_insert, Function.update_of_ne hpb, Function.update_of_ne (hne hp)])
  refine ⟨?_, chain_append_iff.mpr ⟨h1, ?_, ?_, ?_⟩⟩
  · exact (perm_middle_cons d n as bs).nodup_iff.mpr (List.nodup_cons.mpr ⟨hn, h.nodup⟩)
  · refine h2.cons fun y hy => ?_
    obtain rfl : y = bs.headD d := by cases bs <;> simp_all
    constructor
    · rw [next_insert, Function.update_of_ne hna, Function.update_self]
    · rw [prev_insert, Function.update_self]
  · rw [next_insert, Function.update_self, List.headD_cons]
  · rw [prev_insert, List.headD_cons, Function.update_of_ne hnb, Function.update_self]

/-- **A node is taken out** by linking its neighbours with each other. -/
theorem IsRing.remove (h : IsRing L d (as ++ n :: bs)) :
    IsRing (L.remove n (as.getLastD d) (bs.headD d)) d (as ++ bs) := by
  obtain ⟨hn, hnodup⟩ := List.nodup_cons.mp ((perm_middle_cons d n as bs).nodup_iff.mp h.nodup)
  have hne {p : α} (hp : p ∈ d :: (as ++ bs)) : p ≠ n := fun e => hn (e ▸ hp)
  obtain ⟨h1, h2, -⟩ := chain_append_iff.mp h.chain
  obtain ⟨h1, h2⟩ := cut (L.remove n (as.getLastD d) (bs.headD d)) hnodup h1 h2.tail
    (fun p hp hpa => by
      rw [next_remove, Function.update_of_ne (hne hp), Function.update_of_ne hpa])
    (fun p hp hpb => by
      rw [prev_remove, Function.update_of_ne (hne hp), Function.update_of_ne hpb])
  refine ⟨hnodup, chain_append_iff.mpr ⟨h1, h2, ?_, ?_⟩⟩
  · rw [next_remove, Function.update_of_ne (hne (getLastD_mem_append d as bs)),
      Function.update_self]
  · rw [prev_remove, Function.update_of_ne (hne (headD_mem_append d as bs)), Function.update_self]

end Update

/-! ### Walking -/

/-- Following `next` from `p` visits the nodes `ps` and arrives at `q`. -/
def Path (next : α → Option α) : α → List α → α → Prop
  | p, [], q => p = q
  | p, a :: as, q => p = a ∧ ∃ r, next a = some r ∧ Path next r as q

/-- The node at place `k` of the ring, where the place behind the last one is `d`. -/
def place (d : α) (ns : List α) (k : ℕ) : α := (ns.drop k).headD d

/-- From place `a` up to but not at place `b`, past `d` if need be. -/
def span (d : α) (ns : List α) (a b : ℕ) : List α :=
  if a ≤ b then (ns.drop a).take (b - a) else ns.drop a ++ d :: ns.take b

lemma map_span {β : Type*} (f : α → β) (d : α) (ns : List α) (a b : ℕ) :
    (span d ns a b).map f = span (f d) (ns.map f) a b := by
  unfold span
  split_ifs <;> simp [List.map_take, List.map_drop]

lemma length_span_le (d : α) (ns : List α) (a b : ℕ) :
    (span d ns a b).length ≤ ns.length + 1 := by
  unfold span
  split_ifs
  · simp only [List.length_take, List.length_drop]
    omega
  · simp only [List.length_append, List.length_cons, List.length_take, List.length_drop]
    omega

lemma path_of_chain {ps : List α} {q : α} (h : List.IsChain (Linked L) (ps ++ [q])) :
    Path L.next (ps.headD q) ps q := by
  induction ps with
  | nil => rfl
  | cons a ps ih =>
    have hlink : Linked L a (ps.headD q) := h.rel_head? (by cases ps <;> simp)
    exact ⟨rfl, ps.headD q, hlink.1, ih h.tail⟩

def advance (next : α → Option α) : ℕ → α → Option α
  | 0, p => some p
  | k + 1, p => (next p).bind (advance next k)

lemma Path.advance {next : α → Option α} {p q : α} {ps : List α} (h : Path next p ps q) :
    advance next ps.length p = some q := by
  induction ps generalizing p with
  | nil => exact congrArg some h
  | cons a ps ih =>
    obtain ⟨rfl, r, hr, hrest⟩ := h
    simp only [List.length_cons, LinkRing.advance, hr, Option.bind_some]
    exact ih hrest

lemma Path.congr {next next' : α → Option α} {p q : α} {ps : List α} (h : Path next p ps q)
    (heq : ∀ a ∈ ps, next' a = next a) : Path next' p ps q := by
  induction ps generalizing p with
  | nil => exact h
  | cons a ps ih =>
    obtain ⟨rfl, r, hr, hrest⟩ := h
    exact ⟨rfl, r, (heq p (by simp)).trans hr, ih hrest fun b hb => heq b (by simp [hb])⟩

lemma drop_append_place (d : α) (ns : List α) (k : ℕ) :
    ∃ rest, ns.drop k ++ [d] = place d ns k :: rest := by
  unfold place
  cases ns.drop k <;> simp

lemma IsRing.chain_take (h : IsRing L d ns) (k : ℕ) :
    List.IsChain (Linked L) (d :: ns.take k ++ [place d ns k]) := by
  obtain ⟨rest, hrest⟩ := drop_append_place d ns k
  refine h.chain.prefix ⟨rest, ?_⟩
  rw [List.append_assoc, List.singleton_append, ← hrest, ← List.append_assoc, List.cons_append,
    List.take_append_drop]

/-- **Between any two places** the ring can be walked. -/
lemma IsRing.path_span (h : IsRing L d ns) (a b : ℕ) (ha : a ≤ ns.length) :
    Path L.next (place d ns a) (span d ns a b) (place d ns b) := by
  unfold span
  split_ifs with hab
  · have hchain := (h.chain_take b).tail
    have hsplit : (d :: ns.take b ++ [place d ns b]).tail =
        ns.take a ++ ((ns.drop a).take (b - a) ++ [place d ns b]) := by
      rw [← List.append_assoc, ← List.drop_take, List.cons_append, List.tail_cons]
      congr 1
      conv_lhs => rw [← List.take_append_drop a (ns.take b), List.take_take, min_eq_left hab]
    rw [hsplit] at hchain
    have hpath := path_of_chain hchain.right_of_append
    have hstart : ((ns.drop a).take (b - a)).headD (place d ns b) = place d ns a := by
      obtain rfl | hlt := eq_or_lt_of_le hab
      · simp
      · unfold place
        obtain ⟨k, hk⟩ : ∃ k, b - a = k + 1 := ⟨b - a - 1, by omega⟩
        rcases hdrop : ns.drop a with _ | ⟨c, rest⟩
        · have : ns.drop b = [] := by
            rw [List.drop_eq_nil_iff] at hdrop ⊢
            omega
          simp [this]
        · simp [hk]
    rwa [hstart] at hpath
  · -- round the end: up to `d`, and on from there
    have hleft : List.IsChain (Linked L) (ns.drop a ++ [d]) := by
      refine h.chain.suffix ⟨d :: ns.take a, ?_⟩
      rw [← List.append_assoc, List.cons_append, List.take_append_drop]
    have hall : List.IsChain (Linked L) (ns.drop a ++ d :: ns.take b ++ [place d ns b]) := by
      have hright : List.IsChain (Linked L) ([d] ++ (ns.take b ++ [place d ns b])) :=
        h.chain_take b
      have := hleft.append_overlap hright (by simp)
      simpa using this
    have hpath := path_of_chain hall
    have hstart : (ns.drop a ++ d :: ns.take b).headD (place d ns b) = place d ns a := by
      unfold place
      cases ns.drop a <;> simp
    rwa [hstart] at hpath

lemma IsRing.advance_place (h : IsRing L d ns) {k : ℕ} (hk : k ≤ ns.length) :
    (L.next d).bind (advance L.next k) = some (place d ns k) := by
  have hfirst : L.next d = some (place d ns 0) := h.linked_head.1
  have hpath := h.path_span 0 k (Nat.zero_le _)
  have hspan : span d ns 0 k = ns.take k := by simp [span]
  rw [hspan] at hpath
  have hlen := hpath.advance
  rw [List.length_take, min_eq_left hk] at hlen
  rw [hfirst, Option.bind_some, hlen]

/-- The walk does not meet its end before. -/
lemma IsRing.place_notMem_span (h : IsRing L d ns) (a b : ℕ) (ha : a ≤ ns.length) :
    place d ns b ∉ span d ns a b := by
  have hnodup := h.nodup
  rw [← List.take_append_drop b ns, ← List.cons_append] at hnodup
  obtain ⟨hleft, hright, hdisj⟩ := List.nodup_append.mp hnodup
  intro hmem
  unfold span at hmem
  split_ifs at hmem with hab
  · -- the way does not pass `d`
    have htake : place d ns b ∈ ns.take b := by
      rw [← List.drop_take] at hmem
      exact List.mem_of_mem_drop hmem
    rcases hdrop : ns.drop b with _ | ⟨c, rest⟩
    · rw [place, hdrop] at htake
      exact (List.nodup_cons.mp hleft).1 htake
    · rw [place, hdrop] at htake
      exact hdisj c (List.mem_cons_of_mem _ htake) c (by simp [hdrop]) rfl
  · -- the way passes `d` and goes on from the front
    rcases hdrop : ns.drop b with _ | ⟨c, rest⟩
    · rw [List.drop_eq_nil_iff] at hdrop
      omega
    · have hsub : ns.drop a = rest.drop (a - (b + 1)) := by
        have htail : rest = (ns.drop b).tail := by rw [hdrop, List.tail_cons]
        rw [htail, List.tail_drop, List.drop_drop]
        congr 1
        omega
      rw [place, hdrop, List.headD_cons, hsub, List.mem_append] at hmem
      rw [hdrop] at hright hdisj
      obtain hmem | hmem := hmem
      · exact (List.nodup_cons.mp hright).1 (List.mem_of_mem_drop hmem)
      · exact hdisj c hmem c List.mem_cons_self rfl

end Zinzhi.LinkRing
