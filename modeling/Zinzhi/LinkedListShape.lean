import Zinzhi.LinkedList

/-!
The shape of a `List<T>`, kept by every constructor and member function.

A list owns the nodes of its ring. What is done with it changes no other node that exists, and
gives it no node that another list could own, so that any number of lists live on one heap.
-/

namespace Zinzhi.LinkedListShape

open Zinzhi.LinkRing Zinzhi.LinkedList

variable {T : Type}

/-- The ring of the links `L` runs from the dummy node `d` through the nodes `ns`, and these carry
the values `xs`. -/
structure Filled [Inhabited T] (h : Heap T) (L : Links ℕ) (d : ℕ) (ns : List ℕ) (xs : List T) :
    Prop where
  ring : IsRing L d ns
  data : ns.map h.data = xs.map some
  blank : h.data d = some default

/-- The list `l` runs through the nodes `ns`, which carry the values `xs`. -/
structure Holds [Inhabited T] (h : Heap T) (l : Lst) (ns : List ℕ) (xs : List T) : Prop extends
    Filled h h.links l.dummy ns xs where
  size : l.size = xs.length

/-- What was done from `h` to `h'` by the owner of the nodes `own`, who owns `own'` then. -/
structure Effect (h h' : Heap T) (own own' : List ℕ) : Prop where
  frame : ∀ p, p ∉ own → (h.cell p).isSome → h'.cell p = h.cell p
  fresh : ∀ p ∈ own', p ∈ own ∨ h.cell p = none

lemma Effect.refl (h : Heap T) (own : List ℕ) : Effect h h own own :=
  ⟨fun _ _ _ => rfl, fun _ hp => .inl hp⟩

lemma Effect.trans {h h₁ h₂ : Heap T} {own own₁ own₂ : List ℕ} (e₁ : Effect h h₁ own own₁)
    (e₂ : Effect h₁ h₂ own₁ own₂) : Effect h h₂ own own₂ where
  frame p hp hs := by
    have h1 := e₁.frame p hp hs
    have hp₁ : p ∉ own₁ := by
      intro hmem
      obtain hown | hnone := e₁.fresh p hmem
      · exact hp hown
      · simp [hnone] at hs
    rw [e₂.frame p hp₁ (by rwa [h1]), h1]
  fresh p hp := by
    obtain hown | hnone := e₂.fresh p hp
    · exact e₁.fresh p hown
    · by_cases hs : (h.cell p).isSome
      · by_cases hown : p ∈ own
        · exact .inl hown
        · rw [e₁.frame p hown hs] at hnone
          simp [hnone] at hs
      · exact .inr (by simpa using hs)

lemma isSome_of_data {h : Heap T} {ns : List ℕ} {xs : List T} {p : ℕ}
    (hdata : ns.map h.data = xs.map some) (hp : p ∈ ns) : (h.cell p).isSome := by
  have hmem : h.data p ∈ xs.map some := hdata ▸ List.mem_map_of_mem hp
  obtain ⟨y, -, hy⟩ := List.mem_map.mp hmem
  obtain ⟨n, hn, -⟩ := Option.map_eq_some_iff.mp hy.symm
  simp [hn]

lemma map_data_congr {h h' : Heap T} {ns : List ℕ} {xs : List T}
    (hdata : ns.map h.data = xs.map some) (heq : ∀ p ∈ ns, h'.data p = h.data p) :
    ns.map h'.data = xs.map some := by
  rw [← hdata]
  exact List.map_congr_left heq

lemma data_of_mem {h h' : Heap T} {own : List ℕ} {n p : ℕ} {v : Option T}
    (hdata : h'.data = Function.update h.data n v) (hn : n ∉ own) (hp : p ∈ own) :
    h'.data p = h.data p := by
  have hpn : p ≠ n := fun e => hn (e ▸ hp)
  rw [hdata, Function.update_of_ne hpn]

section Filled

variable [Inhabited T] {h h' : Heap T} {L : Links ℕ} {d n : ℕ} {as bs ns : List ℕ}
  {us vs xs : List T}

lemma Filled.length_eq (hf : Filled h L d ns xs) : ns.length = xs.length := by
  simpa using congrArg List.length hf.data

lemma Filled.isSome (hf : Filled h L d ns xs) {p : ℕ} (hp : p ∈ d :: ns) : (h.cell p).isSome := by
  have hdata : (d :: ns).map h.data = (default :: xs).map some := by
    rw [List.map_cons, List.map_cons, hf.blank, hf.data]
  exact isSome_of_data hdata hp

lemma Filled.insert {x : T} (hf : Filled h L d (as ++ bs) (us ++ vs))
    (hlen : as.length = us.length) (hn : n ∉ d :: (as ++ bs))
    (hdata : h'.data = Function.update h.data n (some x)) :
    Filled h' (L.insert n (as.getLastD d) (bs.headD d)) d (as ++ n :: bs) (us ++ x :: vs) := by
  have hsame {p : ℕ} (hp : p ∈ d :: (as ++ bs)) : h'.data p = h.data p := data_of_mem hdata hn hp
  have hold := hf.data
  rw [List.map_append, List.map_append] at hold
  obtain ⟨has, hbs⟩ := List.append_inj hold (by simpa using hlen)
  refine ⟨hf.ring.insert hn, ?_, (hsame List.mem_cons_self).trans hf.blank⟩
  have hnew : h'.data n = some x := by rw [hdata, Function.update_self]
  rw [List.map_append, List.map_append, List.map_cons, List.map_cons, hnew]
  congr 1
  · exact map_data_congr has fun p hp => hsame (by simp [hp])
  · congr 1
    exact map_data_congr hbs fun p hp => hsame (by simp [hp])

lemma Filled.remove {y : T} (hf : Filled h L d (as ++ n :: bs) (us ++ y :: vs))
    (hlen : as.length = us.length) (hdata : h'.data = Function.update h.data n none) :
    Filled h' (L.remove n (as.getLastD d) (bs.headD d)) d (as ++ bs) (us ++ vs) := by
  have hn := (List.nodup_cons.mp ((perm_middle_cons d n as bs).nodup_iff.mp hf.ring.nodup)).1
  have hsame {p : ℕ} (hp : p ∈ d :: (as ++ bs)) : h'.data p = h.data p := data_of_mem hdata hn hp
  have hold := hf.data
  rw [List.map_append, List.map_append, List.map_cons, List.map_cons] at hold
  obtain ⟨has, hbs⟩ := List.append_inj hold (by simpa using hlen)
  refine ⟨hf.ring.remove, ?_, (hsame List.mem_cons_self).trans hf.blank⟩
  rw [List.map_append, List.map_append]
  congr 1
  · exact map_data_congr has fun p hp => hsame (by simp [hp])
  · exact map_data_congr (List.cons.inj hbs).2 fun p hp => hsame (by simp [hp])

end Filled

/-! ### Member functions -/

inductive Op (T : Type)
  | pushFront (x : T)
  | pushBack (x : T)
  | insert (k : ℕ) (x : T)
  | popFront
  | popBack

/-- The member functions; `insert` at the place `k`. -/
def callOp (A : Allocator T) (h : Heap T) (l : Lst) : Op T → Option (Heap T × Lst)
  | .pushFront x => pushFront A h l x
  | .pushBack x => pushBack A h l x
  | .insert k x => do
    let it ← iterator h l k
    let (h, l, _) ← LinkedList.insert A h l it x
    return (h, l)
  | .popFront => popFront h l
  | .popBack => popBack h l

/-- The same on sequences; none for a place that is not there and for a pop of nothing. -/
def absOp (xs : List T) : Op T → Option (List T)
  | .pushFront x => some (x :: xs)
  | .pushBack x => some (xs ++ [x])
  | .insert k x => if k ≤ xs.length then some (xs.take k ++ x :: xs.drop k) else none
  | .popFront => if xs = [] then none else some xs.tail
  | .popBack => if xs = [] then none else some xs.dropLast

section Members

variable {h h' : Heap T} {d n : ℕ} {as bs : List ℕ}

lemma inserted_effect {x : T} (as bs : List ℕ)
    (hi : Inserted h h' n (as.getLastD d) (bs.headD d) x) :
    Effect h h' (d :: (as ++ bs)) (d :: (as ++ n :: bs)) where
  frame p hp hs := by
    refine hi.frame p ?_ (fun e => hp (e ▸ getLastD_mem_append d as bs))
      fun e => hp (e ▸ headD_mem_append d as bs)
    rintro rfl
    simp [hi.fresh] at hs
  fresh p hp := by
    simp only [List.mem_cons, List.mem_append] at hp ⊢
    obtain rfl | hp | rfl | hp := hp
    · exact .inl (.inl rfl)
    · exact .inl (.inr (.inl hp))
    · exact .inr hi.fresh
    · exact .inl (.inr (.inr hp))

lemma removed_effect (as bs : List ℕ)
    (hrem : Removed h h' n (as.getLastD d) (bs.headD d)) :
    Effect h h' (d :: (as ++ n :: bs)) (d :: (as ++ bs)) where
  frame p hp _ := by
    have hsub : d :: (as ++ bs) ⊆ d :: (as ++ n :: bs) := by
      intro q hq
      simp only [List.mem_cons, List.mem_append] at hq ⊢
      tauto
    exact hrem.frame p (fun e => hp (by simp [e]))
      (fun e => hp (hsub (e ▸ getLastD_mem_append d as bs)))
      fun e => hp (hsub (e ▸ headD_mem_append d as bs))
  fresh p hp := by
    simp only [List.mem_cons, List.mem_append] at hp ⊢
    tauto

variable [Inhabited T] {l : Lst} {ns : List ℕ} {us vs xs : List T}

lemma inserted_holds {x : T} (hl : Holds h l (as ++ bs) (us ++ vs))
    (hlen : as.length = us.length)
    (hi : Inserted h h' n (as.getLastD l.dummy) (bs.headD l.dummy) x) :
    Holds h' { l with size := l.size + 1 } (as ++ n :: bs) (us ++ x :: vs) := by
  have hn : n ∉ l.dummy :: (as ++ bs) := by
    intro hmem
    have hs := hl.isSome hmem
    simp [hi.fresh] at hs
  refine ⟨hi.links ▸ hl.toFilled.insert hlen hn hi.data, ?_⟩
  have hsize := hl.size
  simp only [List.length_append, List.length_cons] at hsize ⊢
  omega

lemma removed_holds {y : T} (hl : Holds h l (as ++ n :: bs) (us ++ y :: vs))
    (hlen : as.length = us.length)
    (hrem : Removed h h' n (as.getLastD l.dummy) (bs.headD l.dummy)) :
    Holds h' { l with size := l.size - 1 } (as ++ bs) (us ++ vs) := by
  refine ⟨hrem.links ▸ hl.toFilled.remove hlen hrem.data, ?_⟩
  have hsize := hl.size
  simp only [List.length_append, List.length_cons] at hsize ⊢
  omega

/-- A place of the list as the iterator finds it, with the nodes and the values before it. -/
lemma iterator_spec (hl : Holds h l ns xs) {k : ℕ} (hk : k ≤ xs.length) :
    iterator h l k = some ((ns.drop k).headD l.dummy) := by
  have hadv := hl.ring.advance_place (hl.length_eq ▸ hk)
  simpa [iterator, place] using hadv

/-- **Each member function** keeps the shape, and does to the values what its name says. -/
lemma callOp_spec (A : Allocator T) (hl : Holds h l ns xs) {op : Op T} {ys : List T}
    (hop : absOp xs op = some ys) :
    ∃ h' l' ns', callOp A h l op = some (h', l') ∧ l'.dummy = l.dummy ∧ Holds h' l' ns' ys ∧
      Effect h h' (l.dummy :: ns) (l.dummy :: ns') := by
  have hsome {p : ℕ} (hp : p ∈ l.dummy :: ns) : (h.cell p).isSome := hl.isSome hp
  have hlen := hl.length_eq
  cases op with
  | pushFront x =>
    cases hop
    have hlink : Linked h.links l.dummy (ns.headD l.dummy) := hl.ring.linked_head
    have hl0 : Holds h l ([] ++ ns) ([] ++ xs) := hl
    obtain ⟨h', hh', hi⟩ := linkAfter_spec A hlink (hsome (headD_mem _ ns)) x
    refine ⟨h', { l with size := l.size + 1 }, _, ?_, rfl,
      inserted_holds hl0 rfl hi, inserted_effect [] ns hi⟩
    simp only [callOp, pushFront, hlink.1, hh', Option.bind_eq_bind, Option.bind_some]
    rfl
  | pushBack x =>
    cases hop
    obtain ⟨h', hh', hi⟩ := linkBefore_spec A hl.ring.linked_last (hsome List.mem_cons_self) x
    replace hh' : linkBefore A h l.dummy x = some h' := hh'
    have hl0 : Holds h l (ns ++ []) (xs ++ []) := by simpa using hl
    have heff := inserted_effect ns [] (d := l.dummy) hi
    rw [List.append_nil] at heff
    refine ⟨h', { l with size := l.size + 1 }, _, ?_, rfl, inserted_holds hl0 hlen hi, heff⟩
    simp only [callOp, pushBack, hh', Option.bind_eq_bind, Option.bind_some]
    rfl
  | insert k x =>
    simp only [absOp] at hop
    split_ifs at hop with hk
    cases hop
    have hns := List.take_append_drop k ns
    have hl0 : Holds h l (ns.take k ++ ns.drop k) (xs.take k ++ xs.drop k) := by
      simpa using hl
    have hplace := headD_mem_append l.dummy (ns.take k) (ns.drop k)
    rw [hns] at hplace
    obtain ⟨h', hh', hi⟩ := linkBefore_spec A hl0.ring.linked (hsome hplace) x
    have heff := inserted_effect _ _ hi
    rw [hns] at heff
    refine ⟨h', { l with size := l.size + 1 }, _, ?_, rfl,
      inserted_holds hl0 (by simp [hlen]) hi, heff⟩
    have hit : h'.links.prev ((ns.drop k).headD l.dummy) = some (A.fresh h) := by
      rw [hi.links, prev_insert, Function.update_self]
    simp only [callOp, iterator_spec hl hk, LinkedList.insert, hh', hit, Option.bind_eq_bind,
      Option.bind_some]
    rfl
  | popFront =>
    simp only [absOp] at hop
    split_ifs at hop with hne
    cases hop
    obtain ⟨y, vs, rfl⟩ := List.exists_cons_of_ne_nil hne
    obtain ⟨p, bs, rfl⟩ := List.exists_cons_of_length_eq_add_one hlen
    have hfirst : Linked h.links l.dummy p := hl.ring.linked_head
    have hring : IsRing h.links l.dummy ([p] ++ bs) := hl.ring
    have hsecond : Linked h.links p (bs.headD l.dummy) := hring.linked
    have hl0 : Holds h l ([] ++ p :: bs) ([] ++ y :: vs) := hl
    obtain ⟨h', hh', hrem⟩ := popFront_spec hfirst.1 hsecond.1
      (hsome (by simpa using headD_mem_append l.dummy [p] bs))
    exact ⟨h', _, bs, hh', rfl, removed_holds hl0 rfl hrem, removed_effect [] bs hrem⟩
  | popBack =>
    simp only [absOp] at hop
    split_ifs at hop with hne
    cases hop
    obtain ⟨us, y, rfl⟩ := (List.eq_nil_or_concat' xs).resolve_left hne
    have hns : ns ≠ [] := by
      rintro rfl
      simp at hlen
    obtain ⟨as, p, rfl⟩ := (List.eq_nil_or_concat' ns).resolve_left hns
    have hlast : Linked h.links p l.dummy := by
      simpa using hl.ring.linked_last
    have hbefore : Linked h.links (as.getLastD l.dummy) p := hl.ring.linked
    have hpd : p ≠ l.dummy := by
      rintro rfl
      exact (List.nodup_cons.mp hl.ring.nodup).1 (by simp)
    obtain ⟨h', hh', hrem⟩ := popBack_spec hlast.2 hbefore.2 hpd (hsome List.mem_cons_self)
      (hsome (by simp)) (hsome (getLastD_mem_append l.dummy as [p]))
    have hholds := removed_holds hl (by simpa using hlen) hrem
    have heff := removed_effect as [] (d := l.dummy) hrem
    simp only [List.append_nil] at hholds heff
    refine ⟨h', _, as, hh', rfl, ?_, heff⟩
    simpa using hholds

end Members

end Zinzhi.LinkedListShape
