import Zinzhi.LinkedListShape

/-!
The constructors of `List<T>`, and programs with any number of lists on one heap.

`List(const List&)` keeps its ring closed in every round. `List(int)` builds from the back and
closes the ring at the end, with the `_next` of the dummy node, and `List(Iterator&, Iterator&)`
from the front with its `_prev`. Until then the ring is the one that the missing pointer would
give.
-/

namespace Zinzhi.LinkedListPrograms

open Zinzhi.LinkRing Zinzhi.LinkedList Zinzhi.LinkedListShape

variable {T ι : Type} [Inhabited T]

/-! ### Constructors -/

lemma new_holds (A : Allocator T) (h : Heap T) :
    ∃ h', new A h default none none = (h', A.fresh h) ∧ Holds h' ⟨A.fresh h, 0⟩ [] [] ∧
      Effect h h' [] [A.fresh h] := by
  obtain ⟨h', hnew, hnext, hprev, hdata, hcell⟩ := new_spec A h default none none
  have hlink : Linked h'.links (A.fresh h) (A.fresh h) := by
    constructor
    · rw [hnext, Function.update_self]
      rfl
    · rw [hprev, Function.update_self]
      rfl
  refine ⟨h', hnew, ⟨⟨⟨by simp, by simpa using hlink⟩, rfl, ?_⟩, rfl⟩, ?_, ?_⟩
  · rw [hdata, Function.update_self]
  · intro p _ hs
    exact hcell p (ne_fresh A hs)
  · intro p hp
    rw [List.mem_singleton.mp hp]
    exact .inr (A.free h)

/-- What is read from other nodes is read the same after an effect. -/
structure Source (h : Heap T) (own : List ℕ) (p : ℕ) (ps : List ℕ) (stop : ℕ) (ys : List T) :
    Prop where
  path : Path h.links.next p ps stop
  data : ps.map h.data = ys.map some
  notMem : ∀ q ∈ ps, q ∉ own

omit [Inhabited T] in
lemma Source.mono {h h' : Heap T} {own own' ps : List ℕ} {p stop : ℕ} {ys : List T}
    (hs : Source h own p ps stop ys) (he : Effect h h' own own') : Source h' own' p ps stop ys := by
  have hsome {q : ℕ} (hq : q ∈ ps) : (h.cell q).isSome := isSome_of_data hs.data hq
  have hcell {q : ℕ} (hq : q ∈ ps) : h'.cell q = h.cell q :=
    he.frame q (hs.notMem q hq) (hsome hq)
  refine ⟨hs.path.congr fun q hq => ?_, map_data_congr hs.data fun q hq => ?_, ?_⟩
  · simp only [Heap.links, hcell hq]
  · simp only [Heap.data, hcell hq]
  · intro q hq hmem
    obtain hin | hnone := he.fresh q hmem
    · exact hs.notMem q hq hin
    · have hs := hsome hq
      simp [hnone] at hs

omit [Inhabited T] in
lemma Source.nil {h : Heap T} {own : List ℕ} {p stop : ℕ} {ys : List T}
    (hs : Source h own p [] stop ys) : p = stop ∧ ys = [] :=
  ⟨hs.path, by simpa using hs.data.symm⟩

omit [Inhabited T] in
/-- The node `p` is read, and the rest of the source is still there after the round. -/
lemma Source.cons {h : Heap T} {own ps : List ℕ} {p a stop : ℕ} {ys : List T}
    (hs : Source h own p (a :: ps) stop ys) (hstop : stop ∉ a :: ps) :
    ∃ y zs, ys = y :: zs ∧ h.data p = some y ∧ p ≠ stop ∧ stop ∉ ps ∧
      ∀ {h' : Heap T} {own' : List ℕ}, Effect h h' own own' →
        ∃ r, h'.links.next p = some r ∧ Source h' own' r ps stop zs := by
  obtain rfl : p = a := hs.path.1
  cases ys with
  | nil => simpa using hs.data
  | cons y zs =>
    rw [List.mem_cons, not_or] at hstop
    refine ⟨y, zs, rfl, (List.cons.inj hs.data).1, Ne.symm hstop.1, hstop.2, fun he => ?_⟩
    obtain ⟨⟨-, r, hr, hpath⟩, hdata, hown⟩ := hs.mono he
    exact ⟨r, hr, hpath, (List.cons.inj hdata).2, fun q hq => hown q (List.mem_cons_of_mem _ hq)⟩

/-- **The copy loop** appends the values it meets. -/
lemma copyLoop_spec (A : Allocator T) {d stop : ℕ} {ps : List ℕ} {ys : List T} {h : Heap T}
    {p fuel : ℕ} {ns : List ℕ} {xs : List T} (hl : Holds h ⟨d, xs.length⟩ ns xs)
    (hs : Source h (d :: ns) p ps stop ys) (hstop : stop ∉ ps) (hfuel : ps.length < fuel) :
    ∃ h' ns', copyLoop A d stop fuel h p (ns.getLastD d) = some h' ∧
      Holds h' ⟨d, (xs ++ ys).length⟩ ns' (xs ++ ys) ∧ Effect h h' (d :: ns) (d :: ns') := by
  induction ps generalizing ys h p fuel ns xs with
  | nil =>
    obtain ⟨k, rfl⟩ : ∃ k, fuel = k + 1 := ⟨fuel - 1, by omega⟩
    obtain ⟨rfl, rfl⟩ := hs.nil
    exact ⟨h, ns, by simp [copyLoop], by simpa using hl, Effect.refl h _⟩
  | cons a ps ih =>
    obtain ⟨k, rfl⟩ : ∃ k, fuel = k + 1 := ⟨fuel - 1, by simp at hfuel; omega⟩
    obtain ⟨y, ys, rfl, hy, hp, hstop, hnext⟩ := hs.cons hstop
    have hl0 : Holds h ⟨d, xs.length⟩ (ns ++ []) (xs ++ []) := by simpa using hl
    obtain ⟨h1, hh1, hi⟩ := linkAfter_spec A hl0.ring.linked
      (hl.isSome List.mem_cons_self) y
    replace hh1 : linkAfter A h (ns.getLastD d) d y = some h1 := hh1
    have heff := inserted_effect ns [] (d := d) hi
    rw [List.append_nil] at heff
    have hl1 := inserted_holds hl0 hl.toFilled.length_eq hi
    obtain ⟨r, hr, hrest⟩ := hnext heff
    have hpp : h1.links.next (ns.getLastD d) = some ((ns ++ [A.fresh h]).getLastD d) := by
      rw [hi.links, next_insert, Function.update_self]
      simp
    replace hl1 : Holds h1 ⟨d, (xs ++ [y]).length⟩ (ns ++ [A.fresh h]) (xs ++ [y]) := by
      simpa using hl1
    obtain ⟨h', ns', hrun, hl', heff'⟩ := ih hl1 hrest hstop (by simpa using hfuel)
    refine ⟨h', ns', ?_, by simpa using hl', heff.trans heff'⟩
    simp only [copyLoop, if_neg hp, hy, hh1, hr, hpp, Option.bind_eq_bind, Option.bind_some]
    exact hrun

/-! ### Rings that are closed at the end -/

/-- The links once `d->_prev` is `pp`. -/
def closedPrev (h : Heap T) (d pp : ℕ) : Links ℕ :=
  { h.links with prev := Function.update h.links.prev d (some pp) }

/-- The links once `d->_next` is `p`. -/
def closedNext (h : Heap T) (d p : ℕ) : Links ℕ :=
  { h.links with next := Function.update h.links.next d (some p) }

lemma update_between {α β : Type*} [DecidableEq α] (f : α → β) (a n : α) (x y z : β) :
    Function.update (Function.update (Function.update f a x) n y) a z =
      Function.update (Function.update f n y) a z := by
  funext q
  by_cases hq : q = a
  · simp [hq]
  · simp only [Function.update_of_ne hq]
    by_cases hn : q = n
    · simp [hn]
    · simp [Function.update_of_ne hn, Function.update_of_ne hq]

section Rounds

variable (A : Allocator T) {h : Heap T} {d : ℕ} {ns : List ℕ} {xs : List T}

omit [Inhabited T] in
/-- What a round changes besides the new node is one node of the ring. -/
lemma effect_round {h₁ h₂ : Heap T} {p : ℕ} {own own' : List ℕ} (hp : p ∈ own)
    (hown' : ∀ q ∈ own', q ∈ own ∨ q = A.fresh h)
    (h₁cell : ∀ r, r ≠ A.fresh h → h₁.cell r = h.cell r)
    (h₂cell : ∀ r, r ≠ p → h₂.cell r = h₁.cell r) : Effect h h₂ own own' where
  frame q hq hs := by
    rw [h₂cell q fun e => hq (e ▸ hp), h₁cell q (ne_fresh A hs)]
  fresh q hq := by
    obtain hin | rfl := hown' q hq
    · exact .inl hin
    · exact .inr (A.free h)

lemma Filled.fresh_notMem {L : Links ℕ} (hf : Filled h L d ns xs) : A.fresh h ∉ d :: ns := by
  intro hmem
  exact ne_fresh A (hf.isSome hmem) rfl

/-- The last assignment gives the dummy node its missing pointer. -/
lemma Filled.close {h' : Heap T} {L : Links ℕ} (hf : Filled h L d ns xs) (hlinks : h'.links = L)
    (hdata : h'.data = h.data) (hcell : ∀ r, r ≠ d → h'.cell r = h.cell r) :
    Filled h' h'.links d ns xs ∧ Effect h h' (d :: ns) (d :: ns) := by
  refine ⟨⟨hlinks ▸ hf.ring, hdata ▸ hf.data, hdata ▸ hf.blank⟩, ?_, fun p hp => .inl hp⟩
  intro p hp _
  exact hcell p fun e => hp (e ▸ List.mem_cons_self)

lemma rangeRound (hf : Filled h (closedPrev h d (ns.getLastD d)) d ns xs) (y : T) :
    ∃ h₁ h₂, new A h y (some (ns.getLastD d)) (some d) = (h₁, A.fresh h) ∧
      setNext h₁ (ns.getLastD d) (A.fresh h) = some h₂ ∧
      h₂.links.next (ns.getLastD d) = some (A.fresh h) ∧
      Filled h₂ (closedPrev h₂ d (A.fresh h)) d (ns ++ [A.fresh h]) (xs ++ [y]) ∧
      Effect h h₂ (d :: ns) (d :: (ns ++ [A.fresh h])) := by
  have hlast := getLastD_mem d ns
  have hne := ne_fresh A (hf.isSome hlast)
  obtain ⟨h₁, hnew, hnext₁, hprev₁, hdata₁, hcell₁⟩ :=
    new_spec A h y (some (ns.getLastD d)) (some d)
  obtain ⟨h₂, hset, hnext₂, hprev₂, hdata₂, -, hcell₂⟩ :=
    setNext_spec (h := h₁) (p := ns.getLastD d) (by rw [hcell₁ _ hne]; exact hf.isSome hlast)
      (A.fresh h)
  have hlinks : closedPrev h₂ d (A.fresh h) =
      (closedPrev h d (ns.getLastD d)).insert (A.fresh h) (ns.getLastD d) d := by
    refine Links.ext ?_ ?_
    · simp only [closedPrev, hnext₂, hnext₁, next_insert]
      rfl
    · simp only [closedPrev, hprev₂, hprev₁, prev_insert, update_between]
      rfl
  have hf0 : Filled h (closedPrev h d (ns.getLastD d)) d (ns ++ []) (xs ++ []) := by
    simpa using hf
  have hf₂ := hf0.insert hf.length_eq
    (by simpa using Filled.fresh_notMem A hf) (hdata₂.trans hdata₁)
  refine ⟨h₁, h₂, hnew, hset, by rw [hnext₂, Function.update_self], hlinks ▸ hf₂, ?_⟩
  refine effect_round A hlast (fun q hq => ?_) hcell₁ hcell₂
  simpa [or_assoc] using hq

lemma sizeRound (hf : Filled h (closedNext h d (ns.headD d)) d ns xs) (y : T) :
    ∃ h₁ h₂, new A h y (some d) (some (ns.headD d)) = (h₁, A.fresh h) ∧
      setPrev h₁ (ns.headD d) (A.fresh h) = some h₂ ∧
      Filled h₂ (closedNext h₂ d (A.fresh h)) d (A.fresh h :: ns) (y :: xs) ∧
      Effect h h₂ (d :: ns) (d :: A.fresh h :: ns) := by
  have hfirst := headD_mem d ns
  have hne := ne_fresh A (hf.isSome hfirst)
  obtain ⟨h₁, hnew, hnext₁, hprev₁, hdata₁, hcell₁⟩ :=
    new_spec A h y (some d) (some (ns.headD d))
  obtain ⟨h₂, hset, hnext₂, hprev₂, hdata₂, -, hcell₂⟩ :=
    setPrev_spec (h := h₁) (p := ns.headD d) (by rw [hcell₁ _ hne]; exact hf.isSome hfirst)
      (A.fresh h)
  have hlinks : closedNext h₂ d (A.fresh h) =
      (closedNext h d (ns.headD d)).insert (A.fresh h) d (ns.headD d) := by
    refine Links.ext ?_ ?_
    · simp only [closedNext, hnext₂, hnext₁, next_insert, update_between]
      rfl
    · simp only [closedNext, hprev₂, hprev₁, prev_insert]
      rfl
  have hf0 : Filled h (closedNext h d (ns.headD d)) d ([] ++ ns) ([] ++ xs) := hf
  have hf₂ := hf0.insert rfl (Filled.fresh_notMem A hf) (hdata₂.trans hdata₁)
  refine ⟨h₁, h₂, hnew, hset, hlinks ▸ hf₂, ?_⟩
  refine effect_round A hfirst (fun q hq => ?_) hcell₁ hcell₂
  simp only [List.mem_cons] at hq ⊢
  tauto

end Rounds

/-- **The range loop** appends the values it meets, and counts them. -/
lemma rangeLoop_spec (A : Allocator T) {d stop : ℕ} {ps : List ℕ} {ys : List T} {h : Heap T}
    {p fuel : ℕ} {ns : List ℕ} {xs : List T}
    (hf : Filled h (closedPrev h d (ns.getLastD d)) d ns xs)
    (hs : Source h (d :: ns) p ps stop ys) (hstop : stop ∉ ps) (hfuel : ps.length < fuel) :
    ∃ h' ns', rangeLoop A d stop fuel h p (ns.getLastD d) xs.length =
        some (h', ns'.getLastD d, ((xs ++ ys).length : ℤ)) ∧
      Filled h' (closedPrev h' d (ns'.getLastD d)) d ns' (xs ++ ys) ∧
      Effect h h' (d :: ns) (d :: ns') := by
  induction ps generalizing ys h p fuel ns xs with
  | nil =>
    obtain ⟨k, rfl⟩ : ∃ k, fuel = k + 1 := ⟨fuel - 1, by omega⟩
    obtain ⟨rfl, rfl⟩ := hs.nil
    exact ⟨h, ns, by simp [rangeLoop], by simpa using hf, Effect.refl h _⟩
  | cons a ps ih =>
    obtain ⟨k, rfl⟩ : ∃ k, fuel = k + 1 := ⟨fuel - 1, by simp at hfuel; omega⟩
    obtain ⟨y, ys, rfl, hy, hp, hstop, hnext⟩ := hs.cons hstop
    obtain ⟨h₁, h₂, hnew, hset, hpp, hf₂, heff⟩ := rangeRound A hf y
    obtain ⟨r, hr, hrest⟩ := hnext heff
    have hlast : (ns ++ [A.fresh h]).getLastD d = A.fresh h := by simp
    replace hf₂ : Filled h₂ (closedPrev h₂ d ((ns ++ [A.fresh h]).getLastD d)) d
        (ns ++ [A.fresh h]) (xs ++ [y]) := by rwa [hlast]
    obtain ⟨h', ns', hrun, hf', heff'⟩ := ih hf₂ hrest hstop (by simpa using hfuel)
    refine ⟨h', ns', ?_, by simpa using hf', heff.trans heff'⟩
    simp only [rangeLoop, if_neg hp, hy, hnew, hset, hr, hpp, Option.bind_eq_bind,
      Option.bind_some]
    rw [hlast] at hrun
    simpa using hrun

/-- **The loop of `List(int)`** puts as many default values in front. -/
lemma sizeLoop_spec (A : Allocator T) {d : ℕ} (k : ℕ) {h : Heap T} {ns : List ℕ} {xs : List T}
    (hf : Filled h (closedNext h d (ns.headD d)) d ns xs) :
    ∃ h' ns', sizeLoop A d k h (ns.headD d) = some (h', ns'.headD d) ∧
      Filled h' (closedNext h' d (ns'.headD d)) d ns' (List.replicate k default ++ xs) ∧
      Effect h h' (d :: ns) (d :: ns') := by
  induction k generalizing h ns xs with
  | zero => exact ⟨h, ns, rfl, hf, Effect.refl h _⟩
  | succ k ih =>
    obtain ⟨h₁, h₂, hnew, hset, hf₂, heff⟩ := sizeRound A hf default
    replace hf₂ : Filled h₂ (closedNext h₂ d ((A.fresh h :: ns).headD d)) d (A.fresh h :: ns)
        (default :: xs) := hf₂
    obtain ⟨h', ns', hrun, hf', heff'⟩ := ih hf₂
    refine ⟨h', ns', ?_, ?_, heff.trans heff'⟩
    · simp only [sizeLoop, hnew, hset, Option.bind_eq_bind, Option.bind_some]
      exact hrun
    · simpa [List.replicate_succ', List.append_assoc] using hf'

/-! ### The four constructors -/

section Build

variable (A : Allocator T) {h : Heap T} {l : Lst} {ns : List ℕ} {xs : List T}

/-- The nodes of a list from one place to another, as a constructor reads them. -/
lemma Holds.source (hl : Holds h l ns xs) {a b : ℕ} (ha : a ≤ xs.length) :
    Source h [] (place l.dummy ns a) (span l.dummy ns a b) (place l.dummy ns b)
      (span default xs a b) where
  path := hl.ring.path_span a b (hl.length_eq ▸ ha)
  data := by rw [map_span, map_span, hl.blank, hl.data]
  notMem := by simp

lemma ofCopy_spec (hl : Holds h l ns xs) {fuel : ℕ} (hfuel : xs.length < fuel) :
    ∃ h' l' ns', ofCopy A fuel h l = some (h', l') ∧ Holds h' l' ns' xs ∧
      Effect h h' [] (l'.dummy :: ns') := by
  obtain ⟨h₀, hnew, hl₀, heff₀⟩ := new_holds A h
  have hsource : Source h [] (ns.headD l.dummy) ns l.dummy xs :=
    ⟨path_of_chain hl.ring.chain.tail, hl.data, by simp⟩
  have hstop : l.dummy ∉ ns := (List.nodup_cons.mp hl.ring.nodup).1
  have hfirst : h₀.links.next l.dummy = some (ns.headD l.dummy) := by
    have hcell := heff₀.frame l.dummy (by simp) (hl.isSome List.mem_cons_self)
    have hlink : h.links.next l.dummy = some (ns.headD l.dummy) :=
      hl.ring.linked_head.1
    simpa only [Heap.links, hcell] using hlink
  replace hl₀ : Holds h₀ ⟨A.fresh h, ([] : List T).length⟩ [] [] := hl₀
  obtain ⟨h', ns', hrun, hl', heff'⟩ := copyLoop_spec A hl₀ (hsource.mono heff₀) hstop
    (by rwa [hl.length_eq])
  replace hrun : copyLoop A (A.fresh h) l.dummy fuel h₀ (ns.headD l.dummy) (A.fresh h) =
    some h' := hrun
  refine ⟨h', ⟨A.fresh h, l.size⟩, ns', ?_, ⟨hl'.toFilled, hl.size⟩, heff₀.trans heff'⟩
  simp only [ofCopy, hnew, hfirst, hrun, Option.bind_eq_bind, Option.bind_some]
  rfl

lemma ofSize_spec (h : Heap T) {n : ℤ} (hn : 0 ≤ n) :
    ∃ h' l' ns', ofSize A h n = some (h', l') ∧
      Holds h' l' ns' (List.replicate n.toNat default) ∧ Effect h h' [] (l'.dummy :: ns') := by
  obtain ⟨h₀, hnew, hl₀, heff₀⟩ := new_holds A h
  have hself : h₀.links.next (A.fresh h) = some (A.fresh h) := hl₀.ring.linked_head.1
  have hclosed : closedNext h₀ (A.fresh h) (A.fresh h) = h₀.links :=
    Links.ext (Function.update_eq_self_iff.mpr hself.symm) rfl
  have hf₀ : Filled h₀ (closedNext h₀ (A.fresh h) (([] : List ℕ).headD (A.fresh h))) (A.fresh h)
      [] [] := hclosed.symm ▸ hl₀.toFilled
  obtain ⟨h₁, ns', hrun, hf₁, heff₁⟩ := sizeLoop_spec A n.toNat hf₀
  replace hrun : sizeLoop A (A.fresh h) n.toNat h₀ (A.fresh h) =
    some (h₁, ns'.headD (A.fresh h)) := hrun
  obtain ⟨h₂, hset, hnext₂, hprev₂, hdata₂, -, hcell₂⟩ :=
    setNext_spec (hf₁.isSome List.mem_cons_self) (ns'.headD (A.fresh h))
  obtain ⟨hf₂, heff₂⟩ := Filled.close hf₁ (Links.ext hnext₂ hprev₂) hdata₂ hcell₂
  rw [List.append_nil] at hf₂
  refine ⟨h₂, ⟨A.fresh h, n⟩, ns', ?_, ⟨hf₂, ?_⟩, heff₀.trans (heff₁.trans heff₂)⟩
  · simp only [ofSize, hnew, hrun, hset, Option.bind_eq_bind, Option.bind_some]
    rfl
  · rw [List.length_replicate, Int.toNat_of_nonneg hn]

lemma ofRange_spec (hl : Holds h l ns xs) {a b : ℕ} (ha : a ≤ xs.length) {fuel : ℕ}
    (hfuel : xs.length + 1 < fuel) :
    ∃ h' l' ns', ofRange A fuel h (place l.dummy ns a) (place l.dummy ns b) = some (h', l') ∧
      Holds h' l' ns' (span default xs a b) ∧ Effect h h' [] (l'.dummy :: ns') := by
  obtain ⟨h₀, hnew, hl₀, heff₀⟩ := new_holds A h
  have hself : h₀.links.prev (A.fresh h) = some (A.fresh h) := hl₀.ring.linked_last.2
  have hclosed : closedPrev h₀ (A.fresh h) (A.fresh h) = h₀.links :=
    Links.ext rfl (Function.update_eq_self_iff.mpr hself.symm)
  have hlen := length_span_le l.dummy ns a b
  rw [hl.length_eq] at hlen
  have hf₀ : Filled h₀ (closedPrev h₀ (A.fresh h) (([] : List ℕ).getLastD (A.fresh h)))
      (A.fresh h) [] [] := hclosed.symm ▸ hl₀.toFilled
  obtain ⟨h₁, ns', hrun, hf₁, heff₁⟩ := rangeLoop_spec A hf₀ ((Holds.source hl ha).mono heff₀)
    (hl.ring.place_notMem_span a b (hl.length_eq ▸ ha)) (hlen.trans_lt hfuel)
  replace hrun : rangeLoop A (A.fresh h) (place l.dummy ns b) fuel h₀ (place l.dummy ns a)
      (A.fresh h) 0 =
        some (h₁, ns'.getLastD (A.fresh h), ((span default xs a b).length : ℤ)) := hrun
  obtain ⟨h₂, hset, hnext₂, hprev₂, hdata₂, -, hcell₂⟩ :=
    setPrev_spec (hf₁.isSome List.mem_cons_self) (ns'.getLastD (A.fresh h))
  obtain ⟨hf₂, heff₂⟩ := Filled.close hf₁ (Links.ext hnext₂ hprev₂) hdata₂ hcell₂
  refine ⟨h₂, ⟨A.fresh h, (span default xs a b).length⟩, ns', ?_, ⟨hf₂, rfl⟩,
    heff₀.trans (heff₁.trans heff₂)⟩
  simp only [ofRange, hnew, hrun, hset, Option.bind_eq_bind, Option.bind_some]
  rfl

end Build

/-! ### Programs over any number of lists -/

section Programs

variable {ι : Type} [DecidableEq ι]

/-- The constructors; the iterators of the last one are given by their places in the list `j`. -/
inductive Ctor (ι : Type)
  | empty
  | size (n : ℤ)
  | copy (j : ι)
  | range (j : ι) (a b : ℕ)

inductive Cmd (T ι : Type)
  | construct (i : ι) (c : Ctor ι)
  | call (i : ι) (op : Op T)

def Cmd.target : Cmd T ι → ι
  | .construct i _ => i
  | .call i _ => i

structure State (T ι : Type) where
  heap : Heap T
  objs : ι → Option Lst

def State.initial : State T ι := ⟨Heap.empty, fun _ => none⟩

def build (A : Allocator T) (fuel : ℕ) (σ : State T ι) : Ctor ι → Option (Heap T × Lst)
  | .empty => some (ofEmpty A σ.heap)
  | .size n => ofSize A σ.heap n
  | .copy j => do ofCopy A fuel σ.heap (← σ.objs j)
  | .range j a b => do
    let l ← σ.objs j
    ofRange A fuel σ.heap (← iterator σ.heap l a) (← iterator σ.heap l b)

def step (A : Allocator T) (fuel : ℕ) (σ : State T ι) : Cmd T ι → Option (State T ι)
  | .construct i c => do
    let (h, l) ← build A fuel σ c
    return ⟨h, Function.update σ.objs i (some l)⟩
  | .call i op => do
    let (h, l) ← callOp A σ.heap (← σ.objs i) op
    return ⟨h, Function.update σ.objs i (some l)⟩

def exec (A : Allocator T) (fuel : ℕ) (σ : State T ι) (cmds : List (Cmd T ι)) :
    Option (State T ι) :=
  cmds.foldlM (step A fuel) σ

/-- The sequence a constructor is to give. From the place `a` to the place `b` one may come past
the end, where the dummy node and its default value stand. -/
def absBuild (ss : ι → Option (List T)) : Ctor ι → Option (List T)
  | .empty => some []
  | .size n => if 0 ≤ n then some (List.replicate n.toNat default) else none
  | .copy j => ss j
  | .range j a b => do
    let xs ← ss j
    if a ≤ xs.length ∧ b ≤ xs.length then some (span default xs a b) else none

def absStep (ss : ι → Option (List T)) : Cmd T ι → Option (ι → Option (List T))
  | .construct i c =>
    if ss i = none then (absBuild ss c).map fun ys => Function.update ss i (some ys) else none
  | .call i op => do
    let ys ← absOp (← ss i) op
    return Function.update ss i (some ys)

def absExec (ss : ι → Option (List T)) (cmds : List (Cmd T ι)) : Option (ι → Option (List T)) :=
  cmds.foldlM absStep ss

/-- Every list carries its sequence, and no node is in the rings of two lists. -/
structure WellFormed (σ : State T ι) (ss : ι → Option (List T)) (rings : ι → List ℕ) : Prop where
  live : ∀ i xs, ss i = some xs →
    ∃ l ns, σ.objs i = some l ∧ rings i = l.dummy :: ns ∧ Holds σ.heap l ns xs
  apart : ∀ i j, i ≠ j → (ss i).isSome → (ss j).isSome → ∀ p ∈ rings i, p ∉ rings j

/-- From `σ` to `σ'` the list `j` is the same object, and so are all its nodes. -/
def Unchanged (σ σ' : State T ι) (rings : ι → List ℕ) (j : ι) : Prop :=
  σ'.objs j = σ.objs j ∧ ∀ p ∈ rings j, σ'.heap.cell p = σ.heap.cell p

omit [DecidableEq ι] in
lemma Holds.congr {h h' : Heap T} {l : Lst} {ns : List ℕ} {xs : List T} (hl : Holds h l ns xs)
    (heq : ∀ p ∈ l.dummy :: ns, h'.cell p = h.cell p) : Holds h' l ns xs := by
  have hdata {p : ℕ} (hp : p ∈ l.dummy :: ns) : h'.data p = h.data p := by
    simp only [Heap.data, heq p hp]
  refine ⟨⟨hl.ring.congr (fun p hp => ?_) (fun p hp => ?_), ?_, ?_⟩, hl.size⟩
  · simp only [Heap.links, heq p hp]
  · simp only [Heap.links, heq p hp]
  · exact map_data_congr hl.data fun p hp => hdata (List.mem_cons_of_mem _ hp)
  · exact (hdata List.mem_cons_self).trans hl.blank

section Update

variable {σ : State T ι} {ss : ι → Option (List T)} {rings : ι → List ℕ} {i : ι} {own : List ℕ}
  {h' : Heap T} {l' : Lst} {ns' : List ℕ} {ys : List T}

omit [DecidableEq ι] in
lemma WellFormed.isSome (hw : WellFormed σ ss rings) {j : ι} (hj : (ss j).isSome) {p : ℕ}
    (hp : p ∈ rings j) : (σ.heap.cell p).isSome := by
  obtain ⟨xs, hxs⟩ := Option.isSome_iff_exists.mp hj
  obtain ⟨l, ns, -, hring, hl⟩ := hw.live j xs hxs
  exact hl.isSome (hring ▸ hp)

lemma WellFormed.unchanged (hw : WellFormed σ ss rings)
    (hown : ∀ j, j ≠ i → (ss j).isSome → ∀ p ∈ rings j, p ∉ own)
    (he : Effect σ.heap h' own (l'.dummy :: ns')) {j : ι} (hj : (ss j).isSome) (hji : j ≠ i) :
    Unchanged σ ⟨h', Function.update σ.objs i (some l')⟩ rings j :=
  ⟨Function.update_of_ne hji _ _, fun p hp => he.frame p (hown j hji hj p hp) (hw.isSome hj hp)⟩

/-- One list is built or changed by a call that owns only nodes of that list. -/
lemma WellFormed.update (hw : WellFormed σ ss rings)
    (hown : ∀ j, j ≠ i → (ss j).isSome → ∀ p ∈ rings j, p ∉ own)
    (hl' : Holds h' l' ns' ys) (he : Effect σ.heap h' own (l'.dummy :: ns')) :
    WellFormed ⟨h', Function.update σ.objs i (some l')⟩ (Function.update ss i (some ys))
      (Function.update rings i (l'.dummy :: ns')) := by
  -- a node of the list `i` was its own before or is a new one
  have hnew {j : ι} (hji : j ≠ i) (hj : (ss j).isSome) {p : ℕ} (hp : p ∈ l'.dummy :: ns') :
      p ∉ rings j := by
    intro hpj
    obtain hin | hnone := he.fresh p hp
    · exact hown j hji hj p hpj hin
    · have hs := hw.isSome hj hpj
      simp [hnone] at hs
  constructor
  · intro j xs hxs
    by_cases hji : j = i
    · subst hji
      obtain rfl : ys = xs := by simpa using hxs
      exact ⟨l', ns', by simp, by simp, hl'⟩
    · rw [Function.update_of_ne hji] at hxs ⊢
      obtain ⟨l, ns, hobj, hring, hl⟩ := hw.live j xs hxs
      obtain ⟨hsame, hcell⟩ := hw.unchanged hown he (by simp [hxs]) hji
      exact ⟨l, ns, hsame.trans hobj, hring, Holds.congr hl (hring ▸ hcell)⟩
  · intro j k hjk hj hk p hp hpk
    by_cases hji : j = i
    · subst hji
      rw [Function.update_of_ne (Ne.symm hjk)] at hk hpk
      rw [Function.update_self] at hp
      exact hnew (Ne.symm hjk) hk hp hpk
    · rw [Function.update_of_ne hji] at hj hp
      by_cases hki : k = i
      · subst hki
        rw [Function.update_self] at hpk
        exact hnew hji hj hpk hp
      · rw [Function.update_of_ne hki] at hk hpk
        exact hw.apart j k hjk hj hk p hp hpk

end Update

omit [DecidableEq ι] in
lemma build_spec (A : Allocator T) {ss : ι → Option (List T)} {c : Ctor ι} {ys : List T}
    (hc : absBuild ss c = some ys) :
    ∃ n, ∀ fuel, n ≤ fuel → ∀ (σ : State T ι) rings, WellFormed σ ss rings →
      ∃ h' l' ns', build A fuel σ c = some (h', l') ∧ Holds h' l' ns' ys ∧
        Effect σ.heap h' [] (l'.dummy :: ns') := by
  cases c with
  | empty =>
    obtain rfl : [] = ys := Option.some.inj hc
    refine ⟨0, fun fuel _ σ rings _ => ?_⟩
    obtain ⟨h', hnew, hl', heff⟩ := new_holds A σ.heap
    exact ⟨h', ⟨A.fresh σ.heap, 0⟩, [], by simp only [build, ofEmpty, hnew], hl', heff⟩
  | size n =>
    obtain ⟨hn, hys⟩ := Option.ite_none_right_eq_some.mp hc
    obtain rfl := Option.some.inj hys
    exact ⟨0, fun fuel _ σ rings _ => ofSize_spec A σ.heap hn⟩
  | copy j =>
    refine ⟨ys.length + 1, fun fuel hfuel σ rings hw => ?_⟩
    obtain ⟨l, ns, hobj, -, hl⟩ := hw.live j ys hc
    simp only [build, hobj, Option.bind_eq_bind, Option.bind_some]
    exact ofCopy_spec A hl hfuel
  | range j a b =>
    obtain ⟨xs, hxs, hys⟩ := Option.bind_eq_some_iff.mp hc
    obtain ⟨⟨ha, hb⟩, hys⟩ := Option.ite_none_right_eq_some.mp hys
    obtain rfl := Option.some.inj hys
    refine ⟨xs.length + 2, fun fuel hfuel σ rings hw => ?_⟩
    obtain ⟨l, ns, hobj, -, hl⟩ := hw.live j xs hxs
    simp only [build, hobj, iterator_spec hl ha, iterator_spec hl hb, Option.bind_eq_bind,
      Option.bind_some]
    exact ofRange_spec A hl ha hfuel

/-- **A step** that is defined on sequences runs, and changes no other list. -/
lemma step_spec (A : Allocator T) {ss ss' : ι → Option (List T)} {cmd : Cmd T ι}
    (hc : absStep ss cmd = some ss') :
    ∃ n, ∀ fuel, n ≤ fuel → ∀ (σ : State T ι) rings, WellFormed σ ss rings →
      ∃ σ' rings', step A fuel σ cmd = some σ' ∧ WellFormed σ' ss' rings' ∧
        ∀ j, j ≠ cmd.target → (ss j).isSome → Unchanged σ σ' rings j := by
  cases cmd with
  | construct i c =>
    obtain ⟨-, hmap⟩ := Option.ite_none_right_eq_some.mp hc
    obtain ⟨ys, hys, rfl⟩ := Option.map_eq_some_iff.mp hmap
    obtain ⟨n, hn⟩ := build_spec A hys
    refine ⟨n, fun fuel hfuel σ rings hw => ?_⟩
    obtain ⟨h', l', ns', hrun, hl', heff⟩ := hn fuel hfuel σ rings hw
    have hown : ∀ j, j ≠ i → (ss j).isSome → ∀ p ∈ rings j, p ∉ ([] : List ℕ) := by simp
    refine ⟨_, _, ?_, hw.update hown hl' heff, fun j hji hj => hw.unchanged hown heff hj hji⟩
    simp only [step, hrun, Option.bind_eq_bind, Option.bind_some]
    rfl
  | call i op =>
    obtain ⟨xs, hxs, hrest⟩ := Option.bind_eq_some_iff.mp hc
    obtain ⟨ys, hys, hss⟩ := Option.bind_eq_some_iff.mp hrest
    obtain rfl := Option.some.inj hss
    refine ⟨0, fun fuel _ σ rings hw => ?_⟩
    obtain ⟨l, ns, hobj, hring, hl⟩ := hw.live i xs hxs
    obtain ⟨h', l', ns', hrun, hdummy, hl', heff⟩ := callOp_spec A hl hys
    rw [← hring, ← hdummy] at heff
    have hown : ∀ j, j ≠ i → (ss j).isSome → ∀ p ∈ rings j, p ∉ rings i :=
      fun j hji hj => hw.apart j i hji hj (by simp [hxs])
    refine ⟨_, _, ?_, hw.update hown hl' heff, fun j hji hj => hw.unchanged hown heff hj hji⟩
    simp only [step, hobj, hrun, Option.bind_eq_bind, Option.bind_some]
    rfl

/-- **A program** that is defined on sequences runs, and ends in well-formed lists that carry the
sequences it ends in. -/
lemma exec_spec (A : Allocator T) {ss ss' : ι → Option (List T)} {cmds : List (Cmd T ι)}
    (hc : absExec ss cmds = some ss') :
    ∃ n, ∀ fuel, n ≤ fuel → ∀ (σ : State T ι) rings, WellFormed σ ss rings →
      ∃ σ' rings', exec A fuel σ cmds = some σ' ∧ WellFormed σ' ss' rings' := by
  induction cmds generalizing ss with
  | nil =>
    obtain rfl : ss = ss' := Option.some.inj hc
    exact ⟨0, fun fuel _ σ rings hw => ⟨σ, rings, rfl, hw⟩⟩
  | cons cmd cmds ih =>
    obtain ⟨ss₁, hstep, hrest⟩ := Option.bind_eq_some_iff.mp hc
    obtain ⟨m, hm⟩ := step_spec A hstep
    obtain ⟨n, hn⟩ := ih hrest
    refine ⟨max m n, fun fuel hfuel σ rings hw => ?_⟩
    obtain ⟨σ₁, rings₁, hrun₁, hw₁, -⟩ := hm fuel ((Nat.le_max_left m n).trans hfuel) σ rings hw
    obtain ⟨σ', rings', hrun, hw'⟩ := hn fuel ((Nat.le_max_right m n).trans hfuel) σ₁ rings₁ hw₁
    refine ⟨σ', rings', ?_, hw'⟩
    rw [exec, List.foldlM_cons, hrun₁]
    exact hrun

omit [DecidableEq ι] in
lemma wellFormed_initial :
    WellFormed (State.initial : State T ι) (fun _ => none) (fun _ => []) where
  live _ _ h := nomatch h
  apart _ _ _ h := nomatch h

end Programs

end Zinzhi.LinkedListPrograms
