import Mathlib.Data.List.Basic

/-!
Three ways to ask whether an address is one of an interface.

`if_match` takes the first address of each interface, `checkip` collects all of their IPv4
addresses, and `test1` compares the list of them as a whole. What `inet:getifaddrs` returns is
given: interfaces by name, each with properties of which any number are addresses.
-/

namespace Zinzhi.InterfaceAddrs

inductive Address
  | v4 (ip : Vector ℕ 4)
  | v6 (ip : Vector ℕ 8)
  deriving DecidableEq

def Address.size : Address → ℕ
  | .v4 _ => 4
  | .v6 _ => 8

variable {κ ν : Type}

/-- `{addr, A}`, or `{Key, Value}` with another key -/
inductive Property (κ ν : Type)
  | addr (a : Address)
  | other (key : κ) (value : ν)
  deriving DecidableEq

abbrev Interface (κ ν : Type) := String × List (Property κ ν)

def Property.isAddr : Property κ ν → Bool
  | .addr _ => true
  | .other _ _ => false

/-- `case L of [] -> false; _ -> true end` -/
def notEmpty {α : Type} : List α → Bool
  | [] => false
  | _ => true

/-! ### `if_match` -/

namespace IfMatch

/-- `lists:keysearch(addr, 1, Props)` -/
def keysearchAddr (props : List (Property κ ν)) : Option (Property κ ν) :=
  props.find? Property.isAddr

/-- The name if the first address is the given one -/
def matchAddr (addr : Address) : Interface κ ν → Option String
  | (ifName, props) =>
    match keysearchAddr props with
    | some (.addr a) => if a = addr then some ifName else none
    | _ => none

/-- `in_ifconfig({addr, Addr}, L)`, which is `{true, Ifname}` or false -/
def inIfconfig (addr : Address) (l : List (Interface κ ν)) : Option String :=
  match l.filterMap (matchAddr addr) with
  | ifname :: _ => some ifname
  | _ => none

end IfMatch

/-! ### `checkip` -/

namespace Checkip

/-- `[Addr || {addr,Addr} <- Info, size(Addr) == 4]` -/
def inet4Addr : List (Property κ ν) → List Address
  | [] => []
  | .addr a :: info => if a.size = 4 then a :: inet4Addr info else inet4Addr info
  | .other _ _ :: info => inet4Addr info

def getIpv4 : List (Interface κ ν) → (acc : List (String × List Address)) →
    List (String × List Address)
  | [], acc => acc
  | (ifName, info) :: t, acc =>
    match inet4Addr info with
    | [] => getIpv4 t acc
    | addrs => getIpv4 t ((ifName, addrs) :: acc)

/-- `test({addr, Addr})`, with the list of interfaces -/
def test (addr : Address) (l : List (Interface κ ν)) : Bool :=
  notEmpty ((getIpv4 l []).filter fun (_, addrL) => decide (addr ∈ addrL))

end Checkip

/-! ### `test1` -/

namespace Test1

/-- `addr when size(SL) == 4` -/
def isInet4 : Property κ ν → Bool
  | .addr a => a.size = 4
  | .other _ _ => false

/-- `is_in_iflist(IP)`, with the list of interfaces -/
def isInIflist [DecidableEq κ] [DecidableEq ν] (ip : Address) (l : List (Interface κ ν)) :
    Bool :=
  let tList := l.map fun (ifName, prop) => (ifName, prop.filter isInet4)
  let ttList := tList.filter fun (_, sl) => notEmpty sl
  ttList.any fun (_, sl) => sl = [.addr ip]

end Test1

/-! ### What they find -/

def Has (a : Address) (l : List (Interface κ ν)) : Prop := ∃ i ∈ l, Property.addr a ∈ i.2

def IsFirst (a : Address) (props : List (Property κ ν)) : Prop :=
  ∃ pre post, props = pre ++ .addr a :: post ∧ ∀ p ∈ pre, p.isAddr = false

def IsOnly (a : Address) (props : List (Property κ ν)) : Prop :=
  ∃ pre post, props = pre ++ .addr a :: post ∧ ∀ p ∈ pre ++ post, Test1.isInet4 p = false

lemma notEmpty_iff {α : Type} {xs : List α} : notEmpty xs = true ↔ xs ≠ [] := by
  cases xs with
  | nil => simp [notEmpty]
  | cons x xs => simp [notEmpty]

lemma keysearchAddr_eq_iff {a : Address} {props : List (Property κ ν)} :
    IfMatch.keysearchAddr props = some (.addr a) ↔ IsFirst a props := by
  rw [IfMatch.keysearchAddr, List.find?_eq_some_iff_append]
  simp only [Property.isAddr, true_and, IsFirst, Bool.not_eq_true']

lemma matchAddr_isSome_iff {a : Address} {i : Interface κ ν} :
    (IfMatch.matchAddr a i).isSome ↔ IsFirst a i.2 := by
  rw [← keysearchAddr_eq_iff]
  obtain ⟨ifName, props⟩ := i
  rw [IfMatch.matchAddr]
  split
  · rename_i a' ha'
    by_cases h : a' = a
    · simp [h, ha']
    · simp [h, ha']
  · rename_i hnot
    simpa using hnot a

/-- **`in_ifconfig` finds the first addresses.** -/
lemma inIfconfig_iff {a : Address} {l : List (Interface κ ν)} :
    (∃ ifname, IfMatch.inIfconfig a l = some ifname) ↔ ∃ i ∈ l, IsFirst a i.2 := by
  have hfound : (∃ ifname, IfMatch.inIfconfig a l = some ifname) ↔
      l.filterMap (IfMatch.matchAddr a) ≠ [] := by
    rw [IfMatch.inIfconfig]
    split
    · rename_i h
      simp [h]
    · rename_i hnot
      cases h : l.filterMap (IfMatch.matchAddr a) with
      | nil => simp
      | cons n ns => exact absurd h (hnot n ns)
  rw [hfound, ne_eq, List.filterMap_eq_nil_iff]
  push Not
  refine exists_congr fun i => and_congr_right fun _ => ?_
  rw [← matchAddr_isSome_iff, Option.isSome_iff_ne_none]

lemma mem_inet4Addr {a : Address} {info : List (Property κ ν)} :
    a ∈ Checkip.inet4Addr info ↔ .addr a ∈ info ∧ a.size = 4 := by
  induction info with
  | nil => simp [Checkip.inet4Addr]
  | cons p info ih =>
    cases p with
    | addr a' =>
      by_cases h : a'.size = 4
      · simp only [Checkip.inet4Addr, if_pos h, List.mem_cons, ih, Property.addr.injEq]
        constructor
        · rintro (rfl | ⟨hmem, hsize⟩)
          · exact ⟨.inl rfl, h⟩
          · exact ⟨.inr hmem, hsize⟩
        · rintro ⟨rfl | hmem, hsize⟩
          · exact .inl rfl
          · exact .inr ⟨hmem, hsize⟩
      · simp only [Checkip.inet4Addr, if_neg h, List.mem_cons, ih, Property.addr.injEq]
        constructor
        · exact fun hmem => ⟨.inr hmem.1, hmem.2⟩
        · rintro ⟨rfl | hmem, hsize⟩
          · exact absurd hsize h
          · exact ⟨hmem, hsize⟩
    | other key value => simp [Checkip.inet4Addr, ih]

lemma mem_getIpv4 {e : String × List Address} {l : List (Interface κ ν)}
    {acc : List (String × List Address)} :
    e ∈ Checkip.getIpv4 l acc ↔
      e ∈ acc ∨ ∃ i ∈ l, Checkip.inet4Addr i.2 ≠ [] ∧ e = (i.1, Checkip.inet4Addr i.2) := by
  induction l generalizing acc with
  | nil => simp [Checkip.getIpv4]
  | cons i l ih =>
    obtain ⟨ifName, info⟩ := i
    rw [Checkip.getIpv4]
    split
    · rename_i h
      simp [ih, h]
    · rename_i hne
      rw [ih, List.mem_cons]
      simp only [List.mem_cons, exists_eq_or_imp]
      have hne' : Checkip.inet4Addr info ≠ [] := hne
      tauto

/-- **`test` finds every address** of four numbers. -/
lemma test_iff {a : Address} (ha : a.size = 4) {l : List (Interface κ ν)} :
    Checkip.test a l = true ↔ Has a l := by
  have hfound : Checkip.test a l = true ↔ ∃ e ∈ Checkip.getIpv4 l [], a ∈ e.2 := by
    rw [Checkip.test, notEmpty_iff, ne_eq, List.filter_eq_nil_iff]
    simp
  rw [hfound, Has]
  constructor
  · rintro ⟨e, he, hmem⟩
    rcases mem_getIpv4.mp he with he | ⟨i, hi, -, rfl⟩
    · cases he
    · exact ⟨i, hi, (mem_inet4Addr.mp hmem).1⟩
  · rintro ⟨i, hi, hmem⟩
    have hmem' : a ∈ Checkip.inet4Addr i.2 := mem_inet4Addr.mpr ⟨hmem, ha⟩
    exact ⟨_, mem_getIpv4.mpr (.inr ⟨i, hi, List.ne_nil_of_mem hmem', rfl⟩), hmem'⟩

lemma filter_isInet4_eq_iff {a : Address} (ha : a.size = 4) {props : List (Property κ ν)} :
    props.filter Test1.isInet4 = [.addr a] ↔ IsOnly a props := by
  have hinet : Test1.isInet4 (.addr a : Property κ ν) = true := by simp [Test1.isInet4, ha]
  rw [List.filter_eq_cons_iff, IsOnly]
  refine exists_congr fun pre => exists_congr fun post => and_congr_right fun _ => ?_
  rw [List.filter_eq_nil_iff, List.forall_mem_append]
  simp [hinet]

/-- **`is_in_iflist` finds the addresses that are the only one.** -/
lemma isInIflist_iff [DecidableEq κ] [DecidableEq ν] {a : Address} (ha : a.size = 4)
    {l : List (Interface κ ν)} :
    Test1.isInIflist a l = true ↔ ∃ i ∈ l, IsOnly a i.2 := by
  simp only [Test1.isInIflist, List.any_eq_true, List.mem_filter, List.mem_map, notEmpty_iff,
    decide_eq_true_eq]
  constructor
  · rintro ⟨-, ⟨⟨i, hi, rfl⟩, -⟩, hsl⟩
    exact ⟨i, hi, (filter_isInet4_eq_iff ha).mp hsl⟩
  · rintro ⟨i, hi, honly⟩
    have hsl := (filter_isInet4_eq_iff ha).mpr honly
    exact ⟨_, ⟨⟨i, hi, rfl⟩, by rw [hsl]; exact List.cons_ne_nil _ _⟩, hsl⟩

/-! ### When they agree -/

/-- Each of the three answers whether an interface has the address. -/
structure Agree [DecidableEq κ] [DecidableEq ν] (ip : Vector ℕ 4) (l : List (Interface κ ν)) :
    Prop where
  inIfconfig : (∃ ifname, IfMatch.inIfconfig (.v4 ip) l = some ifname) ↔ Has (.v4 ip) l
  test : Checkip.test (.v4 ip) l = true ↔ Has (.v4 ip) l
  isInIflist : Test1.isInIflist (.v4 ip) l = true ↔ Has (.v4 ip) l

lemma IsFirst.mem {a : Address} {props : List (Property κ ν)} (h : IsFirst a props) :
    .addr a ∈ props := by
  obtain ⟨pre, post, rfl, -⟩ := h
  simp

lemma IsOnly.mem {a : Address} {props : List (Property κ ν)} (h : IsOnly a props) :
    .addr a ∈ props := by
  obtain ⟨pre, post, rfl, -⟩ := h
  simp

/-- **The three checks agree** exactly if no interface has the address, or if it is the first
address of one and the only IPv4 address of one. -/
theorem agree_iff [DecidableEq κ] [DecidableEq ν] (ip : Vector ℕ 4)
    (l : List (Interface κ ν)) :
    Agree ip l ↔
      (Has (.v4 ip) l → (∃ i ∈ l, IsFirst (.v4 ip) i.2) ∧ ∃ i ∈ l, IsOnly (.v4 ip) i.2) := by
  have hsize : (Address.v4 ip).size = 4 := rfl
  constructor
  · rintro ⟨hfirst, -, honly⟩ hhas
    exact ⟨inIfconfig_iff.mp (hfirst.mpr hhas), (isInIflist_iff hsize).mp (honly.mpr hhas)⟩
  · intro h
    refine ⟨?_, test_iff hsize, ?_⟩
    · rw [inIfconfig_iff]
      exact ⟨fun ⟨i, hi, hfirst⟩ => ⟨i, hi, hfirst.mem⟩, fun hhas => (h hhas).1⟩
    · rw [isInIflist_iff hsize]
      exact ⟨fun ⟨i, hi, honly⟩ => ⟨i, hi, honly.mem⟩, fun hhas => (h hhas).2⟩

def twoAddrs : List (Interface String String) :=
  [("eth0", [.other "flags" "[up]", .addr (.v4 #v[10, 0, 0, 1]), .addr (.v4 #v[10, 0, 0, 2])])]

def v6First : List (Interface String String) :=
  [("lo", [.addr (.v6 #v[0, 0, 0, 0, 0, 0, 0, 1]), .addr (.v4 #v[127, 0, 0, 1])])]

/-- The second address is found by `test` only; and one behind an IPv6 address not by
`in_ifconfig`. -/
theorem not_agree :
    (IfMatch.inIfconfig (.v4 #v[10, 0, 0, 2]) twoAddrs = none ∧
      Checkip.test (.v4 #v[10, 0, 0, 2]) twoAddrs = true ∧
      Test1.isInIflist (.v4 #v[10, 0, 0, 2]) twoAddrs = false ∧
      ¬Agree #v[10, 0, 0, 2] twoAddrs) ∧
    IfMatch.inIfconfig (.v4 #v[127, 0, 0, 1]) v6First = none ∧
      Checkip.test (.v4 #v[127, 0, 0, 1]) v6First = true ∧
      Test1.isInIflist (.v4 #v[127, 0, 0, 1]) v6First = true ∧
      ¬Agree #v[127, 0, 0, 1] v6First := by
  have hsecond : IfMatch.inIfconfig (.v4 #v[10, 0, 0, 2]) twoAddrs = none := by decide
  have hbehind : IfMatch.inIfconfig (.v4 #v[127, 0, 0, 1]) v6First = none := by decide
  refine ⟨⟨hsecond, by decide, by decide, fun h => ?_⟩, hbehind, by decide, by decide, fun h => ?_⟩
  · obtain ⟨ifname, hfound⟩ := h.inIfconfig.mpr (h.test.mp (by decide))
    cases hsecond.symm.trans hfound
  · obtain ⟨ifname, hfound⟩ := h.inIfconfig.mpr (h.test.mp (by decide))
    cases hbehind.symm.trans hfound

end Zinzhi.InterfaceAddrs
