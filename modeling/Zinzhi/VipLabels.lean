import Zinzhi.HaNode
import Mathlib.Tactic.Ring

/-!
The device labels of the virtual addresses: `HAControllerVip` brings them up, and the script that
`HAControllerAutoIfDown` starts takes them down when the controller is gone.

A command is the list of its words. The text of an address is a parameter, and a position in the
list of addresses is a natural number: no list is as long as an `int` is large.
-/

namespace Zinzhi.VipLabels

open Zinzhi.HaNode

/-! ### The commands -/

/-- `Integer.toBinaryString` -/
def toBinaryString (n : ℕ) : String := String.ofList (Nat.toDigits 2 n)

section Commands

variable (hostAddress : List UInt8 → String) (vip : Vip)

def getName : String := vip.ifc ++ ":svip" ++ toString vip.index

def bringInterfaceUp : List String :=
  ["sudo", "/sbin/ip", "addr", "add", hostAddress vip.addr ++ "/32", "dev", vip.ifc, "label",
    vip.ifc ++ ":svip" ++ toString vip.index]

def autoIfDown (path : String) : List String :=
  ["sudo", path ++ "/scripts/autoifdown.sh", hostAddress vip.addr, "32", vip.ifc,
    toBinaryString vip.index]

end Commands

/-- `do_at_exit`, with the commands it runs and `removed` after it. The script is the second word of
the command that starts it, and a missing argument is empty. -/
def doAtExit (cmd : List String) (removed : Bool) : List (List String) × Bool :=
  let arg (n : ℕ) := cmd.getD (n + 1) ""
  let vip := arg 1
  let masksz := arg 2
  let iface := arg 3
  let count := arg 4
  if removed then ([], removed)
  else
    ([["sudo", "ip", "addr", "del", vip ++ "/" ++ masksz, "dev", iface ++ ":svip" ++ count]], true)

/-- The commands of `k` calls of `do_at_exit`: a signal traps into it, and so does the `exit` that
ends it. -/
def traps (cmd : List String) : ℕ → Bool → List (List String)
  | 0, _ => []
  | k + 1, removed => (doAtExit cmd removed).1 ++ traps cmd k (doAtExit cmd removed).2

/-! ### What the script deletes -/

lemma traps_removed (cmd : List String) (k : ℕ) : traps cmd k true = [] := by
  induction k with
  | zero => rfl
  | succ k ih => simp [traps, doAtExit, ih]

/-- However often it is trapped, the script runs one command. -/
lemma traps_autoIfDown (hostAddress : List UInt8 → String) (path : String) (vip : Vip) (k : ℕ) :
    traps (autoIfDown hostAddress vip path) (k + 1) false =
      [["sudo", "ip", "addr", "del", hostAddress vip.addr ++ "/" ++ "32", "dev",
        vip.ifc ++ ":svip" ++ toBinaryString vip.index]] := by
  simp [traps, doAtExit, autoIfDown, traps_removed]

/-! ### Two ways to write a number -/

/-- A number is written the same in base 2 and in base 10 only if it is one digit of both. -/
lemma toDigits_eq_iff (n : ℕ) : Nat.toDigits 10 n = Nat.toDigits 2 n ↔ n ≤ 1 := by
  constructor
  · intro h
    by_contra hn
    -- the digits are at least two, and as many decimal ones are worth more
    obtain ⟨k, hk⟩ : ∃ k, (Nat.toDigits 2 n).length = k + 2 := by
      have hlong : ¬(Nat.toDigits 2 n).length ≤ 1 := by
        rw [Nat.length_toDigits_le_iff (by omega) (by omega)]
        omega
      exact ⟨(Nat.toDigits 2 n).length - 2, by omega⟩
    have hlt : n < 2 ^ (k + 2) := (Nat.length_toDigits_le_iff (by omega) (by omega)).mp hk.le
    have hge : 10 ^ (k + 1) ≤ n := by
      by_contra hcon
      have := (Nat.length_toDigits_le_iff (b := 10) (by omega) (by omega)).mpr (not_le.mp hcon)
      rw [h] at this
      omega
    have hpow : 2 ^ (k + 2) ≤ 10 ^ (k + 1) := by
      calc 2 ^ (k + 2) = 2 * 2 ^ (k + 1) := by ring
        _ ≤ 5 ^ (k + 1) * 2 ^ (k + 1) :=
            Nat.mul_le_mul_right _ ((by omega : 2 ≤ 5).trans (Nat.le_self_pow (by omega) 5))
        _ = 10 ^ (k + 1) := by rw [← Nat.mul_pow]
    omega
  · intro h
    obtain rfl | rfl : n = 0 ∨ n = 1 := by omega
    · rfl
    · rfl

lemma toString_eq_toBinaryString_iff (n : ℕ) : toString n = toBinaryString n ↔ n ≤ 1 := by
  rw [Nat.toString_eq_ofList_toDigits, toBinaryString, String.ofList_inj, toDigits_eq_iff]

/-! ### The labels -/

/-- The label that a virtual address is brought up with, the last word of the command. -/
def labelUp (hostAddress : List UInt8 → String) (vip : Vip) : Option String :=
  (bringInterfaceUp hostAddress vip).getLast?

/-- The devices that the script deletes when it is trapped `k` times. -/
def devicesDown (hostAddress : List UInt8 → String) (path : String) (k : ℕ) (vip : Vip) :
    List (Option String) :=
  (traps (autoIfDown hostAddress vip path) k false).map List.getLast?

lemma labelUp_eq (hostAddress : List UInt8 → String) (vip : Vip) :
    labelUp hostAddress vip = some (getName vip) := rfl

lemma getName_injective {vip vip' : Vip} (hifc : vip.ifc = vip'.ifc)
    (h : getName vip = getName vip') : vip.index = vip'.index := by
  rw [getName, getName, hifc, String.append_right_inj, Nat.toString_eq_ofList_toDigits,
    Nat.toString_eq_ofList_toDigits, String.ofList_inj] at h
  calc vip.index = Nat.ofDigitChars 10 (Nat.toDigits 10 vip.index) 0 :=
        Nat.ofDigitChars_ten_toDigits.symm
    _ = Nat.ofDigitChars 10 (Nat.toDigits 10 vip'.index) 0 := by rw [h]
    _ = vip'.index := Nat.ofDigitChars_ten_toDigits

/-- The loop of `initializeAvailableVips` numbers the addresses by their positions. -/
lemma vip_of_position {conf : Conf} {s : Side} {i : ℕ} {vip : Vip}
    (h : (vipsAdded conf s [])[i]? = some vip) : conf.ifc s = some vip.ifc ∧ vip.index = i := by
  unfold vipsAdded at h
  cases hifc : conf.ifc s with
  | none =>
    rw [hifc] at h
    cases h
  | some ifc =>
    rw [hifc] at h
    dsimp only at h
    rw [List.nil_append, List.getElem?_mapIdx] at h
    obtain ⟨addr, -, rfl⟩ := Option.map_eq_some_iff.mp h
    exact ⟨rfl, rfl⟩

/-- **The script deletes the label** of the first two addresses, and of no other. The labels
themselves are all different. -/
theorem devicesDown_iff (hostAddress : List UInt8 → String) (path : String) (conf : Conf)
    (s : Side) (k i j : ℕ) (vip vip' : Vip) (hi : (vipsAdded conf s [])[i]? = some vip)
    (hj : (vipsAdded conf s [])[j]? = some vip') :
    (devicesDown hostAddress path (k + 1) vip = [labelUp hostAddress vip] ↔ i ≤ 1) ∧
      (i ≠ j → labelUp hostAddress vip ≠ labelUp hostAddress vip') := by
  obtain ⟨hifc, rfl⟩ := vip_of_position hi
  obtain ⟨hifc', rfl⟩ := vip_of_position hj
  constructor
  · rw [devicesDown, traps_autoIfDown, labelUp_eq, ← toString_eq_toBinaryString_iff, getName]
    simp [String.append_right_inj, eq_comm]
  · intro hne h
    rw [labelUp_eq, labelUp_eq, Option.some_inj] at h
    exact hne (getName_injective (Option.some.inj (hifc.symm.trans hifc')) h)

def threeVips : Conf where
  node _ := ⟨⟨"a", [10, 0, 0, 1]⟩, 4545, true⟩
  vips := [[10, 0, 0, 7], [10, 0, 0, 8], [10, 0, 0, 9]]
  ifc _ := some "eth1"

/-- The second address of three. -/
theorem devicesDown_second :
    devicesDown (fun _ => "10.0.0.8") "/ncs/controller" 2 ⟨[10, 0, 0, 8], "eth1", 1⟩ =
        [labelUp (fun _ => "10.0.0.8") ⟨[10, 0, 0, 8], "eth1", 1⟩] ∧
      labelUp (fun _ => "10.0.0.8") ⟨[10, 0, 0, 8], "eth1", 1⟩ ≠
        labelUp (fun _ => "10.0.0.8") ⟨[10, 0, 0, 9], "eth1", 2⟩ := by
  obtain ⟨hdown, hlabels⟩ := devicesDown_iff (fun _ => "10.0.0.8") "/ncs/controller" threeVips .a 1
    1 2 _ _ rfl rfl
  exact ⟨hdown.mpr le_rfl, hlabels (by decide)⟩

/-- The third address is brought up as `eth1:svip2`, and what is deleted for it is `eth1:svip10`. -/
theorem devicesDown_third :
    (vipsAdded threeVips .a [])[2]? = some ⟨[10, 0, 0, 9], "eth1", 2⟩ ∧
      labelUp (fun _ => "10.0.0.9") ⟨[10, 0, 0, 9], "eth1", 2⟩ = some "eth1:svip2" ∧
      devicesDown (fun _ => "10.0.0.9") "/ncs/controller" 1 ⟨[10, 0, 0, 9], "eth1", 2⟩ =
        [some "eth1:svip10"] ∧
      devicesDown (fun _ => "10.0.0.9") "/ncs/controller" 1 ⟨[10, 0, 0, 9], "eth1", 2⟩ ≠
        [labelUp (fun _ => "10.0.0.9") ⟨[10, 0, 0, 9], "eth1", 2⟩] :=
  ⟨rfl, rfl, rfl, by decide⟩

end Zinzhi.VipLabels
