import Zinzhi.HaNode
import Mathlib.Tactic.SplitIfs

/-!
`HAConfiguration` finds out which of the two configured nodes it runs on.

The nodes are objects: `equals` is not overridden, so that a node is told from another by the
object and not by its attributes.
-/

namespace Zinzhi.HaRecognition

open Zinzhi.HaNode

/-- `HAUndefNode`, `HALocalNode` or `HARemoteNode`, with the number of the object. -/
structure HANode where
  object : ℕ
  conf : NodeConf
  isLocal : Bool
  ifc : Option String
  deriving DecidableEq

structure HAConfiguration where
  haNodes : List HANode
  determined : Bool
  /-- the number of the next object -/
  fresh : ℕ
  deriving DecidableEq

inductive Exn
  | determination
  | indexOutOfBounds
  deriving DecidableEq

structure NetworkInterface where
  name : String
  addresses : List (List UInt8)

def initial (first second : NodeConf) : HAConfiguration :=
  ⟨[⟨0, first, false, none⟩, ⟨1, second, false, none⟩], false, 2⟩

/-! ### The methods -/

def inetAddressEquals (ba bb : List UInt8) : Bool :=
  if ba.length = bb.length then (List.range ba.length).all fun i => ba[i]? == bb[i]? else false

def lastNode (test : HANode → Bool) (haNodes : List HANode) : Option HANode :=
  haNodes.foldl (fun haNode node => if test node then some node else haNode) none

def getLocalHANode (cfg : HAConfiguration) : Except Exn (Option HANode) :=
  if !cfg.determined then .error .determination
  else .ok (lastNode (fun node => node.isLocal) cfg.haNodes)

def getRemoteHANode (cfg : HAConfiguration) : Except Exn (Option HANode) :=
  if !cfg.determined then .error .determination
  else .ok (lastNode (fun node => !node.isLocal) cfg.haNodes)

/-- The interface is the one that is set for the local node afterwards, if any. -/
def setLocalHANode (cfg : HAConfiguration) (node : HANode) (ifc : Option String) :
    Except Exn HAConfiguration :=
  let localNode : HANode := ⟨cfg.fresh, node.conf, true, ifc⟩
  match cfg.haNodes.eraseP (fun n => n.object = node.object) with
  | [] => .error .indexOutOfBounds
  | remoteUndef :: _ =>
    let remote : HANode := ⟨cfg.fresh + 1, remoteUndef.conf, false, none⟩
    .ok { cfg with haNodes := [localNode, remote], fresh := cfg.fresh + 2 }

/-- The body of the three loops: how the method returns, or `none` to go on. -/
def tryNode (env : Option String) (cfg : HAConfiguration) (ifc : NetworkInterface)
    (localAddress : List UInt8) (haNode : HANode) : Option (Except Exn HAConfiguration) :=
  if inetAddressEquals haNode.conf.address localAddress then
    match env with
    | none => some ((setLocalHANode cfg haNode (some ifc.name)).map fun cfg =>
        { cfg with determined := true })
    | some value =>
      if value = haNode.conf.name then
        some ((setLocalHANode cfg haNode none).map fun cfg => { cfg with determined := true })
      else none
  else none

def tryAll (env : Option String) (allInterfaces : List NetworkInterface) (cfg : HAConfiguration) :
    Option (Except Exn HAConfiguration) :=
  allInterfaces.findSome? fun ifc => ifc.addresses.findSome? fun localAddress =>
    cfg.haNodes.findSome? fun haNode => tryNode env cfg ifc localAddress haNode

def recognizeNodeByInterfaces (env : Option String) (allInterfaces : List NetworkInterface)
    (cfg : HAConfiguration) : Except Exn HAConfiguration :=
  (tryAll env allInterfaces cfg).getD (.ok cfg)

/-! ### What is recognised -/

/-- The environment names the node, or is not set. -/
def Named (env : Option String) (node : NodeConf) : Prop :=
  ∀ value, env = some value → node.name = value

/-- An interface has the address of the node, and the environment does not ask for another one. -/
def Recognized (env : Option String) (allInterfaces : List NetworkInterface) (node : NodeConf) :
    Prop :=
  (∃ ifc ∈ allInterfaces, node.address ∈ ifc.addresses) ∧ Named env node

lemma inetAddressEquals_iff (ba bb : List UInt8) : inetAddressEquals ba bb = true ↔ ba = bb := by
  unfold inetAddressEquals
  constructor
  · intro h
    split_ifs at h with hlen
    apply List.ext_getElem?
    intro i
    by_cases hi : i < ba.length
    · exact beq_iff_eq.mp (List.all_eq_true.mp h i (List.mem_range.mpr hi))
    · rw [List.getElem?_eq_none (by omega), List.getElem?_eq_none (by omega)]
  · rintro rfl
    simp

section Loops

variable {env : Option String} {cfg : HAConfiguration} {ifc : NetworkInterface}
  {localAddress : List UInt8} {haNode : HANode}

/-- The body goes on exactly if the address or the name is not that of the node. -/
lemma tryNode_eq_none_iff :
    tryNode env cfg ifc localAddress haNode = none ↔
      ¬(haNode.conf.address = localAddress ∧ Named env haNode.conf) := by
  unfold tryNode Named
  split_ifs with h
  · have haddr := (inetAddressEquals_iff _ _).mp h
    cases env with
    | none => simp [haddr]
    | some value =>
      by_cases hname : value = haNode.conf.name
      · simp [haddr, hname]
      · simp [haddr, hname, eq_comm]
  · have haddr := mt (inetAddressEquals_iff _ _).mpr h
    simp [haddr]

lemma tryNode_eq_some {r : Except Exn HAConfiguration}
    (h : tryNode env cfg ifc localAddress haNode = some r) :
    (haNode.conf.address = localAddress ∧ Named env haNode.conf) ∧
      ∃ ifc', r =
        (setLocalHANode cfg haNode ifc').map fun cfg => { cfg with determined := true } := by
  constructor
  · by_contra hcon
    cases (tryNode_eq_none_iff.mpr hcon).symm.trans h
  · unfold tryNode at h
    split_ifs at h
    cases env with
    | none => exact ⟨_, (Option.some.inj h).symm⟩
    | some value =>
      dsimp only at h
      split_ifs at h
      exact ⟨_, (Option.some.inj h).symm⟩

variable {allInterfaces : List NetworkInterface}

lemma tryAll_eq_none (h : tryAll env allInterfaces cfg = none) :
    ∀ haNode ∈ cfg.haNodes, ¬Recognized env allInterfaces haNode.conf := by
  rintro haNode hnode ⟨⟨ifc, hifc, haddr⟩, hnamed⟩
  have hifcs := List.findSome?_eq_none_iff.mp h ifc hifc
  have haddrs := List.findSome?_eq_none_iff.mp hifcs haNode.conf.address haddr
  have hnodes := List.findSome?_eq_none_iff.mp haddrs haNode hnode
  exact tryNode_eq_none_iff.mp hnodes ⟨rfl, hnamed⟩

lemma tryAll_eq_some {r : Except Exn HAConfiguration} (h : tryAll env allInterfaces cfg = some r) :
    ∃ haNode ∈ cfg.haNodes, Recognized env allInterfaces haNode.conf ∧
      ∃ ifc', r =
        (setLocalHANode cfg haNode ifc').map fun cfg => { cfg with determined := true } := by
  obtain ⟨ifc, hifc, h⟩ := List.exists_of_findSome?_eq_some h
  obtain ⟨localAddress, haddr, h⟩ := List.exists_of_findSome?_eq_some h
  obtain ⟨haNode, hnode, h⟩ := List.exists_of_findSome?_eq_some h
  obtain ⟨⟨rfl, hnamed⟩, hr⟩ := tryNode_eq_some h
  exact ⟨haNode, hnode, ⟨⟨ifc, hifc, haddr⟩, hnamed⟩, hr⟩

end Loops

/-- What the method leaves when it recognised a node, with its attributes and those of the other. -/
def determinedAs (own other : NodeConf) (ifc : Option String) : HAConfiguration :=
  ⟨[⟨2, own, true, ifc⟩, ⟨3, other, false, none⟩], true, 4⟩

/-- A recognised node is made the local one, and the other one remote, whichever is first. -/
lemma recognize_cases (env : Option String) (allInterfaces : List NetworkInterface)
    (first second : NodeConf) :
    (∃ own other ifc, (own = first ∧ other = second ∨ own = second ∧ other = first) ∧
        Recognized env allInterfaces own ∧
        recognizeNodeByInterfaces env allInterfaces (initial first second) =
          .ok (determinedAs own other ifc)) ∨
      (∀ node, node = first ∨ node = second → ¬Recognized env allInterfaces node) ∧
        recognizeNodeByInterfaces env allInterfaces (initial first second) =
          .ok (initial first second) := by
  unfold recognizeNodeByInterfaces
  cases h : tryAll env allInterfaces (initial first second) with
  | none =>
    refine .inr ⟨?_, rfl⟩
    have hnone := tryAll_eq_none h
    rintro node (rfl | rfl)
    · exact hnone ⟨0, node, false, none⟩ (by simp [initial])
    · exact hnone ⟨1, node, false, none⟩ (by simp [initial])
  | some r =>
    obtain ⟨haNode, hnode, hrec, ifc, rfl⟩ := tryAll_eq_some h
    rcases List.mem_cons.mp hnode with rfl | hnode
    · exact .inl ⟨first, second, ifc, .inl ⟨rfl, rfl⟩, hrec, rfl⟩
    · obtain rfl := List.mem_singleton.mp hnode
      exact .inl ⟨second, first, ifc, .inr ⟨rfl, rfl⟩, hrec, rfl⟩

/-- **Recognition is exact.** A node is determined exactly if one is recognised. It is then the
local one and the other is remote, each with its attributes; otherwise nothing has changed and
there is neither. -/
theorem recognition_exact (env : Option String) (allInterfaces : List NetworkInterface)
    (first second : NodeConf) :
    ∃ cfg, recognizeNodeByInterfaces env allInterfaces (initial first second) = .ok cfg ∧
      (cfg.determined = true ↔
        Recognized env allInterfaces first ∨ Recognized env allInterfaces second) ∧
      (cfg.determined = true → ∃ localNode remoteNode : HANode,
        getLocalHANode cfg = .ok (some localNode) ∧ localNode.isLocal = true ∧
        getRemoteHANode cfg = .ok (some remoteNode) ∧ remoteNode.isLocal = false ∧
        remoteNode.object ≠ localNode.object ∧ Recognized env allInterfaces localNode.conf ∧
        (localNode.conf = first ∧ remoteNode.conf = second ∨
          localNode.conf = second ∧ remoteNode.conf = first)) ∧
      (cfg.determined = false → getLocalHANode cfg = .error .determination ∧
        getRemoteHANode cfg = .error .determination ∧ cfg = initial first second) := by
  rcases recognize_cases env allInterfaces first second with
    ⟨own, other, ifc, hpair, hrec, h⟩ | ⟨hnone, h⟩
  · refine ⟨_, h, iff_of_true rfl ?_, fun _ => ?_, nofun⟩
    · rcases hpair with ⟨rfl, -⟩ | ⟨rfl, -⟩
      · exact .inl hrec
      · exact .inr hrec
    · exact ⟨⟨2, own, true, ifc⟩, ⟨3, other, false, none⟩, rfl, rfl, rfl, rfl, by simp, hrec, hpair⟩
  · refine ⟨_, h, iff_of_false nofun ?_, nofun, fun _ => ⟨rfl, rfl, rfl⟩⟩
    rintro (hrec | hrec)
    · exact hnone first (.inl rfl) hrec
    · exact hnone second (.inr rfl) hrec

end Zinzhi.HaRecognition
