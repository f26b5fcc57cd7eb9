import Mathlib.Data.Nat.Notation
import Mathlib.Data.Int.Notation
import Mathlib.Logic.Function.Basic

/-!
The two nodes of an HA pair, as NCS and the controller keep them, and the operations of
`HALocalNode`.

The database of a node is left abstract; only its transaction id is ever read. `Ha.beMaster`,
`Ha.beNone` and `Ha.beSlave` are taken to succeed: they set the HA status, and becoming a
slave copies the database of the master and queues `HA_INFO_SLAVE_INITIALIZED`. The shell
commands behind the virtual addresses are taken to succeed too.
-/

namespace Zinzhi.HaNode

/-- `com.tailf.ha.HaStateType`. -/
inductive HaStateType
  | none | master | slave | slaveRelay
  deriving DecidableEq, Repr

/-- `com.tailf.cdb.CdbTxId`. -/
structure CdbTxId where
  s1 : ℤ
  s2 : ℤ
  s3 : ℤ
  deriving DecidableEq, Repr

/-- The two configured nodes. -/
inductive Side
  | a | b
  deriving DecidableEq, Repr

def Side.peer : Side → Side
  | .a => .b
  | .b => .a

@[simp] lemma peer_peer (s : Side) : s.peer.peer = s := by cases s <;> rfl
@[simp] lemma peer_ne (s : Side) : s.peer ≠ s := by cases s <;> decide
@[simp] lemma ne_peer (s : Side) : s ≠ s.peer := by cases s <;> decide

lemma eq_or_eq_peer (s t : Side) : t = s ∨ t = s.peer := by
  cases s <;> cases t <;> decide

/-- `com.tailf.conf.ConfHaNode`: how a slave addresses its master. -/
structure ConfHaNode where
  name : String
  address : List UInt8
  deriving DecidableEq, Repr

/-- One entry of `ha-nodes/ha-node`. -/
structure NodeConf extends ConfHaNode where
  port : ℕ
  preferredMaster : Bool
  deriving DecidableEq, Repr

/-- The configuration both nodes load, and the interface each of them recognised itself on
(absent when `NCS_HA_NODE` is set). -/
structure Conf where
  node : Side → NodeConf
  vips : List (List UInt8)
  ifc : Side → Option String

/-- `HAControllerVip`. -/
structure Vip where
  addr : List UInt8
  ifc : String
  index : ℕ
  deriving DecidableEq, Repr

/-- The HA status NCS reports. A slave knows its master, and whether it is still connected
to it. -/
inductive HaStatus
  | none
  | master
  | slave (of : ConfHaNode) (connected : Bool)
  | slaveRelay (of : ConfHaNode)
  deriving DecidableEq, Repr

def HaStatus.getHaState : HaStatus → HaStateType
  | .none => .none
  | .master => .master
  | .slave _ _ => .slave
  | .slaveRelay _ => .slaveRelay

/-- `HaNotification.getHAInfoType`. -/
inductive HaInfo
  | nomaster | slaveDied | slaveArrived | slaveInitialized | isMaster | isNone
  deriving DecidableEq, Repr

/-- Where `HAControllerAppCmp` is: in `init`, in the loop of `run`, or out of it. -/
inductive Phase
  | init | running | ended
  deriving DecidableEq, Repr

structure Node (Cdb : Type) where
  status : HaStatus
  cdb : Cdb
  eventTxId : Option CdbTxId
  /-- The file `txid<name>`. -/
  txidFile : Option CdbTxId
  vipsup : List Vip
  notifs : List HaInfo
  phase : Phase
  /-- Reconnector tasks that have not reconnected yet. -/
  reconnectors : ℕ

/-- Both nodes and the link between them. `slaved` is a history variable: the databases of
the node and of its master each time a node was made slave. -/
structure World (Cdb : Type) where
  link : Bool
  node : Side → Node Cdb
  slaved : List (Cdb × Cdb)

/-- Java exceptions the modelled code can raise. -/
inductive Exn
  | connectException | nullPointerException | classCastException
  deriving DecidableEq, Repr

/-- A method body: it acts on the world and returns or throws. -/
abbrev Act (Cdb α : Type) := ExceptT Exn (StateM (World Cdb)) α

variable {Cdb α β : Type}

lemma act_bind {m : Act Cdb α} {w w' : World Cdb} {x : α} (h : m w = (.ok x, w'))
    (k : α → Act Cdb β) : (m >>= k) w = k x w' := by
  simp only [bind, ExceptT.bind, ExceptT.mk, ExceptT.bindCont, StateT.bind, h]

def World.modify (w : World Cdb) (s : Side) (f : Node Cdb → Node Cdb) : World Cdb :=
  { w with node := Function.update w.node s (f (w.node s)) }

@[simp] lemma modify_self (w : World Cdb) (s : Side) (f : Node Cdb → Node Cdb) :
    (w.modify s f).node s = f (w.node s) := by simp [World.modify]
@[simp] lemma modify_peer (w : World Cdb) (s : Side) (f : Node Cdb → Node Cdb) :
    (w.modify s f).node s.peer = w.node s.peer := by simp [World.modify]
@[simp] lemma modify_peer_self (w : World Cdb) (s : Side) (f : Node Cdb → Node Cdb) :
    (w.modify s.peer f).node s = w.node s := by
  simp [World.modify]
@[simp] lemma modify_link (w : World Cdb) (s : Side) (f : Node Cdb → Node Cdb) :
    (w.modify s f).link = w.link := rfl
lemma modify_eq_self (w : World Cdb) (s : Side) (f : Node Cdb → Node Cdb) :
    w = w.modify s f ↔ f (w.node s) = w.node s := by
  constructor
  · intro h
    exact (modify_self w s f).symm.trans (congrArg (fun v => v.node s) h).symm
  · intro h
    simp [World.modify, h]
@[simp] lemma modify_slaved (w : World Cdb) (s : Side) (f : Node Cdb → Node Cdb) :
    (w.modify s f).slaved = w.slaved := rfl

/-! ### `HAControllerVipManager` -/

/-- The map `vipsup` after one more call. -/
def vipsAdded (conf : Conf) (s : Side) (up : List Vip) : List Vip :=
  match conf.ifc s with
  -- every call makes new map keys, so the entries pile up
  | some ifc => up ++ conf.vips.mapIdx fun i addr => ⟨addr, ifc, i⟩
  | .none => up

def initializeAvailableVips (conf : Conf) (s : Side) (n : Node Cdb) : Node Cdb :=
  { n with vipsup := vipsAdded conf s n.vipsup }

def destroyVips (n : Node Cdb) : Node Cdb := { n with vipsup := [] }

/-! ### `HALocalNode` -/

namespace HALocalNode

variable (conf : Conf) (txId : Cdb → CdbTxId) (s : Side)

def getHaStatus : Act Cdb HaStateType := fun w => (.ok (w.node s).status.getHaState, w)

def getTxId : Act Cdb CdbTxId := fun w => (.ok (txId (w.node s).cdb), w)

def getEventTxId : Act Cdb (Option CdbTxId) := fun w => (.ok (w.node s).eventTxId, w)

/-- The comparison of `txDiff`, by the three components. -/
def differs (txid eventTxId : CdbTxId) : Bool :=
  !(txid.s1 == eventTxId.s1 && txid.s2 == eventTxId.s2 && txid.s3 == eventTxId.s3)

lemma differs_eq (t e : CdbTxId) : differs t e = !(e == t) := by
  obtain ⟨t1, t2, t3⟩ := t
  obtain ⟨e1, e2, e3⟩ := e
  simp only [differs]
  grind

def hasDiff (n : Node Cdb) : Bool :=
  match n.eventTxId with
  | .none => false
  | some e => differs (txId n.cdb) e

def txDiff : Act Cdb Bool := fun w => (.ok (hasDiff txId (w.node s)), w)

def saved (n : Node Cdb) : Node Cdb :=
  { n with eventTxId := some (txId n.cdb), txidFile := some (txId n.cdb) }

lemma saved_eq_self (n : Node Cdb) :
    saved txId n = n ↔ n.eventTxId = some (txId n.cdb) ∧ n.txidFile = some (txId n.cdb) := by
  obtain ⟨st, cdb, ev, file, vips, notifs, ph, rc⟩ := n
  simp only [saved, Node.mk.injEq, true_and, and_true]
  constructor
  · rintro ⟨h1, h2⟩
    exact ⟨h1.symm, h2.symm⟩
  · rintro ⟨h1, h2⟩
    exact ⟨h1.symm, h2.symm⟩

def saveTxId : Act Cdb Unit := fun w => (.ok (), w.modify s (saved txId))

def isReachable : Act Cdb Bool := fun w => (.ok true, w)

def mastered (n : Node Cdb) : Node Cdb :=
  initializeAvailableVips conf s { n with status := .master }

lemma mastered_eq_self (n : Node Cdb) :
    mastered conf s n = n ↔ n.status = .master ∧ (conf.ifc s = .none ∨ conf.vips = []) := by
  obtain ⟨st, cdb, ev, file, vips, notifs, ph, rc⟩ := n
  rcases hi : conf.ifc s with _ | ifc
  · simp [mastered, initializeAvailableVips, vipsAdded, hi, eq_comm (a := HaStatus.master)]
  · simp [mastered, initializeAvailableVips, vipsAdded, hi, eq_comm (a := HaStatus.master)]

def beMaster : Act Cdb Unit := fun w => (.ok (), w.modify s (mastered conf s))

def unset (n : Node Cdb) : Node Cdb := destroyVips { n with status := .none }

lemma unset_eq_self (n : Node Cdb) : unset n = n ↔ n.status = .none ∧ n.vipsup = [] := by
  obtain ⟨st, cdb, ev, file, vips, notifs, ph, rc⟩ := n
  simp [unset, destroyVips, eq_comm (a := HaStatus.none), eq_comm (a := ([] : List Vip))]

def beNone : Act Cdb Unit := fun w => (.ok (), w.modify s unset)

def slavedTo (master : ConfHaNode) (cdb : Cdb) (n : Node Cdb) : Node Cdb :=
  destroyVips { n with
    status := .slave master true
    cdb := cdb
    notifs := n.notifs ++ [.slaveInitialized] }

def enslave (master : Side) (w : World Cdb) : World Cdb :=
  { w.modify s (slavedTo (conf.node master).toConfHaNode (w.node master).cdb) with
    slaved := w.slaved ++ [((w.node s).cdb, (w.node master).cdb)] }

@[simp] lemma hasDiff_saved (n : Node Cdb) : hasDiff txId (saved txId n) = false := by
  simp [hasDiff, saved, differs]
@[simp] lemma hasDiff_mastered (n : Node Cdb) :
    hasDiff txId (mastered conf s n) = hasDiff txId n := rfl
@[simp] lemma hasDiff_unset (n : Node Cdb) : hasDiff txId (unset n) = hasDiff txId n := rfl
@[simp] lemma status_saved (n : Node Cdb) : (saved txId n).status = n.status := rfl
@[simp] lemma status_mastered (n : Node Cdb) : (mastered conf s n).status = .master := rfl
@[simp] lemma status_unset (n : Node Cdb) : (unset n).status = .none := rfl
@[simp] lemma status_slavedTo (m : ConfHaNode) (c : Cdb) (n : Node Cdb) :
    (slavedTo m c n).status = .slave m true := rfl

@[simp] lemma enslave_link (m : Side) (w : World Cdb) : (enslave conf s m w).link = w.link := rfl

@[simp] lemma enslave_self (m : Side) (w : World Cdb) :
    (enslave conf s m w).node s =
      slavedTo (conf.node m).toConfHaNode (w.node m).cdb (w.node s) := by simp [enslave]

@[simp] lemma enslave_peer (m : Side) (w : World Cdb) :
    (enslave conf s m w).node s.peer = w.node s.peer := by simp [enslave]

@[simp] lemma enslave_peer_self (m : Side) (w : World Cdb) :
    (enslave conf s.peer m w).node s = w.node s := by simp [enslave]

def beSlave (master : Side) : Act Cdb Unit := fun w => (.ok (), enslave conf s master w)

end HALocalNode

/-! ### A pair to evaluate on -/

def pairConf : Conf where
  node
    | .a => { name := "n1", address := [10, 0, 0, 1], port := 4565, preferredMaster := true }
    | .b => { name := "n2", address := [10, 0, 0, 2], port := 4565, preferredMaster := false }
  vips := [[10, 0, 0, 9]]
  ifc _ := some "eth0"

/-- A node that has just been set up. -/
def fresh (cdb : Cdb) : Node Cdb := ⟨.none, cdb, .none, .none, [], [], .init, 0⟩

def idlePair (link : Bool) (cdb : Cdb) : World Cdb := ⟨link, fun _ => fresh cdb, []⟩

end Zinzhi.HaNode
