import Zinzhi.Interact
import Zinzhi.HaRemote

/-!
`HAController`: what a controller decides, as programs of calls on the two `HANode`s.

A node is named by its side; for the controller on side `me` the calls on `me` go to its
`HALocalNode` and those on `me.peer` to its `HARemoteNode`. Logging and sleeping are left
out, and the recursive call of `initialDetermination` is the leaf `again`.
-/

namespace Zinzhi.HaController

open Zinzhi.Interact Zinzhi.HaNode Zinzhi.HaRemote

inductive Call
  | node (n : Side) (op : HANodeOp)
  | executeReConnector

abbrev Call.Res : Call → Type
  | .node _ op => op.Res
  | .executeReConnector => Unit

abbrev Ctl (α : Type) := Prog Call Call.Res α

def on (n : Side) (op : HANodeOp) : Ctl op.Res := .call (.node n op) .ret

/-- `x && y`, with `y` called only if needed. -/
def andAlso (x y : Ctl Bool) : Ctl Bool := do if ← x then y else return false

/-- `x || y`, with `y` called only if needed. -/
def orElse (x y : Ctl Bool) : Ctl Bool := do if ← x then return true else y

def negate (x : Ctl Bool) : Ctl Bool := do return !(← x)

section Programs

variable (conf : Conf) (me : Side)

def isPreferredMaster : Bool := (conf.node me).preferredMaster

def preferredMaster : Side := if isPreferredMaster conf me then me else me.peer

def notPreferredMaster : Side := if isPreferredMaster conf me then me.peer else me

def reConciliation : Ctl Unit := do
  if ← andAlso (on me .txDiff) (on me.peer .txDiff) then
    -- CASE 1: manual intervention
    return ()
  else if ← andAlso (on me .txDiff) (negate (on me.peer .txDiff)) then
    on me .beMaster
    on me.peer (.beSlave me)
  else if ← andAlso (negate (on me .txDiff)) (on me.peer .txDiff) then
    on me.peer .beMaster
    on me .beNone
    on me (.beSlave me.peer)
  else if ← andAlso (negate (on me .txDiff)) (negate (on me.peer .txDiff)) then
    on (preferredMaster conf me) .beMaster
    on (notPreferredMaster conf me) (.beSlave (preferredMaster conf me))

def determinationByTxId : Ctl Unit := do
  if ← on me.peer .isReachable then reConciliation conf me
  else on me .beMaster

def initialDetermination : Ctl Unit := do
  if ← on me.peer .isReachable then
    if ← orElse (on me .txDiff) (on me.peer .txDiff) then
      determinationByTxId conf me
    else
      match ← on me.peer .getHaStatus with
      | .none => if isPreferredMaster conf me then on me .beMaster else .again
      | .master =>
        match ← on me .getHaStatus with
        | .master =>
          on me .beNone
          on me (.beSlave me.peer)
        | .none => on me (.beSlave me.peer)
        | .slave => return ()
        | .slaveRelay => return ()
      | .slave => return ()
      | .slaveRelay => return ()
  else
    on me .saveTxId
    on me .beMaster

def haNodeDown : Ctl Unit := do
  on me .saveTxId
  if isPreferredMaster conf me then .call .executeReConnector .ret

def masterDown : Ctl Unit := do
  haNodeDown conf me
  on me .beMaster

def slaveDown : Ctl Unit := haNodeDown conf me

def haEvent : HaInfo → Ctl Unit
  | .nomaster => masterDown conf me
  | .slaveDied => slaveDown conf me
  | .slaveInitialized => on me .saveTxId
  | .slaveArrived | .isMaster | .isNone => return ()

end Programs

/-! ### What the calls do -/

variable {Cdb : Type} (conf : Conf) (txId : Cdb → CdbTxId) (me : Side)

/-- Starts one more task of `HAControllerReConnector`. -/
def executeReConnector : Act Cdb Unit :=
  fun w => (.ok (), w.modify me fun n => { n with reconnectors := n.reconnectors + 1 })

/-- The calls of the controller on side `me`. -/
def exec : Handler Call.Res Exn (World Cdb)
  | .node n op => if n = me then execLocal conf txId me op else execRemote conf txId me op
  | .executeReConnector => executeReConnector me

variable {conf txId me}

/-- The transaction difference that node `s` reports. -/
def diff (txId : Cdb → CdbTxId) (w : World Cdb) (s : Side) : Bool :=
  HALocalNode.hasDiff txId (w.node s)

lemma exec_self (op : HANodeOp) (w : World Cdb) :
    exec conf txId me (.node me op) w = execLocal conf txId me op w := by simp [exec]

lemma exec_peer (op : HANodeOp) (w : World Cdb) :
    exec conf txId me (.node me.peer op) w = execRemote conf txId me op w := by simp [exec]

section Calls

variable {w : World Cdb}

lemma run_node_self (op : HANodeOp) {k : op.Res → Ctl Unit} {r : op.Res} {w' : World Cdb}
    (h : execLocal conf txId me op w = (.ok r, w')) :
    run (exec conf txId me) (.call (.node me op) k) w = run (exec conf txId me) (k r) w' :=
  run_call ((exec_self op w).trans h)

lemma run_node_peer (op : HANodeOp) {k : op.Res → Ctl Unit} {r : op.Res} {w' : World Cdb}
    (h : execRemote conf txId me op w = (.ok r, w')) :
    run (exec conf txId me) (.call (.node me.peer op) k) w = run (exec conf txId me) (k r) w' :=
  run_call ((exec_peer op w).trans h)

@[simp] lemma run_txDiff {k : Bool → Ctl Unit} :
    run (exec conf txId me) (.call (.node me .txDiff) k) w =
      run (exec conf txId me) (k (diff txId w me)) w := run_node_self _ rfl

@[simp] lemma run_getHaStatus {k : HaStateType → Ctl Unit} :
    run (exec conf txId me) (.call (.node me .getHaStatus) k) w =
      run (exec conf txId me) (k (w.node me).status.getHaState) w := run_node_self _ rfl

@[simp] lemma run_saveTxId {k : Unit → Ctl Unit} :
    run (exec conf txId me) (.call (.node me .saveTxId) k) w =
      run (exec conf txId me) (k ()) (w.modify me (HALocalNode.saved txId)) := run_node_self _ rfl

@[simp] lemma run_beMaster {k : Unit → Ctl Unit} :
    run (exec conf txId me) (.call (.node me .beMaster) k) w =
      run (exec conf txId me) (k ()) (w.modify me (HALocalNode.mastered conf me)) :=
  run_node_self _ rfl

@[simp] lemma run_beNone {k : Unit → Ctl Unit} :
    run (exec conf txId me) (.call (.node me .beNone) k) w =
      run (exec conf txId me) (k ()) (w.modify me HALocalNode.unset) := run_node_self _ rfl

@[simp] lemma run_beSlave {m : Side} {k : Unit → Ctl Unit} :
    run (exec conf txId me) (.call (.node me (.beSlave m)) k) w =
      run (exec conf txId me) (k ()) (HALocalNode.enslave conf me m w) := run_node_self _ rfl

@[simp] lemma run_executeReConnector {k : Unit → Ctl Unit} :
    run (exec conf txId me) (.call .executeReConnector k) w =
      run (exec conf txId me) (k ())
        (w.modify me fun n => { n with reconnectors := n.reconnectors + 1 }) := run_call rfl

variable (hl : w.link = true)
include hl

lemma run_remote_isReachable {k : Bool → Ctl Unit} :
    run (exec conf txId me) (.call (.node me.peer .isReachable) k) w =
      run (exec conf txId me) (k true) w := run_node_peer _ (remote_isReachable me hl)

lemma run_remote_txDiff {k : Bool → Ctl Unit} :
    run (exec conf txId me) (.call (.node me.peer .txDiff) k) w =
      run (exec conf txId me) (k (diff txId w me.peer)) w := run_node_peer _ (remote_txDiff me hl)

lemma run_remote_getHaStatus {k : HaStateType → Ctl Unit}
    (hr : (w.node me.peer).status.getHaState ≠ .slaveRelay) :
    run (exec conf txId me) (.call (.node me.peer .getHaStatus) k) w =
      run (exec conf txId me) (k (w.node me.peer).status.getHaState) w :=
  run_node_peer _ ((remote_getHaStatus me hl).trans (by rw [if_neg hr]))

lemma run_remote_beMaster {k : Unit → Ctl Unit} :
    run (exec conf txId me) (.call (.node me.peer .beMaster) k) w =
      run (exec conf txId me) (k ()) w := run_node_peer _ (remote_beMaster me hl)

lemma run_remote_beSlave {m : Side} {k : Unit → Ctl Unit} :
    run (exec conf txId me) (.call (.node me.peer (.beSlave m)) k) w =
      run (exec conf txId me) (k ()) (HALocalNode.enslave conf me.peer me w) :=
  run_node_peer _ (remote_beSlave me hl m)

end Calls

/-! ### Reconciliation -/

/-- The pair after node `m` became master and its peer was made its slave. -/
def paired (conf : Conf) (m : Side) (w : World Cdb) : World Cdb :=
  HALocalNode.enslave conf m.peer m (w.modify m (HALocalNode.mastered conf m))

/-- What `reConciliation` on `me` leaves. Told to be master, the peer does nothing. -/
def reconciled (conf : Conf) (txId : Cdb → CdbTxId) (me : Side) (w : World Cdb) : World Cdb :=
  match diff txId w me, diff txId w me.peer with
  | true, true => w
  | true, false => paired conf me w
  | false, true => HALocalNode.enslave conf me me.peer (w.modify me HALocalNode.unset)
  | false, false =>
    if isPreferredMaster conf me then paired conf me w
    else HALocalNode.enslave conf me me.peer w

theorem run_reConciliation {w : World Cdb} (hl : w.link = true) :
    run (exec conf txId me) (reConciliation conf me) w =
      (.done (), reconciled conf txId me w) := by
  have hlm : (w.modify me (HALocalNode.mastered conf me)).link = true := hl
  unfold reConciliation reconciled
  by_cases hp : isPreferredMaster conf me
  · have h1 : preferredMaster conf me = me := if_pos hp
    have h2 : notPreferredMaster conf me = me.peer := if_pos hp
    rw [h1, h2]
    cases hL : diff txId w me <;> cases hR : diff txId w me.peer <;>
      simp [andAlso, negate, on, run_remote_txDiff hl, hL, hR, hp, run_remote_beMaster hl,
        run_remote_beSlave hlm, paired]
  · have h1 : preferredMaster conf me = me.peer := if_neg hp
    have h2 : notPreferredMaster conf me = me := if_neg hp
    rw [h1, h2]
    cases hL : diff txId w me <;> cases hR : diff txId w me.peer <;>
      simp [andAlso, negate, on, run_remote_txDiff hl, hL, hR, hp, run_remote_beMaster hl,
        run_remote_beSlave hlm, paired]

/-! ### The other procedures -/

lemma run_unreachable {w : World Cdb} (hl : w.link = false) {k : Bool → Ctl Unit} :
    run (exec conf txId me) (.call (.node me.peer .isReachable) k) w =
      run (exec conf txId me) (k false) w := by
  refine run_node_peer _ ?_
  simp only [execRemote, HARemoteNode.isReachable, HARemoteNode.request, hl, bind, ExceptT.bind,
    ExceptT.mk, ExceptT.bindCont, StateT.bind]
  rfl

lemma run_determinationByTxId {w : World Cdb} (hl : w.link = true) :
    run (exec conf txId me) (determinationByTxId conf me) w =
      (.done (), reconciled conf txId me w) := by
  simp [determinationByTxId, on, run_remote_isReachable hl, run_reConciliation hl]

/-- What one pass of `initialDetermination` leaves when no node has a difference. -/
def determinedByStatus (conf : Conf) (me : Side) (w : World Cdb) :
    Outcome Exn Unit × World Cdb :=
  match (w.node me.peer).status.getHaState with
  | .none =>
    if isPreferredMaster conf me then (.done (), w.modify me (HALocalNode.mastered conf me))
    else (.again, w)
  | .master =>
    match (w.node me).status.getHaState with
    | .master => (.done (), HALocalNode.enslave conf me me.peer (w.modify me HALocalNode.unset))
    | .none => (.done (), HALocalNode.enslave conf me me.peer w)
    | .slave => (.done (), w)
    | .slaveRelay => (.done (), w)
  | .slave => (.done (), w)
  -- the status of a relay slave cannot be read
  | .slaveRelay => (.threw .nullPointerException, w)

/-- What one pass of `initialDetermination` leaves. -/
def determined (conf : Conf) (txId : Cdb → CdbTxId) (me : Side) (w : World Cdb) :
    Outcome Exn Unit × World Cdb :=
  if w.link then
    if diff txId w me || diff txId w me.peer then (.done (), reconciled conf txId me w)
    else determinedByStatus conf me w
  else
    (.done (), (w.modify me (HALocalNode.saved txId)).modify me (HALocalNode.mastered conf me))

theorem run_initialDetermination (w : World Cdb) :
    run (exec conf txId me) (initialDetermination conf me) w = determined conf txId me w := by
  unfold initialDetermination determined
  cases hl : w.link
  · -- the peer is not reached
    simp [on, run_unreachable hl]
  · cases hd : diff txId w me || diff txId w me.peer
    · -- no differences: the status of the peer decides
      obtain ⟨hL, hR⟩ := Bool.or_eq_false_iff.mp hd
      by_cases hr : (w.node me.peer).status.getHaState = .slaveRelay
      · -- a relay slave answers null
        have hthrow : exec conf txId me (.node me.peer .getHaStatus) w =
            (.error .nullPointerException, w) := by
          exact (exec_peer _ w).trans ((remote_getHaStatus me hl).trans (by rw [if_pos hr]))
        simp [on, orElse, run_remote_isReachable hl, run_remote_txDiff hl, hL, hR, run, hthrow,
          determinedByStatus, hr]
      · simp only [on, orElse, Prog.pure_eq, Prog.bind_call, Prog.bind_ret,
          run_remote_isReachable hl, if_true, run_txDiff, hL, Bool.false_eq_true, if_false,
          run_remote_txDiff hl, hR, run_remote_getHaStatus hl hr]
        unfold determinedByStatus
        cases hs : (w.node me.peer).status.getHaState with
        | none =>
          by_cases hp : isPreferredMaster conf me
          · simp [hp]
          · simp [hp]
        | master =>
          dsimp only
          rw [run_getHaStatus]
          cases (w.node me).status.getHaState <;> simp
        | slave => rfl
        | slaveRelay => exact absurd hs hr
    · -- a node with a difference is to be master
      cases hL : diff txId w me
      · have hR : diff txId w me.peer = true := by simpa [hL] using hd
        simp [on, orElse, run_remote_isReachable hl, run_remote_txDiff hl, hL, hR,
          run_determinationByTxId hl]
      · simp [on, orElse, run_remote_isReachable hl, hL, run_determinationByTxId hl]

/-- A node that lost its peer: the transaction id is saved, and the preferred master starts
a reconnector. -/
def parted (conf : Conf) (txId : Cdb → CdbTxId) (me : Side) (n : Node Cdb) : Node Cdb :=
  if isPreferredMaster conf me then
    { HALocalNode.saved txId n with reconnectors := n.reconnectors + 1 }
  else HALocalNode.saved txId n

/-- What `haEvent` does to the node. -/
def notified (conf : Conf) (txId : Cdb → CdbTxId) (me : Side) : HaInfo → Node Cdb → Node Cdb
  | .nomaster, n => HALocalNode.mastered conf me (parted conf txId me n)
  | .slaveDied, n => parted conf txId me n
  | .slaveInitialized, n => HALocalNode.saved txId n
  | _, n => n

theorem run_haEvent (e : HaInfo) (w : World Cdb) :
    run (exec conf txId me) (haEvent conf me e) w =
      (.done (), w.modify me (notified conf txId me e)) := by
  cases hp : isPreferredMaster conf me <;> cases e <;>
    simp [haEvent, masterDown, slaveDown, haNodeDown, on, hp, notified, parted,
      World.modify, HALocalNode.saved]

end Zinzhi.HaController
