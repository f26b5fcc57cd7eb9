import Zinzhi.HaNode

/-!
The wire between the two controllers: `HARemoteNode` sends a command word, the
`RequestHandler` of the peer carries it out on its `HALocalNode` and answers with an object.
-/

namespace Zinzhi.HaRemote

open Zinzhi.HaNode

inductive Obj
  | null
  | string (s : String)
  | txid (t : CdbTxId)
  deriving DecidableEq, Repr

def Obj.ofTxId : Option CdbTxId → Obj
  | .none => .null
  | some t => .txid t

/-- The cast `(String)o`; a null reference passes it. -/
def Obj.asString : Obj → Except Exn (Option String)
  | .null => .ok .none
  | .string s => .ok (some s)
  | .txid _ => .error .classCastException

/-- The cast `(CdbTxId)o`. -/
def Obj.asTxId : Obj → Except Exn (Option CdbTxId)
  | .null => .ok .none
  | .string _ => .error .classCastException
  | .txid t => .ok (some t)

variable {Cdb : Type} (conf : Conf) (txId : Cdb → CdbTxId)

/-- The answer to a `status` request; a relay slave is not mentioned. -/
def statusReply : HaStateType → Obj
  | .none => .string "none"
  | .master => .string "master"
  | .slave => .string "slave"
  | .slaveRelay => .null

/-- `RequestHandler.run` on node `s`: the reply, and the world afterwards. -/
def RequestHandler.run (s : Side) (req : String) : Act Cdb Obj := do
  if req = "eventtxid" then
    return .ofTxId (← HALocalNode.getEventTxId s)
  else if req = "txid" then
    return .txid (← HALocalNode.getTxId txId s)
  else if req = "status" then
    return statusReply (← HALocalNode.getHaStatus s)
  else if req = "ping" then
    return .string "pong"
  else if req = "slave" then
    HALocalNode.beSlave conf s s.peer
    return .null
  else
    return .null

namespace HARemoteNode

/-- Node `s` connects to its peer, sends a command and has it handled. -/
def request (s : Side) (cmd : String) : Act Cdb Obj := fun w =>
  if w.link then RequestHandler.run conf txId s.peer cmd w
  else (.error .connectException, w)

/-- Nothing is received here: the method returns once the command is sent. -/
def saveTxId (s : Side) : Act Cdb Unit := do
  let _ ← request conf txId s "savetxid"

def getTxId (s : Side) : Act Cdb (Option CdbTxId) := do
  let o ← request conf txId s "txid"
  liftM o.asTxId

def txIdEquals (t : CdbTxId) : Option CdbTxId → Bool
  | .none => false
  | some u => t == u

def txDiff (s : Side) : Act Cdb Bool := do
  let o ← request conf txId s "eventtxid"
  match ← liftM o.asTxId with
  | .none => return false
  | some eventTxId => return !(txIdEquals eventTxId (← getTxId conf txId s))

def getHaStatus (s : Side) : Act Cdb HaStateType := do
  let o ← request conf txId s "status"
  match ← liftM o.asString with
  -- `state.equals` on a null reference
  | .none => throw .nullPointerException
  | some state =>
    if state = "master" then return .master
    else if state = "slave" then return .slave
    else if state = "none" then return .none
    else return .slaveRelay

def be (s : Side) (cmd : String) : Act Cdb (Option String) := do
  let o ← request conf txId s cmd
  liftM o.asString

def beMaster (s : Side) : Act Cdb Unit := do
  let _ ← be conf txId s "master"

def beNone (s : Side) : Act Cdb Unit := do
  let _ ← be conf txId s "none"

/-- The argument is not sent. -/
def beSlave (s : Side) (_master : Side) : Act Cdb Unit := do
  let _ ← be conf txId s "slave"

/-- Every exception of the ping is caught. -/
def isReachable (s : Side) : Act Cdb Bool := fun w =>
  match (do (← request conf txId s "ping").asString : Act Cdb (Option String)) w with
  | (.ok repl, w') => (.ok (repl == some "pong"), w')
  | (.error _, w') => (.ok false, w')

end HARemoteNode

/-! ### The interface `HANode` -/

inductive HANodeOp
  | getHaStatus | getTxId | txDiff | saveTxId | isReachable | beMaster | beNone
  | beSlave (master : Side)
  deriving DecidableEq, Repr

abbrev HANodeOp.Res : HANodeOp → Type
  | .getHaStatus => HaStateType
  | .getTxId => Option CdbTxId
  | .txDiff => Bool
  | .isReachable => Bool
  | _ => Unit

/-- The operation on the `HALocalNode` of node `s`. -/
def execLocal (s : Side) : (op : HANodeOp) → Act Cdb op.Res
  | .getHaStatus => HALocalNode.getHaStatus s
  | .getTxId => some <$> HALocalNode.getTxId txId s
  | .txDiff => HALocalNode.txDiff txId s
  | .saveTxId => HALocalNode.saveTxId txId s
  | .isReachable => HALocalNode.isReachable
  | .beMaster => HALocalNode.beMaster conf s
  | .beNone => HALocalNode.beNone s
  | .beSlave master => HALocalNode.beSlave conf s master

/-- The operation on the `HARemoteNode` that node `s` holds for its peer. -/
def execRemote (s : Side) : (op : HANodeOp) → Act Cdb op.Res
  | .getHaStatus => HARemoteNode.getHaStatus conf txId s
  | .getTxId => HARemoteNode.getTxId conf txId s
  | .txDiff => HARemoteNode.txDiff conf txId s
  | .saveTxId => HARemoteNode.saveTxId conf txId s
  | .isReachable => HARemoteNode.isReachable conf txId s
  | .beMaster => HARemoteNode.beMaster conf txId s
  | .beNone => HARemoteNode.beNone conf txId s
  | .beSlave master => HARemoteNode.beSlave conf txId s master

/-! ### What a remote call comes to over a working connection -/

section Working

variable {conf txId} {w : World Cdb} (s : Side) (hl : w.link = true)
include hl

lemma request_eq (cmd : String) :
    HARemoteNode.request conf txId s cmd w = RequestHandler.run conf txId s.peer cmd w := by
  simp [HARemoteNode.request, hl]

lemma remote_getTxId :
    HARemoteNode.getTxId conf txId s w = (.ok (some (txId (w.node s.peer).cdb)), w) :=
  act_bind (request_eq s hl "txid") _

lemma remote_txDiff :
    HARemoteNode.txDiff conf txId s w = (.ok (HALocalNode.hasDiff txId (w.node s.peer)), w) := by
  have hreq : HARemoteNode.request conf txId s "eventtxid" w =
      (.ok (.ofTxId (w.node s.peer).eventTxId), w) := request_eq s hl "eventtxid"
  rw [HARemoteNode.txDiff, act_bind hreq]
  rcases he : (w.node s.peer).eventTxId with _ | e
  · simp only [HALocalNode.hasDiff, he]
    rfl
  · refine (act_bind (x := some e) rfl _).trans ?_
    refine (act_bind (remote_getTxId s hl) _).trans ?_
    simp only [HALocalNode.hasDiff, he, HALocalNode.differs_eq]
    rfl

/-- A relay slave answers `status` with null. -/
lemma remote_getHaStatus :
    HARemoteNode.getHaStatus conf txId s w =
      (if (w.node s.peer).status.getHaState = .slaveRelay then .error .nullPointerException
        else .ok (w.node s.peer).status.getHaState, w) := by
  have hreq : HARemoteNode.request conf txId s "status" w =
      (.ok (statusReply (w.node s.peer).status.getHaState), w) := request_eq s hl "status"
  rw [HARemoteNode.getHaStatus, act_bind hreq]
  cases (w.node s.peer).status.getHaState <;> rfl

/-- The commands `savetxid`, `master` and `none` reach no branch of the handler. -/
lemma remote_saveTxId : HARemoteNode.saveTxId conf txId s w = (.ok (), w) :=
  act_bind (request_eq s hl "savetxid") _

lemma remote_beMaster : HARemoteNode.beMaster conf txId s w = (.ok (), w) :=
  act_bind (act_bind (request_eq s hl "master") _) _

lemma remote_beNone : HARemoteNode.beNone conf txId s w = (.ok (), w) :=
  act_bind (act_bind (request_eq s hl "none") _) _

lemma remote_beSlave (m : Side) :
    HARemoteNode.beSlave conf txId s m w =
      (.ok (), HALocalNode.enslave conf s.peer s w) := by
  have hreq : HARemoteNode.request conf txId s "slave" w =
      (.ok .null, HALocalNode.enslave conf s.peer s w) := by
    rw [request_eq s hl, ← peer_peer s, peer_peer s.peer]
    rfl
  exact act_bind (act_bind hreq _) _

lemma remote_isReachable : HARemoteNode.isReachable conf txId s w = (.ok true, w) := by
  have hreq : HARemoteNode.request conf txId s "ping" w = (.ok (.string "pong"), w) :=
    request_eq s hl "ping"
  simp only [HARemoteNode.isReachable, act_bind hreq]
  rfl

end Working

/-! ### How far the remote node stands for the peer -/

/-- When an operation sent to node `s` does there what it does locally: the status must have
a word of its own, and the three commands that the handler drops must have nothing to do. -/
def Agrees (s : Side) (n : Node Cdb) : HANodeOp → Prop
  | .getHaStatus => n.status.getHaState ≠ .slaveRelay
  | .saveTxId => n.eventTxId = some (txId n.cdb) ∧ n.txidFile = some (txId n.cdb)
  | .beMaster => n.status = .master ∧ (conf.ifc s = .none ∨ conf.vips = [])
  | .beNone => n.status = .none ∧ n.vipsup = []
  | _ => True

/-- A command that is answered and changes nothing agrees with an update that changes
nothing. -/
lemma dropped_iff {x : Except Exn Unit × World Cdb} {w : World Cdb} (hx : x = (.ok (), w))
    (s : Side) (f : Node Cdb → Node Cdb) :
    x = (.ok (), w.modify s f) ↔ f (w.node s) = w.node s := by
  rw [hx, Prod.mk.injEq, ← modify_eq_self]
  exact and_iff_right rfl

/-- **The remote node is a proxy of the peer exactly on what the handler knows.** -/
theorem remote_eq_local_iff {w : World Cdb} (s : Side) (hl : w.link = true) (op : HANodeOp)
    (hop : ∀ m, op = .beSlave m → m = s) :
    execRemote conf txId s op w = execLocal conf txId s.peer op w ↔
      Agrees conf txId s.peer (w.node s.peer) op := by
  cases op with
  | getHaStatus =>
    refine (Eq.congr_left (remote_getHaStatus s hl)).trans ?_
    by_cases hr : (w.node s.peer).status.getHaState = .slaveRelay
    · rw [if_pos hr]
      refine iff_of_false (fun h => ?_) (fun h => h hr)
      have hfst := congrArg Prod.fst h
      cases hfst
    · simp [execLocal, HALocalNode.getHaStatus, Agrees, hr]
  | getTxId => exact iff_of_true (remote_getTxId s hl) trivial
  | txDiff => exact iff_of_true (remote_txDiff s hl) trivial
  | isReachable => exact iff_of_true (remote_isReachable s hl) trivial
  | saveTxId =>
    exact (dropped_iff (remote_saveTxId s hl) _ _).trans (HALocalNode.saved_eq_self _ _)
  | beMaster =>
    exact (dropped_iff (remote_beMaster s hl) _ _).trans (HALocalNode.mastered_eq_self _ _ _)
  | beNone =>
    exact (dropped_iff (remote_beNone s hl) _ _).trans (HALocalNode.unset_eq_self _)
  | beSlave m =>
    obtain rfl := hop m rfl
    exact iff_of_true (remote_beSlave m hl m) trivial

/-! ### On a pair -/

theorem remote_eq_local_slave :
    execRemote pairConf id .a (.beSlave .a) (idlePair true ⟨0, 0, 0⟩) =
      execLocal pairConf id .b (.beSlave .a) (idlePair true ⟨0, 0, 0⟩) :=
  (remote_eq_local_iff pairConf id .a rfl (.beSlave .a) (by simp)).mpr trivial

/-- An idle peer that is told to be master stays as it is. -/
theorem remote_beMaster_ne_local :
    execRemote pairConf id .a .beMaster (idlePair true ⟨0, 0, 0⟩) ≠
      execLocal pairConf id .b .beMaster (idlePair true ⟨0, 0, 0⟩) := by
  intro h
  have hs := congrArg (fun r => (r.2.node .b).status) h
  exact absurd hs (by decide)

end Zinzhi.HaRemote
