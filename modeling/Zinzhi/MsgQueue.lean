import Zinzhi.Chains
import Zinzhi.Memory
import Zinzhi.Monitors
import Zinzhi.PriorityQueues

/-!
The message queues of `my_pxmsg_mmap`, in a file that the processes map into memory. The functions
are named without `mymq_`.

The file starts with a header. Behind it are the messages, each with a header of its own and room
for `mq_msgsize` bytes, linked by their offsets in the file into the list of the messages that wait
and the list of the free ones. `mqh_lock` is held from the entry of each function to its return, but
for the waits.
-/

namespace Zinzhi.MsgQueue

open Zinzhi.Atomic (Event)
open Zinzhi.Chains Zinzhi.Monitors Zinzhi.PriorityQueues

/-! ### The file -/

/-- The offsets of `mqh_head` and `mqh_free`, which are read and written like a `msg_next`. -/
abbrev MQH_HEAD : ℕ := 32
abbrev MQH_FREE : ℕ := 40

/-- `sizeof(struct mymq_hdr)` and `sizeof(struct mymsg_hdr)` -/
abbrev SIZEOF_HDR : ℕ := 216
abbrev SIZEOF_MSG : ℕ := 24

/-- The size of a message in the file is rounded up for alignment. -/
def MSGSIZE (i : ℕ) : ℕ := (i + 8 - 1) / 8 * 8

inductive Errno
  | EINVAL
  | EMSGSIZE
  | EAGAIN
  | EBUSY
deriving DecidableEq, Repr

structure Sigevent where
  /-- `sigev_notify == SIGEV_SIGNAL` -/
  signal : Bool
  signo : ℤ
  value : ℤ
deriving DecidableEq, Repr

/-- A `struct mymsg_hdr` but for its `msg_next`. -/
structure MsgHdr where
  len : ℕ
  prio : ℕ

structure Mq where
  maxmsg : ℕ
  msgsize : ℕ
  curmsgs : ℕ
  /-- `mqh_head`, `mqh_free` and each `msg_next`, by its offset -/
  next : ℕ → ℕ
  msg : ℕ → MsgHdr
  /-- the bytes of the file that are in no header -/
  bytes : ℕ → UInt8
  nwait : ℕ
  pid : ℕ
  event : Sigevent
  /-- the signals that were sent with `sigqueue` -/
  signals : List (ℕ × Sigevent)

def Mq.slot (mq : Mq) : ℕ := SIZEOF_MSG + MSGSIZE mq.msgsize

def Mq.filesize (mq : Mq) : ℕ := SIZEOF_HDR + mq.maxmsg * mq.slot

/-- The loop of `mymq_open` that puts all messages on the free list. -/
def linkFree (size : ℕ) : (n index : ℕ) → (ℕ → ℕ) → ℕ → ℕ
  | 0, index, next => Function.update next index 0
  | n + 1, index, next => linkFree size n (index + size) (Function.update next index (index + size))

/-- `mymq_open` of a file that it creates, which is zero where nothing has been written. -/
def mqOpen (maxmsg msgsize : ℤ) : Except Errno Mq :=
  if maxmsg ≤ 0 ∨ msgsize ≤ 0 then .error .EINVAL
  else
    .ok {
      maxmsg := maxmsg.toNat
      msgsize := msgsize.toNat
      curmsgs := 0
      nwait := 0
      pid := 0
      event := ⟨false, 0, 0⟩
      signals := []
      msg := fun _ => ⟨0, 0⟩
      bytes := fun _ => 0
      next := linkFree (SIZEOF_MSG + MSGSIZE msgsize.toNat) (maxmsg.toNat - 1) SIZEOF_HDR
        (Function.update (fun _ => 0) MQH_FREE SIZEOF_HDR) }

/-! ### The functions -/

structure Msg where
  prio : ℕ
  data : List UInt8
deriving DecidableEq, Repr

inductive Result
  | none
  | sent
  | received (m : Msg)
  | notified
  | failed (e : Errno)

/-- Where a thread enters: at a call, or behind a `pthread_cond_wait`. -/
inductive Point
  | send (nonblock : Bool) (m : Msg)
  | sendWaited (m : Msg)
  | receive (nonblock : Bool) (maxlen : ℕ)
  | receiveWaited
  | notify (pid : ℕ) (notification : Option Sigevent) (alive : Bool)

abbrev Section := Outcome Mq Unit Point Result

abbrev MqEvent := Event Point Result

variable (mq : Mq)

/-- The loop of `mymq_send`: from the message at `index`, which the field at `pmsg` points to, to
the place of a message with this priority. -/
def findPlace (prio : ℕ) : (fuel pmsg index : ℕ) → Option (ℕ × ℕ)
  | 0, _, _ => none
  | fuel + 1, pmsg, index =>
    if index = 0 then some (pmsg, index)
    else if prio > (mq.msg index).prio then some (pmsg, index)
    else findPlace prio fuel index (mq.next index)

def fillFree (m : Msg) : Mq :=
  let freeindex := mq.next MQH_FREE
  { mq with
    msg := Function.update mq.msg freeindex ⟨m.data.length, m.prio⟩
    bytes := Memory.write mq.bytes (freeindex + SIZEOF_MSG) m.data
    next := Function.update mq.next MQH_FREE (mq.next freeindex) }

def linkMsg (freeindex pmsg index : ℕ) : Mq :=
  if index = 0 then
    { mq with next := Function.update (Function.update mq.next pmsg freeindex) freeindex 0 }
  else
    { mq with next := Function.update (Function.update mq.next freeindex index) pmsg freeindex }

/-- The second half of `mymq_send`; it dumps core if no message is free, and must not write behind
the end of the file. -/
def sendMsg (m : Msg) : Option Section :=
  let freeindex := mq.next MQH_FREE
  if freeindex = 0 then none
  else if mq.filesize < freeindex + SIZEOF_MSG + m.data.length then none
  else
    let mq := fillFree mq m
    (findPlace mq m.prio (mq.maxmsg + 1) MQH_HEAD (mq.next MQH_HEAD)).map fun (pmsg, index) =>
      ⟨{ linkMsg mq freeindex pmsg index with curmsgs := mq.curmsgs + 1 },
        if mq.curmsgs = 0 then .signal () else .nobody, .out .sent⟩

/-- The process that asked for it is told that a message comes to the empty queue, unless somebody
waits for one. -/
def tell : Mq :=
  if mq.pid ≠ 0 ∧ mq.nwait = 0 then
    { mq with
      signals := if mq.event.signal then mq.signals ++ [(mq.pid, mq.event)] else mq.signals
      pid := 0 }
  else mq

/-- The loop in which `mymq_send` waits for room. -/
def sendWaited (m : Msg) : Option Section :=
  if mq.curmsgs ≥ mq.maxmsg then some ⟨mq, .nobody, .asleep () (.sendWaited m)⟩
  else sendMsg mq m

def send (nonblock : Bool) (m : Msg) : Option Section :=
  if m.data.length > mq.msgsize then some ⟨mq, .nobody, .out (.failed .EMSGSIZE)⟩
  else if mq.curmsgs = 0 then sendMsg (tell mq) m
  else if mq.curmsgs ≥ mq.maxmsg then
    if nonblock then some ⟨mq, .nobody, .out (.failed .EAGAIN)⟩ else sendWaited mq m
  else sendMsg mq m

/-- The second half of `mymq_receive`; it dumps core if no message is there. -/
def receiveMsg : Option Section :=
  let index := mq.next MQH_HEAD
  let len := (mq.msg index).len
  if index = 0 then none
  else if mq.filesize < index + SIZEOF_MSG + len then none
  else
    let next := Function.update mq.next MQH_HEAD (mq.next index)
    let next := Function.update next index (next MQH_FREE)
    let next := Function.update next MQH_FREE index
    some ⟨{ mq with next := next, curmsgs := mq.curmsgs - 1 },
      if mq.curmsgs = mq.maxmsg then .signal () else .nobody,
      .out (.received ⟨(mq.msg index).prio, Memory.read mq.bytes (index + SIZEOF_MSG) len⟩)⟩

/-- The loop in which `mymq_receive` waits for a message. -/
def receiveWaited : Option Section :=
  if mq.curmsgs = 0 then some ⟨mq, .nobody, .asleep () .receiveWaited⟩
  else receiveMsg { mq with nwait := mq.nwait - 1 }

def receive (nonblock : Bool) (maxlen : ℕ) : Option Section :=
  if maxlen < mq.msgsize then some ⟨mq, .nobody, .out (.failed .EMSGSIZE)⟩
  else if mq.curmsgs = 0 then
    if nonblock then some ⟨mq, .nobody, .out (.failed .EAGAIN)⟩
    else receiveWaited { mq with nwait := mq.nwait + 1 }
  else receiveMsg mq

/-- `mymq_notify`, called by the process `pid`; whether a process that is registered still runs is
asked with `kill`. -/
def notify (pid : ℕ) (notification : Option Sigevent) (alive : Bool) : Section :=
  match notification with
  | none => ⟨if mq.pid = pid then { mq with pid := 0 } else mq, .nobody, .out .notified⟩
  | some event =>
    if mq.pid ≠ 0 ∧ alive then ⟨mq, .nobody, .out (.failed .EBUSY)⟩
    else ⟨{ mq with pid := pid, event := event }, .nobody, .out .notified⟩

def enter : Point → Mq → Option Section
  | .send nonblock m, mq => send mq nonblock m
  | .sendWaited m, mq => sendWaited mq m
  | .receive nonblock maxlen, mq => receive mq nonblock maxlen
  | .receiveWaited, mq => receiveWaited mq
  | .notify pid notification alive, mq => some (notify mq pid notification alive)

def IsCall : Point → Prop
  | .sendWaited _ | .receiveWaited => False
  | _ => True

def mqueue {τ : Type} (calls : τ → Point → Prop) : Monitor τ Mq Unit Point Result :=
  ⟨enter, fun t _ p => IsCall p ∧ calls t p⟩

end Zinzhi.MsgQueue
