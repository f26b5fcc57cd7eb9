import Zinzhi.MsgQueue

/-!
What the message queues of `my_pxmsg_mmap` do, for any number of threads.

The two lists of the file share its messages out, and the bytes of a message stay in its own room.
So a queue does what its purpose is, one call at a time: a send adds a message, and a receive gets
the oldest one of the highest priority.
-/

namespace Zinzhi.MsgQueue

open Zinzhi.Atomic (Event)
open Zinzhi.Chains Zinzhi.Monitors Zinzhi.PriorityQueues

variable {mq mq' : Mq} {os fs l r : List ℕ} {o a index pmsg prio fuel : ℕ} {m : Msg}

/-! ### The lists -/

/-- The messages in use are `os`, the free ones `fs`. -/
structure Layout (mq : Mq) (os fs : List ℕ) : Prop where
  head : Chain 0 (fun a => some (mq.next a)) MQH_HEAD os
  free : Chain 0 (fun a => some (mq.next a)) MQH_FREE fs
  nodup : (os ++ fs).Nodup
  slot : ∀ o ∈ os ++ fs, ∃ i < mq.maxmsg, o = SIZEOF_HDR + i * mq.slot
  all : os.length + fs.length = mq.maxmsg
  len : ∀ o ∈ os, (mq.msg o).len ≤ mq.msgsize

def content (mq : Mq) (o : ℕ) : Msg :=
  ⟨(mq.msg o).prio, Memory.read mq.bytes (o + SIZEOF_MSG) (mq.msg o).len⟩

/-- The place of a message is behind those with its priority or a higher one. -/
lemma findPlace_spec (prio : ℕ) (hch : Chain 0 (fun a => some (mq.next a)) a os)
    (hfuel : os.length < fuel) :
    ∃ l r, os = l ++ r ∧
      findPlace mq prio fuel a (mq.next a) = some (lastCell a l, mq.next (lastCell a l)) ∧
      (∀ o ∈ l, prio ≤ (mq.msg o).prio) ∧ ∀ o ∈ r.head?, (mq.msg o).prio < prio := by
  induction os generalizing a fuel with
  | nil =>
    obtain ⟨fuel, rfl⟩ := Nat.exists_eq_succ_of_ne_zero (Nat.ne_of_gt hfuel)
    have hzero : mq.next a = 0 := Option.some.inj hch
    exact ⟨[], [], rfl, by rw [findPlace, if_pos hzero, lastCell_nil], by simp, by simp⟩
  | cons o os ih =>
    obtain ⟨fuel, rfl⟩ := Nat.exists_eq_succ_of_ne_zero (Nat.ne_of_gt (Nat.zero_lt_of_lt hfuel))
    obtain ⟨hnext, hne, hrest⟩ := hch
    have ho : mq.next a = o := Option.some.inj hnext
    by_cases hprio : prio > (mq.msg o).prio
    · -- the new message goes here
      refine ⟨[], o :: os, rfl, ?_, by simp, by simpa using hprio⟩
      rw [findPlace, ho, if_neg hne, if_pos hprio, lastCell_nil, ho]
    · -- it goes further behind
      obtain ⟨l, r, rfl, hfind, hl, hr⟩ := ih hrest (by simpa using hfuel)
      refine ⟨o :: l, r, rfl, ?_, by simpa using ⟨by omega, hl⟩, hr⟩
      rw [findPlace, ho, if_neg hne, if_neg hprio, hfind, lastCell_cons]

lemma linkMsg_next (hne : pmsg ≠ o) : (linkMsg mq o pmsg index).next =
    Function.update (Function.update mq.next o index) pmsg o := by
  unfold linkMsg
  split
  · next h => rw [h, Function.update_comm hne]
  · rfl

structure SameMessages (mq mq' : Mq) : Prop where
  msg : mq'.msg = mq.msg
  bytes : mq'.bytes = mq.bytes
  maxmsg : mq'.maxmsg = mq.maxmsg
  msgsize : mq'.msgsize = mq.msgsize

lemma linkMsg_same (mq : Mq) (o pmsg index : ℕ) : SameMessages mq (linkMsg mq o pmsg index) := by
  unfold linkMsg
  split
  · exact ⟨rfl, rfl, rfl, rfl⟩
  · exact ⟨rfl, rfl, rfl, rfl⟩

lemma SameMessages.content (h : SameMessages mq mq') : content mq' = content mq := by
  funext o
  simp only [MsgQueue.content, h.msg, h.bytes]

lemma SameMessages.slot (h : SameMessages mq mq') : mq'.slot = mq.slot := by
  simp only [Mq.slot, h.msgsize]

lemma Layout.ne_of_mem (h : Layout mq os fs) (ho : o ∈ os ++ fs) : o ≠ MQH_HEAD ∧ o ≠ MQH_FREE := by
  obtain ⟨i, -, rfl⟩ := h.slot o ho
  unfold SIZEOF_HDR MQH_HEAD MQH_FREE
  omega

lemma msgsize_le_slot (mq : Mq) : SIZEOF_MSG + mq.msgsize ≤ mq.slot := by
  unfold Mq.slot MSGSIZE
  omega

/-- **The rooms of two messages do not overlap.** -/
lemma Layout.apart (h : Layout mq os fs) (ho : o ∈ os ++ fs) (ha : a ∈ os ++ fs) (hne : o ≠ a) :
    o + mq.slot ≤ a ∨ a + mq.slot ≤ o := by
  obtain ⟨i, -, rfl⟩ := h.slot o ho
  obtain ⟨j, -, rfl⟩ := h.slot a ha
  have hstep {i j : ℕ} (hij : i < j) : i * mq.slot + mq.slot ≤ j * mq.slot := by
    rw [← Nat.succ_mul]
    exact Nat.mul_le_mul_right _ hij
  rcases Nat.lt_trichotomy i j with hij | rfl | hij
  · have := hstep hij
    omega
  · exact absurd rfl hne
  · have := hstep hij
    omega

lemma Layout.le_filesize (h : Layout mq os fs) (ho : o ∈ os ++ fs) : o + mq.slot ≤ mq.filesize := by
  obtain ⟨i, hi, rfl⟩ := h.slot o ho
  have : i * mq.slot + mq.slot ≤ mq.maxmsg * mq.slot := by
    rw [← Nat.succ_mul]
    exact Nat.mul_le_mul_right _ hi
  unfold Mq.filesize
  omega

/-! ### Sending -/

lemma fillFree_next (ho : mq.next MQH_FREE = o) :
    (fillFree mq m).next = Function.update mq.next MQH_FREE (mq.next o) := by
  rw [← ho]
  rfl

lemma fillFree_msg (ho : mq.next MQH_FREE = o) :
    (fillFree mq m).msg = Function.update mq.msg o ⟨m.data.length, m.prio⟩ := by
  rw [← ho]
  rfl

lemma fillFree_bytes (ho : mq.next MQH_FREE = o) :
    (fillFree mq m).bytes = Memory.write mq.bytes (o + SIZEOF_MSG) m.data := by
  rw [← ho]
  rfl

lemma Layout.next_free (h : Layout mq os (o :: fs)) : mq.next MQH_FREE = o :=
  Option.some.inj h.free.1

lemma Layout.notMem (h : Layout mq os (o :: fs)) : o ∉ os := fun ho => by
  have hno := (List.nodup_middle.mp h.nodup).notMem
  exact hno (List.mem_append_left fs ho)

lemma Layout.fillFree_msg_of_mem (h : Layout mq os (o :: fs)) (ha : a ∈ os) :
    (fillFree mq m).msg a = mq.msg a := by
  rw [fillFree_msg h.next_free, Function.update_of_ne]
  rintro rfl
  exact h.notMem ha

lemma Layout.fillFree_content_of_mem (h : Layout mq os (o :: fs)) (hm : m.data.length ≤ mq.msgsize)
    (ha : a ∈ os) : content (fillFree mq m) a = content mq a := by
  have hne : o ≠ a := by
    rintro rfl
    exact h.notMem ha
  have hroom := msgsize_le_slot mq
  have hlen := h.len a ha
  have hapart := h.apart (o := o) (by simp) (List.mem_append_left _ ha) hne
  unfold content
  rw [h.fillFree_msg_of_mem ha, fillFree_bytes h.next_free,
    Memory.read_write_of_disjoint (by omega)]

lemma Layout.fillFree_content_self (h : Layout mq os (o :: fs)) :
    content (fillFree mq m) o = m := by
  simp [content, fillFree_msg h.next_free, fillFree_bytes h.next_free]

lemma Layout.fillFree_head (h : Layout mq os (o :: fs)) :
    Chain 0 (fun a => some ((fillFree mq m).next a)) MQH_HEAD os := by
  refine h.head.congr fun x hx => congrArg some ?_
  rw [fillFree_next h.next_free, Function.update_of_ne]
  rcases List.mem_cons.mp hx with rfl | hx
  · decide
  · exact (h.ne_of_mem (List.mem_append_left _ hx)).2

/-- The field that the new message is put behind is not one of the two that it comes from. -/
lemma Layout.lastCell_ne (h : Layout mq (l ++ r) (o :: fs)) :
    lastCell MQH_HEAD l ≠ o ∧ lastCell MQH_HEAD l ≠ MQH_FREE := by
  rcases List.mem_cons.mp (lastCell_mem MQH_HEAD l) with heq | hmem
  · rw [heq]
    exact ⟨(h.ne_of_mem (by simp)).1.symm, by decide⟩
  · refine ⟨fun heq => h.notMem ?_, (h.ne_of_mem (by simp [hmem])).2⟩
    exact List.mem_append_left r (heq ▸ hmem)

/-- **The free message comes into the list** behind those of `l`. -/
lemma Layout.link (h : Layout mq (l ++ r) (o :: fs)) (hp : pmsg = lastCell MQH_HEAD l)
    (hnext : mq'.next = Function.update (Function.update (Function.update mq.next
      MQH_FREE (mq.next o)) o (mq.next pmsg)) pmsg o)
    (hm : m.data.length ≤ mq.msgsize) (hsame : SameMessages (fillFree mq m) mq') :
    Layout mq' (l ++ o :: r) fs := by
  have hne (x : ℕ) (hx : x ∈ l ++ r ++ o :: fs) := h.ne_of_mem hx
  obtain ⟨hpo, hpf⟩ := h.lastCell_ne
  rw [← hp] at hpo hpf
  have hmsg {x : ℕ} (hx : x ∈ l ++ r) := h.fillFree_msg_of_mem (m := m) hx
  have hself := fillFree_msg (m := m) h.next_free
  obtain ⟨hhead, hfree, hnodup, hslot, hall, hlen⟩ := h
  obtain ⟨-, hof⟩ := hne o (by simp)
  obtain ⟨hhead', hfree'⟩ := Chain.transfer (fun a => some (mq'.next a)) hhead hfree hnodup hne
    (by decide)
    (by rw [hnext, Function.update_of_ne hpf.symm, Function.update_of_ne hof.symm,
      Function.update_self])
    (by rw [hnext, ← hp, Function.update_self])
    (by rw [hnext, ← hp, Function.update_of_ne hpo.symm, Function.update_self])
    (fun x hxf hxp hxo => by
      rw [hnext, Function.update_of_ne (hp ▸ hxp), Function.update_of_ne hxo,
        Function.update_of_ne hxf])
  have hperm : ((l ++ o :: r) ++ fs).Perm ((l ++ r) ++ o :: fs) := by
    have hmid : (r ++ o :: fs).Perm (o :: (r ++ fs)) := List.perm_middle
    simpa using hmid.symm.append_left l
  refine ⟨hhead', hfree', hperm.nodup_iff.mpr hnodup, fun x hx => ?_, ?_, fun x hx => ?_⟩
  · rw [hsame.maxmsg, hsame.slot]
    exact hslot x (hperm.mem_iff.mp hx)
  · rw [hsame.maxmsg]
    refine Eq.trans ?_ hall
    simp only [List.length_append, List.length_cons]
    omega
  · rw [hsame.msg, hsame.msgsize]
    rcases List.mem_cons.mp (List.perm_middle.mem_iff.mp hx) with rfl | hx
    · rw [hself, Function.update_self]
      exact hm
    · rw [hmsg hx]
      exact hlen x hx

lemma Layout.map_content (h : Layout mq (l ++ r) (o :: fs)) (hm : m.data.length ≤ mq.msgsize) :
    (l ++ o :: r).map (content (fillFree mq m)) =
      l.map (content mq) ++ m :: r.map (content mq) := by
  have hsame {xs : List ℕ} (hxs : xs ⊆ l ++ r) :
      xs.map (content (fillFree mq m)) = xs.map (content mq) :=
    List.map_congr_left fun x hx => h.fillFree_content_of_mem hm (hxs hx)
  rw [List.map_append, List.map_cons, hsame (List.subset_append_left l r),
    hsame (List.subset_append_right l r), h.fillFree_content_self]

lemma sendMsg_spec (h : Layout mq os fs) (hroom : os.length < mq.maxmsg)
    (hm : m.data.length ≤ mq.msgsize) :
    ∃ mq' l r o fs', sendMsg mq m =
        some ⟨mq', if mq.curmsgs = 0 then .signal () else .nobody, .out .sent⟩ ∧
      os = l ++ r ∧ fs = o :: fs' ∧ Layout mq' (l ++ o :: r) fs' ∧
      (l ++ o :: r).map (content mq') = l.map (content mq) ++ m :: r.map (content mq) ∧
      (∀ o ∈ l, m.prio ≤ (content mq o).prio) ∧ (∀ o ∈ r.head?, (content mq o).prio < m.prio) ∧
      mq'.curmsgs = mq.curmsgs + 1 ∧ mq'.maxmsg = mq.maxmsg ∧ mq'.msgsize = mq.msgsize := by
  have hall := h.all
  cases fs with
  | nil => simp at hall; omega
  | cons o fs =>
    have ho := h.next_free
    obtain ⟨l, r, rfl, hfind, hl, hr⟩ :=
      findPlace_spec m.prio (h.fillFree_head (m := m)) (Nat.lt_succ_of_lt hroom)
    obtain ⟨p, hp⟩ : ∃ p, p = lastCell MQH_HEAD l := ⟨_, rfl⟩
    obtain ⟨hpo, hpf⟩ := h.lastCell_ne
    rw [← hp] at hfind hpo hpf
    have hip : (fillFree mq m).next p = mq.next p := by
      rw [fillFree_next ho, Function.update_of_ne hpf]
    rw [hip] at hfind
    have hsame := linkMsg_same (fillFree mq m) o p (mq.next p)
    have hnext : (linkMsg (fillFree mq m) o p (mq.next p)).next = _ := linkMsg_next hpo
    rw [fillFree_next ho] at hnext
    have hinside : ¬mq.filesize < o + SIZEOF_MSG + m.data.length := by
      have := h.le_filesize (o := o) (by simp)
      have := msgsize_le_slot mq
      omega
    refine ⟨{ linkMsg (fillFree mq m) o p (mq.next p) with curmsgs := mq.curmsgs + 1 }, l, r, o, fs,
      ?_, rfl, rfl, h.link hp hnext hm ⟨hsame.msg, hsame.bytes, hsame.maxmsg, hsame.msgsize⟩, ?_,
      fun x hx => ?_, fun x hx => ?_, rfl, hsame.maxmsg, hsame.msgsize⟩
    · rw [sendMsg, ho, if_neg h.free.2.1, if_neg hinside]
      simp only [show (fillFree mq m).maxmsg = mq.maxmsg from rfl, hfind, Option.map_some]
      rfl
    · rw [← h.map_content hm, ← hsame.content]
      rfl
    · have := hl x hx
      rwa [h.fillFree_msg_of_mem (List.mem_append_left r hx)] at this
    · have := hr x hx
      rwa [h.fillFree_msg_of_mem (List.mem_append_right l (List.mem_of_mem_head? hx))] at this

/-! ### Receiving -/

lemma receiveMsg_spec (h : Layout mq (o :: os) fs) :
    ∃ mq', receiveMsg mq =
        some ⟨mq', if mq.curmsgs = mq.maxmsg then .signal () else .nobody,
          .out (.received (content mq o))⟩ ∧
      Layout mq' os (o :: fs) ∧ os.map (content mq') = os.map (content mq) ∧
      mq'.curmsgs = mq.curmsgs - 1 ∧ mq'.maxmsg = mq.maxmsg ∧ mq'.msgsize = mq.msgsize := by
  have hne (x : ℕ) (hx : x ∈ o :: os ++ fs) := h.ne_of_mem hx
  have hinside : ¬mq.filesize < o + SIZEOF_MSG + (mq.msg o).len := by
    have := h.le_filesize (o := o) (by simp)
    have := h.len o (List.mem_cons_self ..)
    have := msgsize_le_slot mq
    omega
  obtain ⟨hhead, hfree, hnodup, hslot, hall, hlen⟩ := h
  have ho : mq.next MQH_HEAD = o := Option.some.inj hhead.1
  obtain ⟨hoh, hof⟩ := hne o (by simp)
  have hperm : (fs ++ o :: os).Perm (o :: os ++ fs) := List.perm_append_comm
  obtain ⟨next, hnext⟩ : ∃ next, next = Function.update (Function.update (Function.update mq.next
      MQH_HEAD (mq.next o)) o (mq.next MQH_FREE)) MQH_FREE o := ⟨_, rfl⟩
  obtain ⟨hfree', hhead'⟩ := Chain.transfer (l := []) (fun a => some (next a)) hfree hhead
    (hperm.nodup_iff.mpr hnodup) (fun x hx => (hne x (hperm.mem_iff.mp hx)).symm) (by decide)
    (by rw [hnext, Function.update_of_ne (by decide), Function.update_of_ne hoh.symm,
      Function.update_self])
    (by rw [hnext, lastCell_nil, Function.update_self])
    (by rw [hnext, lastCell_nil, Function.update_of_ne hof, Function.update_self])
    (fun x hxh hxf hxo => by
      rw [lastCell_nil] at hxf
      rw [hnext, Function.update_of_ne hxf, Function.update_of_ne hxo, Function.update_of_ne hxh])
  refine ⟨{ mq with next := next, curmsgs := mq.curmsgs - 1 }, ?_,
    ⟨hhead', hfree', ?_, ?_, ?_, fun x hx => hlen x (List.mem_cons_of_mem o hx)⟩, rfl, rfl, rfl,
    rfl⟩
  · rw [receiveMsg, ho, if_neg hhead.2.1, if_neg hinside, hnext]
    simp only [Function.update_of_ne (show MQH_FREE ≠ MQH_HEAD by decide)]
    rfl
  · exact List.perm_middle.nodup_iff.mpr hnodup
  · exact fun x hx => hslot x (List.perm_middle.mem_iff.mp hx)
  · rw [List.length_cons] at hall ⊢
    exact (Nat.add_right_comm ..).trans hall

/-! ### What a thread does when it enters -/

/-- The lists and the messages are the same. -/
structure Agrees (mq mq' : Mq) : Prop extends SameMessages mq mq' where
  curmsgs : mq'.curmsgs = mq.curmsgs
  next : mq'.next = mq.next

lemma Agrees.refl (mq : Mq) : Agrees mq mq := ⟨⟨rfl, rfl, rfl, rfl⟩, rfl, rfl⟩

lemma Agrees.layout (h : Agrees mq mq') (hL : Layout mq os fs) : Layout mq' os fs := by
  obtain ⟨hhead, hfree, hnodup, hslot, hall, hlen⟩ := hL
  exact ⟨by rw [h.next]; exact hhead, by rw [h.next]; exact hfree, hnodup,
    by rw [h.maxmsg, h.slot]; exact hslot, by rw [h.maxmsg, hall],
    by rw [h.msg, h.msgsize]; exact hlen⟩

lemma agrees_tell (mq : Mq) : Agrees mq (tell mq) := by
  unfold tell
  split
  · exact ⟨⟨rfl, rfl, rfl, rfl⟩, rfl, rfl⟩
  · exact .refl mq

/-- The queue that a thread has found, with the messages `os` and the free ones `fs`. -/
structure Found (mq : Mq) (os fs : List ℕ) : Prop extends Layout mq os fs where
  count : os.length = mq.curmsgs
  room : 0 < mq.maxmsg

/-- The results with which a call leaves a queue alone that has `count` messages: an argument is
wrong, or the caller does not want to wait, or it wants to be notified. -/
inductive Leaves (maxmsg msgsize count : ℕ) : Point → Result → Prop
  | tooLong {nonblock : Bool} {m : Msg} (h : msgsize < m.data.length) :
      Leaves maxmsg msgsize count (.send nonblock m) (.failed .EMSGSIZE)
  | full {m : Msg} (hm : m.data.length ≤ msgsize) (h : count = maxmsg) :
      Leaves maxmsg msgsize count (.send true m) (.failed .EAGAIN)
  | tooShort {nonblock : Bool} {n : ℕ} (h : n < msgsize) :
      Leaves maxmsg msgsize count (.receive nonblock n) (.failed .EMSGSIZE)
  | empty {n : ℕ} (hn : msgsize ≤ n) (h : count = 0) :
      Leaves maxmsg msgsize count (.receive true n) (.failed .EAGAIN)
  | notified {pid : ℕ} {notification : Option Sigevent} {alive : Bool} :
      Leaves maxmsg msgsize count (.notify pid notification alive) .notified
  | busy {pid : ℕ} {event : Sigevent} :
      Leaves maxmsg msgsize count (.notify pid (some event) true) (.failed .EBUSY)

/-- The call that a thread is in, by where it is. Before it waits, its arguments have been
checked. -/
inductive Pending (msgsize : ℕ) : Point → Point → Prop
  | call {p : Point} (h : IsCall p) : Pending msgsize p p
  | sendWaited {m : Msg} (hm : m.data.length ≤ msgsize) :
      Pending msgsize (.sendWaited m) (.send false m)
  | receiveWaited {n : ℕ} (hn : msgsize ≤ n) : Pending msgsize .receiveWaited (.receive false n)

/-- The five things that a thread can do for its call. -/
inductive Does (mq : Mq) (os fs : List ℕ) (call : Point) : Section → Prop
  | waitsToSend {m : Msg} (hcall : call = .send false m) (hm : m.data.length ≤ mq.msgsize)
      (hfull : mq.curmsgs = mq.maxmsg) :
      Does mq os fs call ⟨mq, .nobody, .asleep () (.sendWaited m)⟩
  | waitsToReceive {mq' : Mq} {n : ℕ} (hcall : call = .receive false n) (hn : mq.msgsize ≤ n)
      (hempty : mq.curmsgs = 0) (hmq : Agrees mq mq') :
      Does mq os fs call ⟨mq', .nobody, .asleep () .receiveWaited⟩
  | sends {mq' : Mq} {nonblock : Bool} {m : Msg} {l r fs' : List ℕ} {o : ℕ}
      (hcall : call = .send nonblock m) (hm : m.data.length ≤ mq.msgsize)
      (hroom : mq.curmsgs < mq.maxmsg) (hos : os = l ++ r) (hfound : Found mq' (l ++ o :: r) fs')
      (hcontent : (l ++ o :: r).map (content mq') = l.map (content mq) ++ m :: r.map (content mq))
      (hl : ∀ o ∈ l, m.prio ≤ (content mq o).prio)
      (hr : ∀ o ∈ r.head?, (content mq o).prio < m.prio)
      (hcur : mq'.curmsgs = mq.curmsgs + 1) (hmax : mq'.maxmsg = mq.maxmsg)
      (hsize : mq'.msgsize = mq.msgsize) :
      Does mq os fs call ⟨mq', if mq.curmsgs = 0 then .signal () else .nobody, .out .sent⟩
  | receives {mq' : Mq} {nonblock : Bool} {n o : ℕ} {os' : List ℕ}
      (hcall : call = .receive nonblock n) (hn : mq.msgsize ≤ n) (hos : os = o :: os')
      (hfound : Found mq' os' (o :: fs)) (hcontent : os'.map (content mq') = os'.map (content mq))
      (hcur : mq'.curmsgs + 1 = mq.curmsgs) (hmax : mq'.maxmsg = mq.maxmsg)
      (hsize : mq'.msgsize = mq.msgsize) :
      Does mq os fs call ⟨mq', if mq.curmsgs = mq.maxmsg then .signal () else .nobody,
        .out (.received (content mq o))⟩
  | returns {mq' : Mq} {w : Result} (hmq : Agrees mq mq')
      (hw : Leaves mq.maxmsg mq.msgsize mq.curmsgs call w) :
      Does mq os fs call ⟨mq', .nobody, .out w⟩

lemma Found.agrees (h : Found mq os fs) (hmq : Agrees mq mq') : Found mq' os fs :=
  ⟨hmq.layout h.toLayout, by rw [hmq.curmsgs, h.count], by rw [hmq.maxmsg]; exact h.room⟩

lemma Found.curmsgs_le (h : Found mq os fs) : mq.curmsgs ≤ mq.maxmsg := by
  have := h.count
  have := h.all
  omega

lemma Found.does_send {mq₁ : Mq} {nonblock : Bool} (h : Found mq os fs) (hmq : Agrees mq mq₁)
    (hm : m.data.length ≤ mq.msgsize) (hroom : mq.curmsgs < mq.maxmsg) :
    ∃ o, sendMsg mq₁ m = some o ∧ Does mq os fs (.send nonblock m) o := by
  have h₁ := h.agrees hmq
  obtain ⟨mq', l, r, o, fs', hrun, rfl, rfl, hL, hcontent, hl, hr, hcur, hmax, hsize⟩ :=
    sendMsg_spec h₁.toLayout (by rw [h.count, hmq.maxmsg]; exact hroom) (by rwa [hmq.msgsize])
  refine ⟨_, hrun, ?_⟩
  rw [hmq.content] at hcontent hl hr
  rw [hmq.curmsgs] at hcur ⊢
  rw [hmq.maxmsg] at hmax
  rw [hmq.msgsize] at hsize
  have hcount := h.count
  refine .sends rfl hm hroom rfl ⟨hL, ?_, by rw [hmax]; exact h.room⟩ hcontent hl hr hcur hmax hsize
  rw [hcur, ← hcount]
  simp only [List.length_append, List.length_cons]
  omega

lemma Found.does_receive {mq₁ : Mq} {nonblock : Bool} {n : ℕ} (h : Found mq os fs)
    (hmq : Agrees mq mq₁) (hn : mq.msgsize ≤ n) (hsome : mq.curmsgs ≠ 0) :
    ∃ o, receiveMsg mq₁ = some o ∧ Does mq os fs (.receive nonblock n) o := by
  have h₁ := h.agrees hmq
  have hcount := h.count
  cases os with
  | nil => exact absurd hcount.symm hsome
  | cons o os =>
    obtain ⟨mq', hrun, hL, hcontent, hcur, hmax, hsize⟩ := receiveMsg_spec h₁.toLayout
    refine ⟨_, hrun, ?_⟩
    rw [hmq.content] at hcontent ⊢
    rw [hmq.curmsgs] at hcur ⊢
    rw [hmq.maxmsg] at hmax ⊢
    rw [hmq.msgsize] at hsize
    rw [List.length_cons] at hcount
    exact .receives rfl hn rfl ⟨hL, by omega, by rw [hmax]; exact h.room⟩ hcontent (by omega) hmax
      hsize

lemma Found.does_sendWaited (h : Found mq os fs) (hm : m.data.length ≤ mq.msgsize) :
    ∃ o, sendWaited mq m = some o ∧ Does mq os fs (.send false m) o := by
  have hle := h.curmsgs_le
  unfold sendWaited
  split
  · exact ⟨_, rfl, .waitsToSend rfl hm (by omega)⟩
  · exact h.does_send (.refl mq) hm (by omega)

lemma Found.does_notify (pid : ℕ) (notification : Option Sigevent) (alive : Bool) :
    Does mq os fs (.notify pid notification alive) (notify mq pid notification alive) := by
  unfold notify
  split
  · refine .returns ?_ .notified
    split
    · exact ⟨⟨rfl, rfl, rfl, rfl⟩, rfl, rfl⟩
    · exact .refl mq
  · split
    · next hbusy =>
      obtain ⟨-, rfl⟩ := hbusy
      exact .returns (.refl mq) .busy
    · exact .returns ⟨⟨rfl, rfl, rfl, rfl⟩, rfl, rfl⟩ .notified

/-- **What the functions do.** None of them dumps core. -/
theorem enter_does {p call : Point} (h : Found mq os fs) (hp : Pending mq.msgsize p call) :
    ∃ o, enter p mq = some o ∧ Does mq os fs call o := by
  have hle := h.curmsgs_le
  have hroom := h.room
  cases hp with
  | sendWaited hm => exact h.does_sendWaited hm
  | receiveWaited hn =>
    simp only [enter, receiveWaited]
    split_ifs with hempty
    · exact ⟨_, rfl, .waitsToReceive rfl hn hempty (.refl mq)⟩
    · exact h.does_receive ⟨⟨rfl, rfl, rfl, rfl⟩, rfl, rfl⟩ hn hempty
  | call hcall =>
    cases p with
    | send nonblock m =>
      simp only [enter, send]
      split_ifs with hsize hempty hfull hnonblock
      · -- the message is too long
        exact ⟨_, rfl, .returns (.refl mq) (.tooLong hsize)⟩
      · -- a process may be told that the queue is no longer empty
        exact h.does_send (agrees_tell mq) (by omega) (by omega)
      · -- full, and the caller does not want to wait
        subst hnonblock
        exact ⟨_, rfl, .returns (.refl mq) (.full (by omega) (by omega))⟩
      · obtain rfl : nonblock = false := by simpa using hnonblock
        exact h.does_sendWaited (by omega)
      · exact h.does_send (.refl mq) (by omega) (by omega)
    | receive nonblock maxlen =>
      simp only [enter, receive]
      split_ifs with hsize hempty hnonblock
      · exact ⟨_, rfl, .returns (.refl mq) (.tooShort hsize)⟩
      · subst hnonblock
        exact ⟨_, rfl, .returns (.refl mq) (.empty (by omega) hempty)⟩
      · obtain rfl : nonblock = false := by simpa using hnonblock
        exact ⟨_, if_pos hempty, .waitsToReceive rfl (by omega) hempty
          ⟨⟨rfl, rfl, rfl, rfl⟩, rfl, rfl⟩⟩
      · exact h.does_receive (.refl mq) (by omega) hempty
    | notify pid notification alive => exact ⟨_, rfl, Found.does_notify pid notification alive⟩
    | sendWaited | receiveWaited => exact hcall.elim

/-! ### A new queue -/

/-- The loop of `mymq_open` makes a chain of the messages. -/
lemma linkFree_spec {size : ℕ} (hsize : 0 < size) (n index : ℕ) (next : ℕ → ℕ) :
    Chain 0 (fun a => some (linkFree size n index next a)) index
        (List.range' (index + size) n size) ∧
      ∀ a < index, linkFree size n index next a = next a := by
  induction n generalizing index next with
  | zero =>
    exact ⟨congrArg some (Function.update_self ..), fun a ha => Function.update_of_ne (by omega) ..⟩
  | succ n ih =>
    obtain ⟨hch, hsame⟩ := ih (index + size) (Function.update next index (index + size))
    refine ⟨⟨?_, by omega, hch⟩, fun a ha => ?_⟩
    · exact congrArg some ((hsame index (by omega)).trans (Function.update_self ..))
    · rw [linkFree, hsame a (by omega), Function.update_of_ne (by omega)]

/-- **A new queue** has no message, and all are free. -/
lemma found_open {maxmsg msgsize : ℤ} (hopen : mqOpen maxmsg msgsize = .ok mq) :
    ∃ fs, Found mq [] fs := by
  unfold mqOpen at hopen
  split at hopen
  · cases hopen
  next hpos =>
  cases hopen
  obtain ⟨size, hsize⟩ : ∃ size, size = SIZEOF_MSG + MSGSIZE msgsize.toNat := ⟨_, rfl⟩
  have hsize₀ : 0 < size := by
    rw [hsize]
    exact Nat.lt_of_lt_of_le (by decide) (Nat.le_add_right _ _)
  obtain ⟨n, hn⟩ : ∃ n, maxmsg.toNat = n + 1 := Nat.exists_eq_succ_of_ne_zero (by omega)
  obtain ⟨hch, hsame⟩ := linkFree_spec hsize₀ n SIZEOF_HDR
    (Function.update (fun _ => 0) MQH_FREE SIZEOF_HDR)
  rw [← hsize, hn, Nat.add_sub_cancel]
  refine ⟨List.range' SIZEOF_HDR (n + 1) size,
    ⟨?_, ⟨?_, by decide, hch⟩, ?_, fun o ho => ?_, ?_, nofun⟩, rfl, Nat.succ_pos n⟩
  · exact congrArg some ((hsame MQH_HEAD (by decide)).trans (Function.update_of_ne (by decide) ..))
  · exact congrArg some ((hsame MQH_FREE (by decide)).trans (Function.update_self ..))
  · exact List.nodup_range' size hsize₀
  · obtain ⟨i, hi, rfl⟩ := List.mem_range'.mp ho
    exact ⟨i, hi, by rw [Nat.mul_comm, hsize]; rfl⟩
  · simp

/-! ### Runs -/

section Runs

variable {τ : Type} {es : List (τ × MqEvent)} {waiting : List Msg}

/-- **What a queue is for**, one call at a time, with the messages that wait in the order in which
they were sent: a send adds one if there is room, and a receive gets the oldest of those with the
highest priority. -/
inductive Effect (maxmsg msgsize : ℕ) : Point → List Msg → Result → List Msg → Prop
  | sends {nonblock : Bool} {m : Msg} {q : List Msg} (hm : m.data.length ≤ msgsize)
      (hroom : q.length < maxmsg) : Effect maxmsg msgsize (.send nonblock m) q .sent (q ++ [m])
  | receives {nonblock : Bool} {n : ℕ} {m : Msg} {l r : List Msg} (hn : msgsize ≤ n)
      (hl : ∀ a ∈ l, a.prio < m.prio) (hr : ∀ a ∈ r, a.prio ≤ m.prio) :
      Effect maxmsg msgsize (.receive nonblock n) (l ++ m :: r) (.received m) (l ++ r)
  | leaves {call : Point} {w : Result} {q : List Msg} (h : Leaves maxmsg msgsize q.length call w) :
      Effect maxmsg msgsize call q w q

structure Holds (maxmsg msgsize : ℕ) (mq : Mq) (waiting : List Msg) : Prop where
  maxmsg : mq.maxmsg = maxmsg
  msgsize : mq.msgsize = msgsize
  ordered : ∃ os fs, Found mq os fs ∧ Ordered Msg.prio (os.map (content mq)) waiting

lemma Holds.length_eq {maxmsg msgsize : ℕ} (h : Holds maxmsg msgsize mq waiting) :
    waiting.length = mq.curmsgs ∧ mq.curmsgs ≤ maxmsg := by
  obtain ⟨os, fs, hfound, hord⟩ := h.ordered
  rw [← hord.perm.length_eq, List.length_map, hfound.count, ← h.maxmsg]
  exact ⟨rfl, hfound.curmsgs_le⟩

/-- **What a thread does is what its call is for.** -/
lemma Does.serves {call : Point} {o : Section} (hdoes : Does mq os fs call o)
    (hfound : Found mq os fs) (hord : Ordered Msg.prio (os.map (content mq)) waiting) :
    ∃ waiting', Holds mq.maxmsg mq.msgsize o.state waiting' ∧
      Serves (Effect mq.maxmsg mq.msgsize) (Pending mq.msgsize) call waiting waiting' o.thread := by
  have hsame {mq' : Mq} (hmq : Agrees mq mq') : Holds mq.maxmsg mq.msgsize mq' waiting :=
    ⟨hmq.maxmsg, hmq.msgsize, os, fs, hfound.agrees hmq, by rwa [hmq.content]⟩
  have hlen : waiting.length = mq.curmsgs := (hsame (.refl mq)).length_eq.1
  cases hdoes with
  | waitsToSend hcall hm =>
    subst hcall
    exact ⟨waiting, hsame (.refl mq), .sendWaited hm, rfl⟩
  | waitsToReceive hcall hn _ hmq =>
    subst hcall
    exact ⟨waiting, hsame hmq, .receiveWaited hn, rfl⟩
  | @sends mq' nonblock m l r fs' o hcall hm hroom hos hfound' hcontent hl hr hcur hmax hsize =>
    subst hcall hos
    rw [List.map_append] at hord
    refine ⟨waiting ++ [m], ⟨hmax, hsize, _, _, hfound', ?_⟩, .sends hm (hlen ▸ hroom)⟩
    rw [hcontent]
    refine hord.enqueue (by simpa using hl) fun a ha => ?_
    -- the messages behind the place are in order, so they are all below
    cases r with
    | nil => cases ha
    | cons x r =>
      have hx : (content mq x).prio < m.prio := hr x rfl
      obtain ⟨hhead, -⟩ := List.pairwise_cons.mp (List.pairwise_append.mp hord.sorted).2.1
      rcases List.mem_cons.mp ha with rfl | ha
      · exact hx
      · exact Nat.lt_of_le_of_lt (hhead a ha) hx
  | receives hcall hn hos hfound' hcontent _ hmax hsize =>
    subst hcall hos
    obtain ⟨l, r, rfl, hl, hr, hord'⟩ := hord.dequeue
    exact ⟨l ++ r, ⟨hmax, hsize, _, _, hfound', by rwa [hcontent]⟩, .receives hn hl hr⟩
  | returns hmq hw => exact ⟨waiting, hsame hmq, .leaves (hlen ▸ hw)⟩

variable [DecidableEq τ] {calls : τ → Point → Prop} {c c' : Conf τ Mq Unit Point Result}

def start (mq : Mq) : Conf τ Mq Unit Point Result := ⟨mq, fun _ => .out .none⟩

/-- **Every run is one of a queue that does one call at a time.** -/
lemma atomic_of_run (hfound : ∃ fs, Found mq [] fs) (hrun : Run (mqueue calls) (start mq) es c) :
    ∃ d : Atomic.Conf τ Point Result (List Msg),
      Traces.Run (Atomic.Step (Effect mq.maxmsg mq.msgsize)) (Atomic.start []) es d ∧
      Holds mq.maxmsg mq.msgsize c.state d.content ∧
      ∀ t, Matches (Pending mq.msgsize) (c.thread t) (d.phase t) := by
  obtain ⟨fs, hfound⟩ := hfound
  refine hrun.atomic _ _ _ ⟨rfl, rfl, [], fs, hfound, ordered_nil⟩ (fun t w p hmay => .call hmay.1)
    fun mq' waiting p call o hholds hp hrun => ?_
  obtain ⟨hmax, hsize, os, fs, hfound, hord⟩ := hholds
  obtain ⟨o', hrun', hdoes⟩ := enter_does hfound (hsize.symm ▸ hp)
  obtain rfl : o = o' := Option.some.inj (hrun.symm.trans hrun')
  have hserves := hdoes.serves hfound hord
  rwa [hmax, hsize] at hserves

lemma does_of_run (hfound : ∃ fs, Found mq [] fs) (hrun : Run (mqueue calls) (start mq) es c)
    {t : τ} {p : Point} (ht : c.thread t = .ready p) :
    ∃ os fs call o, Found c.state os fs ∧ Pending mq.msgsize p call ∧ enter p c.state = some o ∧
      Does c.state os fs call o := by
  obtain ⟨d, -, ⟨-, hsize, os, fs, hfound, -⟩, hmatch⟩ := atomic_of_run hfound hrun
  have hp := hmatch t
  rw [ht] at hp
  obtain ⟨call, hp, -⟩ := hp
  obtain ⟨o, hrun, hdoes⟩ := enter_does hfound (hsize.symm ▸ hp)
  exact ⟨os, fs, call, o, hfound, hp, hrun, hdoes⟩

lemma attr_open {maxmsg msgsize : ℤ} (hopen : mqOpen maxmsg msgsize = .ok mq) :
    (mq.maxmsg : ℤ) = maxmsg ∧ (mq.msgsize : ℤ) = msgsize := by
  unfold mqOpen at hopen
  split at hopen
  · cases hopen
  · cases hopen
    exact ⟨Int.toNat_of_nonneg (by omega), Int.toNat_of_nonneg (by omega)⟩

/-- **A queue hands over what is sent**, whatever the interleaving: the calls of a run and their
results are those of a queue that does one call at a time. A message that is received is one that
was sent with this priority and these bytes, it is received once, and it is the oldest of those with
the highest priority. The functions never dump core and never leave the file, and no more than
`mq_maxmsg` messages wait. -/
theorem mq_delivers {maxmsg msgsize : ℤ} (hopen : mqOpen maxmsg msgsize = .ok mq)
    (hrun : Run (mqueue calls) (start mq) es c) :
    ¬Faults (mqueue calls) c ∧ ∃ phase waiting,
      Traces.Run (Atomic.Step (Effect maxmsg.toNat msgsize.toNat)) (Atomic.start []) es
        ⟨phase, waiting⟩ ∧
      waiting.length = c.state.curmsgs ∧ (waiting.length : ℤ) ≤ maxmsg := by
  obtain ⟨rfl, rfl⟩ := attr_open hopen
  have hfound := found_open hopen
  obtain ⟨⟨phase, waiting⟩, hatomic, hholds, -⟩ := atomic_of_run hfound hrun
  obtain ⟨hlen, hle⟩ := hholds.length_eq
  refine ⟨?_, phase, waiting, hatomic, hlen, Int.ofNat_le.mpr (hlen.trans_le hle)⟩
  rintro ⟨t, p, ht, hnone⟩
  obtain ⟨-, -, -, o, -, -, hsome, -⟩ := does_of_run hfound hrun ht
  cases hnone.symm.trans hsome

/-- One thread sends two messages, and another one receives the second of them first. -/
lemma exists_overtaken : ∃ mq es c, mqOpen 2 8 = .ok mq ∧
    Run (mqueue fun (_ : Bool) _ => True) (start mq) es c ∧
    es = [(false, .call (.send false ⟨5, [3]⟩)), (false, .ret .sent),
      (false, .call (.send false ⟨7, [1, 2]⟩)), (false, .ret .sent),
      (true, .call (.receive false 8)), (true, .ret (.received ⟨7, [1, 2]⟩)),
      (true, .call (.receive false 8)), (true, .ret (.received ⟨5, [3]⟩))] := by
  have hmay (t : Bool) (w : Result) (p : Point) (hp : IsCall p) :
      (mqueue fun (_ : Bool) _ => True).may t w p := ⟨hp, trivial⟩
  refine ⟨_, _, _, rfl, .tail (.tail (.tail (.tail (.tail (.tail (.tail (.tail .refl
    (.call (t := false) rfl (hmay _ _ (.send false ⟨5, [3]⟩) trivial)))
    (.enter (t := false) rfl rfl (.none fun u q => ?_)))
    (.call (t := false) rfl (hmay _ _ (.send false ⟨7, [1, 2]⟩) trivial)))
    (.enter (t := false) rfl rfl .nobody))
    (.call (t := true) rfl (hmay _ _ (.receive false 8) trivial)))
    (.enter (t := true) rfl rfl (.none fun u q => ?_)))
    (.call (t := true) rfl (hmay _ _ (.receive false 8) trivial)))
    (.enter (t := true) rfl rfl .nobody), ?_⟩
  · cases u <;> exact nofun
  · cases u <;> exact nofun
  · rfl

theorem exists_overtaken_delivers : ∃ mq es c, mqOpen 2 8 = .ok mq ∧
    Run (mqueue fun (_ : Bool) _ => True) (start mq) es c ∧
    es = [(false, .call (.send false ⟨5, [3]⟩)), (false, .ret .sent),
      (false, .call (.send false ⟨7, [1, 2]⟩)), (false, .ret .sent),
      (true, .call (.receive false 8)), (true, .ret (.received ⟨7, [1, 2]⟩)),
      (true, .call (.receive false 8)), (true, .ret (.received ⟨5, [3]⟩))] ∧
    ¬Faults (mqueue fun (_ : Bool) _ => True) c ∧ ∃ phase waiting,
      Traces.Run (Atomic.Step (Effect 2 8)) (Atomic.start []) es ⟨phase, waiting⟩ ∧
      waiting.length = c.state.curmsgs ∧ (waiting.length : ℤ) ≤ 2 := by
  obtain ⟨mq, es, c, hopen, hrun, hes⟩ := exists_overtaken
  exact ⟨mq, es, c, hopen, hrun, hes, mq_delivers hopen hrun⟩

/-! ### Waiting -/

/-- A thread that is sending and waits if the queue is full. -/
def Sending : Thread Unit Point Result → Prop
  | .ready (.send false _) | .ready (.sendWaited _) | .asleep _ (.sendWaited _) => True
  | _ => False

/-- A thread that is receiving and waits if the queue is empty. -/
def Receiving : Thread Unit Point Result → Prop
  | .ready (.receive false _) | .ready .receiveWaited | .asleep _ .receiveWaited => True
  | _ => False

/-- One thread waits to send at most, and one to receive; they wait for good reason. -/
structure Paired (s r : τ) (c : Conf τ Mq Unit Point Result) : Prop where
  sender : ∀ t, Sending (c.thread t) → t = s
  receiver : ∀ t, Receiving (c.thread t) → t = r
  point : ∀ t p, c.thread t = .asleep () p → (∃ m, p = .sendWaited m) ∨ p = .receiveWaited
  full : ∀ t m, c.thread t = .asleep () (.sendWaited m) → c.state.curmsgs = c.state.maxmsg
  empty : ∀ t, c.thread t = .asleep () .receiveWaited → c.state.curmsgs = 0

section Waiting

variable {s r : τ} {th : τ → Thread Unit Point Result} {t u : τ} {p : Point} {o : Section}

lemma Paired.signalled (h : Paired s r c) (hroom : 0 < c.state.maxmsg)
    (hw : Wakes (.signal ()) c.thread th) (hu : c.thread u = .asleep () p) :
    th u ≠ .asleep () p := by
  cases hw with
  | none hnone => exact absurd hu (hnone u p)
  | @one _ _ v q hv =>
    have hvu : v = u := by
      rcases h.point u p hu with ⟨m, rfl⟩ | rfl
      · rcases h.point v q hv with ⟨m', rfl⟩ | rfl
        · exact (h.sender v (by rw [hv]; trivial)).trans (h.sender u (by rw [hu]; trivial)).symm
        · -- the queue is not full and empty at once
          have := h.full u m hu
          have := h.empty v hv
          omega
      · rcases h.point v q hv with ⟨m', rfl⟩ | rfl
        · have := h.full v m' hv
          have := h.empty u hu
          omega
        · exact (h.receiver v (by rw [hv]; trivial)).trans (h.receiver u (by rw [hu]; trivial)).symm
    rw [hvu, Function.update_self]
    simp

lemma Paired.thread_enter {n : ℕ} {call : Point} (h : Paired s r c)
    (hp : Pending n p call) (hdoes : Does c.state os fs call o) (ht : c.thread t = .ready p)
    (hw : Wakes o.wake c.thread th) :
    (Sending (Function.update th t o.thread u) → Sending (c.thread u)) ∧
      (Receiving (Function.update th t o.thread u) → Receiving (c.thread u)) := by
  by_cases hut : u = t
  · subst hut
    rw [Function.update_self, ht]
    cases hdoes with
    | waitsToSend hcall =>
      subst hcall
      exact ⟨fun _ => by cases hp <;> trivial, False.elim⟩
    | waitsToReceive hcall =>
      subst hcall
      exact ⟨False.elim, fun _ => by cases hp <;> trivial⟩
    | sends | receives | returns => exact ⟨False.elim, False.elim⟩
  · rw [Function.update_of_ne hut]
    rcases hw.same_or_woken u with hsame | ⟨k, q, hold, hwoken⟩
    · rw [hsame]
      exact ⟨id, id⟩
    · rw [hold, hwoken]
      rcases h.point u q hold with ⟨m, rfl⟩ | rfl
      · exact ⟨id, id⟩
      · exact ⟨id, id⟩

/-- **A thread that waits has reason to**, also after another one has entered. -/
lemma Paired.entered {n : ℕ} {call : Point} (h : Paired s r c) (hfound : Found c.state os fs)
    (ht : c.thread t = .ready p) (hp : Pending n p call) (hdoes : Does c.state os fs call o)
    (hw : Wakes o.wake c.thread th) :
    Paired s r ⟨o.state, Function.update th t o.thread⟩ := by
  have hroom := hfound.room
  refine ⟨fun u hu => h.sender u ((h.thread_enter hp hdoes ht hw).1 hu),
    fun u hu => h.receiver u ((h.thread_enter hp hdoes ht hw).2 hu), fun u q hu => ?_,
    fun u m hu => ?_, fun u hu => ?_⟩
  · rcases hw.asleep_enter hu with hself | ⟨hold, -⟩
    · cases hdoes <;> cases hself
      · exact .inl ⟨_, rfl⟩
      · exact .inr rfl
    · exact h.point u q hold
  · -- who waits to send finds the queue full
    rcases hw.asleep_enter hu with hself | ⟨hold, hstill⟩
    · cases hdoes <;> cases hself
      assumption
    · have hfull := h.full u m hold
      cases hdoes with
      | waitsToSend => exact hfull
      | waitsToReceive _ _ _ hmq => rw [hmq.curmsgs, hmq.maxmsg, hfull]
      | sends _ _ hroom => omega
      | receives =>
        rw [if_pos hfull] at hw
        exact absurd hstill (h.signalled hroom hw hold)
      | returns hmq => rw [hmq.curmsgs, hmq.maxmsg, hfull]
  · -- who waits to receive finds it empty
    rcases hw.asleep_enter hu with hself | ⟨hold, hstill⟩
    · cases hdoes with
      | waitsToReceive _ _ hempty hmq => rw [hmq.curmsgs, hempty]
      | _ => cases hself
    · have hempty := h.empty u hold
      cases hdoes with
      | waitsToSend => exact hempty
      | waitsToReceive _ _ _ hmq => rw [hmq.curmsgs, hempty]
      | sends =>
        rw [if_pos hempty] at hw
        exact absurd hstill (h.signalled hroom hw hold)
      | receives _ _ _ _ _ hcur => omega
      | returns hmq => rw [hmq.curmsgs, hempty]

lemma Paired.readied (h : Paired s r c) (hs : Sending (.ready p) → t = s)
    (hr : Receiving (.ready p) → t = r) :
    Paired s r ⟨c.state, Function.update c.thread t (.ready p)⟩ := by
  have hasleep {u : τ} {k : Unit} {q : Point}
      (hu : Function.update c.thread t (.ready p) u = .asleep k q) : c.thread u = .asleep k q := by
    by_cases hut : u = t
    · rw [hut, Function.update_self] at hu
      cases hu
    · rwa [Function.update_of_ne hut] at hu
  refine ⟨fun u hu => ?_, fun u hu => ?_, fun u q hu => h.point u q (hasleep hu),
    fun u m hu => h.full u m (hasleep hu), fun u hu => h.empty u (hasleep hu)⟩
  · dsimp only at hu
    by_cases hut : u = t
    · rw [hut, Function.update_self] at hu
      rw [hut, hs hu]
    · rw [Function.update_of_ne hut] at hu
      exact h.sender u hu
  · dsimp only at hu
    by_cases hut : u = t
    · rw [hut, Function.update_self] at hu
      rw [hut, hr hu]
    · rw [Function.update_of_ne hut] at hu
      exact h.receiver u hu

end Waiting

/-- **One sender and one receiver wake each other.** If one thread only makes sends that wait, and
one only receives that wait, then a thread that sleeps has nothing to do: the queue is full if it
sends, and empty if it receives. -/
theorem mq_waits_for_reason {maxmsg msgsize : ℤ} {s r : τ} (hopen : mqOpen maxmsg msgsize = .ok mq)
    (hsender : ∀ t m, calls t (.send false m) → t = s)
    (hreceiver : ∀ t n, calls t (.receive false n) → t = r)
    (hrun : Run (mqueue calls) (start mq) es c) (t : τ) :
    (∀ m, c.thread t = .asleep () (.sendWaited m) → (c.state.curmsgs : ℤ) = maxmsg) ∧
      (c.thread t = .asleep () .receiveWaited → c.state.curmsgs = 0) := by
  have hpaired : Paired s r c := by
    refine hrun.invariant (P := fun _ c => Paired s r c)
      ⟨fun _ => False.elim, fun _ => False.elim, nofun, nofun, nofun⟩
      fun es c e c' hpre hpaired hstep => ?_
    cases hstep with
    | @call t w p ht hmay =>
      obtain ⟨hcall, hcalls⟩ := hmay
      refine hpaired.readied (fun hs => ?_) fun hr => ?_
      · match p, hs, hcall with
        | .send false m, _, _ => exact hsender t m hcalls
      · match p, hr, hcall with
        | .receive false n, _, _ => exact hreceiver t n hcalls
    | @enter t p o th ht hrun hw =>
      obtain ⟨os, fs, call, o', hfound, hp, hrun', hdoes⟩ := does_of_run (found_open hopen) hpre ht
      obtain rfl : o = o' := Option.some.inj (hrun.symm.trans hrun')
      exact hpaired.entered hfound ht hp hdoes hw
    | @spurious t k p ht =>
      refine hpaired.readied (fun hs => hpaired.sender t ?_) fun hr => hpaired.receiver t ?_
      · rw [ht]
        rcases hpaired.point t p ht with ⟨m, rfl⟩ | rfl
        · trivial
        · exact hs
      · rw [ht]
        rcases hpaired.point t p ht with ⟨m, rfl⟩ | rfl
        · exact hr
        · trivial
  obtain ⟨_, -, hholds, -⟩ := atomic_of_run (found_open hopen) hrun
  refine ⟨fun m ht => ?_, hpaired.empty t⟩
  rw [hpaired.full t m ht, hholds.maxmsg, (attr_open hopen).1]

/-- Two threads, one of which sends twice, to a queue that holds one message. -/
lemma exists_full : ∃ mq es c, mqOpen 1 8 = .ok mq ∧
    Run (mqueue fun (t : Bool) p => t = false ∧ ∃ m, p = .send false m) (start mq) es c ∧
    c.thread false = .asleep () (.sendWaited ⟨7, [1, 2]⟩) := by
  have hcall (m : Msg) : IsCall (.send false m) ∧ false = false ∧
      ∃ m', Point.send false m = .send false m' :=
    ⟨trivial, rfl, m, rfl⟩
  refine ⟨_, _, _, rfl, .tail (.tail (.tail (.tail .refl
    (.call (t := false) rfl (hcall ⟨5, [3]⟩)))
    (.enter (t := false) rfl rfl (.none fun u q => ?_)))
    (.call (t := false) rfl (hcall ⟨7, [1, 2]⟩)))
    (.enter (t := false) rfl rfl .nobody), rfl⟩
  cases u
  · exact nofun
  · exact nofun

theorem exists_full_waits : ∃ mq es c, mqOpen 1 8 = .ok mq ∧
    Run (mqueue fun (t : Bool) p => t = false ∧ ∃ m, p = .send false m) (start mq) es c ∧
    (c.state.curmsgs : ℤ) = 1 := by
  obtain ⟨mq, es, c, hopen, hrun, hwait⟩ := exists_full
  refine ⟨mq, es, c, hopen, hrun, (mq_waits_for_reason (s := false) (r := true) hopen
    (fun t _ h => h.1) (fun t n h => ?_) hrun false).1 _ hwait⟩
  obtain ⟨-, m, hm⟩ := h
  cases hm

end Runs

end Zinzhi.MsgQueue
