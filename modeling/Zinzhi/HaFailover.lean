import Mathlib.Logic.Encodable.Basic
import Mathlib.Logic.Equiv.List
import Zinzhi.HaController

/-!
The pair over its whole life: commits, link failures, notifications, restarts and
reconciliations in any order.

A database is the list of the transactions committed to it, each with a number of its own,
and the transaction id identifies that list. No node is made slave while it holds a
transaction its master lacks, as long as the event id is only ever saved when there is no
such transaction and is there whenever a lone master commits.
-/

namespace Zinzhi.HaFailover

open Zinzhi.Interact Zinzhi.HaNode Zinzhi.HaRemote Zinzhi.HaController

/-- A database, by the transactions committed to it. -/
abbrev Db := List ℕ

structure Cluster where
  world : World Db
  nextTx : ℕ

inductive Event
  | commit (s : Side)
  | linkLoss
  | linkRecovery
  | haEvent (s : Side)
  /-- NCS restarts; its peer may or may not notice the lost connection. -/
  | restart (s : Side) (noticed : Bool)
  | initialDetermination (s : Side)
  | reConnected (s : Side)
  deriving DecidableEq, Repr

/-- Node `s` is connected to its peer as a slave. -/
def connected (w : World Db) (s : Side) : Bool :=
  match (w.node s).status with
  | .slave _ c => c
  | _ => false

def notify (e : HaInfo) (noticed : Bool) (n : Node Db) : Node Db :=
  if noticed then { n with notifs := n.notifs ++ [e] } else n

def unplug (n : Node Db) : Node Db :=
  match n.status with
  | .slave m _ => { n with status := .slave m false }
  | _ => n

/-- Slave `s` loses the connection to its master. -/
def dropSlave (noticed : Bool) (s : Side) (w : World Db) : World Db :=
  if connected w s then
    let w' := w.modify s fun n => notify .nomaster noticed (unplug n)
    if (w.node s.peer).status = .master then w'.modify s.peer (notify .slaveDied noticed) else w'
  else w

/-- The node after a restart: a new controller reads the event id back from its file and
opens a new notification socket. -/
def rebooted (n : Node Db) : Node Db :=
  { n with
    status := .none
    eventTxId := n.txidFile
    vipsup := []
    notifs := []
    phase := .init
    reconnectors := 0 }

def append (t : ℕ) (n : Node Db) : Node Db := { n with cdb := n.cdb ++ [t] }

variable (conf : Conf) (txId : Db → CdbTxId)

/-- The phase of the component after `init` or one round of `run`. -/
def phaseAfter (old : Phase) : Outcome Exn Unit → Phase
  | .done _ => .running
  | .again => old
  | .threw _ => .ended

def finish (s : Side) (r : Outcome Exn Unit × World Db) : World Db :=
  r.2.modify s fun n => { n with phase := phaseAfter n.phase r.1 }

/-- A reconnector ends after a reconciliation that did not throw. -/
def retire (s : Side) (r : Outcome Exn Unit × World Db) : World Db :=
  match r.1 with
  | .threw _ => r.2
  | _ => r.2.modify s fun n => { n with reconnectors := n.reconnectors - 1 }

def step (c : Cluster) : Event → Option Cluster
  | .commit s =>
    if (c.world.node s).status = .master then
      let w := c.world.modify s (append c.nextTx)
      some ⟨if connected c.world s.peer then w.modify s.peer (append c.nextTx) else w,
        c.nextTx + 1⟩
    else none
  | .linkLoss =>
    if c.world.link then
      some { c with world := { dropSlave true .a (dropSlave true .b c.world) with link := false } }
    else none
  | .linkRecovery => some { c with world := { c.world with link := true } }
  | .haEvent s =>
    match (c.world.node s).phase, (c.world.node s).notifs with
    | .running, e :: rest =>
      let w := c.world.modify s fun n => { n with notifs := rest }
      some { c with world := finish s (run (exec conf txId s) (haEvent conf s e) w) }
    | _, _ => none
  | .restart s noticed =>
    some { c with
      world := (dropSlave noticed s (dropSlave noticed s.peer c.world)).modify s rebooted }
  | .initialDetermination s =>
    if (c.world.node s).phase = .init then
      some { c with
        world := finish s (run (exec conf txId s) (initialDetermination conf s) c.world) }
    else none
  | .reConnected s =>
    if c.world.link ∧ 0 < (c.world.node s).reconnectors then
      some { c with world := retire s (run (exec conf txId s) (reConciliation conf s) c.world) }
    else none

def runAll (c : Cluster) (es : List Event) : Option Cluster := es.foldlM (step conf txId) c

/-! ### When the event id is kept properly -/

/-- Every transaction of node `s` is also at its peer. -/
def Covered (w : World Db) (s : Side) : Prop := (w.node s).cdb ⊆ (w.node s.peer).cdb

instance (w : World Db) (s : Side) : Decidable (Covered w s) :=
  inferInstanceAs (Decidable ((w.node s).cdb ⊆ (w.node s.peer).cdb))

/-- Whether processing the notification saves the transaction id. -/
def saves : HaInfo → Bool
  | .nomaster | .slaveDied | .slaveInitialized => true
  | .slaveArrived | .isMaster | .isNone => false

/-- A master commits alone only with an event id to compare with, and a node saves its
transaction id only while its peer has all it has. -/
def Proper (c : Cluster) : Event → Prop
  | .commit s => connected c.world s.peer = true ∨ (c.world.node s).eventTxId ≠ .none
  | .haEvent s => ∀ e ∈ (c.world.node s).notifs.head?, saves e = true → Covered c.world s
  | .initialDetermination s => c.world.link = true ∨ Covered c.world s
  | _ => True

instance (c : Cluster) : (e : Event) → Decidable (Proper c e)
  | .commit _ => inferInstanceAs (Decidable (_ ∨ _))
  | .haEvent s => inferInstanceAs
      (Decidable (∀ e ∈ (c.world.node s).notifs.head?, saves e = true → Covered c.world s))
  | .initialDetermination _ => inferInstanceAs (Decidable (_ ∨ _))
  | .linkLoss | .linkRecovery | .restart _ _ | .reConnected _ => instDecidableTrue

/-- Every step of the run is proper in the state it is taken in. -/
def ProperRun (c : Cluster) : List Event → Prop
  | [] => True
  | e :: es =>
    Proper c e ∧ match step conf txId c e with
      | some c' => ProperRun c' es
      | none => True

instance decidableProperRun : (c : Cluster) → (es : List Event) →
    Decidable (ProperRun conf txId c es)
  | _, [] => instDecidableTrue
  | c, e :: es =>
    match hs : step conf txId c e with
    | some c' =>
      have := decidableProperRun c' es
      decidable_of_iff (Proper c e ∧ ProperRun conf txId c' es) (by simp [ProperRun, hs])
    | none => decidable_of_iff (Proper c e) (by simp [ProperRun, hs])

/-- Whenever a node was made slave, its master had all it had. -/
def NothingLost (w : World Db) : Prop := ∀ p ∈ w.slaved, p.1 ⊆ p.2

/-! ### The invariant -/

/-- With transactions below `n` committed so far: nothing has been lost; a node ahead of its
peer shows a difference; a connected slave is level with its master; the event id is the one
on file and is the id of an old database. -/
structure Inv (n : ℕ) (w : World Db) : Prop where
  lost : NothingLost w
  ahead : ∀ s, ¬Covered w s → diff txId w s = true
  level : ∀ s, connected w s = true → (w.node s).cdb = (w.node s.peer).cdb
  file : ∀ s, (w.node s).txidFile = (w.node s).eventTxId
  old : ∀ s, ∀ t ∈ (w.node s).cdb, t < n
  event : ∀ s, ∀ e ∈ (w.node s).eventTxId, ∃ l, txId l = e ∧ ∀ t ∈ l, t < n

variable {conf txId} {n : ℕ} {w w' : World Db} {s : Side}

lemma covered_of_diff (h : Inv txId n w) (hd : diff txId w s = false) : Covered w s := by
  by_contra hc
  simp [h.ahead s hc] at hd

lemma covered_of_cdb_eq (h : ∀ s, (w'.node s).cdb = (w.node s).cdb) (s : Side) :
    Covered w' s ↔ Covered w s := by
  unfold Covered; rw [h, h]

lemma modify_proj {α : Type} (g : Node Db → α) {f : Node Db → Node Db}
    (hg : g (f (w.node s)) = g (w.node s)) (t : Side) :
    g ((w.modify s f).node t) = g (w.node t) := by
  rcases eq_or_eq_peer s t with rfl | rfl
  · rw [modify_self, hg]
  · rw [modify_peer]

/-- What touches neither database nor event id, and connects nobody, keeps the invariant. -/
lemma inv_keep (h : Inv txId n w) (hslaved : w'.slaved = w.slaved)
    (hcdb : ∀ s, (w'.node s).cdb = (w.node s).cdb)
    (hev : ∀ s, (w'.node s).eventTxId = (w.node s).eventTxId)
    (hfile : ∀ s, (w'.node s).txidFile = (w.node s).txidFile)
    (hconn : ∀ s, connected w' s = true → connected w s = true) : Inv txId n w' := by
  refine ⟨?_, fun s hc => ?_, fun s hc => ?_, fun s => ?_, fun s => ?_, fun s => ?_⟩
  · unfold NothingLost; rw [hslaved]; exact h.lost
  · have hd := h.ahead s (mt (covered_of_cdb_eq hcdb s).mpr hc)
    unfold diff HALocalNode.hasDiff at hd ⊢
    rw [hev, hcdb]; exact hd
  · rw [hcdb, hcdb]; exact h.level s (hconn s hc)
  · rw [hfile, hev]; exact h.file s
  · rw [hcdb]; exact h.old s
  · rw [hev]; exact h.event s

lemma inv_modify (h : Inv txId n w) (s : Side) (f : Node Db → Node Db)
    (hcdb : (f (w.node s)).cdb = (w.node s).cdb)
    (hev : (f (w.node s)).eventTxId = (w.node s).eventTxId)
    (hfile : (f (w.node s)).txidFile = (w.node s).txidFile)
    (hst : ∀ m, (f (w.node s)).status = .slave m true → (w.node s).status = .slave m true) :
    Inv txId n (w.modify s f) := by
  refine inv_keep h rfl (modify_proj Node.cdb hcdb) (modify_proj Node.eventTxId hev)
    (modify_proj Node.txidFile hfile) fun t ht => ?_
  unfold connected at ht ⊢
  rcases eq_or_eq_peer s t with rfl | rfl
  · rw [modify_self] at ht
    rcases hs : (f (w.node t)).status with _ | _ | ⟨m, _ | _⟩ | m <;> simp [hs] at ht
    simp [hst m hs]
  · rwa [modify_peer] at ht

lemma inv_mastered (conf : Conf) (h : Inv txId n w) (s : Side) :
    Inv txId n (w.modify s (HALocalNode.mastered conf s)) :=
  inv_modify h s _ rfl rfl rfl (by simp)

lemma inv_unset (h : Inv txId n w) (s : Side) : Inv txId n (w.modify s HALocalNode.unset) :=
  inv_modify h s _ rfl rfl rfl (by simp)

/-- Saving the id is harmless while the peer has everything. -/
lemma inv_saved (h : Inv txId n w) (hc : Covered w s) :
    Inv txId n (w.modify s (HALocalNode.saved txId)) := by
  have hcdb : ∀ t, ((w.modify s (HALocalNode.saved txId)).node t).cdb = (w.node t).cdb :=
    modify_proj Node.cdb rfl
  have hst : ∀ t, ((w.modify s (HALocalNode.saved txId)).node t).status = (w.node t).status :=
    modify_proj Node.status rfl
  refine ⟨h.lost, fun t ht => ?_, fun t ht => ?_, fun t => ?_, fun t => ?_, fun t => ?_⟩
  · rw [covered_of_cdb_eq hcdb] at ht
    rcases eq_or_eq_peer s t with rfl | rfl
    · exact absurd hc ht
    · unfold diff
      rw [modify_peer]; exact h.ahead _ ht
  · unfold connected at ht
    rw [hst] at ht
    rw [hcdb, hcdb]; exact h.level t ht
  · rcases eq_or_eq_peer s t with rfl | rfl
    · rw [modify_self]; rfl
    · rw [modify_peer]; exact h.file _
  · rw [hcdb]; exact h.old t
  · rcases eq_or_eq_peer s t with rfl | rfl
    · rw [modify_self]
      rintro e ⟨⟩
      exact ⟨_, rfl, h.old t⟩
    · rw [modify_peer]; exact h.event _

/-- A node that holds nothing more than its peer can be made its slave. -/
lemma inv_enslave (conf : Conf) (h : Inv txId n w) (hc : Covered w s) :
    Inv txId n (HALocalNode.enslave conf s s.peer w) := by
  have hself := HALocalNode.enslave_self conf s s.peer w
  have hpeer := HALocalNode.enslave_peer conf s s.peer w
  refine ⟨?_, fun t ht => ?_, fun t ht => ?_, fun t => ?_, fun t => ?_, fun t => ?_⟩
  · intro p hp
    rcases List.mem_append.mp hp with hp | hp
    · exact h.lost p hp
    · rw [List.mem_singleton.mp hp]; exact hc
  · refine absurd ?_ ht
    unfold Covered
    rcases eq_or_eq_peer s t with rfl | rfl
    · rw [hself, hpeer]; exact List.Subset.refl _
    · rw [peer_peer, hself, hpeer]; exact List.Subset.refl _
  · rcases eq_or_eq_peer s t with rfl | rfl
    · rw [hself, hpeer]; rfl
    · rw [peer_peer, hself, hpeer]; rfl
  · rcases eq_or_eq_peer s t with rfl | rfl
    · rw [hself]; exact h.file t
    · rw [hpeer]; exact h.file s.peer
  · rcases eq_or_eq_peer s t with rfl | rfl
    · rw [hself]; exact h.old t.peer
    · rw [hpeer]; exact h.old s.peer
  · rcases eq_or_eq_peer s t with rfl | rfl
    · rw [hself]; exact h.event t
    · rw [hpeer]; exact h.event s.peer

lemma inv_paired (h : Inv txId n w) {m : Side} (hc : Covered w m.peer) :
    Inv txId n (paired conf m w) := by
  have hc' : Covered (w.modify m (HALocalNode.mastered conf m)) m.peer :=
    (covered_of_cdb_eq (modify_proj Node.cdb rfl) m.peer).mpr hc
  have hinv := inv_enslave conf (inv_mastered conf h m) hc'
  rwa [peer_peer] at hinv

/-! ### The steps -/

lemma inv_reconciled (h : Inv txId n w) (me : Side) : Inv txId n (reconciled conf txId me w) := by
  unfold reconciled
  cases hL : diff txId w me <;> cases hR : diff txId w me.peer
  · by_cases hp : isPreferredMaster conf me
    · simp only [hp, if_true]
      exact inv_paired h (covered_of_diff h hR)
    · simp only [hp]
      exact inv_enslave conf h (covered_of_diff h hL)
  · refine inv_enslave conf (inv_unset h me) ?_
    exact (covered_of_cdb_eq (modify_proj Node.cdb rfl) me).mpr (covered_of_diff h hL)
  · exact inv_paired h (covered_of_diff h hR)
  · exact h

lemma inv_determinedByStatus (h : Inv txId n w) {me : Side} (hL : diff txId w me = false) :
    Inv txId n (determinedByStatus conf me w).2 := by
  have hc := covered_of_diff h hL
  unfold determinedByStatus
  cases (w.node me.peer).status.getHaState
  · by_cases hp : isPreferredMaster conf me
    · rw [if_pos hp]
      exact inv_mastered conf h me
    · rw [if_neg hp]
      exact h
  · cases (w.node me).status.getHaState
    · exact inv_enslave conf h hc
    · refine inv_enslave conf (inv_unset h me) ?_
      exact (covered_of_cdb_eq (modify_proj Node.cdb rfl) me).mpr hc
    · exact h
    · exact h
  · exact h
  · exact h

lemma inv_determined (h : Inv txId n w) {me : Side} (hp : w.link = true ∨ Covered w me) :
    Inv txId n (determined conf txId me w).2 := by
  unfold determined
  by_cases hl : w.link
  · rw [if_pos hl]
    cases hd : diff txId w me || diff txId w me.peer
    · exact inv_determinedByStatus h (Bool.or_eq_false_iff.mp hd).1
    · exact inv_reconciled h me
  · rw [if_neg hl]
    exact inv_mastered conf (inv_saved h (hp.resolve_left hl)) me

lemma inv_parted (conf : Conf) (h : Inv txId n w) (hc : Covered w s) :
    Inv txId n (w.modify s (parted conf txId s)) := by
  unfold parted
  by_cases hp : isPreferredMaster conf s
  · simp only [hp, if_true]
    have h' := inv_modify (inv_saved h hc) s
      (fun n => { n with reconnectors := n.reconnectors + 1 }) rfl rfl rfl (fun _ hm => hm)
    simpa [World.modify, HALocalNode.saved] using h'
  · simp only [hp]
    exact inv_saved h hc

lemma inv_notified (h : Inv txId n w) {e : HaInfo} (hp : saves e = true → Covered w s) :
    Inv txId n (w.modify s (notified conf txId s e)) := by
  have hsame : ∀ w : World Db, w.modify s (fun n => n) = w := by simp [World.modify]
  cases e with
  | nomaster =>
    have h' := inv_mastered conf (inv_parted conf h (hp rfl)) s
    simpa [World.modify, notified] using h'
  | slaveDied => exact inv_parted conf h (hp rfl)
  | slaveInitialized => exact inv_saved h (hp rfl)
  | slaveArrived => exact (hsame w).symm ▸ h
  | isMaster => exact (hsame w).symm ▸ h
  | isNone => exact (hsame w).symm ▸ h

lemma inv_finish {r : Outcome Exn Unit × World Db} (h : Inv txId n r.2) (s : Side) :
    Inv txId n (finish s r) :=
  inv_modify h s _ rfl rfl rfl fun _ hm => hm

lemma inv_retire {r : Outcome Exn Unit × World Db} (h : Inv txId n r.2) (s : Side) :
    Inv txId n (retire s r) := by
  unfold retire
  cases r.1 with
  | threw e => exact h
  | done a => exact inv_modify h s _ rfl rfl rfl fun _ hm => hm
  | again => exact inv_modify h s _ rfl rfl rfl fun _ hm => hm

lemma inv_notify (h : Inv txId n w) (s : Side) (e : HaInfo) (b : Bool) :
    Inv txId n (w.modify s (notify e b)) := by
  cases b
  · exact inv_modify h s _ rfl rfl rfl fun _ hm => hm
  · exact inv_modify h s _ rfl rfl rfl fun _ hm => hm

lemma inv_dropSlave (h : Inv txId n w) (b : Bool) (s : Side) : Inv txId n (dropSlave b s w) := by
  unfold dropSlave
  by_cases hc : connected w s
  · rw [if_pos hc]
    have hun : Inv txId n (w.modify s unplug) := by
      refine inv_modify h s unplug ?_ ?_ ?_ ?_ <;> unfold unplug <;>
        cases hst : (w.node s).status <;> simp [hst]
    have hdrop : Inv txId n (w.modify s fun n => notify .nomaster b (unplug n)) := by
      simpa [World.modify] using inv_notify hun s .nomaster b
    by_cases hm : (w.node s.peer).status = .master
    · rw [if_pos hm]
      exact inv_notify hdrop s.peer .slaveDied b
    · rw [if_neg hm]
      exact hdrop
  · rwa [if_neg hc]

lemma inv_link (h : Inv txId n w) (l : Bool) : Inv txId n { w with link := l } :=
  inv_keep h rfl (fun _ => rfl) (fun _ => rfl) (fun _ => rfl) fun _ hc => hc

lemma inv_rebooted (h : Inv txId n w) (s : Side) : Inv txId n (w.modify s rebooted) :=
  inv_modify h s rebooted rfl (h.file s) rfl (by simp [rebooted])

lemma inv_mono (h : Inv txId n w) {m : ℕ} (hnm : n ≤ m) : Inv txId m w :=
  ⟨h.lost, h.ahead, h.level, h.file, fun s t ht => (h.old s t ht).trans_le hnm, fun s e he => by
    obtain ⟨l, hl, hlt⟩ := h.event s e he
    exact ⟨l, hl, fun t ht => (hlt t ht).trans_le hnm⟩⟩

/-- The id of a database with a new transaction is no old event id. -/
lemma diff_append (hinj : Function.Injective txId) (h : Inv txId n w)
    (he : (w.node s).eventTxId ≠ .none) :
    HALocalNode.hasDiff txId (append n (w.node s)) = true := by
  obtain ⟨e, hev⟩ := Option.ne_none_iff_exists'.mp he
  obtain ⟨l, rfl, hlt⟩ := h.event s e hev
  have hne : l ≠ (w.node s).cdb ++ [n] := by
    rintro rfl
    exact absurd (hlt n (by simp)) (lt_irrefl n)
  simp [HALocalNode.hasDiff, append, hev, HALocalNode.differs_eq, hinj.eq_iff, hne]

lemma append_lt {l : Db} (h : ∀ t ∈ l, t < n) : ∀ t ∈ l ++ [n], t < n + 1 := by
  intro t ht
  rcases List.mem_append.mp ht with ht | ht
  · exact (h t ht).trans (Nat.lt_succ_self n)
  · rw [List.mem_singleton.mp ht]; exact Nat.lt_succ_self n

lemma inv_commit_alone (hinj : Function.Injective txId) (h : Inv txId n w)
    (hm : (w.node s).status = .master) (hc : connected w s.peer = false)
    (he : (w.node s).eventTxId ≠ .none) : Inv txId (n + 1) (w.modify s (append n)) := by
  have h1 := inv_mono h (Nat.le_succ n)
  have hst : ∀ t, ((w.modify s (append n)).node t).status = (w.node t).status :=
    modify_proj Node.status rfl
  have hev : ∀ t, ((w.modify s (append n)).node t).eventTxId = (w.node t).eventTxId :=
    modify_proj Node.eventTxId rfl
  refine ⟨h.lost, fun t ht => ?_, fun t ht => ?_, fun t => ?_, fun t => ?_, fun t => ?_⟩
  · rcases eq_or_eq_peer s t with rfl | rfl
    · -- the node shows a difference from now on
      unfold diff
      rw [modify_self]; exact diff_append hinj h he
    · -- its peer was ahead already
      unfold diff
      rw [modify_peer]
      refine h.ahead s.peer fun hcov => ht ?_
      unfold Covered at hcov ⊢
      rw [modify_peer, peer_peer, modify_self]
      rw [peer_peer] at hcov
      exact List.Subset.trans hcov (List.subset_append_left _ _)
  · unfold connected at ht hc
    rw [hst] at ht
    rcases eq_or_eq_peer s t with rfl | rfl
    · simp [hm] at ht
    · simp [hc] at ht
  · rw [hev, modify_proj Node.txidFile rfl]; exact h.file t
  · rcases eq_or_eq_peer s t with rfl | rfl
    · rw [modify_self]; exact append_lt (h.old t)
    · rw [modify_peer]; exact h1.old s.peer
  · rw [hev]; exact h1.event t

lemma inv_commit_both (h : Inv txId n w) (hc : connected w s.peer = true) :
    Inv txId (n + 1) ((w.modify s (append n)).modify s.peer (append n)) := by
  have h1 := inv_mono h (Nat.le_succ n)
  have hcdb : ∀ t, (((w.modify s (append n)).modify s.peer (append n)).node t).cdb =
      (w.node t).cdb ++ [n] := by
    intro t
    rcases eq_or_eq_peer s t with rfl | rfl
    · rw [modify_peer_self, modify_self]; rfl
    · rw [modify_self, modify_peer]; rfl
  have hev : ∀ t, (((w.modify s (append n)).modify s.peer (append n)).node t).eventTxId =
      (w.node t).eventTxId := fun t =>
    (modify_proj Node.eventTxId rfl t).trans (modify_proj Node.eventTxId rfl t)
  have hlevel : ∀ t, (w.node t).cdb = (w.node t.peer).cdb := by
    have hl := h.level s.peer hc
    rw [peer_peer] at hl
    intro t
    rcases eq_or_eq_peer s t with rfl | rfl
    · exact hl.symm
    · rw [peer_peer]; exact hl
  refine ⟨h.lost, fun t ht => absurd ?_ ht, fun t _ => ?_, fun t => ?_, fun t => ?_, fun t => ?_⟩
  · unfold Covered
    rw [hcdb, hcdb, hlevel t]; exact List.Subset.refl _
  · rw [hcdb, hcdb, hlevel t]
  · rw [hev, modify_proj Node.txidFile rfl, modify_proj Node.txidFile rfl]; exact h.file t
  · rw [hcdb]; exact append_lt (h.old t)
  · rw [hev]; exact h1.event t

/-- **One proper step keeps the invariant.** -/
lemma inv_step (hinj : Function.Injective txId) {c c' : Cluster} {e : Event}
    (h : Inv txId c.nextTx c.world) (hp : Proper c e) (hs : step conf txId c e = some c') :
    Inv txId c'.nextTx c'.world := by
  cases e with
  | commit s =>
    by_cases hm : (c.world.node s).status = .master
    · simp only [step, hm, if_true, Option.some.injEq] at hs
      subst hs
      by_cases hc : connected c.world s.peer
      · simp only [hc, if_true]
        exact inv_commit_both h hc
      · simp only [hc]
        exact inv_commit_alone hinj h hm (by simpa using hc) (hp.resolve_left hc)
    · simp [step, hm] at hs
  | linkLoss =>
    by_cases hl : c.world.link
    · simp only [step, hl, if_true, Option.some.injEq] at hs
      subst hs
      exact inv_link (inv_dropSlave (inv_dropSlave h true .b) true .a) false
    · simp [step, hl] at hs
  | linkRecovery =>
    simp only [step, Option.some.injEq] at hs
    subst hs
    exact inv_link h true
  | haEvent s =>
    rcases hph : (c.world.node s).phase with _ | _ | _ <;>
      rcases hno : (c.world.node s).notifs with _ | ⟨e, rest⟩ <;> simp [step, hph, hno] at hs
    subst hs
    have h' := inv_modify h s (fun n => { n with notifs := rest }) rfl rfl rfl fun _ hm => hm
    refine inv_finish ?_ s
    rw [run_haEvent]
    refine inv_notified h' fun he => ?_
    rw [covered_of_cdb_eq (modify_proj Node.cdb rfl)]
    exact hp e (by simp [hno]) he
  | restart s noticed =>
    simp only [step, Option.some.injEq] at hs
    subst hs
    exact inv_rebooted (inv_dropSlave (inv_dropSlave h noticed s.peer) noticed s) s
  | initialDetermination s =>
    by_cases hi : (c.world.node s).phase = .init
    · simp only [step, hi, if_true, Option.some.injEq] at hs
      subst hs
      refine inv_finish ?_ s
      rw [run_initialDetermination]
      exact inv_determined h hp
    · simp [step, hi] at hs
  | reConnected s =>
    by_cases hr : c.world.link = true ∧ 0 < (c.world.node s).reconnectors
    · simp only [step, hr, and_self, if_true, Option.some.injEq] at hs
      subst hs
      refine inv_retire ?_ s
      rw [run_reConciliation hr.1]
      exact inv_reconciled h s
    · simp only [step, hr, if_false] at hs
      cases hs

lemma inv_run (hinj : Function.Injective txId) {c c' : Cluster} {es : List Event}
    (h : Inv txId c.nextTx c.world) (hp : ProperRun conf txId c es)
    (hr : runAll conf txId c es = some c') : Inv txId c'.nextTx c'.world := by
  induction es generalizing c with
  | nil =>
    simp only [runAll, List.foldlM_nil, Option.pure_def, Option.some.injEq] at hr
    exact hr ▸ h
  | cons e es ih =>
    simp only [runAll, List.foldlM_cons, Option.bind_eq_bind] at hr
    obtain ⟨c₁, hs, hr'⟩ := Option.bind_eq_some_iff.mp hr
    have hp' : Proper c e ∧ ProperRun conf txId c₁ es := by simpa only [ProperRun, hs] using hp
    exact ih (inv_step hinj h hp'.1 hs) hp'.2 hr'

lemma inv_fresh (link : Bool) {cdb : Db} (hlt : ∀ t ∈ cdb, t < n) :
    Inv txId n (idlePair link cdb) := by
  refine ⟨?_, fun s hc => absurd ?_ hc, fun s _ => rfl, fun s => rfl, fun s => hlt, ?_⟩
  · intro p hp
    cases hp
  · exact List.Subset.refl cdb
  · rintro s e ⟨⟩

/-- **Nothing is discarded in a proper run**: of any length, from any common database. -/
theorem nothing_lost_of_properRun (hinj : Function.Injective txId) (link : Bool) {cdb : Db}
    (hlt : ∀ t ∈ cdb, t < n) {es : List Event} {c : Cluster}
    (hp : ProperRun conf txId ⟨idlePair link cdb, n⟩ es)
    (hr : runAll conf txId ⟨idlePair link cdb, n⟩ es = some c) : NothingLost c.world :=
  (inv_run hinj (inv_fresh link hlt) hp hr).lost

/-! ### Two runs -/

def codeTxId (l : Db) : CdbTxId := ⟨Encodable.encode l, 0, 0⟩

lemma codeTxId_injective : Function.Injective codeTxId := by
  intro l l' h
  have hs : (Encodable.encode l : ℤ) = Encodable.encode l' := congrArg CdbTxId.s1 h
  exact Encodable.encode_injective (by exact_mod_cast hs)

/-- The pair forms, is split, and is joined again under the node that went on committing. -/
def rejoin : List Event :=
  [.initialDetermination .a, .initialDetermination .b, .haEvent .b, .commit .a, .linkLoss,
    .haEvent .a, .haEvent .b, .commit .a, .linkRecovery, .reConnected .a]

theorem rejoin_nothing_lost :
    ∃ c, runAll pairConf codeTxId ⟨idlePair true [], 0⟩ rejoin = some c ∧
      c.world.slaved = [([], []), ([0], [0, 1])] ∧ NothingLost c.world := by
  have hsome : (runAll pairConf codeTxId ⟨idlePair true [], 0⟩ rejoin).map (·.world.slaved) =
      some [([], []), ([0], [0, 1])] := by decide +kernel
  obtain ⟨c, hc, hs⟩ := Option.map_eq_some_iff.mp hsome
  have hproper : ProperRun pairConf codeTxId ⟨idlePair true [], 0⟩ rejoin := by decide +kernel
  exact ⟨c, hc, hs, nothing_lost_of_properRun codeTxId_injective true (by simp) hproper hc⟩

/-- Both nodes come up alone; the first commits and restarts before the link is there, which
saves its transaction id over the difference, and is then made slave of the other. -/
def overwritten : List Event :=
  [.initialDetermination .a, .initialDetermination .b, .commit .a, .restart .a false,
    .initialDetermination .a, .commit .b, .linkRecovery, .restart .b false,
    .initialDetermination .b]

theorem overwritten_loses :
    Function.Injective codeTxId ∧
      ∃ c, runAll pairConf codeTxId ⟨idlePair false [], 0⟩ overwritten = some c ∧
        c.world.slaved = [([0], [1])] ∧ ¬NothingLost c.world := by
  have hsome : (runAll pairConf codeTxId ⟨idlePair false [], 0⟩ overwritten).map
      (·.world.slaved) = some [([0], [1])] := by decide +kernel
  obtain ⟨c, hc, hs⟩ := Option.map_eq_some_iff.mp hsome
  refine ⟨codeTxId_injective, c, hc, hs, fun h => ?_⟩
  have hsub : [0] ⊆ [1] := h ([0], [1]) (by rw [hs]; simp)
  simp at hsub

end Zinzhi.HaFailover
