import Zinzhi.HaController

/-!
Both controllers run `initialDetermination` at once, call by call in any order, and never
both end up master.

A node with a transaction difference keeps it, and its peer, which reads it on every way to
`beMaster`, never becomes master. Without differences only the preferred master promotes
itself, and the other node waits for it.
-/

namespace Zinzhi.HaStartup

open Zinzhi.Interact Zinzhi.HaNode Zinzhi.HaRemote Zinzhi.HaController

variable {Cdb : Type} {conf : Conf} {txId : Cdb → CdbTxId} {i x p : Side} {w w' : World Cdb}

/-! ### What one call can do -/

/-- What a call on a working link can change. -/
inductive Effect (conf : Conf) (txId : Cdb → CdbTxId) (w : World Cdb) : Call → World Cdb → Prop
  | nothing (o : Call) : Effect conf txId w o w
  | save (n : Side) : Effect conf txId w (.node n .saveTxId) (w.modify n (HALocalNode.saved txId))
  | master (n : Side) :
      Effect conf txId w (.node n .beMaster) (w.modify n (HALocalNode.mastered conf n))
  | unset (n : Side) : Effect conf txId w (.node n .beNone) (w.modify n HALocalNode.unset)
  | slave (n m m' : Side) :
      Effect conf txId w (.node n (.beSlave m)) (HALocalNode.enslave conf n m' w)
  | reconnect (n : Side) : Effect conf txId w .executeReConnector
      (w.modify n fun n => { n with reconnectors := n.reconnectors + 1 })

/-- The answers of calls that only read. -/
def Truthful (txId : Cdb → CdbTxId) (w : World Cdb) : (o : Call) → Call.Res o → Prop
  | .node _ .isReachable, r => r = true
  | .node n .txDiff, r => r = diff txId w n
  | .node n .getHaStatus, r => r = (w.node n).status.getHaState
  | _, _ => True

/-- **What a call comes to**: it answers truthfully and has its effect, or it throws and
changes nothing. -/
lemma exec_cases (conf : Conf) (txId : Cdb → CdbTxId) (hl : w.link = true) (i : Side) (o : Call) :
    (∃ r w', exec conf txId i o w = (.ok r, w') ∧ Effect conf txId w o w' ∧
      Truthful txId w o r) ∨ ∃ e, exec conf txId i o w = (.error e, w) := by
  cases o with
  | executeReConnector => exact .inl ⟨(), _, rfl, .reconnect i, trivial⟩
  | node n op =>
    rcases eq_or_eq_peer i n with rfl | rfl
    · rw [exec_self]
      refine .inl ?_
      cases op with
      | getHaStatus => exact ⟨_, _, rfl, .nothing _, rfl⟩
      | getTxId => exact ⟨_, _, rfl, .nothing _, trivial⟩
      | txDiff => exact ⟨_, _, rfl, .nothing _, rfl⟩
      | isReachable => exact ⟨_, _, rfl, .nothing _, rfl⟩
      | saveTxId => exact ⟨_, _, rfl, .save n, trivial⟩
      | beMaster => exact ⟨_, _, rfl, .master n, trivial⟩
      | beNone => exact ⟨_, _, rfl, .unset n, trivial⟩
      | beSlave m => exact ⟨_, _, rfl, .slave n m m, trivial⟩
    · rw [exec_peer]
      cases op with
      | getHaStatus =>
        by_cases hr : (w.node i.peer).status.getHaState = .slaveRelay
        · exact .inr ⟨_, (remote_getHaStatus i hl).trans (by rw [if_pos hr])⟩
        · exact .inl ⟨_, _, (remote_getHaStatus i hl).trans (by rw [if_neg hr]), .nothing _, rfl⟩
      | getTxId => exact .inl ⟨_, _, remote_getTxId i hl, .nothing _, trivial⟩
      | txDiff => exact .inl ⟨_, _, remote_txDiff i hl, .nothing _, rfl⟩
      | isReachable => exact .inl ⟨_, _, remote_isReachable i hl, .nothing _, rfl⟩
      | saveTxId => exact .inl ⟨_, _, remote_saveTxId i hl, .nothing _, trivial⟩
      | beMaster => exact .inl ⟨_, _, remote_beMaster i hl, .nothing _, trivial⟩
      | beNone => exact .inl ⟨_, _, remote_beNone i hl, .nothing _, trivial⟩
      | beSlave m => exact .inl ⟨_, _, remote_beSlave i hl m, .slave i.peer m i, trivial⟩

abbrev Sys (Cdb : Type) := Threads Call Call.Res (World Cdb) Side

abbrev Next (conf : Conf) (txId : Cdb → CdbTxId) : Sys Cdb → Sys Cdb → Prop :=
  Step (exec conf txId) (initialDetermination conf)

lemma next_cases {c c' : Sys Cdb} (hl : c.st.link = true) (h : Next conf txId c c') :
    ∃ i, (∃ o k r w', c.pc i = .call o k ∧ Effect conf txId c.st o w' ∧
        Truthful txId c.st o r ∧ c' = ⟨w', Function.update c.pc i (k r)⟩) ∨
      (∃ o k, c.pc i = .call o k ∧ c' = ⟨c.st, Function.update c.pc i (.ret ())⟩) ∨
      (c.pc i = .again ∧ c' = ⟨c.st, Function.update c.pc i (initialDetermination conf i)⟩) := by
  cases h with
  | @call i o k r w' hpc ho =>
    rcases exec_cases conf txId hl i o with ⟨r₁, w₁, h₁, he, ht⟩ | ⟨e, h₁⟩
    · obtain ⟨rfl, rfl⟩ : r₁ = r ∧ w₁ = w' := by simpa using h₁.symm.trans ho
      exact ⟨i, .inl ⟨o, k, r₁, w₁, hpc, he, ht, rfl⟩⟩
    · simp [h₁] at ho
  | @throw i o k e w' hpc ho =>
    rcases exec_cases conf txId hl i o with ⟨r₁, w₁, h₁, -⟩ | ⟨e₁, h₁⟩
    · simp [h₁] at ho
    · obtain ⟨-, rfl⟩ : e₁ = e ∧ c.st = w' := by simpa using h₁.symm.trans ho
      exact ⟨i, .inr (.inl ⟨o, k, hpc, rfl⟩)⟩
  | again i hpc => exact ⟨i, .inr (.inr ⟨hpc, rfl⟩)⟩

/-! ### Some node has a difference -/

/-- Answers while the link works and node `x` has a difference. -/
def HolderOk (x : Side) : (o : Call) → Call.Res o → Prop
  | .node _ .isReachable, r => r = true
  | .node n .txDiff, r => n = x → r = true
  | _, _ => True

/-- Calls that keep the difference of `x` and do not promote its peer. -/
def HolderCall (x : Side) : Call → Prop
  | .node n .saveTxId => n ≠ x
  | .node n (.beSlave _) => n ≠ x
  | .node n .beMaster => n ≠ x.peer
  | _ => True

abbrev HolderSafe (x : Side) : Ctl Unit → Prop := Every (HolderOk x) fun o _ => HolderCall x o

lemma holderSafe_main (conf : Conf) (x i : Side) : HolderSafe x (initialDetermination conf i) := by
  rcases eq_or_eq_peer x i with rfl | rfl
  · simp [HolderSafe, initialDetermination, determinationByTxId, reConciliation, andAlso, orElse,
      negate, on, HolderOk, HolderCall]
  · simp [HolderSafe, initialDetermination, determinationByTxId, reConciliation, andAlso, orElse,
      negate, on, HolderOk, HolderCall]

structure Holder (txId : Cdb → CdbTxId) (x : Side) (c : Sys Cdb) : Prop where
  link : c.st.link = true
  diff : diff txId c.st x = true
  peer : (c.st.node x.peer).status ≠ .master
  safe : ∀ i, HolderSafe x (c.pc i)

lemma holderOk_of_truthful (hd : diff txId w x = true) {o : Call} {r : Call.Res o}
    (h : Truthful txId w o r) : HolderOk x o r := by
  match o, r, h with
  | .node _ .isReachable, _, h => exact h
  | .node n .txDiff, _, h =>
    rintro rfl
    exact h.trans hd
  | .node _ .getHaStatus, _, _ => trivial
  | .node _ .getTxId, _, _ => trivial
  | .node _ .saveTxId, _, _ => trivial
  | .node _ .beMaster, _, _ => trivial
  | .node _ .beNone, _, _ => trivial
  | .node _ (.beSlave _), _, _ => trivial
  | .executeReConnector, _, _ => trivial

/-- A call that the difference of `x` allows keeps it, and does not promote the peer. -/
lemma holder_effect {o : Call} (hd : diff txId w x = true)
    (hp : (w.node x.peer).status ≠ .master) (hc : HolderCall x o) (he : Effect conf txId w o w') :
    w'.link = w.link ∧ diff txId w' x = true ∧ (w'.node x.peer).status ≠ .master := by
  cases he with
  | nothing => exact ⟨rfl, hd, hp⟩
  | save n =>
    obtain rfl : n = x.peer := (eq_or_eq_peer x n).resolve_left hc
    exact ⟨rfl, by simpa [HaController.diff] using hd, by simpa using hp⟩
  | master n =>
    obtain rfl : n = x := (eq_or_eq_peer x n).resolve_right hc
    exact ⟨rfl, by simpa [HaController.diff] using hd, by simpa using hp⟩
  | unset n =>
    rcases eq_or_eq_peer x n with rfl | rfl
    · exact ⟨rfl, by simpa [HaController.diff] using hd, by simpa using hp⟩
    · exact ⟨rfl, by simpa [HaController.diff] using hd, by simp⟩
  | slave n m m' =>
    obtain rfl : n = x.peer := (eq_or_eq_peer x n).resolve_left hc
    exact ⟨rfl, by simpa [HaController.diff] using hd, by simp⟩
  | reconnect n =>
    rcases eq_or_eq_peer x n with rfl | rfl
    · exact ⟨rfl, by simpa [HaController.diff, HALocalNode.hasDiff] using hd, by simpa using hp⟩
    · exact ⟨rfl, by simpa [HaController.diff] using hd, by simpa using hp⟩

lemma safe_update {Q : Ctl Unit → Prop} {pc : Side → Ctl Unit} (h : ∀ i, Q (pc i))
    (i : Side) {q : Ctl Unit} (hq : Q q) (j : Side) : Q (Function.update pc i q j) := by
  by_cases hj : j = i
  · subst hj; simpa using hq
  · simpa [Function.update_of_ne hj] using h j

lemma holder_next {c c' : Sys Cdb} (h : Holder txId x c) (hs : Next conf txId c c') :
    Holder txId x c' := by
  obtain ⟨hl, hd, hp, hsafe⟩ := h
  obtain ⟨i, ⟨o, k, r, w', hpc, he, ht, rfl⟩ | ⟨o, k, -, rfl⟩ | ⟨-, rfl⟩⟩ := next_cases hl hs
  · have hi := hsafe i
    rw [hpc] at hi
    obtain ⟨hcall, hcont⟩ := hi
    obtain ⟨hl', hd', hp'⟩ := holder_effect hd hp hcall he
    exact ⟨hl'.trans hl, hd', hp', safe_update hsafe i (hcont r (holderOk_of_truthful hd ht))⟩
  · exact ⟨hl, hd, hp, safe_update hsafe i trivial⟩
  · exact ⟨hl, hd, hp, safe_update hsafe i (holderSafe_main conf x i)⟩

/-! ### No node has a difference -/

/-- Answers while no node has a difference and `known` tells which states can be read. -/
def QuietOk (known : Side → HaStateType → Prop) : (o : Call) → Call.Res o → Prop
  | .node _ .isReachable, r => r = true
  | .node _ .txDiff, r => r = false
  | .node n .getHaStatus, r => known n r
  | _, _ => True

def Reads : Call → Prop
  | .node _ .isReachable | .node _ .txDiff | .node _ .getHaStatus => True
  | _ => False

/-- Only reading, until a last call that satisfies `last`. -/
abbrev QuietSafe (known : Side → HaStateType → Prop) (last : Call → Prop) : Ctl Unit → Prop :=
  Every (QuietOk known) fun o k => Reads o ∨ last o ∧ ∀ r, k r = .ret ()

def idle (_ : Side) (t : HaStateType) : Prop := t = .none

/-- Only the node `p` may have left the idle state. -/
def idleBut (p n : Side) (t : HaStateType) : Prop := n ≠ p → t = .none

section Main

variable (hp : (conf.node p).preferredMaster = true)
  (hq : (conf.node p.peer).preferredMaster = false)

include hp in
lemma quietSafe_preferred :
    QuietSafe idle (· = .node p .beMaster) (initialDetermination conf p) := by
  simp [QuietSafe, initialDetermination, isPreferredMaster, hp, orElse, on, QuietOk, idle, Reads]

include hq in
lemma quietSafe_waiting : QuietSafe idle (fun _ => False) (initialDetermination conf p.peer) := by
  simp [QuietSafe, initialDetermination, isPreferredMaster, hq, orElse, on, QuietOk, idle, Reads]

include hq in
lemma quietSafe_following :
    QuietSafe (idleBut p) (∃ m, · = .node p.peer (.beSlave m))
      (initialDetermination conf p.peer) := by
  refine ⟨.inl trivial, fun r hr => ?_⟩
  obtain rfl : r = true := hr
  refine ⟨.inl trivial, fun r hr => ?_⟩
  obtain rfl : r = false := hr
  refine ⟨.inl trivial, fun r hr => ?_⟩
  obtain rfl : r = false := hr
  refine ⟨.inl trivial, fun r _ => ?_⟩
  match r with
  | .none =>
    -- the preferred master is not there yet
    simp [Prog.bind, isPreferredMaster, hq]
  | .master =>
    refine ⟨.inl trivial, fun r hr => ?_⟩
    obtain rfl : r = .none := hr (peer_ne p)
    exact ⟨.inr ⟨⟨_, rfl⟩, fun _ => rfl⟩, fun _ _ => trivial⟩
  | .slave => trivial
  | .slaveRelay => trivial

end Main

/-- The three stages of a start-up without differences: both nodes idle; the preferred
master promoted and finished; the other node its slave and finished too. -/
inductive Quiet (txId : Cdb → CdbTxId) (p : Side) (c : Sys Cdb) : Prop
  | idle (link : c.st.link = true) (diff : ∀ s, diff txId c.st s = false)
      (status : ∀ s, (c.st.node s).status = .none)
      (promote : QuietSafe idle (· = .node p .beMaster) (c.pc p))
      (wait : QuietSafe idle (fun _ => False) (c.pc p.peer))
      (follow : QuietSafe (idleBut p) (∃ m, · = .node p.peer (.beSlave m)) (c.pc p.peer))
  | promoted (link : c.st.link = true) (diff : ∀ s, diff txId c.st s = false)
      (status : (c.st.node p.peer).status = .none) (done : c.pc p = .ret ())
      (follow : QuietSafe (idleBut p) (∃ m, · = .node p.peer (.beSlave m)) (c.pc p.peer))
  | paired (status : (c.st.node p.peer).status.getHaState = .slave) (link : c.st.link = true)
      (done : ∀ s, c.pc s = .ret ())

lemma effect_of_reads {o : Call} (hr : Reads o) (he : Effect conf txId w o w') : w' = w := by
  cases he with
  | nothing => rfl
  | save n => exact hr.elim
  | master n => exact hr.elim
  | unset n => exact hr.elim
  | slave n m m' => exact hr.elim
  | reconnect n => exact hr.elim

lemma quietOk_of_truthful {known : Side → HaStateType → Prop}
    (hd : ∀ s, diff txId w s = false) (hk : ∀ s, known s (w.node s).status.getHaState)
    {o : Call} {r : Call.Res o} (h : Truthful txId w o r) : QuietOk known o r := by
  match o, r, h with
  | .node _ .isReachable, _, h => exact h
  | .node n .txDiff, _, h => exact h.trans (hd n)
  | .node n .getHaStatus, _, h => exact h ▸ hk n
  | .node _ .getTxId, _, _ => trivial
  | .node _ .saveTxId, _, _ => trivial
  | .node _ .beMaster, _, _ => trivial
  | .node _ .beNone, _, _ => trivial
  | .node _ (.beSlave _), _, _ => trivial
  | .executeReConnector, _, _ => trivial

section Steps

variable (hp : (conf.node p).preferredMaster = true)
  (hq : (conf.node p.peer).preferredMaster = false)
include hp hq

lemma quiet_next_idle {c c' : Sys Cdb} (link : c.st.link = true)
    (hd : ∀ s, diff txId c.st s = false) (hst : ∀ s, (c.st.node s).status = .none)
    (promote : QuietSafe idle (· = .node p .beMaster) (c.pc p))
    (wait : QuietSafe idle (fun _ => False) (c.pc p.peer))
    (follow : QuietSafe (idleBut p) (∃ m, · = .node p.peer (.beSlave m)) (c.pc p.peer))
    (hs : Next conf txId c c') : Quiet txId p c' := by
  have hidle : ∀ s, idle s (c.st.node s).status.getHaState := fun s => by rw [hst s]; rfl
  have hbut : ∀ s, idleBut p s (c.st.node s).status.getHaState := fun s _ => hidle s
  obtain ⟨i, ⟨o, k, r, w', hpc, he, ht, rfl⟩ | ⟨o, k, -, rfl⟩ | ⟨-, rfl⟩⟩ := next_cases link hs
  · have hok := quietOk_of_truthful hd hidle ht
    rcases eq_or_eq_peer p i with rfl | rfl
    · rw [hpc] at promote
      obtain ⟨hcall, hcont⟩ := promote
      rcases hcall with hr | ⟨rfl, hk⟩
      · obtain rfl := effect_of_reads hr he
        refine .idle link hd hst ?_ ?_ ?_
        · simpa using hcont r hok
        · simpa using wait
        · simpa using follow
      · -- the preferred master promotes itself, or stays idle and is finished
        rw [hk r]
        cases he with
        | nothing =>
          refine .idle link hd hst ?_ ?_ ?_
          · simp
          · simpa using wait
          · simpa using follow
        | master =>
          refine .promoted link (fun s => ?_) ?_ ?_ ?_
          · rcases eq_or_eq_peer i s with rfl | rfl
            · simpa [HaController.diff] using hd s
            · simpa [HaController.diff] using hd i.peer
          · simpa using hst i.peer
          · simp
          · simpa using follow
    · rw [hpc] at wait follow
      obtain ⟨hcall, hcont⟩ := wait
      have hr : Reads o := hcall.resolve_right fun h => h.1
      obtain rfl := effect_of_reads hr he
      refine .idle link hd hst ?_ ?_ ?_
      · simpa using promote
      · simpa only [Function.update_self] using hcont r hok
      · simpa using follow.2 r (quietOk_of_truthful hd hbut ht)
  · rcases eq_or_eq_peer p i with rfl | rfl
    · exact .idle link hd hst (by simp) (by simpa using wait) (by simpa using follow)
    · exact .idle link hd hst (by simpa using promote) (by simp) (by simp)
  · rcases eq_or_eq_peer p i with rfl | rfl
    · exact .idle link hd hst (by simpa using quietSafe_preferred hp) (by simpa using wait)
        (by simpa using follow)
    · exact .idle link hd hst (by simpa using promote) (by simpa using quietSafe_waiting hq)
        (by simpa using quietSafe_following hq)

omit hp in
lemma quiet_next_promoted {c c' : Sys Cdb} (link : c.st.link = true)
    (hd : ∀ s, diff txId c.st s = false) (hst : (c.st.node p.peer).status = .none)
    (done : c.pc p = .ret ())
    (follow : QuietSafe (idleBut p) (∃ m, · = .node p.peer (.beSlave m)) (c.pc p.peer))
    (hs : Next conf txId c c') : Quiet txId p c' := by
  have hbut : ∀ s, idleBut p s (c.st.node s).status.getHaState := by
    intro s hsp
    obtain rfl : s = p.peer := (eq_or_eq_peer p s).resolve_left hsp
    rw [hst]; rfl
  obtain ⟨i, ⟨o, k, r, w', hpc, he, ht, rfl⟩ | ⟨o, k, hpc, rfl⟩ | ⟨hpc, rfl⟩⟩ :=
    next_cases link hs
  · rcases eq_or_eq_peer p i with rfl | rfl
    · simp [done] at hpc
    · rw [hpc] at follow
      obtain ⟨hcall, hcont⟩ := follow
      rcases hcall with hr | ⟨⟨m, rfl⟩, hk⟩
      · obtain rfl := effect_of_reads hr he
        refine .promoted link hd hst ?_ ?_
        · simpa using done
        · simpa using hcont r (quietOk_of_truthful hd hbut ht)
      · -- the other node becomes slave and is finished
        rw [hk r]
        cases he with
        | nothing => exact .promoted link hd hst (by simpa using done) (by simp)
        | slave =>
          refine .paired (by simp [HaStatus.getHaState]) link fun s => ?_
          rcases eq_or_eq_peer p s with rfl | rfl
          · simpa using done
          · simp
  · rcases eq_or_eq_peer p i with rfl | rfl
    · simp [done] at hpc
    · exact .promoted link hd hst (by simpa using done) (by simp)
  · rcases eq_or_eq_peer p i with rfl | rfl
    · simp [done] at hpc
    · exact .promoted link hd hst (by simpa using done) (by simpa using quietSafe_following hq)

lemma quiet_next {c c' : Sys Cdb} (h : Quiet txId p c) (hs : Next conf txId c c') :
    Quiet txId p c' := by
  cases h with
  | idle link hd hst promote wait follow =>
    exact quiet_next_idle hp hq link hd hst promote wait follow hs
  | promoted link hd hst done follow => exact quiet_next_promoted hq link hd hst done follow hs
  | paired _ link done =>
    obtain ⟨i, ⟨o, k, r, w', hpc, -⟩ | ⟨o, k, hpc, -⟩ | ⟨hpc, -⟩⟩ := next_cases link hs
    · simp [done] at hpc
    · simp [done] at hpc
    · simp [done] at hpc

end Steps

/-- **Start-up never creates two masters**, however the calls of the two nodes interleave. -/
theorem startup_one_master (conf : Conf) (txId : Cdb → CdbTxId) (w : World Cdb)
    (hl : w.link = true) (hnone : ∀ s, (w.node s).status = .none)
    (hp : (conf.node p).preferredMaster = true)
    (hq : (conf.node p.peer).preferredMaster = false) (c : Sys Cdb)
    (hr : Reaches (exec conf txId) (initialDetermination conf) w c) :
    ¬∀ s, (c.st.node s).status = .master := by
  intro hboth
  by_cases hd : ∃ x, diff txId w x = true
  · obtain ⟨x, hx⟩ := hd
    have hinv : Holder txId x c := reaches_inv
      ⟨hl, hx, by rw [hnone]; decide, holderSafe_main conf x⟩
      (fun _ _ h hs => holder_next h hs) hr
    exact hinv.peer (hboth x.peer)
  · have hquiet : Quiet txId p c := reaches_inv
      (.idle hl (by simpa using hd) hnone (quietSafe_preferred hp) (quietSafe_waiting hq)
        (quietSafe_following hq))
      (fun _ _ h hs => quiet_next hp hq h hs) hr
    cases hquiet with
    | idle _ _ hst => exact absurd ((hst p).symm.trans (hboth p)) (by decide)
    | promoted _ _ hst => exact absurd (hst.symm.trans (hboth p.peer)) (by decide)
    | paired hst => simp [hboth, HaStatus.getHaState] at hst

/-- On an idle pair the preferred master gets to promote itself after four questions. -/
theorem startup_one_master_idle :
    ∃ c : Sys CdbTxId, Reaches (exec pairConf id) (initialDetermination pairConf)
        (idlePair true ⟨0, 0, 0⟩) c ∧
      (c.st.node .a).status = .master ∧ ¬∀ s, (c.st.node s).status = .master := by
  have h1 := (Relation.ReflTransGen.refl (r := Next pairConf id)
    (a := ⟨idlePair true ⟨0, 0, 0⟩, initialDetermination pairConf⟩)).tail (.call .a rfl rfl)
  have h2 := h1.tail (.call .a rfl rfl)
  have h3 := h2.tail (.call .a rfl rfl)
  have h4 := h3.tail (.call .a rfl rfl)
  have h5 := h4.tail (.call .a rfl rfl)
  exact ⟨_, h5, rfl,
    startup_one_master (p := .a) pairConf id _ rfl (fun _ => rfl) rfl rfl _ h5⟩

end Zinzhi.HaStartup
