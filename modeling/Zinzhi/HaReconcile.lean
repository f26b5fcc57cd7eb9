import Zinzhi.HaController

/-!
What a completed reconciliation leaves: a master and its slave, provided the peer does not
have to be promoted.
-/

namespace Zinzhi.HaReconcile

open Zinzhi.Interact Zinzhi.HaNode Zinzhi.HaRemote Zinzhi.HaController

variable {Cdb : Type} {conf : Conf} {txId : Cdb → CdbTxId} {me p : Side} {w : World Cdb}

def WellPaired (w : World Cdb) (m : Side) : Prop :=
  (w.node m).status.getHaState = .master ∧ (w.node m.peer).status.getHaState = .slave

/-- The node that has to be master: the one with a transaction difference, and the preferred
master `p` if there is none. -/
def rightfulMaster (txId : Cdb → CdbTxId) (p me : Side) (w : World Cdb) : Side :=
  if diff txId w me then me else if diff txId w me.peer then me.peer else p

lemma wellPaired_paired (w : World Cdb) (m : Side) : WellPaired (paired conf m w) m := by
  constructor
  · simp [paired, HALocalNode.mastered, initializeAvailableVips, HaStatus.getHaState]
  · simp [paired, HALocalNode.slavedTo, destroyVips, HaStatus.getHaState]

/-- Nothing is done to the peer, so the pair is right only if it already was the master. -/
lemma wellPaired_enslave_iff (w : World Cdb) :
    WellPaired (HALocalNode.enslave conf me me.peer w) me.peer ↔
      (w.node me.peer).status = .master := by
  have hslave : (HALocalNode.slavedTo (conf.node me.peer).toConfHaNode (w.node me.peer).cdb
      (w.node me)).status.getHaState = .slave := rfl
  unfold WellPaired
  rw [peer_peer, HALocalNode.enslave_self, HALocalNode.enslave_peer, hslave]
  cases (w.node me.peer).status <;> simp [HaStatus.getHaState]

lemma preferred_eq (hp : (conf.node p).preferredMaster = true)
    (hq : (conf.node p.peer).preferredMaster = false) :
    isPreferredMaster conf me = true ↔ p = me := by
  rcases eq_or_eq_peer p me with rfl | rfl
  · simp [isPreferredMaster, hp]
  · simp [isPreferredMaster, hq]

/-- **A reconciliation pairs the nodes rightly exactly when the right master is the node that
runs it or a peer that is master already.** -/
theorem reConciliation_wellPaired_iff (hl : w.link = true)
    (hp : (conf.node p).preferredMaster = true)
    (hq : (conf.node p.peer).preferredMaster = false) :
    ∃ w', run (exec conf txId me) (reConciliation conf me) w = (.done (), w') ∧
      ((¬(diff txId w me = true ∧ diff txId w me.peer = true) →
          WellPaired w' (rightfulMaster txId p me w)) ↔
        (diff txId w me = true ∧ diff txId w me.peer = true) ∨
          rightfulMaster txId p me w = me ∨ (w.node me.peer).status = .master) := by
  refine ⟨_, run_reConciliation hl, ?_⟩
  unfold reconciled rightfulMaster
  cases hL : diff txId w me <;> cases hR : diff txId w me.peer
  · -- no difference: the preferred master
    simp only [Bool.false_eq_true, false_and, not_false_eq_true, true_implies, if_false, false_or]
    by_cases hm : p = me
    · subst hm
      have hpref : isPreferredMaster conf p = true := (preferred_eq hp hq).mpr rfl
      simp only [hpref, if_true, true_or, iff_true]
      exact wellPaired_paired w p
    · have hpref : isPreferredMaster conf me = false := by
        simpa using mt (preferred_eq hp hq).mp hm
      obtain rfl : p = me.peer := (eq_or_eq_peer me p).resolve_left hm
      simp only [hpref, Bool.false_eq_true, if_false, peer_ne, false_or]
      exact wellPaired_enslave_iff w
  · -- the peer has the difference
    simp only [Bool.false_eq_true, false_and, not_false_eq_true, true_implies, if_false, if_true,
      false_or, peer_ne]
    refine (wellPaired_enslave_iff _).trans ?_
    rw [modify_peer]
  · simp only [Bool.false_eq_true, and_false, not_false_eq_true, true_implies, if_true, false_or,
      true_or, iff_true]
    exact wellPaired_paired w me
  · simp

/-- The preferred master of an idle pair takes the other node as its slave. -/
theorem reConciliation_wellPaired_idle :
    ∃ w', run (exec pairConf id .a) (reConciliation pairConf .a) (idlePair true ⟨0, 0, 0⟩) =
      (.done (), w') ∧ WellPaired w' .a := by
  obtain ⟨w', hrun, hiff⟩ := @reConciliation_wellPaired_iff _ pairConf id .a .a
    (idlePair true ⟨0, 0, 0⟩) rfl rfl rfl
  exact ⟨w', hrun, hiff.mpr (by decide) (by decide)⟩

/-- The other node of an idle pair becomes slave of a node that nobody made master. -/
theorem reConciliation_not_wellPaired :
    ∃ w', run (exec pairConf id .b) (reConciliation pairConf .b) (idlePair true ⟨0, 0, 0⟩) =
        (.done (), w') ∧
      (diff id (idlePair true (⟨0, 0, 0⟩ : CdbTxId)) .b = false ∧
        diff id (idlePair true (⟨0, 0, 0⟩ : CdbTxId)) .a = false) ∧
      (∀ m, ¬WellPaired w' m) ∧ (w'.node .a).status = .none := by
  refine ⟨_, run_reConciliation rfl, by decide, fun m hm => ?_, by decide⟩
  cases m
  · exact absurd hm.1 (by decide)
  · exact absurd hm.1 (by decide)

end Zinzhi.HaReconcile
