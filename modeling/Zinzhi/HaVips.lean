import Zinzhi.HaNode
import Zinzhi.Runs

/-!
The virtual addresses of a node whose role is changed by several threads.

`HALocalNode.beMaster` and `beSlave` first tell NCS and then bring the virtual addresses up or
down, with no lock around the two steps. The notification thread makes the one call, in
`masterDown`, and every request handler that receives `slave` makes the other. A schedule names
the thread that takes the next step; each thread makes calls of its own kind over and over.
-/

namespace Zinzhi.HaVips

open Zinzhi.HaNode Zinzhi.Runs

variable {Cdb ι : Type}

/-! ### The two steps of a call -/

def haBeMaster (s : Side) (w : World Cdb) : World Cdb :=
  w.modify s fun n => { n with status := .master }

/-- `ha.beSlave`, for the remote node as the master -/
def haBeSlave (conf : Conf) (s : Side) (w : World Cdb) : World Cdb :=
  { w.modify s fun n => { n with
      status := .slave (conf.node s.peer).toConfHaNode true
      cdb := (w.node s.peer).cdb
      notifs := n.notifs ++ [.slaveInitialized] } with
    slaved := w.slaved ++ [((w.node s).cdb, (w.node s.peer).cdb)] }

lemma modify_modify (w : World Cdb) (s : Side) (f g : Node Cdb → Node Cdb) :
    (w.modify s f).modify s g = w.modify s (g ∘ f) := by
  simp [World.modify]

/-- The two calls run without interruption are the methods of `HALocalNode`. -/
lemma beMaster_eq (conf : Conf) (s : Side) (w : World Cdb) :
    HALocalNode.beMaster conf s w =
      (.ok (), (haBeMaster s w).modify s (initializeAvailableVips conf s)) := by
  rw [haBeMaster, modify_modify]
  rfl

lemma beSlave_eq (conf : Conf) (s : Side) (w : World Cdb) :
    HALocalNode.beSlave conf s s.peer w = (.ok (), (haBeSlave conf s w).modify s destroyVips) := by
  simp only [HALocalNode.beSlave, HALocalNode.enslave, haBeSlave, World.modify]
  simp only [Function.update_self, Function.update_idem]
  rfl

/-- The call a thread makes: `masterDown`, or `beSlave` for the command `slave`. -/
inductive Call
  | masterDown | slave
  deriving DecidableEq, Repr

def Call.first (conf : Conf) (s : Side) : Call → World Cdb → World Cdb
  | masterDown => haBeMaster s
  | slave => haBeSlave conf s

def Call.second (conf : Conf) (s : Side) : Call → World Cdb → World Cdb
  | masterDown => fun w => w.modify s (initializeAvailableVips conf s)
  | slave => fun w => w.modify s destroyVips

/-! ### Interleaved calls -/

/-- The world, and the threads that stand between the two steps of a call. -/
structure State (Cdb ι : Type) where
  world : World Cdb
  between : ι → Bool

variable [DecidableEq ι]

def step (conf : Conf) (s : Side) (call : ι → Call) (st : State Cdb ι) (i : ι) : State Cdb ι :=
  if st.between i then ⟨(call i).second conf s st.world, Function.update st.between i false⟩
  else ⟨(call i).first conf s st.world, Function.update st.between i true⟩

def Quiet (st : State Cdb ι) : Prop := ∀ i, st.between i = false

def IsMaster (s : Side) (w : World Cdb) : Prop := (w.node s).status.getHaState = .master

/-- The virtual addresses are up exactly on a master. -/
def VipsFollow (s : Side) (w : World Cdb) : Prop := (w.node s).vipsup ≠ [] ↔ IsMaster s w

/-- When thread `i` is to finish the only call in progress, the HA state is still the one that
the first step of this call has set. -/
def Undisturbed (s : Side) (call : ι → Call) (st : State Cdb ι) (i : ι) : Prop :=
  st.between i = true → (∀ j, j ≠ i → st.between j = false) →
    (IsMaster s st.world ↔ call i = .masterDown)

omit [DecidableEq ι] in
lemma vipsAdded_ne_nil {conf : Conf} {s : Side} (hvips : conf.vips ≠ [])
    (hifc : (conf.ifc s).isSome) (up : List Vip) : vipsAdded conf s up ≠ [] := by
  obtain ⟨ifc, hi⟩ := Option.isSome_iff_exists.mp hifc
  simp [vipsAdded, hi, hvips]

/-- The second step alone decides the addresses, and leaves the HA state. -/
lemma second_spec {conf : Conf} {s : Side} (hvips : conf.vips ≠ []) (hifc : (conf.ifc s).isSome)
    (c : Call) (w : World Cdb) :
    (((c.second conf s w).node s).vipsup ≠ [] ↔ c = .masterDown) ∧
      (IsMaster s (c.second conf s w) ↔ IsMaster s w) := by
  cases c
  · simp [Call.second, IsMaster, initializeAvailableVips, vipsAdded_ne_nil hvips hifc]
  · simp [Call.second, IsMaster, destroyVips]

lemma quiet_step_iff (conf : Conf) (s : Side) (call : ι → Call) (st : State Cdb ι) (i : ι) :
    Quiet (step conf s call st i) ↔
      st.between i = true ∧ ∀ j, j ≠ i → st.between j = false := by
  unfold step
  constructor
  · intro h
    split_ifs at h with hi
    · refine ⟨hi, fun j hj => ?_⟩
      simpa [Function.update_of_ne hj] using h j
    · simpa using h i
  · rintro ⟨hi, hothers⟩ j
    rw [if_pos hi]
    by_cases hj : j = i
    · simp [hj]
    · simp [Function.update_of_ne hj, hothers j hj]

/-- **One step** keeps the addresses right at the quiet states exactly when it is undisturbed. -/
lemma step_iff {conf : Conf} {s : Side} (hvips : conf.vips ≠ []) (hifc : (conf.ifc s).isSome)
    (call : ι → Call) (st : State Cdb ι) (i : ι) :
    (Quiet (step conf s call st i) → VipsFollow s (step conf s call st i).world) ↔
      Undisturbed s call st i := by
  rw [quiet_step_iff, and_imp]
  refine imp_congr_right fun hi => imp_congr_right fun _ => ?_
  obtain ⟨hup, hmaster⟩ := second_spec hvips hifc (call i) st.world
  simp only [step, if_pos hi, VipsFollow, hup, hmaster]
  exact iff_comm

/-- **Addresses follow mastership exactly in the undisturbed runs.** From a state with no call in
progress and right addresses: these are right whenever no call is in progress, if and only if
each call that ends alone finds the HA state that it has set itself. -/
theorem vips_follow_iff (conf : Conf) (s : Side) (call : ι → Call) (w : World Cdb)
    (hvips : conf.vips ≠ []) (hifc : (conf.ifc s).isSome) (hw : VipsFollow s w)
    (sched : List ι) :
    (∀ pre, pre <+: sched →
      Quiet (run (step conf s call) ⟨w, fun _ => false⟩ pre) →
        VipsFollow s (run (step conf s call) ⟨w, fun _ => false⟩ pre).world) ↔
      ∀ pre i, pre ++ [i] <+: sched →
        Undisturbed s call (run (step conf s call) ⟨w, fun _ => false⟩ pre) i :=
  always_iff_guarded (P := fun st => Quiet st → VipsFollow s st.world) (fun _ => hw)
    (fun st i _ => step_iff hvips hifc call st i) sched

/-! ### A lost race -/

/-- One call after the other, by one thread of each kind: the theorem applies, and the node ends
as a slave without addresses. -/
theorem vips_follow_serial :
    VipsFollow .a (run (step pairConf .a id) ⟨idlePair true 0, fun _ => false⟩
      [.masterDown, .masterDown, .slave, .slave]).world := by
  refine (vips_follow_iff pairConf .a id (idlePair true 0) (by simp [pairConf]) rfl
    (by simp [VipsFollow, IsMaster, idlePair, fresh, HaStatus.getHaState])
    [.masterDown, .masterDown, .slave, .slave]).mpr ?_ _ (List.prefix_refl _) ?_
  · -- at each second step the HA state is that of the call
    simp only [guarded_cons_iff]
    exact ⟨nofun, fun _ _ => iff_of_true rfl rfl, nofun, fun _ _ => iff_of_false nofun nofun,
      guarded_nil⟩
  · intro i
    cases i <;> rfl

/-- `slave` arrives while `masterDown` is between its two steps: the node ends as a slave with
the virtual address up. -/
theorem vips_follow_race :
    let st := run (step pairConf .a id) ⟨idlePair true 0, fun _ => false⟩
      [.masterDown, .slave, .slave, .masterDown]
    (∀ i, st.between i = false) ∧ (st.world.node .a).status.getHaState = .slave ∧
      (st.world.node .a).vipsup = [⟨[10, 0, 0, 9], "eth0", 0⟩] := by
  refine ⟨fun i => ?_, rfl, rfl⟩
  cases i <;> rfl

end Zinzhi.HaVips
