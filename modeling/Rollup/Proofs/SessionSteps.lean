import Mathlib
import Rollup.Proofs.FixedNodes
import Rollup.Proofs.References
import Rollup.Proofs.Upkeep

/-!
What the steps of a session record, and what they keep. The node that a step records on, and so what
a run records on each node (`accrued`), is read off the steps and not off the counters.

Quiet steps create nodes, take and give back references or read. `quiet_step` says of any property
that new nodes and references do not disturb that such a step keeps it. Plain steps also remove,
record and flush, by id or through handles; `step_advances` says of any property with an `Upkeep` that
a plain step keeps it and records what its `credit` says.
-/
namespace Rollup

namespace Step

def isPlain : Step → Bool
  | .detach _ | .actors _ _ => false
  | .hold _ _ | .heldCount _ _ _ | .heldMark _ _ | .heldRequeue _ | .heldDrain _ | .heldInfo _
  | .dropHeld _ => false
  | .drain | .drainTake _ | .drainAround _ _ _ => false
  | .spawnWorker | .requestSync _ | .requestShutdown _ | .dropWorker => false
  | _ => true

def isQuiet : Step → Bool
  | .create _ _ | .createWithId _ _ _ | .createPath _ | .build _ => true
  | .takeHandle _ _ | .shareHandle _ _ | .dropHandle _ => true
  | .hold _ _ | .heldInfo _ | .dropHeld _ => true
  | .lookup _ | .pathOf _ | .ancestors _ | .children _ | .contains _ | .info _ | .sizes => true
  | .flushCount | .read _ | .dump _ | .check | .snapshot | .exportTo _ | .pending | .queued _ => true
  | _ => false

def delta : Step → Nat
  | .add _ _ delta => delta.toNat
  | .incrementHere _ => 1
  | .handleAdd _ _ delta => delta.toNat
  | .handleIncrementHere _ => 1
  | .heldCount _ _ delta => delta.toNat
  | _ => 0

def deltas (steps : List Step) : Nat := (steps.map delta).sum

end Step

namespace Session

variable {cfg : Config} {s : Session cfg} {K D : Hierarchy cfg → Prop}

def handleTarget (s : Session cfg) (name : String) : Option Nat :=
  match s.handles.lookup name with
  | some handle => if (s.hierarchy.node handle.key).removed then none else some handle.key
  | none => none

def target (s : Session cfg) : Step → Option Nat
  | .add id _ _ => s.hierarchy.index[id]?
  | .incrementHere id => s.hierarchy.index[id]?
  | .handleAdd name _ _ => s.handleTarget name
  | .handleIncrementHere name => s.handleTarget name
  | .heldCount name _ _ => s.held.lookup name
  | _ => none

/-- What a step records on a node. -/
def credit (s : Session cfg) (t : Step) (k : Nat) : Nat := if s.target t = some k then t.delta else 0

def accrued (s : Session cfg) : List Step → Nat → Nat
  | [], _ => 0
  | t :: rest, k => s.credit t k + (s.step t).1.accrued rest k

theorem credit_none {t : Step} (none : s.target t = none) : s.credit t = fun _ => 0 := by
  funext k
  simp [credit, none]

theorem credit_some {t : Step} {k : Nat} (found : s.target t = some k) :
    s.credit t = fun j => if j = k then t.delta else 0 := by
  funext j
  simp [credit, found, eq_comm]

theorem sum_credit_le (s : Session cfg) (t : Step) (bound : Nat) :
    ∑ k ∈ Finset.range bound, s.credit t k ≤ t.delta := by
  cases found : s.target t with
  | none => simp [credit_none found]
  | some k =>
    rw [credit_some found, Finset.sum_ite_eq']
    split
    · exact Nat.le_refl _
    · exact Nat.zero_le _

theorem run_cons (s : Session cfg) (t : Step) (rest : List Step) :
    s.run (t :: rest) = (s.step t).1.run rest := rfl

theorem run_append (s : Session cfg) (first second : List Step) :
    s.run (first ++ second) = (s.run first).run second := by
  simp only [run, List.foldl_append]

/-- A session with this property whose names stand for living nodes. -/
structure Healthy (K : Hierarchy cfg → Prop) (s : Session cfg) : Prop where
  kept : K s.hierarchy
  referenced : s.Referenced

/-- A property that new nodes and changes of references do not disturb. -/
structure Hosting (K : Hierarchy cfg → Prop) : Prop where
  shaped : ∀ {h}, K h → h.Shaped
  attach : ∀ {h : Hierarchy cfg} {id p name} (next : UInt64), K h → h.Vacancy id p name →
    h.Allots id next → K { h.attach id p name with nextId := next }
  hold : ∀ {h} {holds : List Nat}, K h → (∀ k ∈ holds, h.isAlive k = true) →
    K { h with holds := holds }

namespace Healthy

variable (healthy : Healthy K s) (hosting : Hosting K)
include healthy hosting

theorem created {h : Hierarchy cfg}
    (created : ∀ {P : Hierarchy cfg → Prop}, (∀ {h}, P h → h.Shaped) →
      (∀ {h : Hierarchy cfg} {id p name} (next : UInt64), P h → h.Vacancy id p name →
        h.Allots id next → P { h.attach id p name with nextId := next }) →
      P s.hierarchy → P h) :
    Healthy K (s.withHierarchy h) := by
  have result := created
    (P := fun h => K h ∧ h.holds = s.hierarchy.holds ∧ s.hierarchy.arena.size ≤ h.arena.size)
    (fun before => hosting.shaped before.1)
    (fun next before place allots => ⟨hosting.attach next before.1 place allots, before.2.1,
      Nat.le_trans before.2.2 (Hierarchy.attach_books place.inside).grown⟩)
    ⟨healthy.kept, rfl, Nat.le_refl _⟩
  exact ⟨result.1, healthy.referenced.of_holds (result.2.1 ▸ List.Perm.refl _) result.2.2⟩

theorem renewed {s' : Session cfg} {k : Nat} {old : Option Nat}
    (hierarchy : s'.hierarchy = released (s.hierarchy.hold k) old)
    (alive : s.hierarchy.isAlive k = true) (referenced : s'.Referenced) : Healthy K s' := by
  have held (j : Nat) (member : j ∈ k :: s.hierarchy.holds) : s.hierarchy.isAlive j = true := by
    rcases List.mem_cons.mp member with rfl | held
    · exact alive
    · exact Hierarchy.alive_of_held held
  refine ⟨?_, referenced⟩
  rw [hierarchy]
  cases old with
  | none => exact hosting.hold healthy.kept held
  | some j =>
    have erased : K { s.hierarchy with holds := (k :: s.hierarchy.holds).erase j } :=
      hosting.hold healthy.kept fun i member => held i (List.mem_of_mem_erase member)
    exact erased

theorem given_back {s' : Session cfg} {k : Nat} (hierarchy : s'.hierarchy = s.hierarchy.release k)
    (referenced : s'.Referenced) : Healthy K s' := by
  refine ⟨?_, referenced⟩
  rw [hierarchy]
  exact hosting.hold healthy.kept fun _ member =>
    Hierarchy.alive_of_held (List.mem_of_mem_erase member)

end Healthy

theorem quiet_step (hosting : Hosting K) (healthy : Healthy K s) {t : Step}
    (quiet : t.isQuiet = true) : Healthy K (s.step t).1 := by
  cases t
  case create parent name =>
    exact healthy.created hosting fun shaped attach before =>
      Hierarchy.create_keeps shaped attach before parent name
  case createWithId id parent name =>
    exact healthy.created hosting fun shaped attach before =>
      Hierarchy.create_with_id_keeps shaped attach before id parent name
  case createPath path =>
    rw [step_create_path]
    exact healthy.created hosting fun shaped attach before =>
      Hierarchy.create_path_keeps shaped attach before path
  case build layout =>
    rw [step_build]
    exact healthy.created hosting fun shaped attach before =>
      Hierarchy.build_keeps shaped attach before layout
  case takeHandle id name =>
    simp only [step, Handle.ofId, Hierarchy.find]
    cases found : s.hierarchy.index[id]? with
    | none => exact healthy
    | some k =>
      obtain ⟨inside, _, live⟩ := (hosting.shaped healthy.kept).indexed found
      exact healthy.renewed hosting rfl (Hierarchy.alive_of_live live)
        (healthy.referenced.keep_handle inside name)
  case shareHandle name copy =>
    simp only [step]
    cases found : s.handles.lookup name with
    | none => exact healthy
    | some handle =>
      have member := Referenced.handle_mem found
      exact healthy.renewed hosting rfl (healthy.referenced.alive member)
        (healthy.referenced.keep_handle (healthy.referenced.inside _ member) copy)
  case dropHandle name =>
    have referenced := healthy.referenced.drop_handle name
    simp only [step, dropHandle] at referenced ⊢
    cases found : s.handles.lookup name with
    | none => exact healthy
    | some handle =>
      rw [found] at referenced
      exact healthy.given_back hosting rfl referenced
  case hold id name =>
    simp only [step, Hierarchy.find]
    cases found : s.hierarchy.index[id]? with
    | none => exact healthy
    | some k =>
      obtain ⟨inside, _, live⟩ := (hosting.shaped healthy.kept).indexed found
      exact healthy.renewed hosting rfl (Hierarchy.alive_of_live live)
        (healthy.referenced.keep_held inside name)
  case heldInfo name =>
    simp only [step, onHeld]
    split <;> exact healthy
  case dropHeld name =>
    have referenced := healthy.referenced.drop_held name
    simp only [step, dropHeld] at referenced ⊢
    cases found : s.held.lookup name with
    | none => exact healthy
    | some k =>
      rw [found] at referenced
      exact healthy.given_back hosting rfl referenced
  case exportTo sink =>
    simp only [step]
    split <;> exact healthy
  all_goals first
    | exact absurd quiet Bool.false_ne_true
    | exact healthy

theorem target_of_quiet {t : Step} (quiet : t.isQuiet = true) : s.target t = none := by
  cases t <;> first | rfl | exact absurd quiet Bool.false_ne_true

/-- Steps that keep this property and record what `credit` says. -/
structure Steps (K : Hierarchy cfg → Prop) (s s' : Session cfg) (credit : Nat → Nat) : Prop where
  advanced : Hierarchy.Advanced K s.hierarchy s'.hierarchy credit
  referenced : s'.Referenced

theorem Steps.healthy {s' : Session cfg} {credit : Nat → Nat} (steps : Steps K s s' credit) :
    Healthy K s' :=
  ⟨steps.advanced.kept, steps.referenced⟩

theorem Steps.recordings_le {s' : Session cfg} {t : Step} (steps : Steps K s s' (s.credit t)) :
    s'.hierarchy.recordings ≤ s.hierarchy.recordings + t.delta := by
  rw [steps.advanced.recordings]
  exact Nat.add_le_add_left (s.sum_credit_le t _) _

namespace Healthy

variable (healthy : Healthy K s)
include healthy

theorem stays : Steps K s s fun _ => 0 := ⟨.stay healthy.kept, healthy.referenced⟩

theorem changes {h : Hierarchy cfg} {credit : Nat → Nat}
    (advanced : Hierarchy.Advanced K s.hierarchy h credit) (holds : h.holds = s.hierarchy.holds) :
    Steps K s (s.withHierarchy h) credit :=
  ⟨advanced, healthy.referenced.of_holds (holds ▸ List.Perm.refl _) advanced.grown⟩

variable (upkeep : Hierarchy.Upkeep K D)
include upkeep

theorem rests {t : Step} (quiet : t.isQuiet = true) : Steps K s (s.step t).1 (s.credit t) := by
  have hosting : Hosting fun h => Hierarchy.Advanced K s.hierarchy h fun _ => 0 := {
    shaped := fun before => (upkeep.sound before.kept).shaped
    attach := fun next before place _ => before.trans (upkeep.attaches before.kept place next)
    hold := fun before held => before.trans (upkeep.holds before.kept held) }
  have after := quiet_step hosting ⟨.stay healthy.kept, healthy.referenced⟩ quiet
  rw [credit_none (target_of_quiet quiet)]
  exact ⟨after.kept, after.referenced⟩

theorem flushes : Steps K s (s.withHierarchy s.hierarchy.flush.1) fun _ => 0 := by
  obtain ⟨after, sum, run, flushed, advanced⟩ := upkeep.flushes healthy.kept
  rw [run]
  exact healthy.changes advanced flushed.holds

theorem records (ready : D s.hierarchy) {k : Nat} {delta : UInt64} (inside : k < s.hierarchy.arena.size)
    (live : (s.hierarchy.node k).removed = false)
    (fits : s.hierarchy.recordings + delta.toNat < UInt64.size) (cpu : Cpu) :
    Steps K s (s.withHierarchy (s.hierarchy.record k cpu delta))
      fun j => if j = k then delta.toNat else 0 := by
  have recorded := upkeep.records healthy.kept ready inside live fits cpu
  exact healthy.changes recorded.1 recorded.2

theorem adds (ready : D s.hierarchy) {t : Step} {id : NodeId} {delta : UInt64}
    (target : s.target t = s.hierarchy.index[id]?) (value : t.delta = delta.toNat)
    (fits : s.hierarchy.recordings + t.delta < UInt64.size) (cpu : Cpu) :
    Steps K s (s.withHierarchy (s.hierarchy.add id cpu delta).1) (s.credit t) := by
  rw [value] at fits
  simp only [Hierarchy.add, Hierarchy.find]
  cases found : s.hierarchy.index[id]? with
  | none =>
    rw [credit_none (target.trans found)]
    exact healthy.stays
  | some k =>
    obtain ⟨inside, _, live⟩ := (upkeep.sound healthy.kept).shaped.indexed found
    rw [credit_some (target.trans found), value]
    exact healthy.records upkeep ready inside live fits cpu

theorem adds_through (ready : D s.hierarchy) {t : Step} {name : String} {delta : UInt64}
    (target : s.target t = s.handleTarget name) (value : t.delta = delta.toNat)
    (fits : s.hierarchy.recordings + t.delta < UInt64.size) (cpu : Cpu) :
    Steps K s (s.onHandle name fun handle => handle.add s.hierarchy cpu delta).1 (s.credit t) := by
  rw [value] at fits
  simp only [onHandle, Handle.add]
  cases found : s.handles.lookup name with
  | none =>
    have none : s.target t = none := by rw [target, handleTarget, found]
    rw [credit_none none]
    exact healthy.stays
  | some handle =>
    cases live : (s.hierarchy.node handle.key).removed with
    | true =>
      have none : s.target t = none := by
        rw [target, handleTarget, found]
        simp [live]
      have same : s.hierarchy.record handle.key cpu delta = s.hierarchy := by
        simp [Hierarchy.record, live]
      rw [credit_none none]
      simp only [same]
      exact healthy.stays
    | false =>
      have some : s.target t = some handle.key := by
        rw [target, handleTarget, found]
        simp [live]
      rw [credit_some some, value]
      exact healthy.records upkeep ready (healthy.referenced.inside _ (Referenced.handle_mem found)) live
        fits cpu

end Healthy

theorem step_advances (upkeep : Hierarchy.Upkeep K D) (healthy : Healthy K s)
    (ready : D s.hierarchy) {t : Step} (plain : t.isPlain = true)
    (fits : s.hierarchy.recordings + t.delta < UInt64.size) :
    Steps K s (s.step t).1 (s.credit t) := by
  cases t
  case remove id =>
    rw [credit_none rfl]
    have removed := upkeep.removes healthy.kept id
    exact healthy.changes removed.1 removed.2
  case add id cpu delta => exact healthy.adds upkeep ready rfl rfl fits cpu
  case incrementHere id => exact healthy.adds upkeep ready rfl rfl fits s.here
  case handleAdd name cpu delta => exact healthy.adds_through upkeep ready rfl rfl fits cpu
  case handleIncrementHere name => exact healthy.adds_through upkeep ready rfl rfl fits s.here
  case flush =>
    rw [credit_none rfl]
    exact healthy.flushes upkeep
  case flushDump id =>
    rw [credit_none rfl]
    simp only [step, change, Hierarchy.flush_and_dump_fst]
    split
    · exact healthy.flushes upkeep
    · exact healthy.stays
  all_goals first
    | exact absurd plain Bool.false_ne_true
    | exact healthy.rests upkeep rfl

end Session

end Rollup
