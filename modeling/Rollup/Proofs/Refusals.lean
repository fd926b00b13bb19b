import Mathlib
import Rollup.Proofs.SessionSteps

/-!
Refused steps. Whatever names nodes or paths looks at all of them before it changes anything, and
so does a layout at its text before its first node is made: where such a step is answered with a
fault, the session is the one it met, with its ids, counts, lists and number of flushes, and no
flush has run.

What a flush meets cannot be known before, nor the names that a layout's check lets through. These
steps are told apart by `checksFirst`, and `accepted` are the steps of a run that are not refused.
-/
namespace Rollup

namespace Answer

def isFault : Answer → Bool
  | .nodeFault _ | .actorFault _ | .pathFault _ | .layoutFault _ | .exportFault _ => true
  | .unknownName => true
  | _ => false

theorem is_fault_of_result {α : Type} {value : α → Answer} {result : Except NodeFault α}
    (plain : ∀ a, (value a).isFault = false) (fault : (ofResult value result).isFault = true) :
    ∃ cause, result = .error cause := by
  cases result with
  | ok a => exact absurd fault (by simp [ofResult, plain])
  | error cause => exact ⟨cause, rfl⟩

end Answer

namespace Hierarchy

variable {cfg : Config} {h : Hierarchy cfg}

/-- An outcome that has left the hierarchy as it was, unless it is a success. -/
def Traceless {ε α : Type} (h : Hierarchy cfg) (outcome : Hierarchy cfg × Except ε α) : Prop :=
  ∀ fault, outcome.2 = .error fault → outcome.1 = h

theorem traceless_error {ε α : Type} (fault : ε) :
    h.Traceless ((h, .error fault) : Hierarchy cfg × Except ε α) :=
  fun _ _ => rfl

theorem traceless_ok {ε α : Type} (after : Hierarchy cfg) (a : α) :
    h.Traceless ((after, .ok a) : Hierarchy cfg × Except ε α) := by
  intro fault failed
  simp at failed

theorem create_traceless (parent : NodeId) (name : String) :
    h.Traceless (h.create parent name) := by
  unfold create
  split
  · exact traceless_error _
  · split
    · exact traceless_error _
    · exact traceless_ok _ _

theorem create_with_id_traceless (id parent : NodeId) (name : String) :
    h.Traceless (h.createWithId id parent name) := by
  unfold createWithId
  split
  · exact traceless_error _
  · split
    · exact traceless_error _
    · exact traceless_ok _ _

theorem create_path_traceless (path : String) : h.Traceless (h.createPath path) := by
  unfold createPath
  split
  · exact traceless_error _
  · rename_i parent name _
    split
    · exact traceless_error _
    · rename_i p _
      have created := create_traceless (h := h) (h.node p).id name
      split <;> rename_i run <;> rw [run] at created
      · exact traceless_ok _ _
      · obtain rfl := created _ rfl
        exact traceless_error _

theorem detach_traceless (id : NodeId) : h.Traceless (h.detach id) := by
  unfold detach
  split
  · exact traceless_error _
  · split
    · exact traceless_error _
    · split
      · exact traceless_error _
      · exact traceless_ok _ _

theorem remove_traceless (id : NodeId) : h.Traceless (h.remove id) := by
  have detached := detach_traceless (h := h) id
  unfold remove
  split <;> rename_i run <;> rw [run] at detached
  · obtain rfl := detached _ rfl
    exact traceless_error _
  · exact traceless_ok _ _

theorem remove_fault {id : NodeId} {fault : NodeFault} (failed : (h.remove id).2 = .error fault) :
    fault = .notFound id ∨ fault = .rootKept ∨ ∃ n, fault = .hasChildren id n := by
  unfold remove detach at failed
  cases found : h.index[id]? with
  | none =>
    simp only [found, Except.error.injEq] at failed
    exact Or.inl failed.symm
  | some k =>
    simp only [found] at failed
    by_cases top : (h.node k).isTop = true
    · simp only [top, if_true, Except.error.injEq] at failed
      exact Or.inr (Or.inl failed.symm)
    · by_cases parent : 0 < (h.node k).children.size
      · simp only [top, parent, if_true, Bool.false_eq_true, if_false, Except.error.injEq] at failed
        exact Or.inr (Or.inr ⟨_, failed.symm⟩)
      · simp [top, parent] at failed

theorem add_traceless (id : NodeId) (cpu : Cpu) (delta : UInt64) :
    h.Traceless (h.add id cpu delta) := by
  unfold add
  split
  · exact traceless_ok _ _
  · exact traceless_error _

theorem handle_traceless (id : NodeId) : h.Traceless (Handle.ofId h id) := by
  unfold Handle.ofId
  split
  · exact traceless_ok _ _
  · exact traceless_error _

theorem resolve_unknown {ids : List NodeId} (unknown : ∃ id ∈ ids, h.index[id]? = none) :
    ∃ id ∈ ids, h.index[id]? = none ∧ Actors.resolve h ids = .error (.notFound id) := by
  induction ids with
  | nil =>
    obtain ⟨_, member, _⟩ := unknown
    exact absurd member (by simp)
  | cons first rest ih =>
    cases found : h.index[first]? with
    | none => exact ⟨first, by simp, found, by simp [Actors.resolve, find, found]⟩
    | some k =>
      have later : ∃ id ∈ rest, h.index[id]? = none := by
        obtain ⟨id, member, absent⟩ := unknown
        rcases List.mem_cons.mp member with rfl | among
        · exact absurd (absent.symm.trans found) (by simp)
        · exact ⟨id, among, absent⟩
      obtain ⟨id, among, absent, run⟩ := ih later
      exact ⟨id, List.mem_cons_of_mem _ among, absent, by simp [Actors.resolve, find, found, run]⟩

theorem attach_unknown {ids : List NodeId} (unknown : ∃ id ∈ ids, h.index[id]? = none)
    (perNode : Nat) (placement : Nat → Cpu) :
    ∃ id ∈ ids, h.index[id]? = none ∧
      Actors.attach h ids perNode placement = (h, .error (.notFound id)) := by
  obtain ⟨id, member, absent, run⟩ := resolve_unknown unknown
  exact ⟨id, member, absent, by simp only [Actors.attach, run]⟩

theorem attach_traceless (ids : List NodeId) (perNode : Nat) (placement : Nat → Cpu) :
    h.Traceless (Actors.attach h ids perNode placement) := by
  unfold Actors.attach
  split
  · exact traceless_error _
  · exact traceless_ok _ _

theorem flush_and_dump_unknown {id : NodeId} (unknown : h.index[id]? = none) :
    h.flushAndDump id = (h, .error (.notFound id)) := by
  have absent : h.index.contains id = false := index_lacks.mpr unknown
  simp [flushAndDump, absent]

theorem build_invalid {layout : Layout} {fault : Layout.Fault}
    (invalid : layout.validate = .error fault) : layout.build h = (h, .error fault) := by
  simp only [Layout.build, invalid]

end Hierarchy

namespace Session

variable {cfg : Config} {s : Session cfg}

open Hierarchy

def checksFirst (s : Session cfg) : Step → Bool
  | .build layout => match layout.validate with
    | .ok _ => false
    | .error _ => true
  | .flushDump id => !s.hierarchy.index.contains id
  | .flush => false
  | .requestSync _ => s.worker.isNone
  | _ => true

def refuses (s : Session cfg) (t : Step) : Bool := s.checksFirst t && (s.step t).2.isFault

def accepted (s : Session cfg) : List Step → List Step
  | [] => []
  | t :: rest => if s.refuses t then s.accepted rest else t :: (s.step t).1.accepted rest

theorem change_traceless {α : Type} {value : α → Answer}
    {outcome : Hierarchy cfg × Except NodeFault α} (traceless : s.hierarchy.Traceless outcome)
    (plain : ∀ a, (value a).isFault = false) (fault : (s.change value outcome).2.isFault = true) :
    (s.change value outcome).1 = s := by
  obtain ⟨cause, failed⟩ := Answer.is_fault_of_result plain fault
  have same : outcome.1 = s.hierarchy := traceless cause failed
  rw [change, same]
  rfl

theorem on_held_traceless {name : String} {act : Nat → Hierarchy cfg × Answer}
    (traceless : ∀ k, (act k).2.isFault = true → (act k).1 = s.hierarchy)
    (fault : (s.onHeld name act).2.isFault = true) : (s.onHeld name act).1 = s := by
  unfold onHeld at fault ⊢
  cases found : s.held.lookup name with
  | none => rfl
  | some k =>
    rw [found] at fault
    have same : (act k).1 = s.hierarchy := traceless k fault
    simp only [same]
    rfl

theorem on_handle_traceless {name : String} {act : Handle → Hierarchy cfg}
    (fault : (s.onHandle name act).2.isFault = true) : (s.onHandle name act).1 = s := by
  unfold onHandle at fault ⊢
  cases found : s.handles.lookup name with
  | none => rfl
  | some handle =>
    rw [found] at fault
    exact absurd fault Bool.false_ne_true

theorem drain_counter_traceless {k : Nat}
    (fault : (drainCounter s.hierarchy k).2.isFault = true) :
    (drainCounter s.hierarchy k).1 = s.hierarchy := by
  unfold drainCounter at fault ⊢
  cases run : (s.hierarchy.node k).counter.drain with
  | error cause => rfl
  | ok drained =>
    rw [run] at fault
    exact absurd fault Bool.false_ne_true

theorem step_of_refusal {t : Step} (refused : s.refuses t = true) : (s.step t).1 = s := by
  obtain ⟨first, fault⟩ : s.checksFirst t = true ∧ (s.step t).2.isFault = true := by
    simpa [refuses] using refused
  cases t
  case create parent name => exact change_traceless (create_traceless _ _) (fun _ => rfl) fault
  case createWithId id parent name =>
    exact change_traceless (create_with_id_traceless _ _ _) (fun _ => rfl) fault
  case createPath path =>
    have created := create_path_traceless (h := s.hierarchy) path
    simp only [step] at fault ⊢
    split <;> rename_i after _ run <;> rw [run] at created fault
    · exact absurd fault Bool.false_ne_true
    · have same : after = s.hierarchy := created _ rfl
      rw [same]
      rfl
  case build layout =>
    cases invalid : layout.validate with
    | ok _ => exact absurd first (by simp [checksFirst, invalid])
    | error cause =>
      simp only [step, build_invalid invalid]
      rfl
  case remove id => exact change_traceless (remove_traceless id) (fun _ => rfl) fault
  case detach id => exact change_traceless (detach_traceless id) (fun _ => rfl) fault
  case add id cpu delta => exact change_traceless (add_traceless _ _ _) (fun _ => rfl) fault
  case incrementHere id => exact change_traceless (add_traceless _ _ _) (fun _ => rfl) fault
  case actors ids perNode =>
    have attached := attach_traceless (h := s.hierarchy) ids perNode fun _ => s.here
    simp only [step] at fault ⊢
    split <;> rename_i after _ run <;> rw [run] at attached fault
    · exact absurd fault Bool.false_ne_true
    · have same : after = s.hierarchy := attached _ rfl
      rw [same]
      rfl
  case takeHandle id name =>
    have taken := handle_traceless (h := s.hierarchy) id
    simp only [step] at fault ⊢
    split <;> rename_i after _ run <;> rw [run] at taken fault
    · exact absurd fault Bool.false_ne_true
    · have same : after = s.hierarchy := taken _ rfl
      rw [same]
      rfl
  case shareHandle name copy =>
    simp only [step] at fault ⊢
    split <;> rename_i found
    · rfl
    · rw [found] at fault
      exact absurd fault Bool.false_ne_true
  case handleAdd name cpu delta => exact on_handle_traceless fault
  case handleIncrementHere name => exact on_handle_traceless fault
  case dropHandle name =>
    simp only [step, dropHandle] at fault
    split at fault <;> exact absurd fault Bool.false_ne_true
  case hold id name =>
    simp only [step] at fault ⊢
    split <;> rename_i found
    · rw [found] at fault
      exact absurd fault Bool.false_ne_true
    · rfl
  case heldDrain name => exact on_held_traceless (fun _ => drain_counter_traceless) fault
  case heldCount name cpu delta =>
    exact on_held_traceless (fun _ done => absurd done Bool.false_ne_true) fault
  case heldMark name cpu =>
    exact on_held_traceless (fun _ done => absurd done Bool.false_ne_true) fault
  case heldRequeue name =>
    exact on_held_traceless (fun _ done => absurd done Bool.false_ne_true) fault
  case heldInfo name => exact on_held_traceless (fun _ _ => rfl) fault
  case drainAround name count cpu =>
    exact on_held_traceless (fun _ done => absurd done Bool.false_ne_true) fault
  case dropHeld name =>
    simp only [step, dropHeld] at fault
    split at fault <;> exact absurd fault Bool.false_ne_true
  case flushDump id =>
    have unknown : s.hierarchy.index.contains id = false := (Bool.not_eq_true' _).mp first
    simp only [step, flush_and_dump_unknown (index_lacks.mp unknown)]
    rfl
  case requestSync requests =>
    have none : s.worker = none := by simpa [checksFirst] using first
    simp only [step, requestSync, none]
  case requestShutdown requests =>
    simp only [step, requestShutdown] at fault ⊢
    split <;> rename_i found
    · rfl
    · rw [found] at fault
      exact absurd fault Bool.false_ne_true
  case exportTo sink =>
    simp only [step]
    split <;> rfl
  all_goals first
    | rfl
    | exact absurd fault Bool.false_ne_true
    | exact absurd first Bool.false_ne_true

theorem run_accepted (s : Session cfg) (steps : List Step) :
    s.run (s.accepted steps) = s.run steps := by
  induction steps generalizing s with
  | nil => rfl
  | cons t rest ih =>
    simp only [accepted]
    cases refused : s.refuses t with
    | true =>
      simp only [if_true]
      rw [run_cons, step_of_refusal refused, ih]
    | false =>
      simp only [Bool.false_eq_true, if_false]
      rw [run_cons, run_cons, ih]

/-- A step that is refused leaves no trace, and a run is the same without it. Refused are a flush
    and dump of an unknown node, actors of which one has no node, and a layout that fails its check;
    and a node that is unknown, the root or has children is not removed. -/
theorem refused_without_trace (s : Session cfg) :
    (∀ t, s.refuses t = true → (s.step t).1 = s) ∧
    (∀ steps, s.run (s.accepted steps) = s.run steps) ∧
    (∀ id, s.hierarchy.index[id]? = none →
      s.step (.flushDump id) = (s, .nodeFault (.notFound id))) ∧
    (∀ ids perNode placement, (∃ id ∈ ids, s.hierarchy.index[id]? = none) →
      ∃ id ∈ ids, s.hierarchy.index[id]? = none ∧
        Actors.attach s.hierarchy ids perNode placement = (s.hierarchy, .error (.notFound id))) ∧
    (∀ layout fault, layout.validate = .error fault →
      s.step (.build layout) = (s, .layoutFault fault)) ∧
    ∀ id fault, (s.hierarchy.remove id).2 = .error fault →
      s.step (.remove id) = (s, .nodeFault fault) ∧
      (fault = .notFound id ∨ fault = .rootKept ∨ ∃ n, fault = .hasChildren id n) := by
  refine ⟨fun t => step_of_refusal, run_accepted s, ?_, ?_, ?_, ?_⟩
  · intro id unknown
    simp only [step, flush_and_dump_unknown unknown]
    rfl
  · intro ids perNode placement unknown
    exact attach_unknown unknown perNode placement
  · intro layout fault invalid
    simp only [step, build_invalid invalid]
    rfl
  · intro id fault failed
    have same : (s.hierarchy.remove id).1 = s.hierarchy := remove_traceless id fault failed
    refine ⟨?_, remove_fault failed⟩
    simp only [step, change, same, failed]
    rfl

def refusedSteps : List Step :=
  [.create NodeId.root "a", .create ⟨9⟩ "b", .createWithId ⟨2⟩ ⟨3⟩ "c", .createPath "/a/b/",
    .remove NodeId.root, .remove ⟨2⟩, .add ⟨9⟩ ⟨0⟩ 1, .takeHandle ⟨9⟩ "x", .pathOf ⟨9⟩, .read ⟨9⟩,
    .flushDump ⟨9⟩, .actors [⟨3⟩, ⟨9⟩] 4, .build ⟨["/x/y"]⟩]

theorem refused_below_a :
    let s := (start ⟨2⟩).run [.create NodeId.root "a", .create ⟨2⟩ "b", .add ⟨3⟩ ⟨1⟩ 5]
    (∀ t ∈ refusedSteps, s.refuses t = true ∧ (s.step t).1 = s) ∧ s.run refusedSteps = s ∧
      s.step (.flushDump ⟨9⟩) = (s, .nodeFault (.notFound ⟨9⟩)) ∧
      s.step (.build ⟨["/x/y"]⟩) =
        (s, .layoutFault (.path (.invalid "/x/y" .beforeParent))) ∧
      s.step (.remove ⟨2⟩) = (s, .nodeFault (.hasChildren ⟨2⟩ 1)) := by
  intro s
  obtain ⟨traceless, runs, dumped, _, built, removed⟩ := refused_without_trace s
  have all : ∀ t ∈ refusedSteps, s.refuses t = true :=
    List.all_eq_true.mp (by decide +kernel : refusedSteps.all s.refuses = true)
  have none : s.accepted refusedSteps = [] := by decide +kernel
  refine ⟨fun t member => ⟨all t member, traceless t (all t member)⟩, ?_, ?_, ?_, ?_⟩
  · exact (runs refusedSteps).symm.trans (by rw [none]; rfl)
  · exact dumped ⟨9⟩ (by decide +kernel)
  · exact built _ _ (by decide +kernel)
  · exact (removed ⟨2⟩ _ (by decide +kernel)).1

end Session

end Rollup
