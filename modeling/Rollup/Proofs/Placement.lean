import Mathlib
import Rollup.Proofs.AlikeOperations
import Rollup.Proofs.RecordedTotals

/-!
Which CPU an event is counted on does not show. Every session answers as the session does that
counts the same events on the first CPU of a hierarchy of any other size, as long as all events fit a
word and no step looks at single slots. So two sessions whose steps differ in CPUs only, on
hierarchies with any numbers of CPUs, give the same answers.

The two sessions are followed step by step. After every step their hierarchies are alike and their
names stand for the same nodes.
-/
namespace Rollup

namespace Step

def anywhere : Step → Step
  | .add id _ delta => .add id ⟨0⟩ delta
  | .incrementHere id => .add id ⟨0⟩ 1
  | .handleAdd name _ delta => .handleAdd name ⟨0⟩ delta
  | .handleIncrementHere name => .handleAdd name ⟨0⟩ 1
  | t => t

def isOrdinary : Step → Bool
  | .exportTo _ => false
  | t => t.isPlain || t.isQuiet

theorem anywhere_delta (t : Step) : t.anywhere.delta = t.delta := by
  cases t <;> rfl

theorem anywhere_ordinary (t : Step) : t.anywhere.isOrdinary = t.isOrdinary := by
  cases t <;> rfl

theorem anywhere_deltas (steps : List Step) : deltas (steps.map anywhere) = deltas steps := by
  rw [deltas, deltas, List.map_map]
  exact congrArg List.sum (List.map_congr_left fun t _ => anywhere_delta t)

end Step

/-- An answer without what depends on the slots: of the entries queued only whether there are none,
    and of the sizes only those of the tree. -/
def Answer.shared : Answer → Answer
  | .pending entries => .truth (entries = 0)
  | .sizes tree => .sizes { tree with configured := 0, slots := 0 }
  | answer => answer

namespace Session

variable {cfg cfg' : Config} {s : Session cfg} {r : Session cfg'}

open Hierarchy

def answers (s : Session cfg) : List Step → List Answer
  | [] => []
  | t :: rest => (s.step t).2 :: (s.step t).1.answers rest

theorem step_ordinary (healthy : Healthy Kept s) {t : Step} (ordinary : t.isOrdinary = true)
    (fits : s.hierarchy.recordings + t.delta < UInt64.size) :
    Steps Kept s (s.step t).1 (s.credit t) := by
  have either : t.isPlain = true ∨ t.isQuiet = true := by
    cases t <;> simp_all [Step.isOrdinary]
  rcases either with plain | quiet
  · exact step_advances kept_upkeep healthy trivial plain fits
  · exact healthy.rests kept_upkeep quiet

structure Match (s : Session cfg) (r : Session cfg') : Prop where
  alike : Alike s.hierarchy r.hierarchy
  handles : r.handles = s.handles
  held : r.held = s.held

structure Pair (s : Session cfg) (r : Session cfg') : Prop extends Match s r where
  left : Healthy Kept s
  right : Healthy Kept r

structure Reply (x : Session cfg × Answer) (y : Session cfg' × Answer) : Prop where
  sessions : Match x.1 y.1
  answer : y.2.shared = x.2.shared

theorem Pair.start (cfg cfg' : Config) : Pair (Session.start cfg) (Session.start cfg') where
  alike := Alike.start cfg cfg'
  handles := rfl
  held := rfl
  left := healthy_start cfg
  right := healthy_start cfg'

theorem released_alike {h : Hierarchy cfg} {g : Hierarchy cfg'} (alike : Alike h g)
    (old : Option Nat) : Alike (released h old) (released g old) := by
  cases old with
  | none => exact alike
  | some k =>
    have same : g.holds.erase k = h.holds.erase k := by rw [alike.holds]
    exact alike.renewed same alike.flushes

namespace Pair

variable (pair : Pair s r)
include pair

theorem twins : Twins s.hierarchy r.hierarchy := ⟨pair.alike, pair.left.kept, pair.right.kept⟩

theorem with_hierarchy {h : Hierarchy cfg} {g : Hierarchy cfg'} (alike : Alike h g) :
    Match (s.withHierarchy h) (r.withHierarchy g) :=
  ⟨alike, pair.handles, pair.held⟩

theorem reads {answer answer' : Answer} (same : answer'.shared = answer.shared) :
    Reply (s, answer) (r, answer') :=
  ⟨pair.toMatch, same⟩

theorem changes {α : Type} {value : α → Answer} {x : Hierarchy cfg × Except NodeFault α}
    {y : Hierarchy cfg' × Except NodeFault α} (agree : Agree x y) :
    Reply (s.change value x) (r.change value y) :=
  ⟨pair.with_hierarchy agree.alike, by rw [change, change, agree.answer]⟩

theorem takes (k : Nat) : Alike (s.hierarchy.hold k) (r.hierarchy.hold k) := by
  have same : k :: r.hierarchy.holds = k :: s.hierarchy.holds := by rw [pair.alike.holds]
  exact pair.alike.renewed same pair.alike.flushes

theorem keeps_handle (name : String) (handle : Handle) :
    Match (s.keepHandle (s.hierarchy.hold handle.key) name handle)
      (r.keepHandle (r.hierarchy.hold handle.key) name handle) where
  alike := by
    simp only [keepHandle, pair.handles]
    exact released_alike (pair.takes handle.key) _
  handles := by simp only [keepHandle, pair.handles]
  held := pair.held

theorem keeps_held (name : String) (k : Nat) :
    Match (s.keepHeld (s.hierarchy.hold k) name k) (r.keepHeld (r.hierarchy.hold k) name k) where
  alike := by
    simp only [keepHeld, pair.held]
    exact released_alike (pair.takes k) _
  handles := pair.handles
  held := by simp only [keepHeld, pair.held]

theorem adds_through {delta : UInt64} (fits : s.hierarchy.recordings + delta.toNat < UInt64.size)
    (name : String) (cpu cpu' : Cpu) :
    Reply (s.onHandle name fun handle => handle.add s.hierarchy cpu delta)
      (r.onHandle name fun handle => handle.add r.hierarchy cpu' delta) := by
  unfold onHandle
  rw [pair.handles]
  cases found : s.handles.lookup name with
  | none => exact pair.reads rfl
  | some handle =>
    have inside := pair.left.referenced.inside _ (Referenced.handle_mem found)
    exact ⟨pair.with_hierarchy (pair.twins.records inside fits cpu cpu'), rfl⟩

end Pair

theorem step_replies (pair : Pair s r) {t : Step} (ordinary : t.isOrdinary = true)
    (fits : s.hierarchy.recordings + t.delta < UInt64.size) :
    Reply (s.step t) (r.step t.anywhere) := by
  have alike := pair.alike
  have twins := pair.twins
  have filed := pair.left.kept.tracked.filed
  have filed' := pair.right.kept.tracked.filed
  have solvent := pair.left.kept.solvent
  have solvent' := pair.right.kept.solvent
  cases t
  case create parent name => exact pair.changes (twins.creates parent name)
  case createWithId id parent name => exact pair.changes (twins.creates_with_id id parent name)
  case createPath path =>
    obtain ⟨h, g, result, left, right, after⟩ := (twins.creates_path path).parts
    simp only [step, Step.anywhere, left, right]
    cases result <;> exact ⟨pair.with_hierarchy after, rfl⟩
  case build layout =>
    obtain ⟨h, g, result, left, right, after⟩ := (twins.builds layout).parts
    simp only [step, Step.anywhere, left, right]
    cases result <;> exact ⟨pair.with_hierarchy after, rfl⟩
  case remove id => exact pair.changes (twins.removes id)
  case lookup path => exact pair.reads (by rw [alike.lookup_id])
  case pathOf id => exact pair.reads (by simp only [alike.find, alike.path_of])
  case ancestors id => exact pair.reads (by rw [alike.ancestor_ids])
  case children id => exact pair.reads (by simp only [alike.find, alike.child_ids])
  case contains id => exact pair.reads (by rw [alike.index])
  case info id => exact pair.reads (by simp only [alike.find, alike.view solvent solvent'])
  case sizes => exact pair.reads (by simp only [sizes, Answer.shared, alike.index])
  case add id cpu delta => exact pair.changes (twins.adds fits id cpu ⟨0⟩)
  case incrementHere id =>
    have one : s.hierarchy.recordings + (1 : UInt64).toNat < UInt64.size := fits
    exact pair.changes (twins.adds one id s.here ⟨0⟩)
  case takeHandle id name =>
    simp only [step, Step.anywhere, Handle.ofId, alike.find]
    cases s.hierarchy.find id with
    | error fault => exact pair.reads rfl
    | ok k =>
      refine ⟨pair.keeps_handle name ⟨k⟩, ?_⟩
      have described : (⟨k⟩ : Handle).describe (r.hierarchy.hold k) =
          (⟨k⟩ : Handle).describe (s.hierarchy.hold k) := by
        unfold Handle.describe
        rw [(pair.takes k).id]
      simp only [described]
  case shareHandle name copy =>
    simp only [step, Step.anywhere, pair.handles]
    cases s.handles.lookup name with
    | none => exact pair.reads rfl
    | some handle => exact ⟨pair.keeps_handle copy handle, rfl⟩
  case handleAdd name cpu delta => exact pair.adds_through fits name cpu ⟨0⟩
  case handleIncrementHere name =>
    have one : s.hierarchy.recordings + (1 : UInt64).toNat < UInt64.size := fits
    exact pair.adds_through one name s.here ⟨0⟩
  case dropHandle name =>
    simp only [step, Step.anywhere, dropHandle, pair.handles]
    cases s.handles.lookup name with
    | none => exact pair.reads rfl
    | some handle => exact ⟨⟨released_alike alike (some handle.key), rfl, pair.held⟩, rfl⟩
  case hold id name =>
    simp only [step, Step.anywhere, alike.find]
    cases s.hierarchy.find id with
    | error fault => exact pair.reads rfl
    | ok k => exact ⟨pair.keeps_held name k, rfl⟩
  case heldInfo name =>
    simp only [step, Step.anywhere, onHeld, pair.held, alike.view solvent solvent']
    cases s.held.lookup name with
    | none => exact pair.reads rfl
    | some k => exact ⟨pair.with_hierarchy alike, rfl⟩
  case dropHeld name =>
    simp only [step, Step.anywhere, dropHeld, pair.held]
    cases s.held.lookup name with
    | none => exact pair.reads rfl
    | some k => exact ⟨⟨released_alike alike (some k), pair.handles, rfl⟩, rfl⟩
  case flush => exact pair.changes twins.flushes
  case flushCount => exact pair.reads (by rw [alike.flushes])
  case read id => exact pair.reads (by rw [alike.read])
  case dump id => exact pair.reads (by rw [alike.dump])
  case flushDump id => exact pair.changes (twins.flushes_and_dumps id)
  case check => exact pair.reads (by rw [alike.check_balance solvent solvent'])
  case snapshot => exact pair.reads (by rw [alike.snapshot solvent solvent'])
  case pending => exact pair.reads (by simp only [Answer.shared, alike.pending_count filed filed'])
  case queued id => exact pair.reads (by rw [alike.is_queued filed filed'])
  all_goals exact absurd ordinary Bool.false_ne_true

theorem answers_anywhere {steps : List Step} (pair : Pair s r)
    (ordinary : ∀ t ∈ steps, t.isOrdinary = true)
    (fits : s.hierarchy.recordings + Step.deltas steps < UInt64.size) :
    (r.answers (steps.map Step.anywhere)).map Answer.shared =
      (s.answers steps).map Answer.shared := by
  induction steps generalizing s r with
  | nil => rfl
  | cons t rest ih =>
    have sum : Step.deltas (t :: rest) = t.delta + Step.deltas rest := rfl
    have room : s.hierarchy.recordings + t.delta < UInt64.size := by omega
    have plain := ordinary t (by simp)
    have reply := step_replies pair plain room
    have first := step_ordinary pair.left plain room
    have second := step_ordinary pair.right ((Step.anywhere_ordinary t).trans plain) (by
      rw [pair.alike.recordings, Step.anywhere_delta]
      exact room)
    have le := first.recordings_le
    have later := ih ⟨reply.sessions, first.healthy, second.healthy⟩
      (fun u member => ordinary u (by simp [member])) (by omega)
    simp only [List.map_cons, answers, reply.answer, later]

/-- Sessions whose steps differ in CPUs only, on hierarchies of any numbers of CPUs, give the same
    answers. -/
theorem placement_invisible (cfg cfg' : Config) (steps steps' : List Step)
    (same : steps'.map Step.anywhere = steps.map Step.anywhere)
    (ordinary : ∀ t ∈ steps, t.isOrdinary = true) (fits : Step.deltas steps < UInt64.size) :
    ((start cfg').answers steps').map Answer.shared =
      ((start cfg).answers steps).map Answer.shared := by
  have none (cfg : Config) : (start cfg).hierarchy.recordings = 0 := new_recordings cfg
  have ordinary' (t : Step) (member : t ∈ steps') : t.isOrdinary = true := by
    have among : t.anywhere ∈ steps.map Step.anywhere := same ▸ List.mem_map_of_mem member
    obtain ⟨u, origin, placed⟩ := List.mem_map.mp among
    rw [← t.anywhere_ordinary, ← placed, u.anywhere_ordinary]
    exact ordinary u origin
  have fits' : Step.deltas steps' < UInt64.size := by
    rw [← Step.anywhere_deltas, same, Step.anywhere_deltas]
    exact fits
  have first := answers_anywhere (Pair.start cfg cfg) ordinary (by rw [none]; omega)
  have second := answers_anywhere (Pair.start cfg' cfg) ordinary' (by rw [none]; omega)
  rw [← second, same, first]

def placedSteps (cpu other : Cpu) : List Step :=
  [.create NodeId.root "job", .takeHandle ⟨2⟩ "job", .add ⟨2⟩ cpu 5, .handleAdd "job" other 7,
    .pending, .flush, .info ⟨2⟩, .remove ⟨2⟩, .flushCount]

theorem placement_invisible_without_cpus :
    ((start ⟨0⟩).answers (placedSteps ⟨9⟩ ⟨4⟩)).map Answer.shared =
      ((start ⟨3⟩).answers (placedSteps ⟨1⟩ ⟨1⟩)).map Answer.shared :=
  placement_invisible ⟨3⟩ ⟨0⟩ _ _ rfl (by decide) (by decide)

end Session

end Rollup
