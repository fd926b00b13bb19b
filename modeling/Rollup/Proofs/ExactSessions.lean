import Mathlib
import Rollup.Proofs.StepSums

/-!
Sessions in which no sum of words wraps around. As long as all events that a session was given fit a
word, every addition that any of its steps makes fits one too, every flush of a step succeeds, in a
removal or of the worker as well, and the sums over slots and children that readers form are those
of the numbers.
-/
namespace Rollup

namespace Hierarchy

variable {cfg : Config} {h : Hierarchy cfg} {n k : Nat}

structure Accurate (h : Hierarchy cfg) (k : Nat) : Prop where
  recorded : (h.node k).counter.sum.toNat = h.recorded k
  drained : (h.node k).counter.flushedTotal.toNat = h.drained k
  undrained : (h.node k).counter.unflushed.toNat = h.undrained k
  drains : ∃ own counter, (h.node k).counter.drain = .ok (own, counter)
  children : (h.childrenTotal k).toNat =
    ((h.node k).children.values.map fun c => (h.node c).total.toNat).sum
  terms : (h.node k).own.toNat + (h.node k).inherited.toNat +
    ((h.node k).children.values.map fun c => (h.node c).total.toNat).sum < UInt64.size

theorem Endowed.accurate (endowed : h.Endowed n) (inside : k < h.arena.size) : h.Accurate k := by
  have solvent := endowed.solvent
  have own : (h.node k).own.toNat = h.drained k :=
    Counter.flushed_total_of_fits (solvent.drained_fits k)
  have children := endowed.shaped.sum_children inside fun c => (h.node c).total.toNat
  have bounded := endowed.terms_bounded inside
  have fits := solvent.fits
  have terms : (h.node k).own.toNat + (h.node k).inherited.toNat +
      ((h.node k).children.values.map fun c => (h.node c).total.toNat).sum < UInt64.size := by
    rw [own, children]
    exact Nat.lt_of_le_of_lt bounded fits
  constructor
  case recorded => exact Counter.sum_of_fits (solvent.recorded_fits k)
  case drained => exact own
  case undrained => exact solvent.unflushed_eq k
  case drains =>
    obtain ⟨own, run, _⟩ := Counter.drain_ok (solvent.ordered k) (solvent.undrained_fits k)
    exact ⟨own, _, run⟩
  case children => exact words_sum (by omega)
  case terms => exact terms

end Hierarchy

def NodeFault.blamesCounter : NodeFault → Bool
  | .inconsistent (.counter _) => true
  | _ => false

def Answer.blamesCounter : Answer → Bool
  | .nodeFault fault => fault.blamesCounter
  | _ => false

theorem Answer.of_result_spares {α : Type} {value : α → Answer} {result : Except NodeFault α}
    (plain : ∀ a, (value a).blamesCounter = false)
    (spares : ∀ fault, result = .error fault → fault.blamesCounter = false) :
    (ofResult value result).blamesCounter = false := by
  cases result with
  | ok a => exact plain a
  | error fault => exact spares fault rfl

namespace Hierarchy

variable {cfg : Config} {h : Hierarchy cfg} {id parent : NodeId} {name : String} {fault : NodeFault}

theorem find_spares (run : h.find id = .error fault) : fault.blamesCounter = false := by
  unfold find at run
  split at run <;> cases run
  rfl

theorem vacant_spares (run : h.vacantParent parent name = .error fault) :
    fault.blamesCounter = false := by
  unfold vacantParent at run
  split at run
  · cases run
    rfl
  · split at run <;> cases run
    rfl

theorem create_spares (run : (h.create parent name).2 = .error fault) :
    fault.blamesCounter = false := by
  unfold create at run
  split at run
  · rename_i failed
    cases run
    exact vacant_spares failed
  · split at run <;> cases run
    rfl

theorem create_with_id_spares (run : (h.createWithId id parent name).2 = .error fault) :
    fault.blamesCounter = false := by
  unfold createWithId at run
  split at run
  · cases run
    rfl
  · split at run <;> cases run
    rename_i failed
    exact vacant_spares failed

theorem detach_spares (run : (h.detach id).2 = .error fault) : fault.blamesCounter = false := by
  unfold detach at run
  split at run
  · cases run
    rfl
  · split at run
    · cases run
      rfl
    · split at run <;> cases run
      rfl

theorem remove_spares (run : (h.remove id).2 = .error fault) : fault.blamesCounter = false := by
  unfold remove at run
  split at run <;> cases run
  rename_i failed
  exact detach_spares (congrArg Prod.snd failed)

theorem add_spares {cpu : Cpu} {delta : UInt64} (run : (h.add id cpu delta).2 = .error fault) :
    fault.blamesCounter = false := by
  unfold add at run
  split at run <;> cases run
  rename_i failed
  exact find_spares failed

theorem ancestors_spare (run : h.ancestorIds id = .error fault) : fault.blamesCounter = false := by
  unfold ancestorIds at run
  split at run <;> cases run
  rename_i failed
  exact find_spares failed

theorem read_spares (run : h.read id = .error fault) : fault.blamesCounter = false := by
  unfold Hierarchy.read at run
  split at run <;> cases run
  rename_i failed
  exact find_spares failed

theorem dump_spares (run : h.dump id = .error fault) : fault.blamesCounter = false := by
  unfold dump at run
  split at run <;> cases run
  rename_i failed
  exact read_spares failed

theorem check_spares (run : h.checkBalance = .error fault) : fault.blamesCounter = false := by
  unfold checkBalance at run
  split at run <;> cases run
  rfl

end Hierarchy

namespace Session

variable {cfg : Config} {s : Session cfg} {n : Nat}

open Hierarchy

def given (s : Session cfg) : List Step → Nat
  | [] => 0
  | t :: rest => s.brings t + (s.step t).1.given rest

/-- No sum that a step forms wraps around or saturates, and nothing is found inconsistent. -/
structure Fitting (s : Session cfg) (t : Step) : Prop where
  fits : ∀ a ∈ s.additions t, a.Fits
  writes : Writes (s.additions t) s.hierarchy (s.step t).1.hierarchy
  flushes : ∀ g ∈ s.flushStarts t, ∃ after sum, g.flush = (after, .ok sum)
  answer : (s.step t).2.blamesCounter = false

theorem change_spares {α : Type} {value : α → Answer}
    {outcome : Hierarchy cfg × Except NodeFault α} (plain : ∀ a, (value a).blamesCounter = false)
    (spares : ∀ fault, outcome.2 = .error fault → fault.blamesCounter = false) :
    (s.change value outcome).2.blamesCounter = false :=
  Answer.of_result_spares plain spares

theorem on_held_spares {name : String} {act : Nat → Hierarchy cfg × Answer}
    (acts : ∀ k ∈ s.references, (act k).2.blamesCounter = false) :
    (s.onHeld name act).2.blamesCounter = false := by
  unfold onHeld
  cases found : s.held.lookup name with
  | none => rfl
  | some k => exact acts k (Referenced.held_mem found)

theorem flush_spares {h : Hierarchy cfg} (endowed : h.Endowed n) {fault : NodeFault}
    (run : h.flush.2 = .error fault) : fault.blamesCounter = false := by
  obtain ⟨after, sum, ok⟩ := endowed.flush_ok
  rw [ok] at run
  exact absurd run (by simp)

theorem dump_after_flush_spares {h : Hierarchy cfg} (endowed : h.Endowed n) {id : NodeId}
    {fault : NodeFault} (run : (h.flushAndDump id).2 = .error fault) :
    fault.blamesCounter = false := by
  unfold flushAndDump at run
  split at run
  · split at run
    · exact dump_spares run
    · rename_i failed
      cases run
      exact flush_spares endowed (congrArg Prod.snd failed)
  · cases run
    rfl

theorem drain_counter_spares {h : Hierarchy cfg} {k : Nat} (endowed : h.Endowed n)
    (inside : k < h.arena.size) : (drainCounter h k).2.blamesCounter = false := by
  obtain ⟨own, counter, run⟩ := (endowed.accurate inside).drains
  simp only [drainCounter, run, Answer.blamesCounter]

theorem request_sync_spares (endowed : s.hierarchy.Endowed n) (requests : Nat) :
    (s.requestSync requests).2.blamesCounter = false := by
  unfold requestSync
  split
  · rfl
  · rename_i w _
    obtain ⟨_, outcome⟩ := Worker.flush_sync_series s.hierarchy (w.requestTimes requests)
      w.replies.length
    refine Answer.of_result_spares (fun _ => rfl) fun fault failed => ?_
    rcases outcome with gone | ⟨m, _, flushed⟩
    · cases gone.symm.trans failed
      rfl
    · exact flush_spares (endowed.series m).2 (flushed.symm.trans failed)

theorem step_spares (healthy : Healthy (Endowed n) s) (t : Step) :
    (s.step t).2.blamesCounter = false := by
  have endowed := healthy.kept
  cases t
  case create parent name => exact change_spares (fun _ => rfl) fun _ => create_spares
  case createWithId id parent name =>
    exact change_spares (fun _ => rfl) fun _ => create_with_id_spares
  case remove id => exact change_spares (fun _ => rfl) fun _ => remove_spares
  case detach id => exact change_spares (fun _ => rfl) fun _ => detach_spares
  case pathOf id => exact Answer.of_result_spares (fun _ => rfl) fun _ => find_spares
  case ancestors id => exact Answer.of_result_spares (fun _ => rfl) fun _ => ancestors_spare
  case children id => exact Answer.of_result_spares (fun _ => rfl) fun _ => find_spares
  case info id => exact Answer.of_result_spares (fun _ => rfl) fun _ => find_spares
  case add id cpu delta => exact change_spares (fun _ => rfl) fun _ => add_spares
  case incrementHere id => exact change_spares (fun _ => rfl) fun _ => add_spares
  case takeHandle id name =>
    simp only [step, Handle.ofId]
    cases found : s.hierarchy.find id with
    | ok k => rfl
    | error fault => exact find_spares found
  case hold id name =>
    simp only [step]
    split
    · rfl
    · rename_i failed
      exact find_spares failed
  case heldDrain name =>
    exact on_held_spares fun k member =>
      drain_counter_spares endowed (healthy.referenced.inside k member)
  case heldCount | heldMark | heldRequeue | heldInfo | drainAround =>
    exact on_held_spares fun _ _ => rfl
  case flush => exact change_spares (fun _ => rfl) fun _ => flush_spares endowed
  case flushDump id => exact change_spares (fun _ => rfl) fun _ => dump_after_flush_spares endowed
  case read id => exact Answer.of_result_spares (fun _ => rfl) fun _ => read_spares
  case dump id => exact Answer.of_result_spares (fun _ => rfl) fun _ => dump_spares
  case check => exact Answer.of_result_spares (fun _ => rfl) fun _ => check_spares
  case requestSync requests => exact request_sync_spares endowed requests
  case requestShutdown requests =>
    simp only [step, requestShutdown]
    split <;> rfl
  case createPath | build | actors | shareHandle | exportTo =>
    simp only [step]
    split <;> rfl
  case handleAdd | handleIncrementHere =>
    simp only [step, onHandle]
    split <;> rfl
  case dropHandle | dropHeld =>
    simp only [step, dropHandle, dropHeld]
    split <;> rfl
  all_goals rfl

theorem step_fitting {t : Step} (healthy : Healthy (Endowed (n + s.brings t)) s) : s.Fitting t where
  fits := additions_fit healthy
  writes := step_writes healthy
  flushes g start := (starts_endowed healthy.kept t g start).flush_ok
  answer := step_spares healthy t

theorem step_endowed {t : Step} (healthy : Healthy (Endowed (n + s.brings t)) s) :
    Healthy (Endowed n) (s.step t).1 := by
  cases t
  case actors ids perNode =>
    cases run : Actors.resolve s.hierarchy ids with
    | error fault =>
      have spare : s.hierarchy.Endowed n := endowed_custody.spare _ healthy.kept
      simp only [step, Actors.attach, run]
      exact ⟨spare, healthy.referenced⟩
    | ok handles =>
      simp only [brings, run] at healthy
      exact step_keeps endowed_custody healthy trivial
  all_goals exact step_keeps endowed_custody healthy trivial

theorem run_endowed {before after : List Step}
    (healthy : Healthy (Endowed (s.given (before ++ after))) s) :
    Healthy (Endowed ((s.run before).given after)) (s.run before) := by
  induction before generalizing s with
  | nil => exact healthy
  | cons t rest ih =>
    rw [List.cons_append, given, Nat.add_comm] at healthy
    rw [run_cons]
    exact ih (step_endowed healthy)

/-- As long as all events given to a session fit a word, whatever its steps are: wherever it stands,
    the sums that readers of any node form are exact, and its next step makes no addition that
    leaves the word, runs no flush that fails and finds no counter inconsistent. -/
theorem no_sum_overflows (cfg : Config) (steps : List Step)
    (fits : (start cfg).given steps < UInt64.size) :
    ∀ before after, steps = before ++ after →
      (∀ k, k < ((start cfg).run before).hierarchy.arena.size →
        ((start cfg).run before).hierarchy.Accurate k) ∧
      ∀ t rest, after = t :: rest → ((start cfg).run before).Fitting t := by
  rintro before after rfl
  have begins : Healthy (Endowed ((start cfg).given (before ++ after))) (start cfg) :=
    ⟨.start cfg fits, Referenced.start cfg⟩
  have reached := run_endowed begins
  refine ⟨fun k inside => reached.kept.accurate inside, ?_⟩
  rintro t rest rfl
  rw [given, Nat.add_comm] at reached
  exact step_fitting reached

/-- Two nodes leave the tree one after the other, one of them records late and its id is used again,
    somebody drains behind the back of the flusher, and the events just fit. -/
def brimSteps : List Step :=
  [.create NodeId.root "job", .create ⟨2⟩ "task", .add ⟨3⟩ ⟨0⟩ 18446744073709551600,
    .hold ⟨3⟩ "task", .remove ⟨3⟩, .heldCount "task" ⟨1⟩ 7, .heldMark "task" ⟨1⟩,
    .hold ⟨2⟩ "job", .remove ⟨2⟩, .createWithId ⟨3⟩ NodeId.root "task", .actors [⟨3⟩] 5,
    .heldCount "job" ⟨0⟩ 3, .heldDrain "job", .drainTake 1, .spawnWorker]

theorem no_sum_overflows_at_the_brim :
    (start ⟨2⟩).given brimSteps = UInt64.size - 1 ∧
      ((start ⟨2⟩).run brimSteps).hierarchy.Accurate Hierarchy.rootKey ∧
      ((start ⟨2⟩).run brimSteps).Fitting (.requestSync 1) := by
  have given : (start ⟨2⟩).given brimSteps = UInt64.size - 1 := by decide +kernel
  have all : (start ⟨2⟩).given (brimSteps ++ [.requestSync 1]) < UInt64.size := by decide +kernel
  have result := no_sum_overflows ⟨2⟩ (brimSteps ++ [.requestSync 1]) all brimSteps _ rfl
  exact ⟨given, result.1 _ (by decide +kernel), result.2 _ _ rfl⟩

end Session

end Rollup
