import Mathlib
import Rollup.Proofs.Marking

/-!
Flushes that fail. When the counter of the node due next cannot be drained, the nodes settled so far
keep what they gained, what they passed up stays pending in their parents, and everything that still
waits is queued again, whatever list it came from, on that of slot 0.

`Halfway` is the state between two rounds, of a flush that may fail later: what still waits has its
counter and its total as they were.
-/
namespace Rollup

namespace Hierarchy

variable {cfg : Config} {h h' g g' : Hierarchy cfg} {s t rest s' : Schedule} {k : Nat}

def faulty (h : Hierarchy cfg) : List Nat :=
  (List.range h.arena.size).filter fun k =>
    h.isListed k && match (h.node k).counter.drain with
      | .error _ => true
      | .ok _ => false

theorem mem_faulty : k ∈ h.faulty ↔
    k ∈ h.due ∧ ∃ fault, (h.node k).counter.drain = .error fault := by
  rw [faulty, due, List.mem_filter, Finset.mem_filter, List.mem_range, Finset.mem_range,
    Bool.and_eq_true, and_assoc]
  cases (h.node k).counter.drain with
  | error fault => simp
  | ok result => simp

theorem settle_error {fault : Counter.Fault} (failed : h.settle s k = .error fault) :
    (h.node k).counter.drain = .error fault := by
  cases drained : (h.node k).counter.drain with
  | error other =>
    simp only [settle, drained, Except.error.injEq] at failed
    rw [failed]
  | ok result =>
    obtain ⟨g, s', done⟩ := settle_of_drained drained s
    rw [failed] at done
    exact absurd done (by simp)

structure Requeued (h h' : Hierarchy cfg) (ks : List Nat) : Prop extends OnlyLists h h' where
  lists : ∀ c j, h'.lists c j ↔ h.lists c j ∨ c = cfg.slot ⟨0⟩ ∧ ∃ k ∈ ks, j ∈ h.chain k
  queued : ∀ (d : Fin cfg.slots) j, (h'.node j).queued[d] = true ↔
    (h.node j).queued[d] = true ∨ d = cfg.slot ⟨0⟩ ∧ ∃ k ∈ ks, j ∈ h.chain k

theorem requeue_all {ks : List Nat} (tracked : h.Tracked) (distinct : h.LiveDistinct)
    (inside : ∀ k ∈ ks, k < h.arena.size) (alive : ∀ k ∈ ks, h.isAlive k = true) :
    Requeued h (ks.foldl requeue h) ks := by
  have marks : ks.foldl requeue h = h.markAll (ks.map fun k => (k, ⟨0⟩)) := by
    rw [markAll, List.foldl_map]
    rfl
  have marked : Marked h (h.markAll (ks.map fun k => (k, ⟨0⟩))) (ks.map fun k => (k, ⟨0⟩)) := by
    refine marks_all tracked distinct fun m member => ?_
    obtain ⟨k, found, rfl⟩ := List.mem_map.mp member
    exact ⟨inside k found, alive k found⟩
  have reached (c : Fin cfg.slots) (j : Nat) :
      (∃ m ∈ ks.map fun k => (k, ⟨0⟩), cfg.slot m.2 = c ∧ j ∈ h.chain m.1) ↔
        c = cfg.slot ⟨0⟩ ∧ ∃ k ∈ ks, j ∈ h.chain k := by
    constructor
    · rintro ⟨m, member, slot, above⟩
      obtain ⟨k, found, rfl⟩ := List.mem_map.mp member
      exact ⟨slot.symm, k, found, above⟩
    · rintro ⟨slot, k, found, above⟩
      exact ⟨(k, ⟨0⟩), List.mem_map_of_mem found, slot.symm, above⟩
  rw [marks]
  refine ⟨marked.toOnlyLists, fun c j => ?_, fun c j => ?_⟩
  · rw [marked.lists, reached]
  · rw [marked.queued, reached]

/-- What waits is as it was; what does not is settled, and came before all that waits. -/
structure Halfway (h g : Hierarchy cfg) (s : Schedule) : Prop where
  under : Underway h.begun g s
  tracked : g.Tracked
  waiting : ∀ k ∈ s.waiting, k ∈ h.due
  counter : ∀ k, (g.node k).counter =
    if k ∈ h.due ∧ k ∉ s.waiting then (h.node k).counter.settled else (h.node k).counter
  total : ∀ k ∈ s.waiting, (g.node k).total = (h.node k).total
  pending : ∀ k ∈ h.due, k ∉ s.waiting → (g.node k).pending = 0
  ahead : ∀ k ∈ h.due, k ∉ s.waiting → ∀ j ∈ s.waiting, (h.rank j).isAfter (h.rank k) = true
  faulty : ∀ k ∈ h.faulty, k ∈ s.waiting

theorem Halfway.start (tracked : h.Tracked) : Halfway h h.begun h.begunSchedule := by
  have begun := begins tracked
  constructor
  case under => exact begun.underway
  case tracked =>
    exact tracked.taken_holding (drain_all tracked.filed) fun _ member =>
      tracked.filed.addressed.begun_held member
  case waiting =>
    intro k member
    exact (begun_waiting tracked).mp member
  case counter =>
    intro k
    rw [if_neg fun both => both.2 ((begun_waiting tracked).mpr both.1)]
    exact begun.counter k
  case total =>
    intro k _
    exact begun.total k
  case pending =>
    intro k member absent
    exact absurd ((begun_waiting tracked).mpr member) absent
  case ahead =>
    intro k member absent
    exact absurd ((begun_waiting tracked).mpr member) absent
  case faulty =>
    intro k member
    exact (begun_waiting tracked).mpr (mem_faulty.mp member).1

namespace Halfway

theorem counter_of_waiting (half : Halfway h g s) (waits : k ∈ s.waiting) :
    (g.node k).counter = (h.node k).counter := by
  rw [half.counter, if_neg fun both => both.2 waits]

theorem sound_of_settle (half : Halfway h g s) {own : UInt64} (waits : k ∈ s.waiting)
    (done : g.settle rest k = .ok (own, g', s')) : k ∉ h.faulty := by
  intro member
  obtain ⟨_, fault, failed⟩ := mem_faulty.mp member
  rw [← half.counter_of_waiting waits] at failed
  simp [settle, failed] at done

section
variable (tracked : h.Tracked)
include tracked

theorem shape (half : Halfway h g s) : SameShape h g :=
  (begins tracked).toSameShape.trans half.under.shape

theorem parent (half : Halfway h g s) (j : Nat) : g.parent? j = h.parent? j :=
  (half.under.parent j).trans ((begins tracked).parent j)

theorem round (half : Halfway h g s) {own : UInt64} (pop : s.pop = some (k, rest))
    (done : g.settle rest k = .ok (own, g', s')) : Halfway h g' s' := by
  have step := half.under.round pop done
  have waits := step.popped.waited
  have left := step.popped.rest_waiting
  constructor
  case under => exact step.after
  case tracked => exact half.tracked.settled (half.under.inside k waits) done
  case waiting =>
    intro j member
    exact half.waiting j ((left j).mp member).1
  case counter =>
    intro j
    rw [step.settled.counter, half.counter]
    simp only [left]
    by_cases same : j = k
    · subst same
      simp [waits, half.waiting j waits]
    · simp [same]
  case total =>
    intro j member
    obtain ⟨waited, other⟩ := (left j).mp member
    rw [step.settled.total, if_neg other]
    exact half.total j waited
  case pending =>
    intro j queued absent
    rw [step.settled.pending]
    by_cases same : j = k
    · rw [if_pos same]
    · have settled : j ∉ s.waiting := fun waits => absent ((left j).mpr ⟨waits, same⟩)
      have apart : g.parent? k ≠ some j := fun up => settled (half.under.closed k waits j up)
      rw [if_neg same, if_neg apart]
      exact half.pending j queued settled
  case ahead =>
    intro j queued absent i member
    obtain ⟨waited, _⟩ := (left i).mp member
    by_cases same : j = k
    · subst same
      rw [← (half.shape tracked).rank]
      exact step.popped.highest i member
    · have settled : j ∉ s.waiting := fun waits => absent ((left j).mpr ⟨waits, same⟩)
      exact half.ahead j queued settled i waited
  case faulty =>
    intro j member
    refine (left j).mpr ⟨half.faulty j member, fun same => ?_⟩
    exact half.sound_of_settle waits done (same ▸ member)

theorem held (half : Halfway h g s) (waits : k ∈ s.waiting) : k ∈ g.holds := by
  rw [half.under.holds]
  exact List.mem_append_left _ ((begun_waiting tracked).mpr (half.waiting k waits))

end

end Halfway

/-- What a round that fails leaves: just the nodes that wait are on a list, all on that of slot 0. -/
structure Stopped (g after : Hierarchy cfg) (s : Schedule) : Prop
    extends SameShape g after, SameCounts g after where
  nextId : after.nextId = g.nextId
  flushes : after.flushes = g.flushes
  lists : ∀ c j, after.lists c j ↔ c = cfg.slot ⟨0⟩ ∧ j ∈ s.waiting
  queued : ∀ (d : Fin cfg.slots) j, (after.node j).queued[d] = true ↔
    (g.node j).queued[d] = true ∨ d = cfg.slot ⟨0⟩ ∧ j ∈ s.waiting

theorem Halfway.stops (formed : h.WellFormed) (half : Halfway h g s)
    (pop : s.pop = some (k, rest)) :
    Stopped g { (k :: rest.waiting).foldl requeue g with holds := h.holds } s := by
  have tracked := formed.tracked
  have popped := Schedule.pop_some half.under.valid pop
  have same (j : Nat) : j ∈ k :: rest.waiting ↔ j ∈ s.waiting := by
    rw [List.mem_cons, popped.rest_waiting]
    by_cases this : j = k
    · simp [this, popped.waited]
    · simp [this]
  have chains (j : Nat) : (∃ i ∈ k :: rest.waiting, j ∈ g.chain i) ↔ j ∈ s.waiting := by
    constructor
    · rintro ⟨i, member, above⟩
      exact chain_closed (fun {i p} waits up => half.under.closed i waits p up)
        ((same i).mp member) above
    · intro waits
      exact ⟨j, (same j).mpr waits, self_mem_chain g j⟩
  have fades : Fades h g :=
    (Fades.begun tracked.filed.addressed).trans
      (.of_stays half.under.shape half.under.queues half.under.holds)
  have requeued := requeue_all half.tracked (formed.live.fades fades)
    (fun j member => half.under.inside j ((same j).mp member))
    (fun j member => alive_of_held (half.held tracked ((same j).mp member)))
  have unlisted (c : Fin cfg.slots) (j : Nat) : ¬ g.lists c j := by
    rw [Hierarchy.lists, half.under.queues, begun_queues]
    simp
  constructor
  case toSameShape => exact requeued.toSameShape.trans (.of_arena rfl rfl)
  case toSameCounts => exact requeued.toSameCounts.trans (.of_arena rfl)
  case nextId => exact requeued.nextId
  case flushes => exact requeued.flushes
  case lists =>
    intro c j
    refine (requeued.lists c j).trans ?_
    rw [or_iff_right (unlisted c j), chains]
  case queued =>
    intro d j
    refine (requeued.queued d j).trans ?_
    rw [chains]

end Hierarchy

end Rollup
