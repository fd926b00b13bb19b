import Mathlib
import Rollup.Proofs.BalancedBooks
import Rollup.Proofs.Drains
import Rollup.Proofs.SessionSteps

/-!
Additivity in every state. A session may create, remove, record and flush, write late to nodes that
have left the tree, mark and requeue them, and let somebody else drain the update lists, in whole or
in part. As long as no two nodes ever share an id, no flush fails, and every node of the tree has for
its total its own count, what it inherited and the totals of its children.
-/
namespace Rollup

namespace Step

def isLate : Step → Bool
  | .hold _ _ | .heldCount _ _ _ | .heldMark _ _ | .heldRequeue _ | .heldInfo _ | .dropHeld _ => true
  | .drain | .drainTake _ | .drainAround _ _ _ => true
  | _ => false

end Step

namespace Session

variable {cfg : Config} {s : Session cfg}

open Hierarchy

namespace Healthy

variable (healthy : Healthy Additive s)
include healthy

theorem relists {h : Hierarchy cfg} (additive : h.Additive) (shape : SameShape s.hierarchy h)
    (counts : SameCounts s.hierarchy h) (holds : h.holds.Perm s.hierarchy.holds) :
    Steps Additive s (s.withHierarchy h) fun _ => 0 := by
  have books := SameBooks.of_counts shape counts
  exact ⟨.of_books additive books, healthy.referenced.of_holds holds books.grown⟩

theorem drained {d : Drain cfg} {h : Hierarchy cfg}
    (draining : Draining Additive s.hierarchy d h)
    (none : d.taken = []) : Steps Additive s (s.withHierarchy h) fun _ => 0 := by
  have holds := draining.holds
  rw [none] at holds
  exact healthy.relists draining.kept draining.toSameShape draining.toSameCounts holds

theorem on_held {name : String} {act : Nat → Hierarchy cfg × Answer} {t : Step}
    (idle : s.held.lookup name = none → s.target t = none)
    (acts : ∀ k, s.held.lookup name = some k → k < s.hierarchy.arena.size →
      k ∈ s.hierarchy.holds → Steps Additive s (s.withHierarchy (act k).1) (s.credit t)) :
    Steps Additive s (s.onHeld name act).1 (s.credit t) := by
  unfold onHeld
  cases found : s.held.lookup name with
  | none =>
    rw [credit_none (idle found)]
    exact healthy.stays
  | some k =>
    have member := Referenced.held_mem found
    exact acts k found (healthy.referenced.inside k member)
      (healthy.referenced.holds.mem_iff.mpr member)

theorem counts_late {t : Step} {k : Nat} {delta : UInt64} (target : s.target t = some k)
    (value : t.delta = delta.toNat) (inside : k < s.hierarchy.arena.size)
    (fits : s.hierarchy.recordings + t.delta < UInt64.size) (cpu : Cpu) :
    Steps Additive s (s.withHierarchy (s.hierarchy.count k cpu delta)) (s.credit t) := by
  rw [value] at fits
  have counted := healthy.kept.solvent.counted inside fits cpu
  rw [credit_some target, value]
  refine ⟨⟨healthy.kept.count inside fits cpu, counted.recorded, fun j => ?_, ?_⟩,
    healthy.referenced.of_holds (List.Perm.refl _) (Nat.le_of_eq counted.size.symm)⟩
  · exact Nat.le_of_eq (congrFun counted.total_eq j).symm
  · exact Nat.le_of_eq counted.size.symm

theorem marks (distinct : s.hierarchy.Distinct) {k : Nat} (inside : k < s.hierarchy.arena.size)
    (held : k ∈ s.hierarchy.holds) (cpu : Cpu) :
    Steps Additive s (s.withHierarchy (s.hierarchy.mark k cpu)) fun _ => 0 := by
  have only := only_lists_mark s.hierarchy k cpu
  have alive : s.hierarchy.isAlive k = true := alive_of_held held
  exact healthy.relists (healthy.kept.mark distinct inside alive cpu) only.toSameShape
    only.toSameCounts (only.holds ▸ List.Perm.refl _)

end Healthy

theorem late_step (healthy : Healthy Additive s) (distinct : s.hierarchy.Distinct) {t : Step}
    (late : t.isLate = true) (fits : s.hierarchy.recordings + t.delta < UInt64.size) :
    Steps Additive s (s.step t).1 (s.credit t) := by
  cases t
  case heldCount name cpu delta =>
    refine healthy.on_held (fun none => none) ?_
    intro k found inside _
    have target : s.target (.heldCount name cpu delta) = some k := found
    exact healthy.counts_late target rfl inside fits cpu
  case heldMark name cpu =>
    refine healthy.on_held (fun _ => rfl) ?_
    intro k _ inside held
    rw [credit_none rfl]
    exact healthy.marks distinct inside held cpu
  case heldRequeue name =>
    refine healthy.on_held (fun _ => rfl) ?_
    intro k _ inside held
    rw [credit_none rfl]
    exact healthy.marks distinct inside held ⟨0⟩
  case drain =>
    rw [credit_none rfl]
    exact healthy.drained ((Draining.start healthy.kept).rest additive_taking) rfl
  case drainTake count =>
    rw [credit_none rfl]
    exact healthy.drained (((Draining.start healthy.kept).take additive_taking count).stop additive_taking) rfl
  case drainAround name count cpu =>
    refine healthy.on_held (fun _ => rfl) ?_
    intro k _ inside held
    rw [credit_none rfl]
    have taken := (Draining.start healthy.kept).take additive_taking count
    have apart := distinct.of_grows (Grows.of_shape taken.toSameShape.symm)
    have alive := taken.held held
    have marked := taken.kept.mark apart (taken.size ▸ inside) alive cpu
    exact healthy.drained ((taken.mark alive marked).rest additive_taking) rfl
  all_goals first
    | exact absurd late Bool.false_ne_true
    | exact healthy.rests additive_upkeep rfl

theorem step_additive (healthy : Healthy Additive s) (distinct : s.hierarchy.Distinct) {t : Step}
    (either : t.isPlain = true ∨ t.isLate = true)
    (fits : s.hierarchy.recordings + t.delta < UInt64.size) :
    Steps Additive s (s.step t).1 (s.credit t) := by
  cases either with
  | inl plain => exact step_advances additive_upkeep healthy distinct plain fits
  | inr late => exact late_step healthy distinct late fits

theorem run_additive (healthy : Healthy Additive s) {steps : List Step}
    (allowed : ∀ t ∈ steps, t.isPlain = true ∨ t.isLate = true)
    (fits : s.hierarchy.recordings + Step.deltas steps < UInt64.size)
    (distinct : (s.run steps).hierarchy.Distinct) : Healthy Additive (s.run steps) := by
  induction steps generalizing s with
  | nil => exact healthy
  | cons t rest ih =>
    have sum : Step.deltas (t :: rest) = t.delta + Step.deltas rest := rfl
    have before := distinct.of_grows (run_grows s (t :: rest))
    have first := step_additive healthy before (allowed t (by simp)) (by omega)
    have le := first.recordings_le
    rw [run_cons] at distinct ⊢
    exact ih first.healthy (fun u member => allowed u (by simp [member])) (by omega) distinct

/-- In every state that a session reaches the check passes, every node of the tree satisfies the
    equation, and neither a flush nor the flush inside a removal can fail. -/
theorem additivity_always (cfg : Config) (steps : List Step)
    (allowed : ∀ t ∈ steps, t.isPlain = true ∨ t.isLate = true)
    (fits : Step.deltas steps < UInt64.size)
    (distinct : ((start cfg).run steps).hierarchy.Distinct) :
    ((start cfg).run steps).hierarchy.checkBalance = .ok () ∧
    (∀ n ∈ ((start cfg).run steps).hierarchy.keys,
      (((start cfg).run steps).hierarchy.node n).total.toNat =
        (((start cfg).run steps).hierarchy.node n).own.toNat +
        (((start cfg).run steps).hierarchy.node n).inherited.toNat +
        ∑ c ∈ ((start cfg).run steps).hierarchy.offspring n,
          (((start cfg).run steps).hierarchy.node c).total.toNat) ∧
    (∃ after sum, ((start cfg).run steps).hierarchy.flush = (after, .ok sum)) ∧
    (∀ id h k, ((start cfg).run steps).hierarchy.detach id = (h, .ok k) →
      ∃ after sum, (h.bequeath k).flush = (after, .ok sum)) := by
  have none : (start cfg).hierarchy.recordings = 0 := new_recordings cfg
  have healthy := run_additive ⟨Additive.start cfg, Referenced.start cfg⟩ allowed (by omega) distinct
  have additive := healthy.kept
  refine ⟨additive.checks, fun n member => ?_, ?_, fun id h k run => ?_⟩
  · obtain ⟨inside, live⟩ := additive.shaped.key_of_mem member
    exact additive.equation inside live
  · obtain ⟨after, sum, run, _⟩ := additive.toSound.flushes
    exact ⟨after, sum, run⟩
  · rcases remove_cases additive.shaped id with ⟨fault, failed⟩ | ⟨j, p, leaving, detached, _⟩
    · simp [remove, run] at failed
    · rw [detached, Prod.mk.injEq, Except.ok.injEq] at run
      obtain ⟨rfl, rfl⟩ := run
      obtain ⟨after, sum, flush, _⟩ := (leaving.sound additive.toSound).flushes
      exact ⟨after, sum, flush⟩

/-- A node leaves the tree, and a late writer records on it and queues it once more. -/
def lateSteps : List Step :=
  [.create NodeId.root "job", .add ⟨2⟩ ⟨0⟩ 3, .hold ⟨2⟩ "job", .remove ⟨2⟩,
    .heldCount "job" ⟨1⟩ 5, .heldMark "job" ⟨1⟩]

theorem late_distinct : ((start ⟨2⟩).run lateSteps).hierarchy.Distinct := by
  decide +kernel

theorem additivity_after_late_write :
    ((start ⟨2⟩).run lateSteps).hierarchy.checkBalance = .ok () ∧
      ∃ after sum, ((start ⟨2⟩).run lateSteps).hierarchy.flush = (after, .ok sum) := by
  have result := additivity_always ⟨2⟩ lateSteps (by decide) (by decide) late_distinct
  exact ⟨result.1, result.2.2.1⟩

end Session

end Rollup
