import Mathlib
import Rollup.Proofs.Ledger

/-!
A whole flush on the books. It starts with nothing on its way up, and each round keeps what
`Folding` says: only nodes that wait have anything pending, and whatever no longer waits is drained.
So when none waits the flush has succeeded, and nothing is pending anywhere.
-/
namespace Rollup

namespace Hierarchy

variable {cfg : Config} {h h' g g' : Hierarchy cfg}

/-- What a flush does that starts with nothing on its way up. -/
structure Flushed (h h' : Hierarchy cfg) : Prop extends SameShape h h' where
  tracked : h'.Tracked
  solvent : h'.Solvent
  quiet : h'.Quiet
  queues : ∀ d : Fin cfg.slots, h'.queues[d] = ∅
  holds : h'.holds = h.holds
  recorded : ∀ k, h'.recorded k = h.recorded k
  rising : ∀ k, h.total k ≤ h'.total k
  settled : ∀ k, (∃ c, h.lists c k) → h'.undrained k = 0
  untouched : ∀ k, ¬ (∃ c, h.lists c k) → h'.undrained k = h.undrained k
  conserved : h.Conserved → (∀ c k, h.lists c k → h.parent? k = (h.node k).parent) →
    h'.Conserved
  balanced : h.Balanced → h'.Balanced

structure Folding (h g : Hierarchy cfg) (s : Schedule) : Prop where
  under : Underway h.begun g s
  solvent : g.Solvent
  listed : ∀ k ∈ s.waiting, ∃ c, h.lists c k
  quiet : ∀ k, g.pending k ≠ 0 → k ∈ s.waiting
  recorded : ∀ k, g.recorded k = h.recorded k
  rising : ∀ k, h.total k ≤ g.total k
  settled : ∀ k, (∃ c, h.lists c k) → k ∉ s.waiting → g.undrained k = 0
  untouched : ∀ k, ¬ (∃ c, h.lists c k) → g.undrained k = h.undrained k
  conserved : h.Conserved → (∀ c k, h.lists c k → h.parent? k = (h.node k).parent) →
    g.Conserved
  balanced : h.Balanced → g.Balanced

theorem Folding.start (tracked : h.Tracked) (solvent : h.Solvent) (quiet : h.Quiet) :
    Folding h h.begun h.begunSchedule := by
  have begun := begins tracked
  have books : SameBooks h h.begun := .of_counts begun.toSameShape begun.toSameCounts
  constructor
  case under => exact begun.underway
  case solvent => exact books.solvent solvent
  case listed =>
    intro k member
    exact (begun.waiting k).mp member
  case quiet =>
    intro k some
    exact absurd (books.quiet quiet k) some
  case recorded =>
    intro k
    exact congrFun books.recorded_eq k
  case rising =>
    intro k
    exact Nat.le_of_eq (congrFun books.total_eq k).symm
  case settled =>
    intro k listed waits
    exact absurd ((begun.waiting k).mpr listed) waits
  case untouched =>
    intro k _
    exact congrFun books.undrained_eq k
  case conserved =>
    intro conserved _
    exact books.conserved conserved
  case balanced => exact Balanced.of_counts begun.toSameShape begun.toSameCounts

theorem Folding.round {s s' : Schedule} {k : Nat} {own : UInt64} (tracked : h.Tracked)
    (folding : Folding h g s) (step : Round h.begun g s k own g' s') : Folding h g' s' := by
  have waits := step.popped.waited
  have inside := folding.under.inside k waits
  have credited := folding.solvent.credited inside step.own_eq step.settled
  have up (j : Nat) : g.parent? j = h.parent? j :=
    (folding.under.parent j).trans ((begins tracked).parent j)
  have undrained := step.settled.undrained
  have kept {j : Nat} (member : j ∈ s.waiting) (other : j ≠ k) : j ∈ s'.waiting :=
    (step.popped.rest_waiting j).mpr ⟨member, other⟩
  constructor
  case under => exact step.after
  case solvent => exact credited.solvent inside folding.solvent
  case listed =>
    intro j member
    exact folding.listed j ((step.popped.rest_waiting j).mp member).1
  case quiet =>
    intro j some
    rw [credited.pending] at some
    split at some
    · exact absurd rfl some
    · rename_i other
      split at some
      · rename_i link
        exact kept (folding.under.closed k waits j link) other
      · exact kept (folding.quiet j some) other
  case recorded =>
    intro j
    exact (credited.recorded j).trans (folding.recorded j)
  case rising =>
    intro j
    have before := folding.rising j
    rw [credited.total]
    split
    · rename_i same
      rw [same] at before ⊢
      omega
    · exact before
  case settled =>
    intro j listed gone
    rw [undrained]
    split
    · rfl
    · rename_i other
      exact folding.settled j listed fun member => gone (kept member other)
  case untouched =>
    intro j unlisted
    have other : j ≠ k := fun same => unlisted (same ▸ folding.listed k waits)
    rw [undrained, if_neg other]
    exact folding.untouched j unlisted
  case conserved =>
    intro before linked
    obtain ⟨c, listed⟩ := folding.listed k waits
    refine credited.conserved inside ?_ (folding.conserved before linked)
    rw [up, linked c k listed]
    exact ((folding.under.shape.parent k).trans ((begins tracked).toSameShape.parent k)).symm
  case balanced =>
    intro before
    exact credited.balanced folding.solvent (folding.balanced before)

theorem flush_ok (tracked : h.Tracked) (solvent : h.Solvent) (quiet : h.Quiet) :
    ∃ after sum, h.flush = (after, .ok sum) ∧ Flushed h after := by
  have begun := begins tracked
  obtain ⟨g, s, sum, folding, last, run⟩ :=
    flush_by_rounds (P := fun g s _ => Folding h g s) tracked
      (Folding.start tracked solvent quiet) fun {g s _ k rest} folding pop => by
        have waits := (Schedule.pop_some folding.under.valid pop).waited
        obtain ⟨own, g', s', done⟩ := folding.solvent.settles (folding.under.inside k waits) rest
        exact ⟨own, g', s', done, folding.round tracked (folding.under.round pop done)⟩
  have none : s.waiting = [] := Schedule.pop_none folding.under.valid last
  obtain ⟨after, ends, arena, index, lists, holds⟩ : ∃ after, h.flush = (after, .ok sum) ∧
      after.arena = g.arena ∧ after.index = g.index ∧ after.queues = h.begun.queues ∧
      after.holds = h.holds := ⟨_, run, rfl, rfl, folding.under.queues, rfl⟩
  have back : SameShape g after := .of_arena arena index
  have books : SameBooks g after := .of_arena arena index
  have same : SameShape h after := (begun.toSameShape.trans folding.under.shape).trans back
  have empty (d : Fin cfg.slots) : after.queues[d] = ∅ := by
    rw [lists]
    exact begun.queues d
  have flags (d : Fin cfg.slots) (k : Nat) : (after.node k).queued[d] = true ↔
      (h.node k).queued[d] = true ∧ ¬ h.lists d k := by
    rw [node, arena, ← node, folding.under.queued]
    exact begun.queued d k
  refine ⟨after, sum, ends, ?_⟩
  constructor
  case toSameShape => exact same
  case tracked => exact tracked.emptied same holds empty flags
  case solvent => exact books.solvent folding.solvent
  case quiet =>
    refine books.quiet fun k => ?_
    by_contra some
    have waits := folding.quiet k some
    rw [none] at waits
    exact absurd waits (by simp)
  case queues => exact empty
  case holds => exact holds
  case recorded =>
    intro k
    exact (congrFun books.recorded_eq k).trans (folding.recorded k)
  case rising =>
    intro k
    rw [books.total_eq]
    exact folding.rising k
  case settled =>
    intro k listed
    rw [books.undrained_eq]
    exact folding.settled k listed (by rw [none]; simp)
  case untouched =>
    intro k unlisted
    rw [books.undrained_eq]
    exact folding.untouched k unlisted
  case conserved =>
    intro conserved linked
    exact books.conserved (folding.conserved conserved linked)
  case balanced =>
    intro balanced
    exact (folding.balanced balanced).of_counts back (.of_arena arena)

end Hierarchy

end Rollup
