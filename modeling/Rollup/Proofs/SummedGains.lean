import Mathlib
import Rollup.Proofs.Removals

/-!
Gains in closed form. The recursion over queued children adds up what is afloat at every queued node
from which a walk over living parents leads to the node, each once, because the queued nodes below
two children are different ones. So a flush raises the total of a node by the sum over all these,
also where there are none and the node itself is not queued.
-/
namespace Rollup

namespace Hierarchy

variable {cfg : Config} {h : Hierarchy cfg} {n m k : Nat}

theorem chain_linear (first : n ∈ h.chain k) (second : m ∈ h.chain k) :
    n ∈ h.chain m ∨ m ∈ h.chain n := by
  induction k using Nat.strongRecOn with
  | ind k ih =>
    rcases mem_chain.mp first with rfl | ⟨p, up, above⟩
    · exact Or.inr second
    · rcases mem_chain.mp second with rfl | ⟨q, link, higher⟩
      · exact Or.inl first
      · obtain rfl := Option.some.inj (up.symm.trans link)
        exact ih p (parent_before up) above higher

theorem chain_from_child (above : n ∈ h.chain m) (other : n ≠ m) :
    ∃ c ∈ h.chain m, h.parent? c = some n := by
  induction m using Nat.strongRecOn with
  | ind m ih =>
    obtain ⟨p, up, higher⟩ := (mem_chain.mp above).resolve_left other
    by_cases last : n = p
    · exact ⟨m, self_mem_chain h m, last ▸ up⟩
    · obtain ⟨c, lower, link⟩ := ih p (parent_before up) higher last
      exact ⟨c, mem_chain.mpr (.inr ⟨p, up, lower⟩), link⟩

/-- What is afloat at nodes of a set, as far as they are at this node or below it. -/
def stock (h : Hierarchy cfg) (among : Finset Nat) (n : Nat) : Nat :=
  ∑ m ∈ among with n ∈ h.chain m, h.afloat m

theorem stock_union (h : Hierarchy cfg) (among more : Finset Nat) (n : Nat) :
    h.stock (among ∪ more) n = h.stock among n + h.stock (more \ among) n := by
  rw [← Finset.union_sdiff_self_eq_union, stock, Finset.filter_union,
    Finset.sum_union (Finset.disjoint_filter_filter Finset.disjoint_sdiff)]
  rfl

def dueWithin (h : Hierarchy cfg) (n : Nat) : Finset Nat := {m ∈ h.due | n ∈ h.chain m}

theorem mem_due_within : m ∈ h.dueWithin n ↔ m ∈ h.due ∧ n ∈ h.chain m := Finset.mem_filter

theorem Tracked.due_up (tracked : h.Tracked) (queued : m ∈ h.due) (above : n ∈ h.chain m) :
    n ∈ h.due := by
  obtain ⟨_, c, listed⟩ := mem_due.mp queued
  have up := tracked.chain_listed listed above
  exact mem_due.mpr ⟨tracked.inside up, c, up⟩

theorem Tracked.due_within (tracked : h.Tracked) (queued : n ∈ h.due) :
    h.dueWithin n = insert n ((h.dueUnder n).biUnion h.dueWithin) := by
  ext m
  rw [Finset.mem_insert, Finset.mem_biUnion, mem_due_within]
  constructor
  · rintro ⟨due, above⟩
    by_cases same : m = n
    · exact .inl same
    · obtain ⟨c, lower, up⟩ := chain_from_child above (Ne.symm same)
      have child : c ∈ h.dueUnder n := mem_due_under.mpr ⟨tracked.due_up due lower, up⟩
      exact .inr ⟨c, child, mem_due_within.mpr ⟨due, lower⟩⟩
  · rintro (rfl | ⟨c, child, within⟩)
    · exact ⟨queued, self_mem_chain h m⟩
    · obtain ⟨due, lower⟩ := mem_due_within.mp within
      have up := (mem_due_under.mp child).2
      exact ⟨due, chain_trans (mem_chain.mpr (.inr ⟨n, up, self_mem_chain h n⟩)) lower⟩

theorem due_under_before {c : Nat} (child : c ∈ h.dueUnder n) : n < c :=
  parent_before (mem_due_under.mp child).2

theorem due_within_disjoint (h : Hierarchy cfg) (n : Nat) :
    Set.PairwiseDisjoint (h.dueUnder n : Set Nat) h.dueWithin := by
  have apart {c d : Nat} (first : c ∈ h.dueUnder n) (second : d ∈ h.dueUnder n) (other : c ≠ d) :
      c ∉ h.chain d := by
    intro above
    obtain ⟨p, up, higher⟩ := (mem_chain.mp above).resolve_left other
    obtain rfl := Option.some.inj (up.symm.trans (mem_due_under.mp second).2)
    have le := le_of_mem_chain higher
    have before := due_under_before first
    omega
  intro c first d second other
  refine Finset.disjoint_left.mpr fun m under_c under_d => ?_
  rcases chain_linear (mem_due_within.mp under_c).2 (mem_due_within.mp under_d).2 with up | up
  · exact apart first second other up
  · exact apart second first other.symm up

theorem gain_eq_stock (tracked : h.Tracked) (solvent : h.Solvent) (queued : n ∈ h.due) :
    h.gain n = h.stock h.due n := by
  induction n using gain.induct h with
  | case1 n ih =>
    have own : n ∉ (h.dueUnder n).biUnion h.dueWithin := by
      intro member
      obtain ⟨c, child, within⟩ := Finset.mem_biUnion.mp member
      have le := le_of_mem_chain (mem_due_within.mp within).2
      have before := due_under_before child
      omega
    have children : ∑ c ∈ h.dueUnder n, h.gain c = ∑ c ∈ h.dueUnder n, h.stock h.due c :=
      Finset.sum_congr rfl fun c child => ih ⟨c, child⟩ (mem_due_under.mp child).1
    calc h.gain n = h.afloat n + ∑ c ∈ h.dueUnder n, h.stock h.due c := by
          rw [gain_eq, children, solvent.unflushed_eq, afloat, pending]
      _ = ∑ m ∈ insert n ((h.dueUnder n).biUnion h.dueWithin), h.afloat m := by
          rw [Finset.sum_insert own, Finset.sum_biUnion (h.due_within_disjoint n)]
          rfl
      _ = h.stock h.due n := by rw [← tracked.due_within queued]; rfl

theorem stock_of_undue (tracked : h.Tracked) (other : n ∉ h.due) : h.stock h.due n = 0 := by
  have none : {m ∈ h.due | n ∈ h.chain m} = ∅ :=
    Finset.filter_eq_empty_iff.mpr fun m queued above => other (tracked.due_up queued above)
  rw [stock, none, Finset.sum_empty]

/-- A flush raises every total by what is afloat at the queued nodes at or below its node. -/
theorem flush_stocks (tracked : h.Tracked) {e : Nat} (endowed : h.Endowed e) :
    ∃ after sum, h.flush = (after, .ok sum) ∧ ∀ n, after.total n = h.total n + h.stock h.due n := by
  have solvent := endowed.solvent
  obtain ⟨g, s, sum, after, progress, run, arena, -⟩ :=
    flush_settles tracked solvent.drainable endowed.gains_fit
  refine ⟨after, sum, run, fun n => ?_⟩
  have same : after.total n = g.total n := by
    simp only [total, node, arena]
  rw [same]
  by_cases queued : n ∈ h.due
  · have gained := progress.gained solvent.drainable endowed.gains_fit queued
    rw [← gain_eq_stock tracked solvent queued]
    exact gained.total
  · rw [stock_of_undue tracked queued, Nat.add_zero, total, progress.total, if_neg queued]
    rfl

end Hierarchy

end Rollup
