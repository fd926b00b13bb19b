import Mathlib
import Rollup.Hierarchy.Queue

/-!
Who is below whom. The lineage of a node is the node and all its ancestors, living or not; it never
changes once the node is created. The part of it that a walk over living parents reaches is the
node's chain. What holds of a node and everything ever created below it is summed over the nodes
whose lineage passes it.

`SameShape` says of two states that they differ in counts, lists and flags only.
-/
namespace Rollup

namespace Hierarchy

variable {cfg : Config}

/-- A node followed by its ancestors, living or not. -/
def lineage (h : Hierarchy cfg) (k : Nat) : List Nat :=
  k :: match _up : (h.node k).parent with
    | some p => h.lineage p
    | none => []
termination_by k
decreasing_by exact Arena.parent_before _up

def below (h : Hierarchy cfg) (n : Nat) : Finset Nat :=
  {m ∈ Finset.range h.arena.size | n ∈ h.lineage m}

/-- The sum over a node and everything ever created below it. -/
def sumBelow (h : Hierarchy cfg) (n : Nat) (f : Nat → Nat) : Nat := ∑ m ∈ h.below n, f m

theorem lineage_of_parent {h : Hierarchy cfg} {k p : Nat} (up : (h.node k).parent = some p) :
    h.lineage k = k :: h.lineage p := by
  rw [lineage]
  split
  · rename_i q other
    rw [up] at other
    rw [Option.some.inj other]
  · rename_i gone
    rw [up] at gone
    exact absurd gone (by simp)

theorem lineage_of_no_parent {h : Hierarchy cfg} {k : Nat} (up : (h.node k).parent = none) :
    h.lineage k = [k] := by
  unfold lineage
  split
  · rename_i q other
    rw [up] at other
    exact absurd other (by simp)
  · rfl

theorem mem_lineage {h : Hierarchy cfg} {n k : Nat} :
    n ∈ h.lineage k ↔ n = k ∨ ∃ p, (h.node k).parent = some p ∧ n ∈ h.lineage p := by
  cases up : (h.node k).parent with
  | none => simp [lineage_of_no_parent up]
  | some p => simp [lineage_of_parent up]

theorem self_mem_lineage (h : Hierarchy cfg) (k : Nat) : k ∈ h.lineage k :=
  mem_lineage.mpr (Or.inl rfl)

theorem mem_lineage_of_parent {h : Hierarchy cfg} {n k p : Nat}
    (up : (h.node k).parent = some p) (member : n ∈ h.lineage p) : n ∈ h.lineage k :=
  mem_lineage.mpr (Or.inr ⟨p, up, member⟩)

theorem le_of_mem_lineage {h : Hierarchy cfg} {n k : Nat} (member : n ∈ h.lineage k) : n ≤ k := by
  induction k using Nat.strongRecOn with
  | ind k ih =>
    rcases mem_lineage.mp member with same | ⟨p, up, member⟩
    · exact Nat.le_of_eq same
    · have before : p < k := Arena.parent_before up
      exact Nat.le_trans (ih p before member) (Nat.le_of_lt before)

theorem lineage_trans {h : Hierarchy cfg} {n m k : Nat} (upper : n ∈ h.lineage m)
    (lower : m ∈ h.lineage k) : n ∈ h.lineage k := by
  induction k using Nat.strongRecOn with
  | ind k ih =>
    rcases mem_lineage.mp lower with rfl | ⟨p, up, lower⟩
    · exact upper
    · have before : p < k := Arena.parent_before up
      exact mem_lineage_of_parent up (ih p before lower)

theorem lineage_linear {h : Hierarchy cfg} {n m k : Nat} (first : n ∈ h.lineage k)
    (second : m ∈ h.lineage k) : n ∈ h.lineage m ∨ m ∈ h.lineage n := by
  induction k using Nat.strongRecOn with
  | ind k ih =>
    rcases mem_lineage.mp first with rfl | ⟨p, up, above⟩
    · exact Or.inr second
    · rcases mem_lineage.mp second with rfl | ⟨q, link, higher⟩
      · exact Or.inl first
      · obtain rfl := Option.some.inj (up.symm.trans link)
        have before : p < k := Arena.parent_before up
        exact ih p before above higher

theorem lineage_congr {h h' : Hierarchy cfg} {k : Nat}
    (same : ∀ j, j ≤ k → (h'.node j).parent = (h.node j).parent) : h'.lineage k = h.lineage k := by
  induction k using Nat.strongRecOn with
  | ind k ih =>
    cases up : (h.node k).parent with
    | none =>
      rw [lineage_of_no_parent up, lineage_of_no_parent ((same k (Nat.le_refl k)).trans up)]
    | some p =>
      have before : p < k := Arena.parent_before up
      rw [lineage_of_parent up, lineage_of_parent ((same k (Nat.le_refl k)).trans up)]
      rw [ih p before fun j le => same j (Nat.le_trans le (Nat.le_of_lt before))]

theorem mem_chain {h : Hierarchy cfg} {n k : Nat} :
    n ∈ h.chain k ↔ n = k ∨ ∃ p, h.parent? k = some p ∧ n ∈ h.chain p := by
  cases up : h.parent? k with
  | none => simp [chain_of_no_parent up]
  | some p => simp [chain_of_parent up]

theorem self_mem_chain (h : Hierarchy cfg) (k : Nat) : k ∈ h.chain k :=
  mem_chain.mpr (Or.inl rfl)

theorem le_of_mem_chain {h : Hierarchy cfg} {n k : Nat} (member : n ∈ h.chain k) : n ≤ k := by
  induction k using Nat.strongRecOn with
  | ind k ih =>
    rcases mem_chain.mp member with same | ⟨p, up, member⟩
    · exact Nat.le_of_eq same
    · have before := parent_before up
      exact Nat.le_trans (ih p before member) (Nat.le_of_lt before)

theorem chain_closed {h : Hierarchy cfg} {keep : Nat → Prop}
    (closed : ∀ {k p}, keep k → h.parent? k = some p → keep p) {k n : Nat} (start : keep k)
    (member : n ∈ h.chain k) : keep n := by
  induction k using Nat.strongRecOn with
  | ind k ih =>
    rcases mem_chain.mp member with same | ⟨p, up, member⟩
    · exact same ▸ start
    · exact ih p (parent_before up) (closed start up) member

theorem chain_trans {h : Hierarchy cfg} {n m k : Nat} (upper : n ∈ h.chain m)
    (lower : m ∈ h.chain k) : n ∈ h.chain k := by
  induction k using Nat.strongRecOn with
  | ind k ih =>
    rcases mem_chain.mp lower with rfl | ⟨p, up, lower⟩
    · exact upper
    · exact mem_chain.mpr (Or.inr ⟨p, up, ih p (parent_before up) lower⟩)

theorem chain_congr {h h' : Hierarchy cfg} (same : ∀ j, h'.parent? j = h.parent? j) (k : Nat) :
    h'.chain k = h.chain k := by
  induction k using Nat.strongRecOn with
  | ind k ih =>
    cases up : h.parent? k with
    | none => rw [chain_of_no_parent up, chain_of_no_parent ((same k).trans up)]
    | some p =>
      rw [chain_of_parent up, chain_of_parent ((same k).trans up), ih p (parent_before up)]

theorem chain_nodup (h : Hierarchy cfg) (k : Nat) : (h.chain k).Nodup := by
  induction k using Nat.strongRecOn with
  | ind k ih =>
    cases up : h.parent? k with
    | none => simp [chain_of_no_parent up]
    | some p =>
      rw [chain_of_parent up, List.nodup_cons]
      refine ⟨fun member => ?_, ih p (parent_before up)⟩
      have le := le_of_mem_chain member
      have before := parent_before up
      omega

theorem mem_below {h : Hierarchy cfg} {n m : Nat} :
    m ∈ h.below n ↔ m < h.arena.size ∧ n ∈ h.lineage m := by
  simp [below]

theorem self_mem_below {h : Hierarchy cfg} {n : Nat} (inside : n < h.arena.size) :
    n ∈ h.below n :=
  mem_below.mpr ⟨inside, h.self_mem_lineage n⟩

theorem sum_below_congr {h : Hierarchy cfg} {n : Nat} {f g : Nat → Nat}
    (same : ∀ m ∈ h.below n, f m = g m) : h.sumBelow n f = h.sumBelow n g :=
  Finset.sum_congr rfl same

theorem sum_below_add (h : Hierarchy cfg) (n : Nat) (f g : Nat → Nat) :
    h.sumBelow n (fun m => f m + g m) = h.sumBelow n f + h.sumBelow n g :=
  Finset.sum_add_distrib

theorem sum_below_zero {h : Hierarchy cfg} {n : Nat} {f : Nat → Nat} (none : ∀ m, f m = 0) :
    h.sumBelow n f = 0 :=
  Finset.sum_eq_zero fun m _ => none m

theorem le_sum_below {h : Hierarchy cfg} {n m : Nat} (f : Nat → Nat) (member : m ∈ h.below n) :
    f m ≤ h.sumBelow n f :=
  Finset.single_le_sum (f := f) (fun _ _ => Nat.zero_le _) member

theorem sum_below_le_all (h : Hierarchy cfg) (n : Nat) (f : Nat → Nat) :
    h.sumBelow n f ≤ ∑ m ∈ Finset.range h.arena.size, f m :=
  Finset.sum_le_sum_of_subset (Finset.filter_subset _ _)

theorem sum_below_change {h : Hierarchy cfg} {n k : Nat} {f g : Nat → Nat}
    (inside : k < h.arena.size) (others : ∀ m, m ≠ k → g m = f m) :
    h.sumBelow n g + (if n ∈ h.lineage k then f k else 0) =
      h.sumBelow n f + (if n ∈ h.lineage k then g k else 0) := by
  by_cases member : n ∈ h.lineage k
  · have at_k : k ∈ h.below n := mem_below.mpr ⟨inside, member⟩
    have rest : ∑ m ∈ (h.below n).erase k, g m = ∑ m ∈ (h.below n).erase k, f m :=
      Finset.sum_congr rfl fun m in_rest => others m (Finset.ne_of_mem_erase in_rest)
    have left := Finset.add_sum_erase (h.below n) g at_k
    have right := Finset.add_sum_erase (h.below n) f at_k
    simp only [member, if_true, sumBelow]
    omega
  · simp only [member, if_false]
    congr 1
    apply sum_below_congr
    intro m in_below
    apply others m
    intro same
    exact member (same ▸ (mem_below.mp in_below).2)

/-- The same tree: only counts, lists, flags and references may differ. -/
structure SameShape (h h' : Hierarchy cfg) : Prop where
  size : h'.arena.size = h.arena.size
  index : h'.index = h.index
  identity : ∀ k, (h'.node k).toIdentity = (h.node k).toIdentity
  removed : ∀ k, (h'.node k).removed = (h.node k).removed
  children : ∀ k, (h'.node k).children = (h.node k).children

namespace SameShape

variable {h h' h'' : Hierarchy cfg}

theorem of_arena (arena : h'.arena = h.arena) (index : h'.index = h.index) : SameShape h h' := by
  have node (k : Nat) : h'.node k = h.node k := by rw [Hierarchy.node, Hierarchy.node, arena]
  refine ⟨congrArg Arena.size arena, index, fun k => ?_, fun k => ?_, fun k => ?_⟩
  all_goals rw [node]

theorem refl (h : Hierarchy cfg) : SameShape h h := of_arena rfl rfl

theorem trans (first : SameShape h h') (second : SameShape h' h'') : SameShape h h'' where
  size := second.size.trans first.size
  index := second.index.trans first.index
  identity k := (second.identity k).trans (first.identity k)
  removed k := (second.removed k).trans (first.removed k)
  children k := (second.children k).trans (first.children k)

theorem symm (same : SameShape h h') : SameShape h' h where
  size := same.size.symm
  index := same.index.symm
  identity k := (same.identity k).symm
  removed k := (same.removed k).symm
  children k := (same.children k).symm

theorem id (same : SameShape h h') (k : Nat) : (h'.node k).id = (h.node k).id :=
  congrArg Identity.id (same.identity k)

theorem name (same : SameShape h h') (k : Nat) : (h'.node k).name = (h.node k).name :=
  congrArg Identity.name (same.identity k)

theorem depth (same : SameShape h h') (k : Nat) : (h'.node k).depth = (h.node k).depth :=
  congrArg Identity.depth (same.identity k)

theorem parent (same : SameShape h h') (k : Nat) : (h'.node k).parent = (h.node k).parent :=
  congrArg Identity.parent (same.identity k)

theorem keys (same : SameShape h h') : h'.keys = h.keys :=
  congrArg Std.ExtTreeMap.values same.index

theorem lineage (same : SameShape h h') (k : Nat) : h'.lineage k = h.lineage k :=
  lineage_congr fun j _ => same.parent j

theorem below (same : SameShape h h') (n : Nat) : h'.below n = h.below n := by
  ext m
  rw [mem_below, mem_below, same.size, same.lineage]

theorem sum_below (same : SameShape h h') (n : Nat) (f : Nat → Nat) :
    h'.sumBelow n f = h.sumBelow n f := by
  rw [sumBelow, sumBelow, same.below]

end SameShape

theorem same_shape_update {h : Hierarchy cfg} {k : Nat} {f : Status cfg.slots → Status cfg.slots}
    (removed : ∀ s, (f s).removed = s.removed) (children : ∀ s, (f s).children = s.children) :
    SameShape h (h.update k f) where
  size := Arena.size_update h.arena k f
  index := rfl
  identity := h.identity_update k f
  removed j := by
    rw [node_update]
    split
    · exact removed _
    · rfl
  children j := by
    rw [node_update]
    split
    · exact children _
    · rfl

end Hierarchy

end Rollup
