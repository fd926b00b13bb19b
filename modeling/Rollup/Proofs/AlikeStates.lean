import Mathlib
import Rollup.Hierarchy.Report
import Rollup.Proofs.KeptBooks

/-!
States that differ in their slots only. Two hierarchies, whose numbers of slots may differ, are
`Alike` when the same nodes are in the same tree with the same totals, every counter has recorded and
drained as much, on whichever slots, and the same nodes are listed, on whichever lists.

What is read off such states is the same, unless it asks about single slots: which nodes are alive
and where a walk to the root goes, names and paths, ids that are free, and all that a view shows.
-/
namespace Rollup

namespace Hierarchy

variable {cfg cfg' : Config}

structure Alike (h : Hierarchy cfg) (g : Hierarchy cfg') : Prop where
  size : g.arena.size = h.arena.size
  index : g.index = h.index
  nextId : g.nextId = h.nextId
  flushes : g.flushes = h.flushes
  holds : g.holds = h.holds
  identity : ∀ k, (g.node k).toIdentity = (h.node k).toIdentity
  removed : ∀ k, (g.node k).removed = (h.node k).removed
  children : ∀ k, (g.node k).children = (h.node k).children
  total : ∀ k, (g.node k).total = (h.node k).total
  pending : ∀ k, (g.node k).pending = (h.node k).pending
  inherited : ∀ k, (g.node k).inherited = (h.node k).inherited
  recorded : ∀ k, g.recorded k = h.recorded k
  drained : ∀ k, g.drained k = h.drained k
  listed : ∀ k, (∃ c, g.lists c k) ↔ ∃ c, h.lists c k

theorem Alike.start (cfg cfg' : Config) : Alike (Hierarchy.new cfg) (Hierarchy.new cfg') := by
  have node (cfg : Config) (k : Nat) : (Hierarchy.new cfg).node k =
      if k = 0 then (Arena.empty cfg.slots).newborn NodeId.root rootName none
      else (Arena.empty cfg.slots).node k := Arena.node_push _ _ _ _ k
  have blank (cfg : Config) (k : Nat) : (Arena.empty cfg.slots).node k = Node.blank cfg.slots :=
    Arena.node_outside (Nat.zero_le k)
  have nothing (cfg : Config) (c : Fin cfg.slots) (k : Nat) : ¬ (Hierarchy.new cfg).lists c k := by
    intro listed
    have empty : (Hierarchy.new cfg).queues[c] = ∅ := by simp [Hierarchy.new]
    rw [lists, empty] at listed
    exact absurd listed (by simp)
  have counts (cfg : Config) (k : Nat) :
      (Hierarchy.new cfg).recorded k = 0 ∧ (Hierarchy.new cfg).drained k = 0 := by
    rw [Hierarchy.recorded, Hierarchy.drained, new_counter]
    exact ⟨Counter.amount_zero rfl, Counter.amount_zero rfl⟩
  constructor
  case size => rfl
  case index => rfl
  case nextId => rfl
  case flushes => rfl
  case holds => rfl
  case recorded =>
    intro k
    rw [(counts cfg k).1, (counts cfg' k).1]
  case drained =>
    intro k
    rw [(counts cfg k).2, (counts cfg' k).2]
  case listed =>
    intro k
    constructor
    · rintro ⟨c, listed⟩
      exact absurd listed (nothing cfg' c k)
    · rintro ⟨c, listed⟩
      exact absurd listed (nothing cfg c k)
  all_goals
    intro k
    rw [node, node, blank, blank]
    split <;> rfl

section
variable {h h' : Hierarchy cfg} {g g' : Hierarchy cfg'}

theorem Alike.of_shapes (alike : Alike h g) (left : SameShape h h') (right : SameShape g g')
    (nextId : g'.nextId = h'.nextId) (flushes : g'.flushes = h'.flushes)
    (holds : g'.holds = h'.holds) (total : ∀ k, (g'.node k).total = (h'.node k).total)
    (pending : ∀ k, (g'.node k).pending = (h'.node k).pending)
    (inherited : ∀ k, (g'.node k).inherited = (h'.node k).inherited)
    (recorded : ∀ k, g'.recorded k = h'.recorded k) (drained : ∀ k, g'.drained k = h'.drained k)
    (listed : ∀ k, (∃ c, g'.lists c k) ↔ ∃ c, h'.lists c k) : Alike h' g' where
  size := right.size.trans (alike.size.trans left.size.symm)
  index := right.index.trans (alike.index.trans left.index.symm)
  nextId := nextId
  flushes := flushes
  holds := holds
  identity k := (right.identity k).trans ((alike.identity k).trans (left.identity k).symm)
  removed k := (right.removed k).trans ((alike.removed k).trans (left.removed k).symm)
  children k := (right.children k).trans ((alike.children k).trans (left.children k).symm)
  total := total
  pending := pending
  inherited := inherited
  recorded := recorded
  drained := drained
  listed := listed

namespace Alike

variable (alike : Alike h g)
include alike

/-- Only who is held and the number of flushes change. -/
theorem renewed {holds others : List Nat} {count count' : Nat} (same : others = holds)
    (counted : count' = count) :
    Alike { h with holds := holds, flushes := count }
      { g with holds := others, flushes := count' } :=
  alike.of_shapes (.of_arena rfl rfl) (.of_arena rfl rfl) alike.nextId counted same
    alike.total alike.pending alike.inherited alike.recorded alike.drained alike.listed

theorem id (k : Nat) : (g.node k).id = (h.node k).id := congrArg Identity.id (alike.identity k)

theorem name (k : Nat) : (g.node k).name = (h.node k).name :=
  congrArg Identity.name (alike.identity k)

theorem depth (k : Nat) : (g.node k).depth = (h.node k).depth :=
  congrArg Identity.depth (alike.identity k)

theorem link (k : Nat) : (g.node k).parent = (h.node k).parent :=
  congrArg Identity.parent (alike.identity k)

theorem is_top (k : Nat) : (g.node k).isTop = (h.node k).isTop := by
  rw [Node.isTop, Node.isTop, alike.link]

theorem keys : g.keys = h.keys := congrArg Std.ExtTreeMap.values alike.index

theorem rank : g.rank = h.rank := by
  funext k
  rw [Hierarchy.rank, Hierarchy.rank, alike.depth, alike.id]

theorem is_alive (k : Nat) : g.isAlive k = h.isAlive k := by
  rw [Bool.eq_iff_iff, is_alive_iff, is_alive_iff, alike.removed, alike.holds, alike.listed]

theorem parent (k : Nat) : g.parent? k = h.parent? k := by
  have alive : g.isAlive = h.isAlive := funext alike.is_alive
  rw [parent?, parent?, alike.link, alive]

theorem chain (k : Nat) : g.chain k = h.chain k := by
  induction k using Nat.strongRecOn with
  | ind k ih =>
    cases up : h.parent? k with
    | none => rw [chain_of_no_parent up, chain_of_no_parent ((alike.parent k).trans up)]
    | some p =>
      rw [chain_of_parent up, chain_of_parent ((alike.parent k).trans up), ih p (parent_before up)]

theorem lineage (k : Nat) : g.lineage k = h.lineage k := by
  induction k using Nat.strongRecOn with
  | ind k ih =>
    cases up : (h.node k).parent with
    | none => rw [lineage_of_no_parent up, lineage_of_no_parent ((alike.link k).trans up)]
    | some p =>
      have before : p < k := Arena.parent_before up
      rw [lineage_of_parent up, lineage_of_parent ((alike.link k).trans up), ih p before]

theorem path_of (k : Nat) : g.pathOf k = h.pathOf k := by
  simp only [pathOf, alike.is_top, alike.chain, alike.name]

theorem find (id : NodeId) : g.find id = h.find id := by
  rw [Hierarchy.find, Hierarchy.find, alike.index]

theorem ancestor_ids (id : NodeId) : g.ancestorIds id = h.ancestorIds id := by
  simp only [ancestorIds, alike.find, alike.chain, alike.id]

theorem child_ids (k : Nat) : g.childIds k = h.childIds k := by
  simp only [childIds, alike.children, alike.id]

theorem child_named (k : Nat) (name : String) : g.childNamed k name = h.childNamed k name := by
  simp only [childNamed, alike.children, alike.name]

theorem descend (k : Nat) (names : List String) : g.descend k names = h.descend k names := by
  induction names generalizing k with
  | nil => rfl
  | cons name names ih =>
    simp only [Hierarchy.descend, alike.child_named]
    cases h.childNamed k name with
    | none => rfl
    | some c => exact ih c

theorem lookup (path : String) : g.lookup path = h.lookup path := alike.descend _ _

theorem lookup_id (path : String) : g.lookupId path = h.lookupId path := by
  simp only [lookupId, alike.lookup, alike.id]

theorem vacant_parent (parent : NodeId) (name : String) :
    g.vacantParent parent name = h.vacantParent parent name := by
  simp only [vacantParent, alike.index, alike.child_named, alike.id]

theorem free_id : g.freeId = h.freeId := by rw [freeId, freeId, alike.index, alike.nextId]

theorem is_queued (filed : h.Filed) (filed' : g.Filed) (id : NodeId) :
    g.isQueued id = h.isQueued id := by
  have queued {cfg : Config} {f : Hierarchy cfg} (filed : f.Filed) :
      f.isQueued id = true ↔ ∃ k, (f.node k).id = id ∧ ∃ c, f.lists c k := by
    simp only [isQueued, List.any_eq_true, Std.ExtTreeMap.contains_eq_isSome_getElem?,
      Option.isSome_iff_exists]
    constructor
    · rintro ⟨queue, member, k, found⟩
      obtain ⟨i, bound, rfl⟩ := List.getElem_of_mem member
      have inside : i < cfg.slots := by simpa using bound
      have entry : f.queues[(⟨i, inside⟩ : Fin cfg.slots)][id]? = some k := by simpa using found
      exact ⟨k, (filed.entry.mp entry).2, ⟨i, inside⟩, (filed.entry.mp entry).1⟩
    · rintro ⟨k, rfl, c, listed⟩
      exact ⟨f.queues[c], by simp, k, listed⟩
  rw [Bool.eq_iff_iff, queued filed', queued filed]
  simp only [alike.id, alike.listed]

theorem pending_count (filed : h.Filed) (filed' : g.Filed) :
    g.pendingCount = 0 ↔ h.pendingCount = 0 := by
  rw [filed'.pending_count_zero, filed.pending_count_zero]
  simp only [alike.listed]

section
variable (solvent : h.Solvent) (solvent' : g.Solvent)
include solvent solvent'

theorem undrained (k : Nat) : g.undrained k = h.undrained k := by
  have left := solvent.split k
  have right := solvent'.split k
  rw [alike.recorded, alike.drained] at right
  omega

theorem own (k : Nat) : (g.node k).own = (h.node k).own := by
  apply UInt64.toNat_inj.mp
  have amount := alike.drained k
  rw [Node.own, Node.own, Counter.flushed_total_of_fits (solvent'.drained_fits k),
    Counter.flushed_total_of_fits (solvent.drained_fits k)]
  exact amount

theorem sum (k : Nat) : (g.node k).counter.sum = (h.node k).counter.sum := by
  apply UInt64.toNat_inj.mp
  have amount := alike.recorded k
  rw [Counter.sum_of_fits (solvent'.recorded_fits k), Counter.sum_of_fits (solvent.recorded_fits k)]
  exact amount

theorem unflushed (k : Nat) : (g.node k).counter.unflushed = (h.node k).counter.unflushed := by
  apply UInt64.toNat_inj.mp
  rw [solvent'.unflushed_eq, solvent.unflushed_eq, alike.undrained solvent solvent']

theorem view (k : Nat) : g.view k = h.view k := by
  have described : (g.node k).describe = (h.node k).describe := by
    unfold Node.describe
    rw [alike.id, alike.name, alike.depth, alike.total, alike.removed]
  have parent : (g.parent? k).map (fun p => (g.node p).id) =
      (h.parent? k).map fun p => (h.node p).id := by
    rw [alike.parent]
    exact Option.map_congr fun p _ => alike.id p
  rw [Hierarchy.view, Hierarchy.view, described, parent, alike.id, alike.name, alike.path_of,
    alike.depth, alike.child_ids, alike.is_top, alike.total, alike.own solvent solvent',
    alike.inherited, alike.sum solvent solvent', alike.unflushed solvent solvent', alike.removed]

theorem snapshot : g.snapshot = h.snapshot := by
  rw [Hierarchy.snapshot, Hierarchy.snapshot, alike.keys]
  exact List.map_congr_left fun k _ => alike.view solvent solvent' k

theorem check_balance : g.checkBalance = h.checkBalance := by
  have children (k : Nat) : g.childrenTotal k = h.childrenTotal k := by
    simp only [childrenTotal, alike.children, alike.total]
  have balanced (k : Nat) : g.isBalanced k = h.isBalanced k := by
    simp only [isBalanced, alike.total, alike.own solvent solvent', alike.inherited, children]
  simp only [checkBalance, alike.keys, balanced, alike.id, alike.total,
    alike.own solvent solvent', alike.inherited, children]

end

theorem read (id : NodeId) : g.read id = h.read id := by
  simp only [Hierarchy.read, alike.find, alike.total]

theorem dump (id : NodeId) : g.dump id = h.dump id := by
  simp only [Hierarchy.dump, alike.read]

end Alike

end

end Hierarchy

end Rollup
