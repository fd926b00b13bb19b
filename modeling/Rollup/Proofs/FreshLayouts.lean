import Mathlib
import Rollup.Proofs.ActorCounts
import Rollup.Proofs.LayoutLeaves

/-!
Layouts built on a new hierarchy. The nodes get the ids from two on in layout order, next to the
root with id one, and nothing is recorded yet (`built_fresh`). Once actors have worked on the leaves
and a flush has folded what they count, every entry's total is the number of actors on the leaves
within it.
-/
namespace Rollup

namespace Layout

def leavesWithin (l : Layout) (place : String) : List String :=
  l.leaves.filter fun path => Path.isWithin path place

/-- The id and the count of every node when each leaf has so many actors, the root's first. -/
def counts (l : Layout) (perLeaf : Nat) : List (Nat × Nat) :=
  (1, perLeaf * l.leaves.length) ::
    l.nodes.mapIdx fun i path => (i + 2, perLeaf * (l.leavesWithin path).length)

end Layout

namespace Hierarchy

variable {cfg : Config} {h h' : Hierarchy cfg}

namespace Plants

variable {paths : List String} {ids : List NodeId}

theorem numbered (planted : Plants h paths ids h') {n : Nat} (charted : h.Charted)
    (bound : ∀ (id : NodeId) k, h.index[id]? = some k → id.val.toNat ≤ n)
    (next : h.nextId = UInt64.ofNat (n + 1)) (room : n + paths.length < UInt64.size) :
    ids = (List.range' (n + 1) paths.length).map fun i => ⟨UInt64.ofNat i⟩ := by
  induction planted generalizing n with
  | nil h => rfl
  | @cons h h' path name names rest p id ids creatable free later ih =>
    rw [List.length_cons] at room
    have number : h.nextId.toNat = n + 1 := by
      rw [next, UInt64.toNat_ofNat_of_lt' (by omega)]
    have absent : h.index[(⟨h.nextId⟩ : NodeId)]? = none := by
      rw [Option.eq_none_iff_forall_ne_some]
      intro k found
      have low : h.nextId.toNat ≤ n := bound _ k found
      omega
    obtain rfl : h.nextId = id := Option.some.inj ((free_id_next absent).symm.trans free)
    have place := creatable.place charted free
    have rest_ids := ih (n := n + 1) (sprout_charted charted place) ?_ ?_ (by omega)
    · rw [List.length_cons, List.range'_succ, List.map_cons, rest_ids, next]
    · intro i k found
      rw [sprout_index] at found
      split at found
      · rename_i same
        rw [← same, number]
      · exact Nat.le_succ_of_le (bound i k found)
    · change h.nextId + 1 = UInt64.ofNat (n + 1 + 1)
      rw [next, ← UInt64.ofNat_one, ← UInt64.ofNat_add]

theorem live (planted : Plants h paths ids h') (charted : h.Charted)
    (all : ∀ k, (h.node k).removed = false) (k : Nat) : (h'.node k).removed = false := by
  induction planted with
  | nil h => exact all k
  | @cons h h' path name names rest p id ids creatable free later ih =>
    have place := creatable.place charted free
    exact ih (sprout_charted charted place) fun j => (attach_removed place.inside j).trans (all j)

theorem nodup (planted : Plants h paths ids h') {seen : List String} (grown : h.Grown seen)
    (before : seen.Nodup) : (paths.reverse ++ seen).Nodup := by
  induction planted generalizing seen with
  | nil h => exact before
  | cons creatable free _ ih =>
    rw [List.reverse_cons, List.append_assoc]
    have accepted := (grown.accepts_iff.mpr ⟨_, _, _, creatable⟩).1
    obtain ⟨_, _, _, new⟩ := accepted
    exact ih (grown.sprout creatable free) (List.nodup_cons.mpr ⟨new, before⟩)

end Plants

structure Fresh (h : Hierarchy cfg) (l : Layout) (ids : List NodeId) : Prop where
  grown : h.Grown l.nodes
  nodup : l.nodes.Nodup
  kept : h.Kept
  additive : h.Additive
  distinct : h.Distinct
  unrecorded : ∀ k, h.recorded k = 0
  numbered : ids = (List.range' 2 l.nodes.length).map fun i => ⟨UInt64.ofNat i⟩
  found : l.nodes.map h.lookupId = ids.map some
  listed : ∀ i, (∃ k, h.index[i]? = some k) ↔ i = NodeId.root ∨ i ∈ ids

theorem new_removed (cfg : Config) (k : Nat) : ((Hierarchy.new cfg).node k).removed = false := by
  cases k with
  | zero => rfl
  | succ k =>
    rw [node_outside (Nat.le_add_left 1 k)]
    rfl

theorem new_keys (cfg : Config) : (Hierarchy.new cfg).keys = [rootKey] := rfl

theorem built_fresh {l : Layout} {ids : List NodeId}
    (built : l.build (Hierarchy.new cfg) = (h, .ok ids)) (few : l.nodes.length + 1 < UInt64.size) :
    h.Fresh l ids := by
  have charted : (Hierarchy.new cfg).Charted := .start cfg
  have index (i : NodeId) : (Hierarchy.new cfg).index[i]? =
      if NodeId.root = i then some rootKey else none := by
    simp [Hierarchy.new, Std.ExtTreeMap.getElem?_insert]
  have created := (build_ok_iff.mp built).2
  have planted := (create_all_ok_iff charted).mp created
  have bare := Grown.bare charted (new_keys cfg)
  have grown := planted.grown bare
  rw [List.append_nil] at grown
  have kept := create_all_keeps (P := fun h => Advanced Kept (Hierarchy.new cfg) h fun _ => 0)
    (fun before => before.kept.shaped)
    (fun next before place _ => before.trans (kept_upkeep.attaches before.kept place next))
    (.stay (Kept.start cfg)) l.nodes
  have additive := create_all_keeps (P := Additive) (fun before => before.shaped)
    (fun next before place _ => before.attach place next) (Additive.start cfg) l.nodes
  rw [created] at kept additive
  have entries := grown.of_mem fun path => List.mem_reverse.symm
  refine ⟨entries, ?_, kept.kept, additive, ?_, ?_, ?_, ?_, ?_⟩
  · have nodup := planted.nodup bare List.nodup_nil
    rwa [List.append_nil, List.nodup_reverse] at nodup
  · intro j k first second same
    have live := planted.live charted fun k => new_removed cfg k
    exact grown.charted.toShaped.same_of_id first second (live j) (live k) same
  · intro k
    rw [kept.recorded, recorded, new_counter]
    exact Counter.amount_zero rfl
  · refine planted.numbered charted ?_ rfl (by omega)
    intro i k found
    rw [index] at found
    split at found
    · rename_i same
      rw [← same]
      rfl
    · simp at found
  · exact planted.lookups charted
  · intro i
    rw [planted.listed, index]
    by_cases root : NodeId.root = i
    · simp [root]
    · simp [root, Ne.symm root]

theorem leaf_entry {l : Layout} {path : String} (member : path ∈ l.leaves) : path ∈ l.nodes :=
  (Layout.mem_leaves.mp member).1

namespace Fresh

variable {l : Layout} {ids : List NodeId} (fresh : h.Fresh l ids)
include fresh

theorem count_led {paths : List String} (entries : ∀ path ∈ paths, path ∈ l.nodes)
    {ofKey : Nat → Bool} {ofPath : String → Bool}
    (same : ∀ path ∈ paths, ∀ k ∈ h.keys, h.trail k = Path.components path →
      ofKey k = ofPath path) :
    ((paths.filterMap h.lookup).filter ofKey).length = (paths.filter ofPath).length := by
  induction paths with
  | nil => rfl
  | cons path rest ih =>
    obtain ⟨k, member, found, trail⟩ := fresh.grown.leads (entries path (by simp))
    have here := same path (by simp) k member trail
    have later := ih (fun q among => entries q (by simp [among]))
      fun q among => same q (by simp [among])
    rw [List.filterMap_cons_some found, List.filter_cons, List.filter_cons, here]
    split
    · rw [List.length_cons, List.length_cons, later]
    · exact later

theorem leaf_keys : ∀ k ∈ l.leaves.filterMap h.lookup, k ∈ h.keys := by
  intro k member
  obtain ⟨path, _, found⟩ := List.mem_filterMap.mp member
  exact (fresh.grown.charted.descend_iff.mp found).1

theorem leaf_count : (l.leaves.filterMap h.lookup).length = l.leaves.length := by
  have all : ((l.leaves.filterMap h.lookup).filter fun _ => true).length =
      (l.leaves.filter fun _ => true).length :=
    fresh.count_led (fun _ => leaf_entry) fun _ _ _ _ _ => rfl
  simpa using all

theorem leaves_below {path : String} (entry : path ∈ l.nodes) {k : Nat} (member : k ∈ h.keys)
    (trail : h.trail k = Path.components path) :
    ((l.leaves.filterMap h.lookup).filter fun j => k ∈ h.lineage j).length =
      (l.leavesWithin path).length := by
  refine fresh.count_led (fun _ => leaf_entry) fun leaf among j known below => ?_
  have normal := fresh.grown.normal leaf (leaf_entry among)
  have within := Path.within_iff (fresh.grown.normal path entry) normal
    (fresh.grown.filled path entry)
  have above := fresh.grown.charted.lineage_iff member known
  rw [trail, below, ← within] at above
  exact Bool.eq_iff_iff.mpr (decide_eq_true_iff.trans above)

/-- Actors on the leaves and a flush give every entry the number of actors within it. -/
theorem counted {perLeaf : Nat} (fits : perLeaf * l.leaves.length < UInt64.size)
    (placement : Nat → Cpu) :
    ∃ between after sum, Actors.attach h (l.leaves.filterMap h.lookupId) perLeaf placement =
        (between, .ok (l.leaves.length * perLeaf)) ∧
      between.flush = (after, .ok sum) ∧ SameShape h after ∧ after.Additive ∧
      after.total rootKey = perLeaf * l.leaves.length ∧
      ∀ path ∈ l.nodes, ∀ k ∈ h.keys, h.trail k = Path.components path →
        after.total k = perLeaf * (l.leavesWithin path).length := by
  have ids_of_keys : l.leaves.filterMap h.lookupId =
      (l.leaves.filterMap h.lookup).map fun k => (h.node k).id := by
    rw [List.map_filterMap]
    rfl
  have room : (l.leaves.filterMap h.lookup).length * perLeaf < UInt64.size := by
    rw [fresh.leaf_count, Nat.mul_comm]
    exact fits
  obtain ⟨between, after, sum, attached, flush, shape, additive, totals⟩ :=
    counted_by_actors fresh.kept fresh.additive fresh.distinct fresh.unrecorded fresh.leaf_keys room
      placement
  rw [← ids_of_keys, fresh.leaf_count] at attached
  have shaped := fresh.kept.shaped
  refine ⟨between, after, sum, attached, flush, shape, additive, ?_, ?_⟩
  · have root : rootKey ∈ h.keys := shaped.mem_keys.mpr ⟨shaped.rooted.1, shaped.rooted.2.1⟩
    have all : (l.leaves.filterMap h.lookup).filter (fun j => rootKey ∈ h.lineage j) =
        l.leaves.filterMap h.lookup := by
      refine List.filter_eq_self.mpr fun j member => ?_
      simpa using shaped.root_mem_lineage (shaped.key_of_mem (fresh.leaf_keys j member)).1
    rw [totals rootKey root, all, fresh.leaf_count]
  · intro path entry k member trail
    rw [totals k member, fresh.leaves_below entry member trail]

end Fresh

end Hierarchy

end Rollup
