import Mathlib
import Rollup.Proofs.LayoutLeaves
import Rollup.Proofs.PlantedLayouts

/-!
The leaves of a layout and those of the tree built from it. A layout finds its leaves in its text
alone, as the entries that are no other entry's text before its last slash. The tree's are the nodes
without children. Of two entries the one is the other's parent text just when its node is the other's
parent (`parent_text_iff`), so that in a tree with no other nodes the two notions agree.
-/
namespace Rollup

theorem filter_in_step {α β : Type} {as : List α} {bs : List β} {p : α → Bool} {q : β → Bool}
    (length : bs.length = as.length)
    (same : ∀ (i : Nat) a b, as[i]? = some a → bs[i]? = some b → p a = q b) :
    as.filter p = ((as.zip bs).filter fun e => q e.2).map Prod.fst ∧
      bs.filter q = ((as.zip bs).filter fun e => q e.2).map Prod.snd := by
  have left : (as.zip bs).map Prod.fst = as := List.map_fst_zip (Nat.le_of_eq length.symm)
  have right : (as.zip bs).map Prod.snd = bs := List.map_snd_zip (Nat.le_of_eq length)
  constructor
  · conv_lhs => rw [← left, List.filter_map]
    refine congrArg (List.map Prod.fst) (List.filter_congr fun e member => ?_)
    obtain ⟨i, at_e⟩ := List.mem_iff_getElem?.mp member
    obtain ⟨first, second⟩ := List.getElem?_zip_eq_some.mp at_e
    exact same i e.1 e.2 first second
  · conv_lhs => rw [← right, List.filter_map]
    rfl

namespace Hierarchy

variable {cfg : Config} {h h' : Hierarchy cfg} {k : Nat}

def isLeaf (h : Hierarchy cfg) (id : NodeId) : Bool :=
  h.index[id]?.any fun k => (h.childIds k).isEmpty

theorem is_leaf_iff {id : NodeId} :
    h.isLeaf id = true ↔ ∃ k, h.index[id]? = some k ∧ h.childIds k = [] := by
  simp [isLeaf, Option.any_eq_true]

section
variable (charted : h.Charted) (member : k ∈ h.keys)
include charted member

theorem Charted.childless_iff : h.childIds k = [] ↔ ∀ c ∈ h.keys, h.parent? c ≠ some k := by
  have below := charted.one_tree.downward k member
  rw [charted.child_ids member, List.eq_nil_iff_forall_not_mem]
  constructor
  · intro none c child up
    exact none _ (IdMap.mem_keys_iff.mpr ⟨c, (below _ c).mpr ⟨charted.entry child, up⟩⟩)
  · intro none id listed
    obtain ⟨c, found⟩ := IdMap.mem_keys_iff.mp listed
    obtain ⟨entry, up⟩ := (below id c).mp found
    exact none c (IdMap.mem_values.mpr ⟨id, entry⟩) up

theorem Charted.parent_iff_trail {c : Nat} (child : c ∈ h.keys) :
    h.parent? c = some k ↔ ∃ name, h.trail c = h.trail k ++ [name] := by
  constructor
  · intro up
    exact ⟨_, trail_of_parent up⟩
  · rintro ⟨name, ends⟩
    cases up : h.parent? c with
    | none =>
      rw [trail_of_no_parent up] at ends
      exact absurd ends.symm (by simp)
    | some p =>
      rw [trail_of_parent up] at ends
      have same := (List.append_inj' ends rfl).1
      rw [charted.trail_inj (charted.parent_member child up) member same]

end

structure Grown.Whole (h : Hierarchy cfg) (nodes : List String) : Prop extends h.Grown nodes where
  all : ∀ k ∈ h.keys, k ≠ rootKey → ∃ path ∈ nodes, h.trail k = Path.components path

namespace Grown

variable {nodes : List String} {path lower upper : String}

theorem parent_text_iff (grown : h.Grown nodes) (below : lower ∈ nodes) (above : upper ∈ nodes)
    {c : Nat} (child : c ∈ h.keys) (member : k ∈ h.keys)
    (trail_lower : h.trail c = Path.components lower)
    (trail_upper : h.trail k = Path.components upper) :
    Layout.parentText lower = some upper ↔ h.parent? c = some k := by
  rw [grown.charted.parent_iff_trail member child, trail_lower, trail_upper]
  exact Layout.parent_text_iff (grown.normal lower below) (grown.filled lower below)
    (grown.normal upper above) (grown.filled upper above)

namespace Whole

variable (whole : Whole h nodes)
include whole

theorem mem_leaves_iff (among : path ∈ nodes) (member : k ∈ h.keys)
    (trail : h.trail k = Path.components path) :
    path ∈ (Layout.mk nodes).leaves ↔ h.childIds k = [] := by
  rw [Layout.mem_leaves, whole.charted.childless_iff member]
  constructor
  · rintro ⟨_, lone⟩ c child up
    have inner : c ≠ rootKey := by
      rintro rfl
      exact absurd (parent_before up) (Nat.not_lt_zero k)
    obtain ⟨lower, below, trail_lower⟩ := whole.all c child inner
    exact lone lower below
      ((whole.parent_text_iff below among child member trail_lower trail).mpr up)
  · intro childless
    refine ⟨among, fun lower below text => ?_⟩
    obtain ⟨c, child, _, trail_lower⟩ := whole.leads below
    exact childless c child
      ((whole.parent_text_iff below among child member trail_lower trail).mp text)

end Whole

end Grown

namespace Plants

variable {paths : List String} {ids : List NodeId} (planted : Plants h paths ids h')
  (charted : h.Charted) (bare : h.keys = [rootKey])
include planted charted

theorem leads {i : Nat} {path : String} {id : NodeId} (listed : paths[i]? = some path)
    (named : ids[i]? = some id) : ∃ k ∈ h'.keys, h'.index[id]? = some k ∧
      k = h.arena.size + i ∧ h'.trail k = Path.components path := by
  obtain ⟨found, leads, _⟩ := (planted.effect charted).entries i path id listed named
  obtain ⟨k, again, trail⟩ := (planted.charted_after charted).lookup_id_iff.mp leads
  exact ⟨k, IdMap.mem_values.mpr ⟨id, again⟩, again, Option.some.inj (again.symm.trans found), trail⟩

include bare

theorem mem_ids_iff {id : NodeId} :
    id ∈ ids ↔ id ≠ NodeId.root ∧ ∃ k, h'.index[id]? = some k := by
  constructor
  · intro given
    refine ⟨?_, planted.listed.mpr (Or.inr given)⟩
    rintro rfl
    obtain ⟨i, named⟩ := List.mem_iff_getElem?.mp given
    have found := (planted.allocated charted).entry charted named
    have root := (planted.charted_after charted).one_tree.rooted.1
    have inside := charted.rooted.1
    have same := Option.some.inj (root.symm.trans found)
    omega
  · rintro ⟨other, found⟩
    refine (planted.listed.mp found).resolve_left ?_
    rintro ⟨k, old⟩
    have member : k ∈ h.keys := IdMap.mem_values.mpr ⟨id, old⟩
    obtain rfl : k = rootKey := by simpa [bare] using member
    exact other ((charted.indexed old).2.1.symm.trans charted.rooted.2.2.2)

theorem entry_of_key {id : NodeId} (found : h'.index[id]? = some k) (other : k ≠ rootKey) :
    ∃ (i : Nat) (path : String), paths[i]? = some path ∧ ids[i]? = some id := by
  have inner : id ≠ NodeId.root := by
    rintro rfl
    have root := (planted.charted_after charted).one_tree.rooted.1
    exact other (Option.some.inj (found.symm.trans root))
  obtain ⟨i, named⟩ := List.mem_iff_getElem?.mp
    ((planted.mem_ids_iff charted bare).mpr ⟨inner, k, found⟩)
  have few := (List.getElem?_eq_some_iff.mp named).1
  rw [planted.length] at few
  exact ⟨i, _, List.getElem?_eq_getElem few, named⟩

theorem whole : Grown.Whole h' paths where
  toGrown := by
    have grown := planted.grown (.bare charted bare)
    rw [List.append_nil] at grown
    exact grown.of_mem fun path => List.mem_reverse.symm
  all k member other := by
    obtain ⟨id, found⟩ := IdMap.mem_values.mp member
    obtain ⟨i, path, listed, named⟩ := planted.entry_of_key charted bare found other
    obtain ⟨c, _, again, _, trail⟩ := planted.leads charted listed named
    obtain rfl := Option.some.inj (found.symm.trans again)
    exact ⟨path, List.mem_of_getElem? listed, trail⟩

theorem leaf_iff {i : Nat} {path : String} {id : NodeId} (listed : paths[i]? = some path)
    (named : ids[i]? = some id) :
    path ∈ (Layout.mk paths).leaves ↔ h'.isLeaf id = true := by
  obtain ⟨k, member, found, _, trail⟩ := planted.leads charted listed named
  have among := List.mem_of_getElem? listed
  rw [(planted.whole charted bare).mem_leaves_iff among member trail, is_leaf_iff]
  simp [found]

theorem leaves_in_step :
    (Layout.mk paths).leaves = ((paths.zip ids).filter fun e => h'.isLeaf e.2).map Prod.fst ∧
      ids.filter h'.isLeaf = ((paths.zip ids).filter fun e => h'.isLeaf e.2).map Prod.snd := by
  refine filter_in_step (planted.effect charted).length fun i path id listed named => ?_
  have agree := planted.leaf_iff charted bare listed named
  rw [Layout.leaves, List.mem_filter, and_iff_right (List.mem_of_getElem? listed)] at agree
  exact Bool.eq_iff_iff.mpr agree

/-- The last node made has no children, since these would have come after it. -/
theorem leaves_filled (filled : paths ≠ []) : (Layout.mk paths).leaves ≠ [] := by
  have effect := planted.effect charted
  have after := planted.charted_after charted
  have few : paths.length - 1 < paths.length := Nat.sub_one_lt_of_lt (List.length_pos_iff.mpr filled)
  have listed := List.getElem?_eq_getElem few
  have named := List.getElem?_eq_getElem (Nat.lt_of_lt_of_eq few effect.length.symm)
  obtain ⟨k, member, found, last, _⟩ := planted.leads charted listed named
  have childless : h'.childIds k = [] := by
    refine (after.childless_iff member).mpr fun c child up => ?_
    have later := parent_before up
    have inside := (after.toShaped.key_of_mem child).1
    rw [effect.keys] at inside
    omega
  exact List.ne_nil_of_mem
    ((planted.leaf_iff charted bare listed named).mpr (is_leaf_iff.mpr ⟨k, found, childless⟩))

end Plants

end Hierarchy

namespace Session

open Hierarchy

/-- Where the root is alone, the leaves of a layout that is built are in layout order the entries
    whose nodes have no children, and lead to all childless nodes but the root. -/
theorem built_leaves_childless (cfg : Config) (steps : List Step) (layout : Layout)
    {ids : List NodeId} (bare : ((start cfg).run steps).hierarchy.keys = [rootKey])
    (built : (layout.build ((start cfg).run steps).hierarchy).2 = .ok ids) :
    let h := (layout.build ((start cfg).run steps).hierarchy).1
    ids.length = layout.nodes.length ∧
    layout.leaves = ((layout.nodes.zip ids).filter fun e => h.isLeaf e.2).map Prod.fst ∧
    layout.leaves.Nodup ∧ layout.leaves ≠ [] ∧
    layout.leaves.map h.lookupId = (ids.filter h.isLeaf).map some ∧
    (ids.filter h.isLeaf).Nodup ∧
    ∀ id, id ∈ ids.filter h.isLeaf ↔ id ≠ NodeId.root ∧ h.isLeaf id = true := by
  intro h
  have charted := run_charted cfg steps
  obtain ⟨valid, created⟩ := build_ok_iff.mp (Prod.ext rfl built)
  have planted := (create_all_ok_iff charted).mp created
  have effect := planted.effect charted
  have filled : layout.nodes ≠ [] := by
    intro none
    simp [Layout.validate, none] at valid
  obtain ⟨texts, nodes⟩ := planted.leaves_in_step charted bare
  have entries : layout.nodes.Nodup := by
    have distinct := effect.nodup.map (Option.some_injective NodeId)
    rw [← planted.lookups charted] at distinct
    exact distinct.of_map
  refine ⟨effect.length, texts, entries.filter _, planted.leaves_filled charted bare filled, ?_,
    effect.nodup.filter _, fun id => ?_⟩
  · rw [nodes, show layout.leaves = _ from texts, List.map_map, List.map_map]
    refine List.map_congr_left fun e member => ?_
    obtain ⟨i, at_e⟩ := List.mem_iff_getElem?.mp (List.mem_of_mem_filter member)
    obtain ⟨first, second⟩ := List.getElem?_zip_eq_some.mp at_e
    exact (effect.entries i e.1 e.2 first second).2.1
  · rw [List.mem_filter]
    refine and_congr_left fun leaf => ?_
    obtain ⟨k, found, _⟩ := is_leaf_iff.mp leaf
    rw [planted.mem_ids_iff charted bare]
    exact and_iff_left ⟨k, found⟩

theorem leaves_childless_regrown :
    let layout : Layout := ⟨["/a", "/ab", "/a/b", "/a/b/c"]⟩
    let h := (layout.build ((start ⟨1⟩).run regrownSteps).hierarchy).1
    layout.leaves = ["/ab", "/a/b/c"] ∧ layout.leaves.map h.lookupId = [some ⟨0⟩, some ⟨3⟩] ∧
      ∀ id, id ∈ [(⟨0⟩ : NodeId), ⟨3⟩] ↔ id ≠ NodeId.root ∧ h.isLeaf id = true := by
  intro layout h
  have built : (layout.build ((start ⟨1⟩).run regrownSteps).hierarchy).2 =
      .ok [⟨18446744073709551615⟩, ⟨0⟩, ⟨2⟩, ⟨3⟩] := by
    decide +kernel
  obtain ⟨_, texts, _, _, leads, _, all⟩ :=
    built_leaves_childless ⟨1⟩ regrownSteps layout (by decide +kernel) built
  have kept : [(⟨18446744073709551615⟩ : NodeId), ⟨0⟩, ⟨2⟩, ⟨3⟩].filter h.isLeaf = [⟨0⟩, ⟨3⟩] := by
    decide +kernel
  rw [kept] at leads all
  exact ⟨texts.trans (by decide +kernel), leads, all⟩

end Session

end Rollup
