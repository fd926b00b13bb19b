import Mathlib
import Rollup.Proofs.FundedSessions
import Rollup.Proofs.KeptBooks

/-!
One tree in every state of every session. `Charted` is all that this takes: the tree is in order,
entries of update lists stand under the ids of their nodes, and the root has depth zero. It asks
nothing of ids or counts, so any session keeps it, whatever its steps are.

`OneTree` tells the same as seen from the index, whose nodes are the nodes of the tree. A walk from
one of them over living parents then takes as many steps as the node is deep and ends at the root
(`leads_to_root`), and the views of a snapshot fit together (`snapshot_coherent`).
-/
namespace Rollup

namespace IdMap

variable {α : Type}

def Rising (ids : List NodeId) : Prop := ids.Pairwise fun i j => i.val < j.val

theorem keys_rising (m : IdMap α) : Rising m.keys := by
  refine m.ordered_keys.imp fun {i j} before => ?_
  change compare i.val j.val = .lt at before
  exact Std.compare_eq_lt.mp before

theorem rising_ext {ids others : List NodeId} (left : Rising ids) (right : Rising others)
    (same : ∀ i, i ∈ ids ↔ i ∈ others) : ids = others := by
  have irrefl : Std.Irrefl fun i j : NodeId => i.val < j.val := ⟨fun i => UInt64.lt_irrefl i.val⟩
  have antisymm : Std.Antisymm fun i j : NodeId => i.val < j.val :=
    ⟨fun _ _ below above => absurd (UInt64.lt_trans below above) (UInt64.lt_irrefl _)⟩
  exact List.Pairwise.eq_of_mem_iff left right same

theorem mem_keys_iff {m : IdMap α} {i : NodeId} : i ∈ m.keys ↔ ∃ a, m[i]? = some a := by
  rw [Std.ExtTreeMap.mem_keys, Std.ExtTreeMap.mem_iff_isSome_getElem?, Option.isSome_iff_exists]

theorem values_by_id {m : IdMap α} {f : α → NodeId} (known : ∀ i a, m[i]? = some a → f a = i) :
    m.values.map f = m.keys := by
  rw [values_eq_map, List.map_map, ← Std.ExtTreeMap.map_fst_toList_eq_keys]
  refine List.map_congr_left fun entry member => ?_
  exact known entry.1 entry.2 (Std.ExtTreeMap.mem_toList_iff_getElem?_eq_some.mp member)

end IdMap

namespace Hierarchy

variable {cfg : Config} {h h' : Hierarchy cfg}

/-- The tree is in order, entries stand under the ids of their nodes, and the root is at the top. -/
structure Charted (h : Hierarchy cfg) : Prop extends Shaped h, Filed h where
  grounded : (h.node rootKey).depth = 0

namespace Charted

variable {n k p : Nat} {id : NodeId} {name : String}

theorem start (cfg : Config) : (Hierarchy.new cfg).Charted :=
  ⟨Shaped.start cfg, (Tracked.start cfg).filed, rfl⟩

theorem of_same (charted : h.Charted) (shape : SameShape h h') (filed : h'.Filed) :
    h'.Charted :=
  ⟨charted.toShaped.of_same shape, filed, (shape.depth rootKey).trans charted.grounded⟩

theorem of_arena (charted : h.Charted) (arena : h'.arena = h.arena) (index : h'.index = h.index)
    (queues : h'.queues = h.queues) : h'.Charted := by
  have shape : SameShape h h' := .of_arena arena index
  refine charted.of_same shape (charted.toFiled.carry queues (Nat.le_of_eq shape.size.symm) ?_ ?_)
  · intro k _
    exact shape.id k
  · intro k
    rw [node, node, arena]

theorem update (charted : h.Charted) {f : Status cfg.slots → Status cfg.slots}
    (removed : ∀ s, (f s).removed = s.removed) (children : ∀ s, (f s).children = s.children)
    (queued : ∀ s, (f s).queued = s.queued) : (h.update k f).Charted :=
  charted.of_same (same_shape_update removed children) (charted.toFiled.update queued)

theorem attach (charted : h.Charted) (place : Vacancy h id p name) (next : UInt64) :
    Charted { h.attach id p name with nextId := next } := by
  have shaped := charted.toShaped.attach place.inside place.live place.free place.vacant
  have filed : (h.attach id p name).Filed := charted.toFiled.attach place.inside
  have root : rootKey ≠ h.arena.size := Nat.ne_of_lt charted.rooted.1
  have depth : ((h.attach id p name).node rootKey).depth = (h.node rootKey).depth :=
    congrArg Identity.depth (attach_identity place.inside root)
  have attached : (h.attach id p name).Charted := ⟨shaped, filed, depth.trans charted.grounded⟩
  exact attached.of_arena rfl rfl rfl

theorem apart (charted : h.Charted) (leaving : Leaving h id k p) : (h.apart id k p).Charted where
  toShaped := charted.toShaped.apart leaving.found leaving.up leaving.childless
  toFiled := charted.toFiled.apart leaving
  grounded := by
    have identity : ((h.apart id k p).node rootKey).toIdentity = (h.node rootKey).toIdentity :=
      apart_identity leaving.inside leaving.before rootKey
    exact (congrArg Identity.depth identity).trans charted.grounded

end Charted

theorem charted_tending : Tending (@Charted cfg) fun _ => True where
  filed charted := charted.toFiled
  take charted taken _ :=
    (charted.of_same taken.toSameShape (charted.toFiled.taken taken)).of_arena rfl rfl rfl
  ready _ _ := trivial
  mark cpu charted _ inside _ :=
    charted.of_same (only_lists_mark _ _ cpu).toSameShape (charted.toFiled.mark inside cpu)
  settle charted inside done := by
    obtain ⟨_, _, settled⟩ := settle_ok inside done
    refine charted.of_same settled.toSameShape (charted.toFiled.carry settled.queues ?_ ?_ ?_)
    · exact Nat.le_of_eq settled.size.symm
    · intro k _
      exact settled.id k
    · exact settled.queued
  finish _ charted := charted.of_arena rfl rfl rfl

theorem charted_custody : Custody (fun _ => @Charted cfg) fun _ => True where
  shaped charted := charted.toShaped
  tending _ := charted_tending
  spare _ charted := charted
  attach next charted place _ := charted.attach place next
  apart charted leaving := charted.apart leaving
  leave charted leaving := by
    rw [leaving.bequeath_eq charted.toShaped]
    exact (charted.apart leaving).update (fun _ => rfl) (fun _ => rfl) fun _ => rfl
  count _ charted _ := charted.update (fun _ => rfl) (fun _ => rfl) fun _ => rfl
  drain charted _ _ := charted.update (fun _ => rfl) (fun _ => rfl) fun _ => rfl

/-- The index, the links to parents and the maps of children describe one tree. -/
structure OneTree (h : Hierarchy cfg) : Prop where
  indexed : ∀ (id : NodeId) (k : Nat), h.index[id]? = some k →
    k < h.arena.size ∧ (h.node k).id = id ∧ (h.node k).removed = false
  rooted : h.index[NodeId.root]? = some rootKey ∧ (h.node rootKey).depth = 0
  topmost : ∀ k ∈ h.keys, h.parent? k = none ↔ k = rootKey
  upward : ∀ k ∈ h.keys, k ≠ rootKey → ∃ p ∈ h.keys, h.parent? k = some p ∧ h.isAlive p = true ∧
    (h.node k).depth = (h.node p).depth + 1
  downward : ∀ p ∈ h.keys, ∀ (id : NodeId) (c : Nat), (h.node p).children[id]? = some c ↔
    h.index[id]? = some c ∧ h.parent? c = some p
  named : ∀ j ∈ h.keys, ∀ k ∈ h.keys, ∀ p, h.parent? j = some p → h.parent? k = some p →
    (h.node j).name = (h.node k).name → j = k

structure Climb (h : Hierarchy cfg) (k : Nat) (ids : List NodeId) : Prop where
  first : ids.head? = some (h.node k).id
  last : ids.getLast? = some NodeId.root
  length : ids.length = (h.node k).depth + 1
  nodup : ids.Nodup
  linked : ids.IsChain fun i j => ∃ c p, h.index[i]? = some c ∧ h.parent? c = some p ∧
    h.index[j]? = some p

structure Coherent (views : List NodeView) : Prop where
  rising : IdMap.Rising (views.map NodeView.id)
  above : ∀ v ∈ views, ∀ i, v.parent = some i → ∃ w ∈ views, w.id = i ∧ v.depth = w.depth + 1
  topmost : ∀ v ∈ views, v.parent = none ↔ v.id = NodeId.root
  grounded : ∀ v ∈ views, v.depth = 0 ↔ v.id = NodeId.root
  below : ∀ v ∈ views,
    v.children = (views.filter fun w => w.parent = some v.id).map NodeView.id

section
variable (charted : h.Charted)
include charted

theorem Charted.entry {k : Nat} (member : k ∈ h.keys) : h.index[(h.node k).id]? = some k := by
  obtain ⟨inside, live⟩ := charted.toShaped.key_of_mem member
  exact charted.present inside live

theorem Charted.parent_member {k p : Nat} (member : k ∈ h.keys) (up : h.parent? k = some p) :
    p ∈ h.keys := by
  obtain ⟨inside, live⟩ := charted.toShaped.key_of_mem member
  have link := link_of_parent up
  exact charted.toShaped.mem_keys.mpr
    ⟨Nat.lt_trans (parent_before up) inside, charted.upward live link⟩

theorem Charted.root_of_no_parent {k : Nat} (member : k ∈ h.keys) (top : h.parent? k = none) :
    k = rootKey := by
  obtain ⟨inside, live⟩ := charted.toShaped.key_of_mem member
  exact charted.topmost inside ((charted.toShaped.parent_of_live live).symm.trans top)

theorem Charted.one_tree : h.OneTree := by
  obtain ⟨root_inside, root_live, root_top, root_id⟩ := charted.rooted
  have root : h.parent? rootKey = none := (charted.toShaped.parent_of_live root_live).trans root_top
  constructor
  case indexed =>
    intro id k found
    exact charted.indexed found
  case rooted => exact ⟨root_id ▸ charted.present root_inside root_live, charted.grounded⟩
  case topmost =>
    intro k member
    refine ⟨charted.root_of_no_parent member, ?_⟩
    rintro rfl
    exact root
  case upward =>
    intro k member other
    cases up : h.parent? k with
    | none => exact absurd (charted.root_of_no_parent member up) other
    | some p =>
      exact ⟨p, charted.parent_member member up, rfl, (parent_eq_some.mp up).2, parent_above up⟩
  case downward =>
    intro p member id c
    obtain ⟨inside, _⟩ := charted.toShaped.key_of_mem member
    rw [charted.downward inside]
    constructor
    · rintro ⟨child, live, up, rfl⟩
      exact ⟨charted.present child live, (charted.toShaped.parent_of_live live).trans up⟩
    · rintro ⟨found, up⟩
      obtain ⟨child, named, live⟩ := charted.indexed found
      exact ⟨child, live, link_of_parent up, named⟩
  case named =>
    intro j first k second p up_j up_k same
    obtain ⟨inside_j, live_j⟩ := charted.toShaped.key_of_mem first
    obtain ⟨inside_k, live_k⟩ := charted.toShaped.key_of_mem second
    exact charted.named inside_j inside_k live_j live_k (link_of_parent up_j)
      (link_of_parent up_k) same

theorem Charted.climbs {k : Nat} (member : k ∈ h.keys) :
    h.Climb k ((h.chain k).map fun a => (h.node a).id) := by
  -- by induction on the key, since a parent is an earlier node
  induction k using Nat.strongRecOn with
  | ind k ih =>
    cases up : h.parent? k with
    | none =>
      obtain rfl := charted.root_of_no_parent member up
      rw [chain_of_no_parent up]
      have id := charted.rooted.2.2.2
      exact ⟨rfl, by simp [id], by simp [charted.grounded], by simp, by simp⟩
    | some p =>
      have above := charted.parent_member member up
      have rest := ih p (parent_before up) above
      have down : h.chain k = k :: h.chain p := chain_of_parent up
      obtain ⟨more, begins⟩ : ∃ more, (h.chain p).map (fun a => (h.node a).id) =
          (h.node p).id :: more := by
        cases chain : (h.chain p).map fun a => (h.node a).id with
        | nil => exact absurd rest.first (by simp [chain])
        | cons first more =>
          have first_eq := rest.first
          rw [chain, List.head?_cons, Option.some.injEq] at first_eq
          exact ⟨more, by rw [first_eq]⟩
      rw [down, List.map_cons]
      constructor
      case first => rfl
      case last => rw [begins, List.getLast?_cons_cons, ← begins, rest.last]
      case length => rw [List.length_cons, rest.length, parent_above up]
      case nodup =>
        refine List.nodup_cons.mpr ⟨fun again => ?_, rest.nodup⟩
        -- an ancestor with this node's id would be this node
        obtain ⟨a, ancestor, same⟩ := List.mem_map.mp again
        have live := charted.toShaped.key_of_mem above
        have ancestor_live := charted.toShaped.chain_live live.2 ancestor
        have earlier := Nat.lt_of_le_of_lt (le_of_mem_chain ancestor) (parent_before up)
        have inside := charted.toShaped.key_of_mem member
        have equal : a = k := charted.toShaped.same_of_id (Nat.lt_trans earlier inside.1) inside.1
          ancestor_live inside.2 same
        omega
      case linked =>
        rw [begins, List.isChain_cons_cons, ← begins]
        exact ⟨⟨k, p, charted.entry member, up, charted.entry above⟩, rest.linked⟩

theorem Charted.same_key {j k : Nat} (first : j ∈ h.keys) (second : k ∈ h.keys)
    (same : (h.node j).id = (h.node k).id) : j = k := by
  have found := charted.entry first
  rw [same, charted.entry second] at found
  exact (Option.some.inj found).symm

theorem Charted.snapshot_ids : h.snapshot.map NodeView.id = h.index.keys := by
  rw [snapshot, List.map_map]
  exact IdMap.values_by_id fun id k found => (charted.indexed found).2.1

theorem Charted.child_ids {k : Nat} (member : k ∈ h.keys) :
    h.childIds k = (h.node k).children.keys :=
  IdMap.values_by_id fun id c found =>
    (charted.indexed ((charted.one_tree.downward k member id c).mp found).1).2.1

theorem Charted.children_in_snapshot {k : Nat} (member : k ∈ h.keys) :
    h.childIds k =
      (h.snapshot.filter fun w => w.parent = some (h.node k).id).map NodeView.id := by
  have below := charted.one_tree.downward k member
  rw [charted.child_ids member]
  apply IdMap.rising_ext (IdMap.keys_rising _)
  · have all : IdMap.Rising (h.snapshot.map NodeView.id) := by
      rw [charted.snapshot_ids]
      exact IdMap.keys_rising _
    exact all.sublist (List.filter_sublist.map NodeView.id)
  · intro i
    rw [IdMap.mem_keys_iff]
    simp only [List.mem_map, List.mem_filter, decide_eq_true_eq]
    constructor
    · rintro ⟨c, found⟩
      obtain ⟨entry, up⟩ := (below i c).mp found
      refine ⟨h.view c, ⟨List.mem_map.mpr ⟨c, IdMap.mem_values.mpr ⟨i, entry⟩, rfl⟩, ?_⟩, ?_⟩
      · simp [view, up]
      · exact (charted.indexed entry).2.1
    · rintro ⟨w, ⟨shown, up⟩, rfl⟩
      obtain ⟨c, child, rfl⟩ := List.mem_map.mp shown
      obtain ⟨p, link, same⟩ := Option.map_eq_some_iff.mp up
      obtain rfl := charted.same_key (charted.parent_member child link) member same
      exact ⟨c, (below _ c).mpr ⟨charted.entry child, link⟩⟩

theorem Charted.snapshot_coherent : Coherent h.snapshot := by
  have tree := charted.one_tree
  have top {k : Nat} (member : k ∈ h.keys) : (h.node k).id = NodeId.root ↔ k = rootKey := by
    have root := charted.rooted.2.2.2
    constructor
    · intro same
      exact charted.same_key member (IdMap.mem_values.mpr ⟨_, tree.rooted.1⟩) (same.trans root.symm)
    · rintro rfl
      exact root
  constructor
  case rising =>
    rw [charted.snapshot_ids]
    exact IdMap.keys_rising _
  case above =>
    intro v shown i up
    obtain ⟨k, member, rfl⟩ := List.mem_map.mp shown
    obtain ⟨p, link, rfl⟩ := Option.map_eq_some_iff.mp up
    exact ⟨h.view p, List.mem_map.mpr ⟨p, charted.parent_member member link, rfl⟩, rfl,
      parent_above link⟩
  case topmost =>
    intro v shown
    obtain ⟨k, member, rfl⟩ := List.mem_map.mp shown
    change (h.parent? k).map (fun p => (h.node p).id) = none ↔ (h.node k).id = NodeId.root
    rw [Option.map_eq_none_iff, tree.topmost k member, top member]
  case grounded =>
    intro v shown
    obtain ⟨k, member, rfl⟩ := List.mem_map.mp shown
    change (h.node k).depth = 0 ↔ (h.node k).id = NodeId.root
    rw [top member]
    constructor
    · intro depth
      by_contra other
      obtain ⟨p, _, _, _, deeper⟩ := tree.upward k member other
      omega
    · rintro rfl
      exact charted.grounded
  case below =>
    intro v shown
    obtain ⟨k, member, rfl⟩ := List.mem_map.mp shown
    exact charted.children_in_snapshot member

end

theorem child_count (h : Hierarchy cfg) (k : Nat) :
    (h.childIds k).length = (h.node k).children.size := by
  rw [childIds, List.length_map, IdMap.values_eq_map, List.length_map,
    Std.ExtTreeMap.length_toList]

end Hierarchy

namespace Session

open Hierarchy

theorem run_healthy (cfg : Config) (steps : List Step) :
    Healthy (@Charted cfg) ((start cfg).run steps) := by
  have begins : Healthy (@Charted cfg) (start cfg) := ⟨.start cfg, Referenced.start cfg⟩
  exact run_keeps (n := 0) charted_custody begins fun _ _ _ => trivial

theorem run_charted (cfg : Config) (steps : List Step) :
    ((start cfg).run steps).hierarchy.Charted := (run_healthy cfg steps).kept

/-- In every state of every session the index, the parents, the maps of children and the depths
    describe one tree; its walks to the root and its snapshots show just that tree. -/
theorem one_tree_throughout (cfg : Config) (steps : List Step) :
    let h := ((start cfg).run steps).hierarchy
    h.OneTree ∧
    (∀ id k, h.index[id]? = some k → ∃ ids, h.ancestorIds id = .ok ids ∧ h.Climb k ids) ∧
    h.snapshot.map NodeView.id = h.index.keys ∧ Coherent h.snapshot ∧
    ∀ v ∈ h.snapshot, ∃ k, h.index[v.id]? = some k ∧ v = h.view k ∧
      v.children.length = (h.node k).children.size := by
  intro h
  have charted : h.Charted := run_charted cfg steps
  refine ⟨charted.one_tree, ?_, charted.snapshot_ids, charted.snapshot_coherent, ?_⟩
  · intro id k found
    refine ⟨_, ?_, charted.climbs (IdMap.mem_values.mpr ⟨id, found⟩)⟩
    simp only [ancestorIds, find, found]
  · intro v shown
    obtain ⟨k, member, rfl⟩ := List.mem_map.mp shown
    exact ⟨k, charted.entry member, rfl, h.child_count k⟩

/-- A node is held and taken out, and its id given to a node elsewhere that has a child. -/
def reusingSteps : List Step :=
  [.create NodeId.root "a", .create ⟨2⟩ "b", .hold ⟨3⟩ "old", .add ⟨3⟩ ⟨1⟩ 5, .remove ⟨3⟩,
    .createWithId ⟨3⟩ NodeId.root "b", .create ⟨3⟩ "c"]

theorem one_tree_with_reused_id :
    let h := ((start ⟨2⟩).run reusingSteps).hierarchy
    h.keys = [0, 1, 3, 4] ∧ (h.node 2).id = (h.node 3).id ∧ h.OneTree ∧
      ∃ ids, h.ancestorIds ⟨4⟩ = .ok ids ∧ h.Climb 4 ids := by
  obtain ⟨tree, climbs, _⟩ := one_tree_throughout ⟨2⟩ reusingSteps
  exact ⟨by decide +kernel, by decide +kernel, tree, climbs ⟨4⟩ 4 (by decide +kernel)⟩

end Session

end Rollup
