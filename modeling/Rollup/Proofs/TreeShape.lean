import Mathlib
import Rollup.Proofs.Lineage
import Rollup.Hierarchy.Shape

/-!
The tree and its index. `Shaped` says that the index, the links to parents and the maps of children
describe one tree: its nodes are those that are not removed. Creating a node and taking out a
childless one keep this, and no other operation touches it.

What creating and taking out do to each node is said once, in `node_attach` and `node_apart`.
-/
namespace Rollup

namespace Arena

variable {n : Nat} {a b : Arena n}

theorem eq_of_nodes (size : a.size = b.size)
    (same : ∀ k, a.node k = b.node k) : a = b := by
  obtain ⟨first, _⟩ := a
  obtain ⟨second, _⟩ := b
  have nodes : first = second := by
    refine Array.ext size fun i left right => ?_
    have at_i : nodeAt first i = nodeAt second i := same i
    simpa [nodeAt, left, right] using at_i
  subst nodes
  rfl

theorem node_outside {k : Nat} (outside : a.size ≤ k) :
    a.node k = Node.blank n := by
  simp only [node, nodeAt, size] at outside ⊢
  rw [Array.getElem?_eq_none outside]
  rfl

end Arena

namespace Hierarchy

variable {cfg : Config} {h h' : Hierarchy cfg}

structure Shaped (h : Hierarchy cfg) : Prop where
  indexed : ∀ {id k}, h.index[id]? = some k →
    k < h.arena.size ∧ (h.node k).id = id ∧ (h.node k).removed = false
  present : ∀ {k}, k < h.arena.size → (h.node k).removed = false →
    h.index[(h.node k).id]? = some k
  rooted : rootKey < h.arena.size ∧ (h.node rootKey).removed = false ∧
    (h.node rootKey).parent = none ∧ (h.node rootKey).id = NodeId.root
  topmost : ∀ {k}, k < h.arena.size → (h.node k).parent = none → k = rootKey
  upward : ∀ {k p}, (h.node k).removed = false → (h.node k).parent = some p →
    (h.node p).removed = false
  downward : ∀ {p id c}, p < h.arena.size →
    ((h.node p).children[id]? = some c ↔ c < h.arena.size ∧ (h.node c).removed = false ∧
      (h.node c).parent = some p ∧ (h.node c).id = id)
  named : ∀ {j k p}, j < h.arena.size → k < h.arena.size →
    (h.node j).removed = false → (h.node k).removed = false →
    (h.node j).parent = some p → (h.node k).parent = some p →
    (h.node j).name = (h.node k).name → j = k

theorem index_lacks {id : NodeId} : h.index.contains id = false ↔ h.index[id]? = none := by
  rw [Std.ExtTreeMap.contains_eq_isSome_getElem?, Option.isSome_eq_false_iff,
    Option.isNone_iff_eq_none]

structure SameCounts (h h' : Hierarchy cfg) : Prop where
  counter : ∀ k, (h'.node k).counter = (h.node k).counter
  total : ∀ k, (h'.node k).total = (h.node k).total
  pending : ∀ k, (h'.node k).pending = (h.node k).pending
  inherited : ∀ k, (h'.node k).inherited = (h.node k).inherited

theorem SameCounts.of_arena (arena : h'.arena = h.arena) : SameCounts h h' := by
  have node (k : Nat) : h'.node k = h.node k := by rw [Hierarchy.node, Hierarchy.node, arena]
  constructor
  all_goals
    intro k
    rw [node]

theorem SameCounts.trans {h'' : Hierarchy cfg} (first : SameCounts h h')
    (second : SameCounts h' h'') : SameCounts h h'' where
  counter k := (second.counter k).trans (first.counter k)
  total k := (second.total k).trans (first.total k)
  pending k := (second.pending k).trans (first.pending k)
  inherited k := (second.inherited k).trans (first.inherited k)

theorem node_eq {n : Nat} {x y : Node n} (identity : x.toIdentity = y.toIdentity)
    (children : x.children = y.children) (counter : x.counter = y.counter)
    (total : x.total = y.total) (pending : x.pending = y.pending)
    (inherited : x.inherited = y.inherited) (queued : x.queued = y.queued)
    (removed : x.removed = y.removed) : x = y := by
  obtain ⟨_, _, _, _, _, _, _, _⟩ := x
  obtain ⟨_, _, _, _, _, _, _, _⟩ := y
  simp_all

/-- A state is its tree, its counts, its lists with their flags, and its references. -/
theorem eq_of_same (shape : SameShape h h') (counts : SameCounts h h')
    (queued : ∀ k, (h'.node k).queued = (h.node k).queued) (nextId : h'.nextId = h.nextId)
    (queues : h'.queues = h.queues) (flushes : h'.flushes = h.flushes)
    (holds : h'.holds = h.holds) : h' = h := by
  have arena : h'.arena = h.arena := by
    refine Arena.eq_of_nodes shape.size fun k => ?_
    exact node_eq (shape.identity k) (shape.children k) (counts.counter k) (counts.total k)
      (counts.pending k) (counts.inherited k) (queued k) (shape.removed k)
  have index := shape.index
  obtain ⟨_, _, _, _, _, _⟩ := h
  obtain ⟨_, _, _, _, _, _⟩ := h'
  simp_all

theorem node_outside {k : Nat} (outside : h.arena.size ≤ k) :
    h.node k = Node.blank cfg.slots :=
  Arena.node_outside outside

theorem parent_inside {k p : Nat} (up : (h.node k).parent = some p) : k < h.arena.size := by
  by_contra outside
  rw [node_outside (Nat.le_of_not_lt outside)] at up
  exact absurd up (by simp [Node.blank])

namespace Shaped

theorem key_of_mem (shaped : h.Shaped) {k : Nat} (member : k ∈ h.keys) :
    k < h.arena.size ∧ (h.node k).removed = false := by
  obtain ⟨id, found⟩ := IdMap.mem_values.mp member
  have entry := shaped.indexed found
  exact ⟨entry.1, entry.2.2⟩

theorem mem_keys (shaped : h.Shaped) {k : Nat} :
    k ∈ h.keys ↔ k < h.arena.size ∧ (h.node k).removed = false := by
  refine ⟨shaped.key_of_mem, fun inside => ?_⟩
  exact IdMap.mem_values.mpr ⟨_, shaped.present inside.1 inside.2⟩

theorem same_of_id (shaped : h.Shaped) {j k : Nat} (hj : j < h.arena.size)
    (hk : k < h.arena.size) (live : (h.node j).removed = false)
    (alive : (h.node k).removed = false) (same : (h.node j).id = (h.node k).id) : j = k := by
  have left := shaped.present hj live
  have right := shaped.present hk alive
  rw [same, right] at left
  exact (Option.some.inj left).symm

theorem root_mem_lineage (shaped : h.Shaped) {k : Nat} (inside : k < h.arena.size) :
    rootKey ∈ h.lineage k := by
  induction k using Nat.strongRecOn with
  | ind k ih =>
    cases up : (h.node k).parent with
    | none =>
      rw [shaped.topmost inside up]
      exact self_mem_lineage h rootKey
    | some p =>
      have before : p < k := Arena.parent_before up
      exact mem_lineage_of_parent up (ih p before (Nat.lt_trans before inside))

theorem sum_below_root (shaped : h.Shaped) (f : Nat → Nat) :
    h.sumBelow rootKey f = ∑ k ∈ Finset.range h.arena.size, f k := by
  have all : h.below rootKey = Finset.range h.arena.size := by
    ext k
    rw [mem_below, Finset.mem_range]
    constructor
    · exact And.left
    · intro inside
      exact ⟨inside, shaped.root_mem_lineage inside⟩
  rw [sumBelow, all]

theorem of_same (shaped : h.Shaped) (same : SameShape h h') : h'.Shaped where
  indexed found := by
    rw [same.index] at found
    rw [same.size, same.id, same.removed]
    exact shaped.indexed found
  present inside live := by
    rw [same.size] at inside
    rw [same.removed] at live
    rw [same.index, same.id]
    exact shaped.present inside live
  rooted := by
    rw [same.size, same.removed, same.parent, same.id]
    exact shaped.rooted
  topmost inside up := by
    rw [same.size] at inside
    rw [same.parent] at up
    exact shaped.topmost inside up
  upward live up := by
    rw [same.removed] at live ⊢
    rw [same.parent] at up
    exact shaped.upward live up
  downward inside := by
    rw [same.size] at inside ⊢
    rw [same.children, same.removed, same.parent, same.id]
    exact shaped.downward inside
  named hj hk live alive up up' := by
    rw [same.size] at hj hk
    rw [same.removed] at live alive
    rw [same.parent] at up up'
    rw [same.name, same.name]
    exact shaped.named hj hk live alive up up'

theorem start (cfg : Config) : (Hierarchy.new cfg).Shaped := by
  have size : (Hierarchy.new cfg).arena.size = 1 := rfl
  have root : (Hierarchy.new cfg).node 0 =
      (Arena.empty cfg.slots).newborn NodeId.root rootName none := rfl
  have index (id : NodeId) : (Hierarchy.new cfg).index[id]? =
      if NodeId.root = id then some rootKey else none := by
    simp [Hierarchy.new, Std.ExtTreeMap.getElem?_insert]
  have only {k : Nat} (inside : k < (Hierarchy.new cfg).arena.size) : k = 0 := by omega
  constructor
  case indexed =>
    intro id k found
    rw [index] at found
    split at found
    · rename_i same
      obtain rfl : rootKey = k := Option.some.inj found
      exact ⟨Nat.lt_of_lt_of_eq Nat.zero_lt_one size.symm, by rw [← same]; rfl, rfl⟩
    · exact absurd found (by simp)
  case present =>
    intro k inside _
    obtain rfl := only inside
    rw [index]
    rfl
  case rooted => exact ⟨by rw [size]; decide, rfl, rfl, rfl⟩
  case topmost =>
    intro k inside _
    exact only inside
  case upward =>
    intro k p _ up
    obtain rfl := only (parent_inside up)
    rw [root] at up
    exact absurd up (by simp [Arena.newborn, Arena.link])
  case downward =>
    intro p id c inside
    obtain rfl := only inside
    constructor
    · intro found
      have none : ((Hierarchy.new cfg).node 0).children = ∅ := rfl
      rw [none] at found
      exact absurd found (by simp)
    · rintro ⟨child, _, up, _⟩
      obtain rfl := only child
      rw [root] at up
      exact absurd up (by simp [Arena.newborn, Arena.link])
  case named =>
    intro j k p hj hk _ _ _ _ _
    rw [only hj, only hk]

end Shaped

section
variable {id : NodeId} {p : Nat} {name : String}

theorem size_attach : (h.attach id p name).arena.size = h.arena.size + 1 := by
  simp only [attach, Arena.size_update, Arena.size_push]

theorem index_attach (i : NodeId) : (h.attach id p name).index[i]? =
    if id = i then some h.arena.size else h.index[i]? := by
  simp only [attach, Std.ExtTreeMap.getElem?_insert, Std.LawfulEqCmp.compare_eq_iff_eq]

theorem node_attach (inside : p < h.arena.size) (j : Nat) : (h.attach id p name).node j =
    if j = h.arena.size then h.arena.newborn id name (some p)
    else if j = p then
      { h.node p with children := (h.node p).children.insert id h.arena.size }
    else h.node j := by
  have grown : p < (h.arena.push id name (some p)).size := by
    rw [Arena.size_push]
    omega
  simp only [node, attach, Arena.node_update, Arena.node_push, grown, and_true]
  by_cases new : j = h.arena.size
  · have other : p ≠ h.arena.size := Nat.ne_of_lt inside
    simp [new, other]
  · by_cases same : j = p
    · subst same
      simp [new]
    · simp [new, same, Ne.symm same]

theorem newborn_parent (inside : p < h.arena.size) :
    (h.arena.newborn id name (some p)).parent = some p := by
  simp [Arena.newborn, Arena.link, inside]

/-- A key without a node counts as living, as the node that comes under it will be. -/
theorem next_removed : (h.node h.arena.size).removed = false := by
  rw [node_outside (Nat.le_refl _)]
  rfl

/-- What does not depend on children stays as it is; the new node has it from a blank one. -/
theorem attach_part {α : Type} (part : Status cfg.slots → α)
    (blind : ∀ s children, part { s with children } = part s) (inside : p < h.arena.size)
    (k : Nat) : part ((h.attach id p name).node k).toStatus = part (h.node k).toStatus := by
  rw [node_attach inside]
  split
  · rename_i new
    rw [new, node_outside (Nat.le_refl h.arena.size)]
    rfl
  · split
    · rename_i same
      rw [same]
      exact blind _ _
    · rfl

theorem attach_counts (inside : p < h.arena.size) : SameCounts h (h.attach id p name) where
  counter := attach_part Status.counter (fun _ _ => rfl) inside
  total := attach_part Status.total (fun _ _ => rfl) inside
  pending := attach_part Status.pending (fun _ _ => rfl) inside
  inherited := attach_part Status.inherited (fun _ _ => rfl) inside

theorem attach_queued (inside : p < h.arena.size) (k : Nat) :
    ((h.attach id p name).node k).queued = (h.node k).queued :=
  attach_part Status.queued (fun _ _ => rfl) inside k

theorem attach_removed (inside : p < h.arena.size) (k : Nat) :
    ((h.attach id p name).node k).removed = (h.node k).removed :=
  attach_part Status.removed (fun _ _ => rfl) inside k

theorem attach_identity (inside : p < h.arena.size) {k : Nat} (old : k ≠ h.arena.size) :
    ((h.attach id p name).node k).toIdentity = (h.node k).toIdentity := by
  rw [node_attach inside, if_neg old]
  split
  · rename_i same
    rw [same]
  · rfl

theorem attach_newborn (inside : p < h.arena.size) :
    (h.attach id p name).node h.arena.size = h.arena.newborn id name (some p) := by
  rw [node_attach inside, if_pos rfl]

theorem attach_id (inside : p < h.arena.size) (k : Nat) :
    ((h.attach id p name).node k).id = if k = h.arena.size then id else (h.node k).id := by
  split
  · rename_i new
    rw [new, attach_newborn inside]
    rfl
  · rename_i old
    exact congrArg Identity.id (attach_identity inside old)

theorem attach_name (inside : p < h.arena.size) (k : Nat) :
    ((h.attach id p name).node k).name = if k = h.arena.size then name else (h.node k).name := by
  split
  · rename_i new
    rw [new, attach_newborn inside]
    rfl
  · rename_i old
    exact congrArg Identity.name (attach_identity inside old)

theorem attach_parent (inside : p < h.arena.size) (k : Nat) :
    ((h.attach id p name).node k).parent =
      if k = h.arena.size then some p else (h.node k).parent := by
  split
  · rename_i new
    rw [new, attach_newborn inside, newborn_parent inside]
  · rename_i old
    exact congrArg Identity.parent (attach_identity inside old)

theorem attach_children (inside : p < h.arena.size) {q : Nat} (old : q < h.arena.size)
    (i : NodeId) : ((h.attach id p name).node q).children[i]? =
      if q = p ∧ id = i then some h.arena.size else (h.node q).children[i]? := by
  rw [node_attach inside, if_neg (Nat.ne_of_lt old)]
  by_cases same : q = p
  · subst same
    simp [Std.ExtTreeMap.getElem?_insert]
  · simp [same]

theorem child_absent (shaped : h.Shaped) (inside : p < h.arena.size)
    (vacant : h.childNamed p name = none) {c : Nat} (child : c < h.arena.size)
    (live : (h.node c).removed = false) (up : (h.node c).parent = some p) :
    (h.node c).name ≠ name := by
  have listed : c ∈ (h.node p).children.values :=
    IdMap.mem_values.mpr ⟨_, (shaped.downward inside).mpr ⟨child, live, up, rfl⟩⟩
  have missed := List.find?_eq_none.mp vacant c listed
  simpa using missed

theorem Shaped.id_ne_of_free (shaped : h.Shaped) (free : h.index[id]? = none) {k : Nat}
    (inside : k < h.arena.size) (live : (h.node k).removed = false) : id ≠ (h.node k).id := by
  rintro rfl
  rw [shaped.present inside live] at free
  exact absurd free (by simp)

theorem Shaped.attach_child_iff (shaped : h.Shaped) (inside : p < h.arena.size)
    (free : h.index[id]? = none) {q c : Nat} {i : NodeId} (old : q < h.arena.size) :
    ((h.attach id p name).node q).children[i]? = some c ↔
      c < h.arena.size + 1 ∧ ((h.attach id p name).node c).removed = false ∧
        ((h.attach id p name).node c).parent = some q ∧ ((h.attach id p name).node c).id = i := by
  rw [attach_children inside old, attach_removed inside, attach_parent inside, attach_id inside]
  by_cases new : c = h.arena.size
  · subst new
    rw [if_pos rfl, if_pos rfl]
    constructor
    · intro found
      split at found
      · rename_i here
        exact ⟨Nat.lt_succ_self _, next_removed, by rw [here.1], here.2⟩
      · exact absurd ((shaped.downward old).mp found).1 (Nat.lt_irrefl _)
    · rintro ⟨_, _, up, named⟩
      rw [if_pos ⟨(Option.some.inj up).symm, named⟩]
  · rw [if_neg new, if_neg new]
    constructor
    · intro found
      split at found
      · exact absurd (Option.some.inj found).symm new
      · obtain ⟨child, rest⟩ := (shaped.downward old).mp found
        exact ⟨Nat.lt_succ_of_lt child, rest⟩
    · rintro ⟨below, live, up, named⟩
      have child : c < h.arena.size := by omega
      have differ : id ≠ i := named ▸ shaped.id_ne_of_free free child live
      rw [if_neg fun both => differ both.2]
      exact (shaped.downward old).mpr ⟨child, live, up, named⟩

theorem Shaped.attach (shaped : h.Shaped) (inside : p < h.arena.size)
    (live : (h.node p).removed = false) (free : h.index[id]? = none)
    (vacant : h.childNamed p name = none) : (h.attach id p name).Shaped := by
  constructor
  case indexed =>
    intro i k found
    rw [index_attach] at found
    rw [size_attach, attach_id inside, attach_removed inside]
    split at found
    · rename_i same
      obtain rfl : h.arena.size = k := Option.some.inj found
      exact ⟨Nat.lt_succ_self _, (if_pos rfl).trans same, next_removed⟩
    · obtain ⟨known, named, alive⟩ := shaped.indexed found
      exact ⟨Nat.lt_succ_of_lt known, (if_neg (Nat.ne_of_lt known)).trans named, alive⟩
  case present =>
    intro k known alive
    rw [size_attach] at known
    rw [attach_removed inside] at alive
    rw [index_attach, attach_id inside]
    by_cases new : k = h.arena.size
    · rw [if_pos new, if_pos rfl, new]
    · have old : k < h.arena.size := by omega
      rw [if_neg new, if_neg (shaped.id_ne_of_free free old alive)]
      exact shaped.present old alive
  case rooted =>
    obtain ⟨known, alive, top, named⟩ := shaped.rooted
    have old : rootKey ≠ h.arena.size := Nat.ne_of_lt known
    rw [size_attach, attach_removed inside, attach_parent inside, attach_id inside, if_neg old,
      if_neg old]
    exact ⟨Nat.lt_succ_of_lt known, alive, top, named⟩
  case topmost =>
    intro k known top
    rw [size_attach] at known
    rw [attach_parent inside] at top
    split at top
    · exact absurd top (by simp)
    · exact shaped.topmost (by omega) top
  case upward =>
    intro k q alive up
    rw [attach_removed inside] at alive ⊢
    rw [attach_parent inside] at up
    split at up
    · exact Option.some.inj up ▸ live
    · exact shaped.upward alive up
  case downward =>
    intro q i c known
    rw [size_attach] at known ⊢
    by_cases new : q = h.arena.size
    · -- the new node has no child, and nothing comes after it that could name it as its parent
      subst new
      constructor
      · intro found
        rw [attach_newborn inside] at found
        exact absurd found (by simp [Arena.newborn, Status.fresh])
      · rintro ⟨_, _, up, _⟩
        have before : h.arena.size < c := Arena.parent_before up
        omega
    · exact shaped.attach_child_iff inside free (by omega)
  case named =>
    intro j k q hj hk alive_j alive_k up_j up_k same
    rw [size_attach] at hj hk
    rw [attach_removed inside] at alive_j alive_k
    rw [attach_parent inside] at up_j up_k
    rw [attach_name inside, attach_name inside] at same
    by_cases new_j : j = h.arena.size
    · by_cases new_k : k = h.arena.size
      · rw [new_j, new_k]
      · rw [if_pos new_j] at up_j same
        rw [if_neg new_k] at up_k same
        obtain rfl := Option.some.inj up_j
        exact absurd same.symm (child_absent shaped inside vacant (by omega) alive_k up_k)
    · by_cases new_k : k = h.arena.size
      · rw [if_neg new_j] at up_j same
        rw [if_pos new_k] at up_k same
        obtain rfl := Option.some.inj up_k
        exact absurd same (child_absent shaped inside vacant (by omega) alive_j up_j)
      · rw [if_neg new_j] at up_j same
        rw [if_neg new_k] at up_k same
        exact shaped.named (by omega) (by omega) alive_j alive_k up_j up_k same

end

def apart (h : Hierarchy cfg) (id : NodeId) (k p : Nat) : Hierarchy cfg :=
  ({ h with index := h.index.erase id }.update p fun s =>
    { s with children := s.children.erase id }).update k fun s => { s with removed := true }

section
variable {id : NodeId} {k p : Nat}

theorem detach_of_childless (shaped : h.Shaped) (found : h.index[id]? = some k)
    (up : (h.node k).parent = some p) (childless : (h.node k).children = ∅) :
    h.detach id = (h.apart id k p, .ok k) := by
  have living : h.parent? k = some p := by
    simp [parent?, isAlive, up, shaped.upward (shaped.indexed found).2.2 up]
  simp [detach, found, Node.isTop, up, childless, living, apart]

theorem detach_cases (shaped : h.Shaped) (id : NodeId) :
    (∃ fault, h.detach id = (h, .error fault)) ∨
      ∃ k p, h.detach id = (h.apart id k p, .ok k) ∧ h.index[id]? = some k ∧
        (h.node k).parent = some p ∧ (h.node k).children = ∅ := by
  cases found : h.index[id]? with
  | none => exact Or.inl ⟨.notFound id, by simp only [detach, found]⟩
  | some k =>
    cases up : (h.node k).parent with
    | none =>
      refine Or.inl ⟨.rootKept, ?_⟩
      simp [detach, found, Node.isTop, up]
    | some p =>
      by_cases children : 0 < (h.node k).children.size
      · refine Or.inl ⟨.hasChildren id (h.node k).children.size, ?_⟩
        simp [detach, found, Node.isTop, up, children]
      · have none : (h.node k).children.size = 0 := Nat.eq_zero_of_not_pos children
        have childless := Std.ExtTreeMap.eq_empty_iff_size_eq_zero.mpr none
        exact Or.inr ⟨k, p, detach_of_childless shaped found up childless, rfl, up, childless⟩

theorem size_apart : (h.apart id k p).arena.size = h.arena.size := by
  simp only [apart, update, Arena.size_update]

theorem index_apart (i : NodeId) :
    (h.apart id k p).index[i]? = if id = i then none else h.index[i]? := by
  simp [apart, update, Std.ExtTreeMap.getElem?_erase]

theorem node_apart (inside : k < h.arena.size) (before : p < k) (j : Nat) :
    (h.apart id k p).node j =
      if j = k then { h.node k with removed := true }
      else if j = p then { h.node p with children := (h.node p).children.erase id }
      else h.node j := by
  have inside_p : p < h.arena.size := Nat.lt_trans before inside
  have differ : p ≠ k := Nat.ne_of_lt before
  rw [apart, node_update, node_update]
  have size : (update { h with index := h.index.erase id } p fun s =>
      { s with children := s.children.erase id }).arena.size = h.arena.size :=
    Arena.size_update _ _ _
  have kept (j : Nat) : node { h with index := h.index.erase id } j = h.node j := rfl
  simp only [size, kept, inside, and_true]
  by_cases at_k : j = k
  · subst at_k
    simp [differ]
  · by_cases at_p : j = p
    · subst at_p
      simp [at_k, Ne.symm at_k, inside_p]
    · simp [at_k, at_p, Ne.symm at_k, Ne.symm at_p]

section
variable (inside : k < h.arena.size) (before : p < k)
include inside before

theorem apart_part {α : Type} (part : Node cfg.slots → α)
    (blind : ∀ (x : Node cfg.slots) children removed,
      part { x with children, removed } = part x) (j : Nat) :
    part ((h.apart id k p).node j) = part (h.node j) := by
  rw [node_apart inside before]
  split
  · rename_i same
    rw [same]
    exact blind (h.node k) (h.node k).children true
  · split
    · rename_i same
      rw [same]
      exact blind (h.node p) _ (h.node p).removed
    · rfl

theorem apart_counts : SameCounts h (h.apart id k p) where
  counter := apart_part inside before (fun x => x.counter) fun _ _ _ => rfl
  total := apart_part inside before (fun x => x.total) fun _ _ _ => rfl
  pending := apart_part inside before (fun x => x.pending) fun _ _ _ => rfl
  inherited := apart_part inside before (fun x => x.inherited) fun _ _ _ => rfl

theorem apart_identity (j : Nat) :
    ((h.apart id k p).node j).toIdentity = (h.node j).toIdentity :=
  apart_part inside before Node.toIdentity (fun _ _ _ => rfl) j

theorem apart_queued (j : Nat) : ((h.apart id k p).node j).queued = (h.node j).queued :=
  apart_part inside before (fun x => x.queued) (fun _ _ _ => rfl) j

theorem apart_removed (j : Nat) :
    ((h.apart id k p).node j).removed = if j = k then true else (h.node j).removed := by
  rw [node_apart inside before]
  split
  · rfl
  · split
    · rename_i same
      rw [same]
    · rfl

theorem apart_children (j : Nat) (i : NodeId) : ((h.apart id k p).node j).children[i]? =
    if j = p ∧ id = i then none else (h.node j).children[i]? := by
  rw [node_apart inside before]
  have differ : p ≠ k := Nat.ne_of_lt before
  by_cases at_k : j = k
  · subst at_k
    simp [Ne.symm differ]
  · by_cases at_p : j = p
    · subst at_p
      simp [at_k, Std.ExtTreeMap.getElem?_erase]
    · simp [at_k, at_p]

end

theorem Shaped.parent_ne_of_childless (shaped : h.Shaped) (inside : k < h.arena.size)
    (childless : (h.node k).children = ∅) {c : Nat} (live : (h.node c).removed = false) :
    (h.node c).parent ≠ some k := by
  intro link
  have listed := (shaped.downward inside).mpr ⟨parent_inside link, live, link, rfl⟩
  rw [childless] at listed
  exact absurd listed (by simp)

theorem Shaped.apart_child_iff (shaped : h.Shaped) (found : h.index[id]? = some k)
    (up : (h.node k).parent = some p) {q c : Nat} {i : NodeId} (known : q < h.arena.size) :
    ((h.apart id k p).node q).children[i]? = some c ↔
      c < h.arena.size ∧ ((h.apart id k p).node c).removed = false ∧
        (h.node c).parent = some q ∧ (h.node c).id = i := by
  obtain ⟨inside, has_id, live⟩ := shaped.indexed found
  have before : p < k := Arena.parent_before up
  rw [apart_children inside before, apart_removed inside before]
  constructor
  · intro entry
    split at entry
    · exact absurd entry (by simp)
    · rename_i kept
      obtain ⟨child, alive, link, named⟩ := (shaped.downward known).mp entry
      have other : c ≠ k := by
        rintro rfl
        rw [up] at link
        exact kept ⟨(Option.some.inj link).symm, has_id.symm.trans named⟩
      rw [if_neg other]
      exact ⟨child, alive, link, named⟩
  · rintro ⟨child, alive, link, named⟩
    split at alive
    · exact absurd alive (by simp)
    · rename_i other
      have kept : ¬ (q = p ∧ id = i) := fun both =>
        other (shaped.same_of_id child inside alive live
          (named.trans (both.2.symm.trans has_id.symm)))
      rw [if_neg kept]
      exact (shaped.downward known).mpr ⟨child, alive, link, named⟩

theorem Shaped.apart (shaped : h.Shaped) (found : h.index[id]? = some k)
    (up : (h.node k).parent = some p) (childless : (h.node k).children = ∅) :
    (h.apart id k p).Shaped := by
  obtain ⟨inside, has_id, live⟩ := shaped.indexed found
  have before : p < k := Arena.parent_before up
  have same_id (j : Nat) : ((h.apart id k p).node j).id = (h.node j).id :=
    congrArg Identity.id (apart_identity inside before j)
  have same_up (j : Nat) : ((h.apart id k p).node j).parent = (h.node j).parent :=
    congrArg Identity.parent (apart_identity inside before j)
  have same_name (j : Nat) : ((h.apart id k p).node j).name = (h.node j).name :=
    congrArg Identity.name (apart_identity inside before j)
  have alive_before {j : Nat} (alive : ((h.apart id k p).node j).removed = false) :
      j ≠ k ∧ (h.node j).removed = false := by
    rw [apart_removed inside before] at alive
    split at alive
    · exact absurd alive (by simp)
    · rename_i other
      exact ⟨other, alive⟩
  constructor
  case indexed =>
    intro i j entry
    rw [index_apart] at entry
    rw [size_apart, same_id, apart_removed inside before]
    split at entry
    · exact absurd entry (by simp)
    · rename_i differ
      obtain ⟨known, named, alive⟩ := shaped.indexed entry
      have other : j ≠ k := by
        rintro rfl
        exact differ (has_id.symm.trans named)
      rw [if_neg other]
      exact ⟨known, named, alive⟩
  case present =>
    intro j known alive
    rw [size_apart] at known
    obtain ⟨other, alive⟩ := alive_before alive
    rw [index_apart, same_id]
    have differ : id ≠ (h.node j).id := fun same =>
      other (shaped.same_of_id known inside alive live (same.symm.trans has_id.symm))
    rw [if_neg differ]
    exact shaped.present known alive
  case rooted =>
    obtain ⟨known, alive, top, named⟩ := shaped.rooted
    have other : rootKey ≠ k := Nat.ne_of_lt (Nat.lt_of_le_of_lt (Nat.zero_le p) before)
    rw [size_apart, apart_removed inside before, same_up, same_id, if_neg other]
    exact ⟨known, alive, top, named⟩
  case topmost =>
    intro j known top
    rw [size_apart] at known
    rw [same_up] at top
    exact shaped.topmost known top
  case upward =>
    intro j q alive link
    obtain ⟨_, alive⟩ := alive_before alive
    rw [same_up] at link
    have above : q ≠ k := fun same =>
      shaped.parent_ne_of_childless inside childless alive (same ▸ link)
    rw [apart_removed inside before, if_neg above]
    exact shaped.upward alive link
  case downward =>
    intro q i c known
    rw [size_apart] at known ⊢
    rw [same_up, same_id]
    exact shaped.apart_child_iff found up known
  case named =>
    intro i j q hi hj alive_i alive_j up_i up_j same
    rw [size_apart] at hi hj
    rw [same_up] at up_i up_j
    rw [same_name, same_name] at same
    exact shaped.named hi hj (alive_before alive_i).2 (alive_before alive_j).2 up_i up_j same

end

end Hierarchy

end Rollup
