import Mathlib
import Rollup.Proofs.TreeShape

/-!
Update lists and queue flags. `Tracked` is what every operation relies on: an entry stands under its
node's id, the flags of a living node agree with the lists, and with a node its living parent is on
the list, so that all its chain is. Two listed nodes never share an id.

Marking a node adds its chain to one list, although the walk stops at the first node that is there
already. Taking lists empties them, clears the flags of what was on them and yields just that.

Where two nodes that are alive share an id, less holds: `Filed` says only that an entry stands under
its node's id with the node's flag set. Marking and taking keep this whatever the ids. What a drain
yields does not depend on flags at all (`Addressed`).
-/
namespace Rollup

namespace Hierarchy

variable {cfg : Config} {h h' : Hierarchy cfg}

def lists (h : Hierarchy cfg) (c : Fin cfg.slots) (k : Nat) : Prop :=
  h.queues[c][(h.node k).id]? = some k

structure Tracked (h : Hierarchy cfg) : Prop where
  keyed : ∀ {c : Fin cfg.slots} {id : NodeId} {k}, h.queues[c][id]? = some k →
    k < h.arena.size ∧ (h.node k).id = id ∧ (h.node k).queued[c] = true
  flagged : ∀ {c : Fin cfg.slots} {k}, k < h.arena.size → h.isAlive k = true →
    (h.node k).queued[c] = true → h.lists c k
  closed : ∀ {c k p}, h.lists c k → h.parent? k = some p → h.lists c p
  distinct : ∀ {c d j k}, h.lists c j → h.lists d k → (h.node j).id = (h.node k).id → j = k

structure Filed (h : Hierarchy cfg) : Prop where
  keyed : ∀ {c : Fin cfg.slots} {id : NodeId} {k}, h.queues[c][id]? = some k →
    k < h.arena.size ∧ (h.node k).id = id ∧ (h.node k).queued[c] = true

theorem Tracked.filed (tracked : h.Tracked) : h.Filed := ⟨tracked.keyed⟩

structure Addressed (h : Hierarchy cfg) : Prop where
  addressed : ∀ {c : Fin cfg.slots} {id : NodeId} {k}, h.queues[c][id]? = some k →
    k < h.arena.size ∧ (h.node k).id = id

theorem Filed.addressed (filed : h.Filed) : h.Addressed where
  addressed found := ⟨(filed.keyed found).1, (filed.keyed found).2.1⟩

theorem Addressed.mem_values (addressed : h.Addressed) {c : Fin cfg.slots} {k : Nat} :
    k ∈ h.queues[c].values ↔ h.lists c k := by
  rw [IdMap.mem_values]
  constructor
  · rintro ⟨id, found⟩
    obtain ⟨_, rfl⟩ := addressed.addressed found
    exact found
  · intro listed
    exact ⟨_, listed⟩

theorem is_listed_iff {k : Nat} : h.isListed k = true ↔ ∃ c, h.lists c k := by
  simp only [isListed, List.any_eq_true, beq_iff_eq]
  constructor
  · rintro ⟨queue, member, found⟩
    obtain ⟨i, inside, rfl⟩ := List.getElem_of_mem member
    have bound : i < cfg.slots := by simpa using inside
    exact ⟨⟨i, bound⟩, by simpa [lists] using found⟩
  · rintro ⟨c, found⟩
    exact ⟨h.queues[c], by simp, found⟩

theorem is_alive_iff {k : Nat} : h.isAlive k = true ↔
    (h.node k).removed = false ∨ k ∈ h.holds ∨ ∃ c, h.lists c k := by
  simp only [isAlive, Bool.or_eq_true, Bool.not_eq_true', List.contains_iff_mem, is_listed_iff,
    or_assoc]

theorem alive_of_lists {c : Fin cfg.slots} {k : Nat} (listed : h.lists c k) :
    h.isAlive k = true :=
  is_alive_iff.mpr (Or.inr (Or.inr ⟨c, listed⟩))

theorem alive_of_live {k : Nat} (live : (h.node k).removed = false) : h.isAlive k = true :=
  is_alive_iff.mpr (Or.inl live)

theorem alive_of_held {k : Nat} (held : k ∈ h.holds) : h.isAlive k = true :=
  is_alive_iff.mpr (Or.inr (Or.inl held))

theorem parent_eq_some {k p : Nat} :
    h.parent? k = some p ↔ (h.node k).parent = some p ∧ h.isAlive p = true := by
  simp [parent?, Option.filter_eq_some_iff]

theorem parent_congr {k : Nat} (link : (h'.node k).parent = (h.node k).parent)
    (alive : ∀ p, p < k → h'.isAlive p = h.isAlive p) : h'.parent? k = h.parent? k := by
  simp only [parent?, link]
  cases up : (h.node k).parent with
  | none => rfl
  | some p =>
    have before : p < k := Arena.parent_before up
    simp [Option.filter, alive p before]

namespace Filed

theorem carry (filed : h.Filed) (queues : h'.queues = h.queues)
    (grown : h.arena.size ≤ h'.arena.size)
    (id : ∀ k, k < h.arena.size → (h'.node k).id = (h.node k).id)
    (queued : ∀ k, (h'.node k).queued = (h.node k).queued) : h'.Filed where
  keyed := by
    intro c i k found
    rw [queues] at found
    obtain ⟨inside, named, flag⟩ := filed.keyed found
    rw [queued]
    exact ⟨Nat.lt_of_lt_of_le inside grown, (id k inside).trans named, flag⟩

theorem inside (filed : h.Filed) {c : Fin cfg.slots} {k : Nat} (listed : h.lists c k) :
    k < h.arena.size :=
  (filed.keyed listed).1

theorem entry (filed : h.Filed) {c : Fin cfg.slots} {id : NodeId} {k : Nat} :
    h.queues[c][id]? = some k ↔ h.lists c k ∧ (h.node k).id = id := by
  constructor
  · intro found
    have id_eq := (filed.keyed found).2.1
    exact ⟨by rw [lists, id_eq]; exact found, id_eq⟩
  · rintro ⟨listed, rfl⟩
    exact listed

theorem pending_count_zero (filed : h.Filed) :
    h.pendingCount = 0 ↔ ∀ k, ¬ ∃ c, h.lists c k := by
  have sizes (queues : List (IdMap Nat)) :
      queues.foldr (fun queue count => queue.size + count) 0 = 0 ↔
        ∀ queue ∈ queues, queue = ∅ := by
    induction queues with
    | nil => simp
    | cons queue queues ih => simp [ih, ← Std.ExtTreeMap.eq_empty_iff_size_eq_zero]
  rw [pendingCount, sizes]
  constructor
  · rintro none k ⟨c, listed⟩
    rw [lists, none h.queues[c] (by simp)] at listed
    exact absurd listed (by simp)
  · intro none queue member
    obtain ⟨i, bound, rfl⟩ := List.getElem_of_mem member
    have inside : i < cfg.slots := by simpa using bound
    refine Std.ExtTreeMap.ext_getElem? fun id => Option.eq_none_iff_forall_not_mem.mpr ?_
    intro k found
    have entry : h.queues[(⟨i, inside⟩ : Fin cfg.slots)][id]? = some k := by simpa using found
    exact none k ⟨_, (filed.entry.mp entry).1⟩

end Filed

namespace Tracked

theorem inside (tracked : h.Tracked) {c : Fin cfg.slots} {k : Nat} (listed : h.lists c k) :
    k < h.arena.size :=
  (tracked.keyed listed).1

theorem queued (tracked : h.Tracked) {c : Fin cfg.slots} {k : Nat} (listed : h.lists c k) :
    (h.node k).queued[c] = true :=
  (tracked.keyed listed).2.2

theorem entry (tracked : h.Tracked) {c : Fin cfg.slots} {id : NodeId} {k : Nat} :
    h.queues[c][id]? = some k ↔ h.lists c k ∧ (h.node k).id = id :=
  tracked.filed.entry

theorem chain_listed (tracked : h.Tracked) {c : Fin cfg.slots} {k n : Nat} (listed : h.lists c k)
    (member : n ∈ h.chain k) : h.lists c n :=
  chain_closed (fun {_ _} => tracked.closed) listed member

theorem carry (tracked : h.Tracked) (queues : h'.queues = h.queues)
    (grown : h.arena.size ≤ h'.arena.size)
    (identity : ∀ k, k < h.arena.size → (h'.node k).toIdentity = (h.node k).toIdentity)
    (queued : ∀ k, (h'.node k).queued = (h.node k).queued)
    (removed : ∀ k, k < h.arena.size → (h'.node k).removed = false → (h.node k).removed = false)
    (holds : ∀ k, k < h.arena.size → k ∈ h'.holds → h.isAlive k = true) : h'.Tracked := by
  have same_id {k : Nat} (inside : k < h.arena.size) : (h'.node k).id = (h.node k).id :=
    congrArg Identity.id (identity k inside)
  have entry {c : Fin cfg.slots} {i : NodeId} {k : Nat} (found : h'.queues[c][i]? = some k) :
      k < h.arena.size ∧ (h.node k).id = i ∧ (h.node k).queued[c] = true := by
    rw [queues] at found
    exact tracked.keyed found
  have listed {c : Fin cfg.slots} {k : Nat} (found : h'.lists c k) : h.lists c k := by
    have inside := (entry found).1
    rw [lists, queues, same_id inside] at found
    exact found
  have relisted {c : Fin cfg.slots} {k : Nat} (found : h.lists c k) : h'.lists c k := by
    rw [lists, queues, same_id (tracked.inside found)]
    exact found
  have alive {k : Nat} (inside : k < h.arena.size) (living : h'.isAlive k = true) :
      h.isAlive k = true := by
    rcases is_alive_iff.mp living with live | held | ⟨c, found⟩
    · exact alive_of_live (removed k inside live)
    · exact holds k inside held
    · exact alive_of_lists (listed found)
  constructor
  case keyed => exact (tracked.filed.carry queues grown (fun _ => same_id) queued).keyed
  case flagged =>
    intro c k _ living flag
    rw [queued k] at flag
    by_cases inside : k < h.arena.size
    · exact relisted (tracked.flagged inside (alive inside living) flag)
    · rw [node_outside (Nat.le_of_not_lt inside)] at flag
      exact absurd flag (by simp [Node.blank, Status.fresh])
  case closed =>
    intro c k p found up
    have before := listed found
    have inside := tracked.inside before
    obtain ⟨link, living⟩ := parent_eq_some.mp up
    have below : p < k := Arena.parent_before link
    have old_link : (h.node k).parent = some p :=
      (congrArg Identity.parent (identity k inside)).symm.trans link
    have old_up : h.parent? k = some p :=
      parent_eq_some.mpr ⟨old_link, alive (Nat.lt_trans below inside) living⟩
    exact relisted (tracked.closed before old_up)
  case distinct =>
    intro c d j k first second same
    have left := listed first
    have right := listed second
    rw [same_id (tracked.inside left), same_id (tracked.inside right)] at same
    exact tracked.distinct left right same

theorem stay (tracked : h.Tracked) (shape : SameShape h h') (queues : h'.queues = h.queues)
    (queued : ∀ k, (h'.node k).queued = (h.node k).queued)
    (held : ∀ k ∈ h'.holds, h.isAlive k = true) : h'.Tracked := by
  apply tracked.carry
  case queues => exact queues
  case grown => exact Nat.le_of_eq shape.size.symm
  case identity =>
    intro k _
    exact shape.identity k
  case queued => exact queued
  case removed =>
    intro k _ live
    exact (shape.removed k).symm.trans live
  case holds =>
    intro k _ member
    exact held k member

theorem update (tracked : h.Tracked) {k : Nat} {f : Status cfg.slots → Status cfg.slots}
    (removed : ∀ s, (f s).removed = s.removed) (children : ∀ s, (f s).children = s.children)
    (queued : ∀ s, (f s).queued = s.queued) : (h.update k f).Tracked := by
  apply tracked.stay (same_shape_update removed children)
  case queues => rfl
  case queued =>
    intro j
    rw [node_update]
    split
    · exact queued _
    · rfl
  case held =>
    intro j held
    exact alive_of_held held

end Tracked

structure OnlyLists (h h' : Hierarchy cfg) : Prop
    extends SameShape h h', SameCounts h h' where
  holds : h'.holds = h.holds
  nextId : h'.nextId = h.nextId
  flushes : h'.flushes = h.flushes

theorem OnlyLists.refl (h : Hierarchy cfg) : OnlyLists h h where
  toSameShape := SameShape.refl h
  toSameCounts := SameCounts.of_arena rfl
  holds := rfl
  nextId := rfl
  flushes := rfl

theorem OnlyLists.trans {h'' : Hierarchy cfg} (first : OnlyLists h h') (second : OnlyLists h' h'') :
    OnlyLists h h'' where
  toSameShape := first.toSameShape.trans second.toSameShape
  toSameCounts := first.toSameCounts.trans second.toSameCounts
  holds := second.holds.trans first.holds
  nextId := second.nextId.trans first.nextId
  flushes := second.flushes.trans first.flushes

theorem node_set_queued (c : Fin cfg.slots) (b : Bool) (k j : Nat) :
    (h.setQueued c b k).node j =
      if k = j ∧ k < h.arena.size then
        { h.node j with queued := (h.node j).queued.set c b c.isLt }
      else h.node j :=
  h.node_update k _ j

theorem only_lists_set_queued (h : Hierarchy cfg) (c : Fin cfg.slots) (b : Bool) (k : Nat) :
    OnlyLists h (h.setQueued c b k) where
  toSameShape := same_shape_update (fun _ => rfl) (fun _ => rfl)
  toSameCounts := by
    constructor
    all_goals
      intro j
      rw [node_set_queued]
      split <;> rfl
  holds := rfl
  nextId := rfl
  flushes := rfl

theorem flag_set_queued (c d : Fin cfg.slots) (b : Bool) {k : Nat} (inside : k < h.arena.size)
    (j : Nat) : ((h.setQueued c b k).node j).queued[d] =
      if k = j ∧ c = d then b else (h.node j).queued[d] := by
  rw [node_set_queued]
  by_cases same : k = j
  · subst same
    by_cases slot : c = d
    · subst slot
      simp [inside]
    · have differ : c.val ≠ d.val := fun eq => slot (Fin.ext eq)
      simp [inside, slot, differ]
  · simp [same]

section
variable {c : Fin cfg.slots} {k : Nat}

theorem only_lists_enqueue (h : Hierarchy cfg) (c : Fin cfg.slots) (k : Nat) :
    OnlyLists h (h.enqueue c k) := by
  have flags := only_lists_set_queued h c true k
  exact ⟨⟨flags.size, flags.index, flags.identity, flags.removed, flags.children⟩,
    ⟨flags.counter, flags.total, flags.pending, flags.inherited⟩, rfl, rfl, rfl⟩

theorem only_lists_mark (h : Hierarchy cfg) (k : Nat) (cpu : Cpu) : OnlyLists h (h.mark k cpu) := by
  rw [mark]
  generalize h.chain k = ks
  induction ks generalizing h with
  | nil => exact OnlyLists.refl h
  | cons k ks ih =>
    simp only [enqueueUntilQueued]
    split
    · exact OnlyLists.refl h
    · exact (only_lists_enqueue h _ k).trans (ih _)

theorem queues_enqueue (d : Fin cfg.slots) (i : NodeId) : (h.enqueue c k).queues[d][i]? =
    if c = d ∧ (h.node k).id = i then some k else h.queues[d][i]? := by
  by_cases slot : c = d
  · subst slot
    simp [enqueue, Std.ExtTreeMap.getElem?_insert]
  · have differ : c.val ≠ d.val := fun eq => slot (Fin.ext eq)
    simp [enqueue, slot, differ]

theorem flag_enqueue (inside : k < h.arena.size) (d : Fin cfg.slots) (j : Nat) :
    ((h.enqueue c k).node j).queued[d] =
      if k = j ∧ c = d then true else (h.node j).queued[d] :=
  flag_set_queued c d true inside j

theorem Filed.enqueue (filed : h.Filed) (inside : k < h.arena.size) : (h.enqueue c k).Filed where
  keyed := by
    intro d i j found
    have only := only_lists_enqueue h c k
    rw [queues_enqueue] at found
    rw [only.size, only.id, flag_enqueue inside]
    split at found
    · rename_i here
      obtain rfl := Option.some.inj found
      exact ⟨inside, here.2, by simp [here.1]⟩
    · obtain ⟨known, named, flag⟩ := filed.keyed found
      refine ⟨known, named, ?_⟩
      split
      · rfl
      · exact flag

theorem Filed.enqueue_until_queued {ks : List Nat} (filed : h.Filed)
    (inside : ∀ k ∈ ks, k < h.arena.size) : (h.enqueueUntilQueued c ks).Filed := by
  induction ks generalizing h with
  | nil => exact filed
  | cons k ks ih =>
    unfold enqueueUntilQueued
    split
    · exact filed
    · refine ih (filed.enqueue (inside k (by simp))) fun j member => ?_
      rw [(only_lists_enqueue h c k).size]
      exact inside j (by simp [member])

theorem lists_of_enqueue_until_queued {ks : List Nat} {d : Fin cfg.slots} {j : Nat}
    (listed : (h.enqueueUntilQueued c ks).lists d j) : h.lists d j ∨ j ∈ ks := by
  induction ks generalizing h with
  | nil => exact Or.inl listed
  | cons k ks ih =>
    unfold enqueueUntilQueued at listed
    split at listed
    · exact Or.inl listed
    · rcases ih listed with old | later
      · rw [Hierarchy.lists, queues_enqueue] at old
        split at old
        · exact Or.inr (by simp [Option.some.inj old])
        · rw [(only_lists_enqueue h c k).id] at old
          exact Or.inl old
      · exact Or.inr (by simp [later])

/-- What it takes to queue these nodes one after another: whatever is listed stands under its own
    id, and with one of the nodes all later ones are listed. -/
structure Enqueueable (h : Hierarchy cfg) (c : Fin cfg.slots) (ks : List Nat) : Prop where
  keyed : ∀ {d : Fin cfg.slots} {i : NodeId} {j}, h.queues[d][i]? = some j →
    (h.node j).id = i ∧ (h.node j).queued[d] = true
  inside : ∀ k ∈ ks, k < h.arena.size
  flagged : ∀ k ∈ ks, (h.node k).queued[c] = true → h.lists c k
  distinct : ∀ k ∈ ks, ∀ j, h.lists c j ∨ j ∈ ks → (h.node k).id = (h.node j).id → k = j
  ordered : ks.Pairwise fun a b => h.lists c a → h.lists c b
  nodup : ks.Nodup

structure Enqueued (h h' : Hierarchy cfg) (c : Fin cfg.slots) (ks : List Nat) : Prop
    extends OnlyLists h h' where
  keyed : ∀ {d : Fin cfg.slots} {i : NodeId} {j}, h'.queues[d][i]? = some j →
    (h'.node j).id = i ∧ (h'.node j).queued[d] = true
  lists : ∀ d j, h'.lists d j ↔ h.lists d j ∨ d = c ∧ j ∈ ks
  queued : ∀ (d : Fin cfg.slots) j, (h'.node j).queued[d] = true ↔
    (h.node j).queued[d] = true ∨ d = c ∧ j ∈ ks

theorem lists_enqueue {ks : List Nat} (ready : Enqueueable h c (k :: ks)) (d : Fin cfg.slots)
    (j : Nat) : (h.enqueue c k).lists d j ↔ h.lists d j ∨ d = c ∧ j = k := by
  have id_eq := (only_lists_enqueue h c k).id j
  rw [Hierarchy.lists, queues_enqueue, id_eq]
  constructor
  · intro found
    split at found
    · rename_i here
      exact Or.inr ⟨here.1.symm, (Option.some.inj found).symm⟩
    · exact Or.inl found
  · rintro (found | ⟨rfl, rfl⟩)
    · split
      · rename_i here
        obtain ⟨rfl, same⟩ := here
        rw [ready.distinct k (by simp) j (Or.inl found) same]
      · exact found
    · rw [if_pos ⟨rfl, rfl⟩]

theorem Enqueueable.next {ks : List Nat} (ready : Enqueueable h c (k :: ks)) :
    Enqueueable (h.enqueue c k) c ks := by
  have only := only_lists_enqueue h c k
  have inside := ready.inside k (by simp)
  have lists := lists_enqueue ready
  obtain ⟨first, tail_ordered⟩ := List.pairwise_cons.mp ready.ordered
  obtain ⟨fresh, tail_nodup⟩ := List.nodup_cons.mp ready.nodup
  constructor
  case keyed =>
    intro d i j found
    rw [queues_enqueue] at found
    rw [only.id, flag_enqueue inside]
    split at found
    · rename_i here
      obtain rfl := Option.some.inj found
      exact ⟨here.2, by simp [here.1]⟩
    · obtain ⟨named, flag⟩ := ready.keyed found
      refine ⟨named, ?_⟩
      split
      · rfl
      · exact flag
  case inside =>
    intro j member
    rw [only.size]
    exact ready.inside j (by simp [member])
  case flagged =>
    intro j member flag
    have other : k ≠ j := fun same => fresh (same ▸ member)
    rw [flag_enqueue inside, if_neg fun both => other both.1] at flag
    exact (lists c j).mpr (Or.inl (ready.flagged j (by simp [member]) flag))
  case distinct =>
    intro j member i known same
    rw [only.id, only.id] at same
    refine ready.distinct j (by simp [member]) i ?_ same
    cases known with
    | inl listed =>
      rcases (lists c i).mp listed with old | ⟨_, rfl⟩
      · exact Or.inl old
      · exact Or.inr (by simp)
    | inr later => exact Or.inr (by simp [later])
  case ordered =>
    refine tail_ordered.imp_of_mem ?_
    intro a b member_a _ step listed
    rcases (lists c a).mp listed with old | ⟨_, rfl⟩
    · exact (lists c b).mpr (Or.inl (step old))
    · exact absurd member_a fresh
  case nodup => exact tail_nodup

theorem Enqueueable.cons {ks : List Nat} (ready : Enqueueable h c (k :: ks))
    (rest : Enqueued (h.enqueue c k) h' c ks) : Enqueued h h' c (k :: ks) where
  toOnlyLists := (only_lists_enqueue h c k).trans rest.toOnlyLists
  keyed := rest.keyed
  lists d j := by
    rw [rest.lists, lists_enqueue ready, List.mem_cons, or_assoc, and_or_left]
  queued d j := by
    rw [rest.queued, flag_enqueue (ready.inside k (by simp)), List.mem_cons]
    by_cases here : k = j ∧ c = d
    · obtain ⟨rfl, rfl⟩ := here
      simp
    · rw [if_neg here]
      have elsewhere : ¬ (d = c ∧ j = k) := fun both => here ⟨both.2.symm, both.1.symm⟩
      rw [and_or_left, or_iff_right elsewhere]

theorem enqueue_all (h : Hierarchy cfg) (ks : List Nat) (ready : Enqueueable h c ks) :
    Enqueued h (h.enqueueUntilQueued c ks) c ks := by
  induction ks generalizing h with
  | nil =>
    refine ⟨OnlyLists.refl h, ready.keyed, ?_, ?_⟩
    · simp [enqueueUntilQueued]
    · simp [enqueueUntilQueued]
  | cons k ks ih =>
    by_cases queued : h.isQueuedOn k c = true
    · -- the walk stops here: everything further on is listed already
      simp only [enqueueUntilQueued, queued, if_true]
      have head : h.lists c k := ready.flagged k (by simp) queued
      have all (j : Nat) (member : j ∈ k :: ks) : h.lists c j := by
        rcases List.mem_cons.mp member with rfl | later
        · exact head
        · exact (List.pairwise_cons.mp ready.ordered).1 j later head
      refine ⟨OnlyLists.refl h, ready.keyed, ?_, ?_⟩
      · intro d j
        refine ⟨Or.inl, ?_⟩
        rintro (old | ⟨rfl, member⟩)
        · exact old
        · exact all j member
      · intro d j
        refine ⟨Or.inl, ?_⟩
        rintro (old | ⟨rfl, member⟩)
        · exact old
        · exact (ready.keyed (all j member)).2
    · rw [enqueueUntilQueued, if_neg queued]
      exact ready.cons (ih (h.enqueue c k) ready.next)

end

/-- No other listed node, and no other node of the chain, has the id of a node of the chain. -/
def ChainDistinct (h : Hierarchy cfg) (k : Nat) : Prop :=
  ∀ i ∈ h.chain k, ∀ j, (∃ c, h.lists c j) ∨ j ∈ h.chain k →
    (h.node i).id = (h.node j).id → i = j

theorem chain_alive {k n : Nat} (alive : h.isAlive k = true) (member : n ∈ h.chain k) :
    h.isAlive n = true :=
  chain_closed (fun {_ _} _ up => (parent_eq_some.mp up).2) alive member

theorem chain_inside {k n : Nat} (inside : k < h.arena.size) (member : n ∈ h.chain k) :
    n < h.arena.size :=
  Nat.lt_of_le_of_lt (le_of_mem_chain member) inside

theorem Filed.mark (filed : h.Filed) {k : Nat} (inside : k < h.arena.size) (cpu : Cpu) :
    (h.mark k cpu).Filed :=
  filed.enqueue_until_queued fun _ member => chain_inside inside member

theorem lists_of_mark {c : Fin cfg.slots} {j k : Nat} {cpu : Cpu}
    (listed : (h.mark k cpu).lists c j) : h.lists c j ∨ j ∈ h.chain k :=
  lists_of_enqueue_until_queued listed

theorem chain_ordered (tracked : h.Tracked) (c : Fin cfg.slots) (k : Nat) :
    (h.chain k).Pairwise fun a b => h.lists c a → h.lists c b := by
  induction k using Nat.strongRecOn with
  | ind k ih =>
    cases up : h.parent? k with
    | none => simp [chain_of_no_parent up]
    | some p =>
      rw [chain_of_parent up, List.pairwise_cons]
      refine ⟨fun b later listed => ?_, ih p (parent_before up)⟩
      exact tracked.chain_listed (tracked.closed listed up) later

theorem enqueueable_chain (tracked : h.Tracked) (c : Fin cfg.slots) {k : Nat}
    (inside : k < h.arena.size) (alive : h.isAlive k = true) (apart : h.ChainDistinct k) :
    Enqueueable h c (h.chain k) where
  keyed found := (tracked.keyed found).2
  inside _ member := chain_inside inside member
  flagged _ member := tracked.flagged (chain_inside inside member) (chain_alive alive member)
  distinct i member j known :=
    apart i member j (known.imp (fun listed => ⟨c, listed⟩) fun later => later)
  ordered := chain_ordered tracked c k
  nodup := chain_nodup h k

section
variable {k : Nat} {cpu : Cpu}

/-- Marking adds the chain of a node to the list of one slot. -/
theorem mark_enqueues (tracked : h.Tracked) (inside : k < h.arena.size)
    (alive : h.isAlive k = true) (apart : h.ChainDistinct k) (cpu : Cpu) :
    Enqueued h (h.mark k cpu) (cfg.slot cpu) (h.chain k) :=
  enqueue_all h (h.chain k) (enqueueable_chain tracked _ inside alive apart)

theorem Enqueued.alive {c : Fin cfg.slots} {ks : List Nat} (queued : Enqueued h h' c ks)
    (living : ∀ k ∈ ks, h.isAlive k = true) (j : Nat) : h'.isAlive j = h.isAlive j := by
  rw [Bool.eq_iff_iff, is_alive_iff, is_alive_iff, queued.removed, queued.holds]
  constructor
  · rintro (live | held | ⟨d, listed⟩)
    · exact Or.inl live
    · exact Or.inr (Or.inl held)
    · rcases (queued.lists d j).mp listed with old | ⟨_, member⟩
      · exact Or.inr (Or.inr ⟨d, old⟩)
      · exact is_alive_iff.mp (living j member)
  · rintro (live | held | ⟨d, listed⟩)
    · exact Or.inl live
    · exact Or.inr (Or.inl held)
    · exact Or.inr (Or.inr ⟨d, (queued.lists d j).mpr (Or.inl listed)⟩)

theorem Tracked.mark (tracked : h.Tracked) (inside : k < h.arena.size)
    (alive : h.isAlive k = true) (apart : h.ChainDistinct k) (cpu : Cpu) :
    (h.mark k cpu).Tracked := by
  have after := mark_enqueues tracked inside alive apart cpu
  have living := after.alive fun j member => chain_alive alive member
  have up (j : Nat) : (h.mark k cpu).parent? j = h.parent? j :=
    parent_congr (after.parent j) fun p _ => living p
  constructor
  case keyed =>
    intro c i j found
    obtain ⟨named, flag⟩ := after.keyed found
    have listed : (h.mark k cpu).lists c j := by
      rw [Hierarchy.lists, named]
      exact found
    rw [after.size]
    refine ⟨?_, named, flag⟩
    rcases (after.lists c j).mp listed with old | ⟨_, member⟩
    · exact tracked.inside old
    · exact chain_inside inside member
  case flagged =>
    intro c j inside_j living_j flag
    rw [after.size] at inside_j
    rw [living] at living_j
    cases (after.queued c j).mp flag with
    | inl old => exact (after.lists c j).mpr (Or.inl (tracked.flagged inside_j living_j old))
    | inr new => exact (after.lists c j).mpr (Or.inr new)
  case closed =>
    intro c j p listed link
    rw [up] at link
    rcases (after.lists c j).mp listed with old | ⟨slot, member⟩
    · exact (after.lists c p).mpr (Or.inl (tracked.closed old link))
    · have above : p ∈ h.chain j := mem_chain.mpr (Or.inr ⟨p, link, self_mem_chain h p⟩)
      exact (after.lists c p).mpr (Or.inr ⟨slot, chain_trans above member⟩)
  case distinct =>
    intro c d i j first second same
    rw [after.id, after.id] at same
    rcases (after.lists c i).mp first with old | ⟨_, member⟩
    · rcases (after.lists d j).mp second with old' | ⟨_, member'⟩
      · exact tracked.distinct old old' same
      · exact (apart j member' i (Or.inl ⟨c, old⟩) same.symm).symm
    · refine apart i member j ?_ same
      rcases (after.lists d j).mp second with old' | ⟨_, member'⟩
      · exact Or.inl ⟨d, old'⟩
      · exact Or.inr member'

end

theorem only_lists_clear (h : Hierarchy cfg) (c : Fin cfg.slots) (ks : List Nat) :
    OnlyLists h (ks.foldl (fun h k => h.setQueued c false k) h) := by
  induction ks generalizing h with
  | nil => exact OnlyLists.refl h
  | cons k ks ih => exact (only_lists_set_queued h c false k).trans (ih _)

theorem queues_clear (h : Hierarchy cfg) (c : Fin cfg.slots) (ks : List Nat) :
    (ks.foldl (fun h k => h.setQueued c false k) h).queues = h.queues := by
  induction ks generalizing h with
  | nil => rfl
  | cons k ks ih => exact ih _

theorem flag_clear (c d : Fin cfg.slots) {ks : List Nat} (inside : ∀ k ∈ ks, k < h.arena.size)
    (j : Nat) : ((ks.foldl (fun h k => h.setQueued c false k) h).node j).queued[d] = true ↔
      (h.node j).queued[d] = true ∧ ¬ (c = d ∧ j ∈ ks) := by
  induction ks generalizing h with
  | nil => simp
  | cons k ks ih =>
    have size := (only_lists_set_queued h c false k).size
    have later := ih (h := h.setQueued c false k) fun i member => by
      rw [size]
      exact inside i (by simp [member])
    rw [List.foldl_cons, later, flag_set_queued c d false (inside k (by simp)), List.mem_cons]
    by_cases here : k = j ∧ c = d
    · obtain ⟨rfl, rfl⟩ := here
      simp
    · rw [if_neg here]
      have other : ¬ (c = d ∧ j = k) := fun both => here ⟨both.2.symm, both.1⟩
      rw [and_or_left, or_iff_right other]

structure Taken (h h' : Hierarchy cfg) (cs : List (Fin cfg.slots)) (ks : List Nat) : Prop
    extends OnlyLists h h' where
  queues : ∀ d : Fin cfg.slots, h'.queues[d] = if d ∈ cs then ∅ else h.queues[d]
  queued : ∀ (d : Fin cfg.slots) j, (h'.node j).queued[d] = true ↔
    (h.node j).queued[d] = true ∧ ¬ (d ∈ cs ∧ h.lists d j)
  yields : ∀ k, k ∈ ks ↔ ∃ c ∈ cs, h.lists c k

theorem Taken.lists {cs : List (Fin cfg.slots)} {ks : List Nat} (taken : Taken h h' cs ks)
    (d : Fin cfg.slots) (j : Nat) : h'.lists d j ↔ h.lists d j ∧ d ∉ cs := by
  rw [Hierarchy.lists, taken.queues, taken.id]
  split
  · rename_i member
    simp [member]
  · rename_i other
    simp [other, Hierarchy.lists]

theorem Taken.none (h : Hierarchy cfg) : Taken h h [] [] :=
  ⟨OnlyLists.refl h, by simp, by simp, by simp⟩

theorem only_lists_take (h : Hierarchy cfg) (c : Fin cfg.slots) :
    OnlyLists h (h.takeQueue c).2 := by
  have only := only_lists_clear { h with queues := h.queues.set c ∅ } c h.queues[c].values
  exact ⟨⟨only.size, only.index, only.identity, only.removed, only.children⟩,
    ⟨only.counter, only.total, only.pending, only.inherited⟩, only.holds, only.nextId,
    only.flushes⟩

theorem only_lists_take_queues (h : Hierarchy cfg) (cs : List (Fin cfg.slots)) :
    OnlyLists h (h.takeQueues cs).2 := by
  induction cs generalizing h with
  | nil => exact OnlyLists.refl h
  | cons c cs ih => exact (only_lists_take h c).trans (ih _)

theorem queues_take_queue (h : Hierarchy cfg) (c d : Fin cfg.slots) :
    (h.takeQueue c).2.queues[d] = if d = c then ∅ else h.queues[d] := by
  let emptied : Hierarchy cfg := { h with queues := h.queues.set c ∅ }
  have queues : (h.takeQueue c).2.queues = h.queues.set c ∅ := queues_clear emptied c _
  refine (congrArg (fun queues => queues[d]) queues).trans ?_
  by_cases slot : d = c
  · subst slot
    simp
  · have differ : c.val ≠ d.val := fun eq => slot (Fin.ext eq.symm)
    simp [slot, differ]

theorem queues_take_queues (h : Hierarchy cfg) (cs : List (Fin cfg.slots)) (d : Fin cfg.slots) :
    (h.takeQueues cs).2.queues[d] = if d ∈ cs then ∅ else h.queues[d] := by
  induction cs generalizing h with
  | nil => simp [takeQueues]
  | cons c cs ih =>
    refine (ih (h.takeQueue c).2).trans ?_
    rw [queues_take_queue]
    by_cases slot : d = c <;> simp [slot]

/-- Lists taken in turn yield what was on them at first, also when one is named twice. -/
theorem mem_take_queues {cs : List (Fin cfg.slots)} {k : Nat} :
    k ∈ (h.takeQueues cs).1 ↔ ∃ c ∈ cs, k ∈ h.queues[c].values := by
  induction cs generalizing h with
  | nil => simp [takeQueues]
  | cons c cs ih =>
    have parts : (h.takeQueues (c :: cs)).1 =
        h.queues[c].values ++ ((h.takeQueue c).2.takeQueues cs).1 := rfl
    rw [parts, List.mem_append, ih, List.exists_mem_cons_iff]
    refine or_congr_right' fun absent => exists_congr fun d => and_congr_right fun _ => ?_
    rw [queues_take_queue]
    by_cases slot : d = c
    · subst slot
      exact iff_of_false (by simp [IdMap.mem_values]) absent
    · rw [if_neg slot]

theorem take_queue (filed : h.Filed) (c : Fin cfg.slots) :
    Taken h (h.takeQueue c).2 [c] (h.takeQueue c).1 ∧ (h.takeQueue c).1.Nodup := by
  have mem_taken (k : Nat) : k ∈ h.queues[c].values ↔ h.lists c k := filed.addressed.mem_values
  let emptied : Hierarchy cfg := { h with queues := h.queues.set c ∅ }
  have inside (k : Nat) (member : k ∈ h.queues[c].values) : k < emptied.arena.size :=
    filed.inside ((mem_taken k).mp member)
  refine ⟨⟨only_lists_take h c, ?_, ?_, ?_⟩, ?_⟩
  · intro d
    rw [queues_take_queue]
    simp
  · intro d j
    have flag := flag_clear (h := emptied) c d inside j
    rw [mem_taken] at flag
    simp only [takeQueue, List.mem_singleton]
    refine flag.trans ?_
    constructor
    · rintro ⟨old, kept⟩
      exact ⟨old, fun both => kept ⟨both.1.symm, both.1 ▸ both.2⟩⟩
    · rintro ⟨old, kept⟩
      exact ⟨old, fun both => kept ⟨both.1.symm, both.1 ▸ both.2⟩⟩
  · intro k
    simp only [takeQueue, List.mem_singleton, exists_eq_left]
    exact mem_taken k
  · apply IdMap.values_nodup
    intro i j k first second
    exact (filed.entry.mp first).2.symm.trans (filed.entry.mp second).2

theorem Filed.taken {cs : List (Fin cfg.slots)} {ks : List Nat} (filed : h.Filed)
    (taken : Taken h h' cs ks) : h'.Filed where
  keyed := by
    intro d i k found
    rw [taken.queues] at found
    split at found
    · exact absurd found (by simp)
    · rename_i kept
      obtain ⟨inside, named, flag⟩ := filed.keyed found
      exact ⟨Nat.lt_of_lt_of_eq inside taken.size.symm, (taken.id k).trans named,
        (taken.queued d k).mpr ⟨flag, fun both => kept both.1⟩⟩

theorem Tracked.taken_holding {cs : List (Fin cfg.slots)} {ks holds : List Nat}
    (tracked : h.Tracked) (taken : Taken h h' cs ks)
    (held : ∀ k ∈ holds, h.isAlive k = true) : Tracked { h' with holds := holds } := by
  have lists (d : Fin cfg.slots) (j : Nat) : lists { h' with holds := holds } d j ↔
      h.lists d j ∧ d ∉ cs := taken.lists d j
  have fewer {j : Nat} (alive : isAlive { h' with holds := holds } j = true) :
      h.isAlive j = true := by
    rcases is_alive_iff.mp alive with live | member | ⟨d, listed⟩
    · exact alive_of_live ((taken.removed j).symm.trans live)
    · exact held j member
    · exact alive_of_lists ((lists d j).mp listed).1
  constructor
  case keyed => exact (tracked.filed.taken taken).keyed
  case flagged =>
    intro d k inside alive flag
    obtain ⟨old, kept⟩ := (taken.queued d k).mp flag
    have listed := tracked.flagged (Nat.lt_of_lt_of_eq inside taken.size) (fewer alive) old
    exact (lists d k).mpr ⟨listed, fun member => kept ⟨member, listed⟩⟩
  case closed =>
    intro d k p listed up
    obtain ⟨old, kept⟩ := (lists d k).mp listed
    obtain ⟨link, alive⟩ := parent_eq_some.mp up
    have old_up : h.parent? k = some p :=
      parent_eq_some.mpr ⟨(taken.parent k).symm.trans link, fewer alive⟩
    exact (lists d p).mpr ⟨tracked.closed old old_up, kept⟩
  case distinct =>
    intro c d j k first second same
    have before : (h.node j).id = (h.node k).id :=
      (taken.id j).symm.trans (same.trans (taken.id k))
    exact tracked.distinct ((lists c j).mp first).1 ((lists d k).mp second).1 before

theorem Tracked.taken {cs : List (Fin cfg.slots)} {ks : List Nat} (tracked : h.Tracked)
    (taken : Taken h h' cs ks) : h'.Tracked := by
  have held (k : Nat) (member : k ∈ h'.holds) : h.isAlive k = true := by
    rw [taken.holds] at member
    exact alive_of_held member
  exact tracked.taken_holding taken held

theorem Taken.trans {h'' : Hierarchy cfg} {cs ds : List (Fin cfg.slots)} {ks js : List Nat}
    (apart : ∀ d ∈ ds, d ∉ cs) (first : Taken h h' cs ks) (second : Taken h' h'' ds js) :
    Taken h h'' (cs ++ ds) (ks ++ js) where
  toOnlyLists := first.toOnlyLists.trans second.toOnlyLists
  queues d := by
    rw [second.queues, first.queues]
    by_cases here : d ∈ cs <;> by_cases there : d ∈ ds <;> simp [here, there]
  queued d j := by
    rw [second.queued, first.queued, first.lists, List.mem_append]
    by_cases here : d ∈ cs <;> simp [here]
  yields k := by
    rw [List.mem_append, first.yields, second.yields]
    constructor
    · rintro (⟨c, member, listed⟩ | ⟨d, member, listed⟩)
      · exact ⟨c, List.mem_append_left ds member, listed⟩
      · exact ⟨d, List.mem_append_right cs member, ((first.lists d k).mp listed).1⟩
    · rintro ⟨c, member, listed⟩
      cases List.mem_append.mp member with
      | inl here => exact Or.inl ⟨c, here, listed⟩
      | inr there => exact Or.inr ⟨c, there, (first.lists c k).mpr ⟨listed, apart c there⟩⟩

theorem take_queues (filed : h.Filed) {cs : List (Fin cfg.slots)} (nodup : cs.Nodup) :
    Taken h (h.takeQueues cs).2 cs (h.takeQueues cs).1 := by
  induction cs generalizing h with
  | nil => exact Taken.none h
  | cons c cs ih =>
    obtain ⟨fresh, rest⟩ := List.nodup_cons.mp nodup
    have first := (take_queue filed c).1
    have later := ih (h := (h.takeQueue c).2) (filed.taken first) rest
    refine first.trans (fun d member => ?_) later
    rw [List.mem_singleton]
    intro same
    exact fresh (same ▸ member)

theorem drain_all (filed : h.Filed) :
    Taken h h.drainAll.2 (List.finRange cfg.slots) h.drainAll.1 :=
  take_queues filed (List.nodup_finRange _)

theorem Addressed.mem_drain_all (addressed : h.Addressed) {k : Nat} :
    k ∈ h.drainAll.1 ↔ ∃ c, h.lists c k := by
  refine mem_take_queues.trans (exists_congr fun c => ?_)
  rw [addressed.mem_values, and_iff_right (List.mem_finRange c)]

theorem Tracked.emptied (tracked : h.Tracked) (same : SameShape h h') (holds : h'.holds = h.holds)
    (empty : ∀ d : Fin cfg.slots, h'.queues[d] = ∅)
    (queued : ∀ (d : Fin cfg.slots) k, (h'.node k).queued[d] = true ↔
      (h.node k).queued[d] = true ∧ ¬ h.lists d k) : h'.Tracked := by
  have unlisted (c : Fin cfg.slots) (k : Nat) : ¬ h'.lists c k := by
    intro listed
    rw [lists, empty] at listed
    exact absurd listed (by simp)
  constructor
  case keyed =>
    intro c i k found
    rw [empty] at found
    exact absurd found (by simp)
  case flagged =>
    intro c k inside alive flag
    rw [same.size] at inside
    obtain ⟨old, before⟩ := (queued c k).mp flag
    refine absurd (tracked.flagged inside ?_ old) before
    rcases is_alive_iff.mp alive with live | held | ⟨d, listed⟩
    · exact alive_of_live ((same.removed k).symm.trans live)
    · exact alive_of_held (holds ▸ held)
    · exact absurd listed (unlisted d k)
  case closed =>
    intro c k p listed _
    exact absurd listed (unlisted c k)
  case distinct =>
    intro c d j k listed _ _
    exact absurd listed (unlisted c j)

theorem take_queues_empty (none : ∀ c : Fin cfg.slots, h.queues[c] = ∅)
    (cs : List (Fin cfg.slots)) : h.takeQueues cs = ([], h) := by
  induction cs with
  | nil => rfl
  | cons c cs ih =>
    have values : h.queues[c].values = [] := by
      rw [none]
      rfl
    have kept : h.queues.set c ∅ = h.queues := by
      rw [← none c]
      simp
    have taken : h.takeQueue c = ([], h) := by
      simp only [takeQueue, values, kept, List.foldl_nil]
    simp only [takeQueues, taken, ih, List.append_nil]

end Hierarchy

end Rollup
