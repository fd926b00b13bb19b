import Mathlib
import Rollup.Proofs.FlushSteps

/-!
Flushes of any state, whether they succeed or fail. `Fades` says that the nodes are the same and
that none of them comes back to life: marking, taking lists, settling and giving references back all
lead to such a state, and so does a flush. Where no two nodes that are alive share an id, none do
afterwards (`LiveDistinct`).

`Tending` lists what it takes for a property to be kept by the parts of a flush; then the whole
flush keeps it. If a round fails, the nodes that still wait are in the tree or held by the flush,
so they are alive when they are queued again.
-/
namespace Rollup

namespace Hierarchy

variable {cfg : Config} {h h' b g g' : Hierarchy cfg}

/-- The same nodes, and none that has come back to life. -/
structure Fades (h h' : Hierarchy cfg) : Prop where
  size : h'.arena.size = h.arena.size
  identity : ∀ k, (h'.node k).toIdentity = (h.node k).toIdentity
  alive : ∀ k, h'.isAlive k = true → h.isAlive k = true

namespace Fades

theorem refl (h : Hierarchy cfg) : Fades h h := ⟨rfl, fun _ => rfl, fun _ alive => alive⟩

theorem trans {h'' : Hierarchy cfg} (first : Fades h h') (second : Fades h' h'') : Fades h h'' where
  size := second.size.trans first.size
  identity k := (second.identity k).trans (first.identity k)
  alive k alive := first.alive k (second.alive k alive)

theorem id (fades : Fades h h') (k : Nat) : (h'.node k).id = (h.node k).id :=
  congrArg Identity.id (fades.identity k)

theorem parent (fades : Fades h h') {k p : Nat} (up : h'.parent? k = some p) :
    h.parent? k = some p := by
  obtain ⟨link, alive⟩ := parent_eq_some.mp up
  have same : (h'.node k).parent = (h.node k).parent :=
    congrArg Identity.parent (fades.identity k)
  exact parent_eq_some.mpr ⟨same.symm.trans link, fades.alive p alive⟩

theorem of_shape (shape : SameShape h h') (held : ∀ k ∈ h'.holds, h.isAlive k = true)
    (listed : ∀ c k, h'.lists c k → h.isAlive k = true) : Fades h h' where
  size := shape.size
  identity := shape.identity
  alive k alive := by
    rcases is_alive_iff.mp alive with live | member | ⟨c, found⟩
    · exact alive_of_live ((shape.removed k).symm.trans live)
    · exact held k member
    · exact listed c k found

theorem mark {k : Nat} (alive : h.isAlive k = true) (cpu : Cpu) : Fades h (h.mark k cpu) := by
  have only := only_lists_mark h k cpu
  apply of_shape only.toSameShape
  · intro j held
    rw [only.holds] at held
    exact alive_of_held held
  · intro c j listed
    cases lists_of_mark listed with
    | inl old => exact alive_of_lists old
    | inr member => exact chain_alive alive member

theorem taken_holding {cs : List (Fin cfg.slots)} {ks holds : List Nat} (taken : Taken h h' cs ks)
    (held : ∀ k ∈ holds, h.isAlive k = true) : Fades h { h' with holds := holds } := by
  have shape : SameShape h { h' with holds := holds } :=
    ⟨taken.size, taken.index, taken.identity, taken.removed, taken.children⟩
  refine of_shape shape held fun c k listed => ?_
  have before : h'.lists c k := listed
  exact alive_of_lists ((taken.lists c k).mp before).1

theorem holding {holds : List Nat} (held : ∀ k ∈ holds, h.isAlive k = true) :
    Fades h { h with holds := holds } :=
  taken_holding (Taken.none h) held

theorem of_stays (shape : SameShape h h') (queues : h'.queues = h.queues)
    (holds : h'.holds = h.holds) : Fades h h' where
  size := shape.size
  identity := shape.identity
  alive k alive := (alive_congr shape queues holds k).symm.trans alive

end Fades

def LiveDistinct (h : Hierarchy cfg) : Prop :=
  ∀ j k, j < h.arena.size → k < h.arena.size → h.isAlive j = true → h.isAlive k = true →
    (h.node j).id = (h.node k).id → j = k

theorem LiveDistinct.fades (distinct : h.LiveDistinct) (fades : Fades h h') : h'.LiveDistinct := by
  intro j k hj hk alive_j alive_k same
  rw [fades.size] at hj hk
  rw [fades.id, fades.id] at same
  exact distinct j k hj hk (fades.alive j alive_j) (fades.alive k alive_k) same

theorem LiveDistinct.chain (distinct : h.LiveDistinct) (filed : h.Filed) {k : Nat}
    (inside : k < h.arena.size) (alive : h.isAlive k = true) : h.ChainDistinct k := by
  have known {j : Nat} (either : (∃ c, h.lists c j) ∨ j ∈ h.chain k) :
      j < h.arena.size ∧ h.isAlive j = true := by
    rcases either with ⟨c, listed⟩ | member
    · exact ⟨filed.inside listed, alive_of_lists listed⟩
    · exact ⟨chain_inside inside member, chain_alive alive member⟩
  intro i first j second same
  obtain ⟨inside_i, alive_i⟩ := known (Or.inr first)
  obtain ⟨inside_j, alive_j⟩ := known second
  exact distinct i j inside_i inside_j alive_i alive_j same

/-- Between two rounds: whatever waits is in the tree or held. -/
structure Ongoing (b g : Hierarchy cfg) (s : Schedule) : Prop where
  shape : SameShape b g
  queues : g.queues = b.queues
  holds : g.holds = b.holds
  inside : ∀ k ∈ s.waiting, k < b.arena.size
  secure : ∀ k ∈ s.waiting, (b.node k).removed = false ∨ k ∈ b.holds

theorem Ongoing.known {s : Schedule} {k : Nat} (ongoing : Ongoing b g s) (waits : k ∈ s.waiting) :
    k < g.arena.size := by
  rw [ongoing.shape.size]
  exact ongoing.inside k waits

theorem Ongoing.round {s rest s' : Schedule} {k : Nat} {own : UInt64} (ongoing : Ongoing b g s)
    (empty : ∀ d : Fin cfg.slots, b.queues[d] = ∅) (pop : s.pop = some (k, rest))
    (done : g.settle rest k = .ok (own, g', s')) : Ongoing b g' s' := by
  obtain ⟨waited, remain⟩ := Schedule.pop_waits pop
  obtain ⟨_, _, settled⟩ := settle_ok (ongoing.known waited) done
  -- with every list empty, a living parent is in the tree or held
  have known (j : Nat) (member : j ∈ s'.waiting) :
      j < b.arena.size ∧ ((b.node j).removed = false ∨ j ∈ b.holds) := by
    rcases waiting_of_settle done member with old | up
    · exact ⟨ongoing.inside j (remain j old), ongoing.secure j (remain j old)⟩
    · refine ⟨Nat.lt_trans (parent_before up) (ongoing.inside k waited), ?_⟩
      rcases is_alive_iff.mp (parent_eq_some.mp up).2 with live | held | ⟨c, listed⟩
      · exact Or.inl ((ongoing.shape.removed j).symm.trans live)
      · exact Or.inr (ongoing.holds ▸ held)
      · rw [lists, ongoing.queues, empty] at listed
        exact absurd listed (by simp)
  exact ⟨ongoing.shape.trans settled.toSameShape, settled.queues.trans ongoing.queues,
    settled.holds.trans ongoing.holds, fun j member => (known j member).1,
    fun j member => (known j member).2⟩

theorem begun_queues (h : Hierarchy cfg) (d : Fin cfg.slots) : h.begun.queues[d] = ∅ :=
  (queues_take_queues h _ d).trans (if_pos (List.mem_finRange d))

theorem begun_shape (h : Hierarchy cfg) : SameShape h h.begun := by
  have only := only_lists_take_queues h (List.finRange cfg.slots)
  exact ⟨only.size, only.index, only.identity, only.removed, only.children⟩

theorem drained_rank (h : Hierarchy cfg) : h.drainAll.2.rank = h.rank :=
  (only_lists_take_queues h (List.finRange cfg.slots)).rank

theorem begun_valid (h : Hierarchy cfg) : h.begunSchedule.Valid h.rank := by
  rw [← drained_rank h]
  exact Schedule.push_all_valid (Schedule.valid_empty _)

theorem Ongoing.same_shape {s : Schedule} (ongoing : Ongoing h.begun g s) : SameShape h g :=
  (begun_shape h).trans ongoing.shape

theorem Ongoing.rank {s : Schedule} (ongoing : Ongoing h.begun g s) : g.rank = h.rank :=
  ongoing.same_shape.rank

section
variable (addressed : h.Addressed)
include addressed

theorem Addressed.begun_listed {k : Nat} (waits : k ∈ h.begunSchedule.waiting) :
    ∃ c, h.lists c k := by
  rcases Schedule.waiting_of_push_all waits with none | taken
  · rw [Schedule.waiting_empty] at none
    exact absurd none (by simp)
  · exact addressed.mem_drain_all.mp taken

theorem Addressed.begun_held {k : Nat} (member : k ∈ h.begunSchedule.waiting ++ h.holds) :
    h.isAlive k = true := by
  cases List.mem_append.mp member with
  | inl waits =>
    obtain ⟨c, listed⟩ := addressed.begun_listed waits
    exact alive_of_lists listed
  | inr held => exact alive_of_held held

theorem Fades.begun : Fades h h.begun := by
  refine .of_shape (begun_shape h) (fun k member => addressed.begun_held member) fun c k listed => ?_
  rw [lists, begun_queues] at listed
  exact absurd listed (by simp)

theorem Ongoing.fades {s : Schedule} (ongoing : Ongoing h.begun g s) : Fades h g :=
  (Fades.begun addressed).trans (.of_stays ongoing.shape ongoing.queues ongoing.holds)

theorem Ongoing.start : Ongoing h.begun h.begun h.begunSchedule where
  shape := SameShape.refl h.begun
  queues := rfl
  holds := rfl
  inside k waits := by
    obtain ⟨c, listed⟩ := addressed.begun_listed waits
    rw [(begun_shape h).size]
    exact (addressed.addressed listed).1
  secure k waits := Or.inr (List.mem_append_left _ waits)

end

structure Taking (K : Hierarchy cfg → Prop) : Prop where
  filed : ∀ {h}, K h → h.Filed
  take : ∀ {h h'} {cs : List (Fin cfg.slots)} {ks holds : List Nat}, K h → Taken h h' cs ks →
    (∀ k ∈ holds, h.isAlive k = true) → K { h' with holds := holds }

/-- What else keeps a property `K` throughout a flush; queueing nodes may need `D` as well, which
    stays as long as no node comes to life. -/
structure Tending (K D : Hierarchy cfg → Prop) : Prop extends Taking K where
  ready : ∀ {h h'}, D h → Fades h h' → D h'
  mark : ∀ {h k} (cpu : Cpu), K h → D h → k < h.arena.size → h.isAlive k = true →
    K (h.mark k cpu)
  settle : ∀ {h h' k s s' own}, K h → k < h.arena.size → h.settle s k = .ok (own, h', s') → K h'
  finish : ∀ {h} (flushes : Nat), K h → K { h with flushes := flushes }

/-- A stretch that keeps `K`, brings no node to life and leaves the references as they were. -/
structure Tended (K : Hierarchy cfg → Prop) (h h' : Hierarchy cfg) : Prop extends Fades h h' where
  kept : K h'
  holds : h'.holds.Perm h.holds

namespace Tended

variable {K : Hierarchy cfg → Prop}

theorem stay (kept : K h) : Tended K h h := ⟨Fades.refl h, kept, List.Perm.refl _⟩

theorem trans {h'' : Hierarchy cfg} {L : Hierarchy cfg → Prop} (first : Tended L h h')
    (second : Tended K h' h'') : Tended K h h'' :=
  ⟨first.toFades.trans second.toFades, second.kept, second.holds.trans first.holds⟩

end Tended

namespace Tending

variable {K D : Hierarchy cfg → Prop} (tending : Tending K D)
include tending

theorem marks {k : Nat} (kept : K h) (ready : D h) (inside : k < h.arena.size)
    (alive : h.isAlive k = true) (cpu : Cpu) : Tended K h (h.mark k cpu) :=
  ⟨Fades.mark alive cpu, tending.mark cpu kept ready inside alive,
    (only_lists_mark h k cpu).holds ▸ List.Perm.refl _⟩

theorem holding (kept : K h) {holds : List Nat} (held : ∀ k ∈ holds, h.isAlive k = true) :
    K { h with holds := holds } :=
  tending.take kept (Taken.none h) held

theorem requeues {ks : List Nat} (kept : K h) (ready : D h) (inside : ∀ k ∈ ks, k < h.arena.size)
    (secure : ∀ k ∈ ks, (h.node k).removed = false ∨ k ∈ h.holds) :
    Tended K h (ks.foldl requeue h) := by
  induction ks generalizing h with
  | nil => exact .stay kept
  | cons k ks ih =>
    have alive : h.isAlive k = true := (secure k (by simp)).elim alive_of_live alive_of_held
    have only := only_lists_mark h k ⟨0⟩
    have first := tending.marks kept ready (inside k (by simp)) alive ⟨0⟩
    refine first.trans (ih first.kept (tending.ready ready first.toFades) ?_ ?_)
    · intro j member
      exact Nat.lt_of_lt_of_eq (inside j (by simp [member])) only.size.symm
    · intro j member
      have same := secure j (by simp [member])
      rw [← only.removed, ← only.holds] at same
      exact same

theorem gives_back (kept : K g) (held : ∀ k ∈ h.holds, k ∈ g.holds) (fades : Fades h g) :
    Tended K h { g with holds := h.holds } := by
  have alive (k : Nat) (member : k ∈ h.holds) : g.isAlive k = true := alive_of_held (held k member)
  exact ⟨fades.trans (.holding alive), tending.holding kept alive, List.Perm.refl _⟩

theorem flushes (kept : K h) (ready : D h) : Tended K h h.flush.1 := by
  have filed := tending.filed kept
  have begun : K h.begun :=
    tending.take kept (drain_all filed) fun _ member => filed.addressed.begun_held member
  have rounds : KeptByRounds fun g s _ => Ongoing h.begun g s ∧ K g := by
    refine ⟨fun {g s _ k rest own g' s'} before pop done => ?_⟩
    have inside := before.1.known (Schedule.pop_waits pop).1
    exact ⟨before.1.round (begun_queues h) pop done, tending.settle before.2 inside done⟩
  obtain ⟨g, t, total, ⟨ongoing, after⟩, ends⟩ := flush_ends rounds ⟨Ongoing.start filed.addressed, begun⟩
  have fades := ongoing.fades filed.addressed
  have held (k : Nat) (member : k ∈ h.holds) : k ∈ g.holds := by
    rw [ongoing.holds]
    exact List.mem_append_right _ member
  rcases ends with ⟨_, run⟩ | ⟨k, rest, fault, pop, _, run⟩
  · have back := tending.gives_back after held fades
    rw [run]
    exact ⟨back.toFades.trans (.of_stays (.of_arena rfl rfl) rfl rfl),
      tending.finish _ back.kept, List.Perm.refl _⟩
  · obtain ⟨waited, remain⟩ := Schedule.pop_waits pop
    have waits (j : Nat) (member : j ∈ k :: rest.waiting) : j ∈ t.waiting := by
      rcases List.mem_cons.mp member with rfl | later
      · exact waited
      · exact remain j later
    have requeued := tending.requeues after (tending.ready ready fades)
      (fun j member => ongoing.known (waits j member))
      (fun j member => by
        rw [ongoing.shape.removed, ongoing.holds]
        exact ongoing.secure j (waits j member))
    rw [run]
    exact tending.gives_back requeued.kept (fun j member => requeued.holds.mem_iff.mpr (held j member))
      (fades.trans requeued.toFades)

end Tending

theorem Tracked.settled (tracked : h.Tracked) {k : Nat} {s s' : Schedule} {own : UInt64}
    (inside : k < h.arena.size) (done : h.settle s k = .ok (own, h', s')) : h'.Tracked := by
  obtain ⟨_, _, settled⟩ := settle_ok inside done
  apply tracked.stay settled.toSameShape settled.queues settled.queued
  intro j held
  rw [settled.holds] at held
  exact alive_of_held held

theorem tracked_tending : Tending (@Tracked cfg) LiveDistinct where
  filed tracked := tracked.filed
  take tracked taken held := tracked.taken_holding taken held
  ready distinct fades := distinct.fades fades
  mark cpu tracked distinct inside alive :=
    tracked.mark inside alive (distinct.chain tracked.filed inside alive) cpu
  settle tracked inside done := tracked.settled inside done
  finish _ tracked :=
    tracked.stay (.of_arena rfl rfl) rfl (fun _ => rfl) fun _ held => alive_of_held held

end Hierarchy

end Rollup
