import Mathlib
import Rollup.Proofs.BalancedBooks
import Rollup.Proofs.EveryStep

/-!
The update lists are in order in every state that a session reaches, whatever its steps do, as long
as no two nodes that are alive ever share an id: entries stand under the ids of their nodes, flags of
nodes that are alive agree with the lists, and with a node all its living ancestors are listed.
Nothing is asked of counts, so flushes may fail on the way.
-/
namespace Rollup

namespace Hierarchy

variable {cfg : Config} {h h' : Hierarchy cfg}

structure InOrder (h : Hierarchy cfg) : Prop where
  shaped : h.Shaped
  tracked : h.Tracked

namespace InOrder

theorem start (cfg : Config) : (Hierarchy.new cfg).InOrder := ⟨Shaped.start cfg, Tracked.start cfg⟩

theorem update (order : h.InOrder) {k : Nat} {f : Status cfg.slots → Status cfg.slots}
    (removed : ∀ s, (f s).removed = s.removed) (children : ∀ s, (f s).children = s.children)
    (queued : ∀ s, (f s).queued = s.queued) : (h.update k f).InOrder :=
  ⟨order.shaped.of_same (same_shape_update removed children),
    order.tracked.update removed children queued⟩

end InOrder

theorem in_order_tending : Tending (@InOrder cfg) LiveDistinct where
  filed order := order.tracked.filed
  take order taken held :=
    ⟨order.shaped.of_same
      ⟨taken.size, taken.index, taken.identity, taken.removed, taken.children⟩,
      tracked_tending.take order.tracked taken held⟩
  ready := tracked_tending.ready
  mark cpu order distinct inside alive :=
    ⟨order.shaped.of_same (only_lists_mark _ _ cpu).toSameShape,
      tracked_tending.mark cpu order.tracked distinct inside alive⟩
  settle order inside done :=
    ⟨order.shaped.of_same (settle_ok inside done).2.2.toSameShape,
      tracked_tending.settle order.tracked inside done⟩
  finish flushes order :=
    ⟨order.shaped.of_same (.of_arena rfl rfl), tracked_tending.finish flushes order.tracked⟩

theorem in_order_custody : Custody (fun _ => @InOrder cfg) LiveDistinct where
  shaped order := order.shaped
  tending _ := in_order_tending
  spare _ order := order
  attach next order place _ :=
    ⟨(order.shaped.attach place.inside place.live place.free place.vacant).of_same
      (.of_arena rfl rfl), order.tracked.attach place.inside next⟩
  apart order leaving :=
    ⟨order.shaped.apart leaving.found leaving.up leaving.childless,
      leaving.apart_tracked order.tracked⟩
  leave order leaving := by
    have apart := order.shaped.apart leaving.found leaving.up leaving.childless
    exact ⟨apart.of_same (leaving.shape order.shaped), leaving.tracked order.shaped order.tracked⟩
  count _ order _ := order.update (fun _ => rfl) (fun _ => rfl) fun _ => rfl
  drain order _ _ := order.update (fun _ => rfl) (fun _ => rfl) fun _ => rfl

end Hierarchy

namespace Session

variable {cfg : Config}

open Hierarchy

theorem run_in_order (cfg : Config) (steps : List Step)
    (distinct : ∀ before after, steps = before ++ after →
      ((start cfg).run before).hierarchy.LiveDistinct) :
    ((start cfg).run steps).hierarchy.InOrder := by
  have begins : Healthy (@InOrder cfg) (start cfg) := ⟨InOrder.start cfg, Referenced.start cfg⟩
  exact (run_keeps (n := 0) in_order_custody begins distinct).kept

/-- In every state that a session reaches, each list maps ids to nodes that have these ids and whose
    flags are set, a node that is alive is listed where its flag is set, and along with a node its
    living parent is listed, and so all its living ancestors. -/
theorem lists_in_order (cfg : Config) (steps : List Step)
    (distinct : ∀ before after, steps = before ++ after →
      ((start cfg).run before).hierarchy.LiveDistinct) (c : Fin cfg.slots) :
    let h := ((start cfg).run steps).hierarchy
    (∀ (id : NodeId) k, h.queues[c][id]? = some k →
      k < h.arena.size ∧ (h.node k).id = id ∧ (h.node k).queued[c] = true) ∧
    (∀ k, k < h.arena.size → h.isAlive k = true → (h.node k).queued[c] = true → h.lists c k) ∧
    (∀ k, h.lists c k →
      (∀ p, h.parent? k = some p → h.lists c p) ∧ ∀ a ∈ h.chain k, h.lists c a) := by
  intro h
  have tracked : h.Tracked := (run_in_order cfg steps distinct).tracked
  refine ⟨fun id k found => tracked.keyed found, fun k inside alive flag => ?_, fun k listed => ?_⟩
  · exact tracked.flagged inside alive flag
  · exact ⟨fun p up => tracked.closed listed up, fun a member => tracked.chain_listed listed member⟩

theorem distinct_all_along {s : Session cfg} {steps before after : List Step}
    (distinct : (s.run steps).hierarchy.Distinct) (parted : steps = before ++ after) :
    (s.run before).hierarchy.Distinct := by
  rw [parted, run_append] at distinct
  exact distinct.of_grows (run_grows _ _)

/-- A flush fails for a sum that does not fit a word. Then the node is detached, and marked on another
    slot through a reference to it. -/
def failedSteps : List Step :=
  [.create NodeId.root "job", .create ⟨2⟩ "task", .hold ⟨3⟩ "task",
    .add ⟨3⟩ ⟨0⟩ 0xffffffffffffffff, .add ⟨3⟩ ⟨1⟩ 5, .flush, .detach ⟨3⟩, .heldMark "task" ⟨1⟩]

theorem lists_in_order_after_fault :
    let h := ((start ⟨2⟩).run failedSteps).hierarchy
    let c := Config.slot ⟨2⟩ ⟨1⟩
    h.flushes = 0 ∧ h.lists c 2 ∧ h.lists c 1 ∧ h.lists c 0 := by
  intro h c
  have distinct : h.Distinct := by decide +kernel
  have order := lists_in_order ⟨2⟩ failedSteps
    (fun _ _ parted => (distinct_all_along distinct parted).live) c
  have listed : h.lists c 2 :=
    order.2.1 2 (by decide +kernel) (by decide +kernel) (by decide +kernel)
  have parent := (order.2.2 2 listed).1 1 (by decide +kernel)
  have root := (order.2.2 1 parent).1 0 (by decide +kernel)
  exact ⟨by decide +kernel, listed, parent, root⟩

end Session

end Rollup
