import Mathlib
import Rollup.Proofs.FlushSteps
import Rollup.Layout
import Rollup.Session

/-!
Nodes are for ever. No step of a session drops a node from the arena, gives one another id, name or
depth, or moves it below another parent, whatever the state.
-/
namespace Rollup

namespace Hierarchy

variable {cfg : Config} {h h' : Hierarchy cfg}

theorem flush_and_dump_fst (h : Hierarchy cfg) (id : NodeId) :
    (h.flushAndDump id).1 = if h.index.contains id then h.flush.1 else h := by
  unfold flushAndDump
  split
  · split <;> rename_i run <;> rw [run]
  · rfl

structure Grows (h h' : Hierarchy cfg) : Prop where
  size : h.arena.size ≤ h'.arena.size
  identity : ∀ k, k < h.arena.size → (h'.node k).toIdentity = (h.node k).toIdentity

namespace Grows

theorem refl (h : Hierarchy cfg) : Grows h h := ⟨Nat.le_refl _, fun _ _ => rfl⟩

theorem trans {h'' : Hierarchy cfg} (first : Grows h h') (second : Grows h' h'') : Grows h h'' where
  size := Nat.le_trans first.size second.size
  identity k inside :=
    (second.identity k (Nat.lt_of_lt_of_le inside first.size)).trans (first.identity k inside)

theorem of_shape (same : SameShape h h') : Grows h h' :=
  ⟨Nat.le_of_eq same.size.symm, fun k _ => same.identity k⟩

theorem of_arena (same : h'.arena = h.arena) : Grows h h' := by
  refine ⟨Nat.le_of_eq (congrArg Arena.size same).symm, fun k _ => ?_⟩
  rw [node, node, same]

theorem update (h : Hierarchy cfg) (k : Nat) (f : Status cfg.slots → Status cfg.slots) :
    Grows h (h.update k f) :=
  ⟨Nat.le_of_eq (Arena.size_update _ _ _).symm, fun j _ => h.identity_update k f j⟩

theorem fold {α : Type} {f : Hierarchy cfg → α → Hierarchy cfg}
    (each : ∀ (h : Hierarchy cfg) a, Grows h (f h a)) (h : Hierarchy cfg) (xs : List α) :
    Grows h (xs.foldl f h) := by
  induction xs generalizing h with
  | nil => exact refl h
  | cons a xs ih => exact (each h a).trans (ih (f h a))

theorem attach (h : Hierarchy cfg) (id : NodeId) (p : Nat) (name : String) :
    Grows h (h.attach id p name) := by
  refine ⟨?_, fun k inside => ?_⟩
  · rw [size_attach]
    exact Nat.le_succ _
  · have old : k ≠ h.arena.size := Nat.ne_of_lt inside
    simp only [node, Hierarchy.attach, Arena.identity_update, Arena.node_push, if_neg old]

theorem create (h : Hierarchy cfg) (parent : NodeId) (name : String) :
    Grows h (h.create parent name).1 := by
  unfold Hierarchy.create
  split
  · exact refl h
  · split
    · exact refl h
    · exact (attach h _ _ _).trans (of_arena rfl)

theorem create_with_id (h : Hierarchy cfg) (id parent : NodeId) (name : String) :
    Grows h (h.createWithId id parent name).1 := by
  unfold createWithId
  split
  · exact refl h
  · split
    · exact refl h
    · exact (attach h _ _ _).trans (of_arena rfl)

theorem create_path (h : Hierarchy cfg) (path : String) : Grows h (h.createPath path).1 := by
  unfold createPath
  split
  · exact refl h
  · rename_i parentPath name _
    split
    · exact refl h
    · rename_i p _
      have created := create h (h.node p).id name
      split <;> rename_i run <;> rw [run] at created <;> exact created

theorem create_all (h : Hierarchy cfg) (paths : List String) :
    Grows h (Layout.createAll h paths).1 := by
  induction paths generalizing h with
  | nil => exact refl h
  | cons path rest ih =>
    have created := create_path h path
    unfold Layout.createAll
    split
    · rename_i run
      rw [run] at created
      exact created
    · rename_i after _ run
      rw [run] at created
      have later := ih after
      split <;> rename_i rest_run <;> rw [rest_run] at later <;> exact created.trans later

theorem build (h : Hierarchy cfg) (layout : Layout) : Grows h (layout.build h).1 := by
  unfold Layout.build
  split
  · exact refl h
  · have created := create_all h layout.nodes
    split <;> rename_i run <;> rw [run] at created <;> exact created

theorem detach (h : Hierarchy cfg) (id : NodeId) : Grows h (h.detach id).1 := by
  have outside : Grows h { h with index := h.index.erase id } := of_arena rfl
  unfold Hierarchy.detach
  split
  · exact refl h
  · split
    · exact refl h
    · split
      · exact refl h
      · refine Grows.trans ?_ (update _ _ _)
        split
        · exact outside.trans (update _ _ _)
        · exact outside

theorem bequeath (h : Hierarchy cfg) (k : Nat) : Grows h (h.bequeath k) := by
  unfold Hierarchy.bequeath
  split
  · exact update _ _ _
  · exact refl h

theorem mark (h : Hierarchy cfg) (k : Nat) (cpu : Cpu) : Grows h (h.mark k cpu) :=
  of_shape (only_lists_mark h k cpu).toSameShape

theorem count (h : Hierarchy cfg) (k : Nat) (cpu : Cpu) (delta : UInt64) :
    Grows h (h.count k cpu delta) := update _ _ _

theorem record (h : Hierarchy cfg) (k : Nat) (cpu : Cpu) (delta : UInt64) :
    Grows h (h.record k cpu delta) := by
  unfold Hierarchy.record
  split
  · exact refl h
  · exact (count h k cpu delta).trans (mark _ k cpu)

theorem add (h : Hierarchy cfg) (id : NodeId) (cpu : Cpu) (delta : UInt64) :
    Grows h (h.add id cpu delta).1 := by
  unfold Hierarchy.add
  split
  · exact record h _ cpu delta
  · exact refl h

theorem take_queue (h : Hierarchy cfg) (c : Fin cfg.slots) : Grows h (h.takeQueue c).2 := by
  have emptied : Grows h { h with queues := h.queues.set c ∅ } := of_arena rfl
  exact emptied.trans (of_shape (only_lists_clear _ c _).toSameShape)

theorem take_queues (h : Hierarchy cfg) (cs : List (Fin cfg.slots)) :
    Grows h (h.takeQueues cs).2 := by
  induction cs generalizing h with
  | nil => exact refl h
  | cons c cs ih => exact (take_queue h c).trans (ih _)

theorem settle {s s' : Schedule} {k : Nat} {own : UInt64}
    (done : h.settle s k = .ok (own, h', s')) : Grows h h' := by
  simp only [Hierarchy.settle] at done
  split at done
  · exact absurd done (by simp)
  · split at done
    · simp only [Except.ok.injEq, Prod.mk.injEq] at done
      exact done.2.1 ▸ update _ _ _
    · split at done
      · simp only [Except.ok.injEq, Prod.mk.injEq] at done
        exact done.2.1 ▸ update _ _ _
      · simp only [Except.ok.injEq, Prod.mk.injEq] at done
        exact done.2.1 ▸ (update h k _).trans (update _ _ _)

theorem settle_all (h : Hierarchy cfg) (s : Schedule) (sum : Summary) :
    Grows h (h.settleAll s sum).1 := by
  induction weight : s.weight id using Nat.strongRecOn generalizing h s sum with
  | ind w ih =>
    unfold settleAll
    split
    · exact refl h
    · rename_i k rest due
      split
      · exact fold (fun h k => mark h k ⟨0⟩) h _
      · rename_i own after next done
        have popped := Schedule.weight_pop id due
        have settled := weight_settle done
        simp only [id_eq] at popped
        exact (settle done).trans (ih (next.weight id) (by omega) after next _ rfl)

theorem flush (h : Hierarchy cfg) : Grows h h.flush.1 := by
  have drained : Grows h h.drainAll.2 := take_queues h _
  have begun : Grows h.drainAll.2 h.begun := of_arena rfl
  have rounds := settle_all h.begun h.begunSchedule .zero
  exact ((drained.trans begun).trans rounds).trans (of_arena h.flush_arena)

theorem flush_and_dump (h : Hierarchy cfg) (id : NodeId) : Grows h (h.flushAndDump id).1 := by
  rw [flush_and_dump_fst]
  split
  · exact flush h
  · exact refl h

theorem remove (h : Hierarchy cfg) (id : NodeId) : Grows h (h.remove id).1 := by
  have detached := detach h id
  unfold Hierarchy.remove
  split <;> rename_i run <;> rw [run] at detached
  · exact detached
  · exact detached.trans ((bequeath _ _).trans (flush _))

theorem drain_next (d : Drain cfg) (h : Hierarchy cfg) : Grows h (d.next h).2.2 := by
  unfold Drain.next
  split
  · exact of_arena rfl
  · generalize d.ahead = cs
    induction cs generalizing h with
    | nil => exact refl h
    | cons c cs ih =>
      have taken := take_queue h c
      unfold Drain.reach
      split <;> rename_i run <;> rw [run] at taken
      · exact taken.trans (ih _)
      · exact taken.trans (of_arena rfl)

theorem drain_take (d : Drain cfg) (h : Hierarchy cfg) (count : Nat) :
    Grows h (d.take h count).2.2 := by
  induction count generalizing d h with
  | zero => exact refl h
  | succ count ih =>
    have next := drain_next d h
    unfold Drain.take
    split <;> rename_i run <;> rw [run] at next
    · exact next
    · exact next.trans (ih _ _)

theorem drain_stop (d : Drain cfg) (h : Hierarchy cfg) : Grows h (d.stop h) :=
  fold (fun h k => (of_arena rfl : Grows h (h.release k))) h d.taken

theorem drain_rest (d : Drain cfg) (h : Hierarchy cfg) : Grows h (d.rest h).2 :=
  (drain_stop d h).trans (take_queues _ d.ahead)

end Grows

end Hierarchy

namespace Session

variable {cfg : Config}

open Hierarchy

theorem released_grows (h : Hierarchy cfg) (old : Option Nat) : Grows h (released h old) := by
  cases old <;> exact Grows.of_arena rfl

theorem actors_grow (h : Hierarchy cfg) (ids : List NodeId) (perNode : Nat) (place : Nat → Cpu) :
    Grows h (Actors.attach h ids perNode place).1 := by
  unfold Actors.attach
  split
  · exact Grows.refl h
  · exact Grows.fold (fun h (a : Handle × Cpu) => Grows.record h a.1.key a.2 1) h _

theorem serve_grows (h : Hierarchy cfg) (w : Worker) (m : Message) :
    Grows h (Worker.serve h w m).1 :=
  Grows.flush h

theorem serve_all_grows (h : Hierarchy cfg) (w : Worker) (ms : List Message) :
    Grows h (Worker.serveAll h w ms).1 := by
  induction ms generalizing h w with
  | nil => exact Grows.refl h
  | cons m ms ih => exact (serve_grows h w m).trans (ih _ _)

theorem finish_grows (h : Hierarchy cfg) (w : Worker) :
    Grows h ((Worker.finish h w).getD (h, w)).1 := by
  unfold Worker.finish
  split
  · exact Grows.refl h
  · exact Grows.flush h

theorem shutdown_grows (h : Hierarchy cfg) (w : Worker) : Grows h (Worker.shutdown h w).1 :=
  (serve_all_grows h { w.close with inbox := [] } w.close.inbox).trans (finish_grows _ _)

theorem drain_counter_grows (h : Hierarchy cfg) (k : Nat) : Grows h (drainCounter h k).1 := by
  unfold drainCounter
  split
  · exact Grows.refl h
  · exact Grows.update h k _

theorem flush_sync_grows (h : Hierarchy cfg) (w : Worker) (caller : Nat) :
    Grows h (Worker.flushSync h w caller).1 := by
  have room : Grows h (if w.hasRoom then (h, w) else (Worker.receive h w).getD (h, w)).1 := by
    split
    · exact Grows.refl h
    · unfold Worker.receive
      split
      · exact Grows.refl h
      · split
        · exact Grows.refl h
        · exact serve_grows h _ _
  simp only [Worker.flushSync]
  split
  · exact room
  · rename_i left _
    have served := serve_all_grows
      (if w.hasRoom then (h, w) else (Worker.receive h w).getD (h, w)).1
      { left with inbox := [] } left.inbox
    split
    · exact room.trans served
    · exact room.trans served

theorem drop_worker_grows (s : Session cfg) : Grows s.hierarchy s.dropWorker.hierarchy := by
  unfold dropWorker
  split
  · exact Grows.refl _
  · exact shutdown_grows _ _

theorem on_held_grows (s : Session cfg) (name : String) (act : Nat → Hierarchy cfg × Answer)
    (each : ∀ k, Grows s.hierarchy (act k).1) :
    Grows s.hierarchy (s.onHeld name act).1.hierarchy := by
  unfold onHeld
  split
  · exact Grows.refl _
  · exact each _

theorem on_handle_grows (s : Session cfg) (name : String) (cpu : Cpu) (delta : UInt64) :
    Grows s.hierarchy
      (s.onHandle name fun handle => handle.add s.hierarchy cpu delta).1.hierarchy := by
  unfold onHandle
  split
  · exact Grows.refl _
  · exact Grows.record _ _ cpu delta

theorem step_create_path (s : Session cfg) (path : String) :
    (s.step (.createPath path)).1 = s.withHierarchy (s.hierarchy.createPath path).1 := by
  simp only [step]
  split <;> rename_i run <;> rw [run]

theorem step_build (s : Session cfg) (layout : Layout) :
    (s.step (.build layout)).1 = s.withHierarchy (layout.build s.hierarchy).1 := by
  simp only [step]
  split <;> rename_i run <;> rw [run]

theorem step_actors (s : Session cfg) (ids : List NodeId) (perNode : Nat) :
    (s.step (.actors ids perNode)).1 =
      s.withHierarchy (Actors.attach s.hierarchy ids perNode fun _ => s.here).1 := by
  simp only [step]
  split <;> rename_i run <;> rw [run]

theorem step_grows (s : Session cfg) (t : Step) : Grows s.hierarchy (s.step t).1.hierarchy := by
  cases t
  case create parent name => exact Grows.create _ parent name
  case createWithId id parent name => exact Grows.create_with_id _ id parent name
  case createPath path =>
    rw [step_create_path]
    exact Grows.create_path _ path
  case build layout =>
    rw [step_build]
    exact Grows.build _ layout
  case remove id => exact Grows.remove _ id
  case detach id => exact Grows.detach _ id
  case add id cpu delta => exact Grows.add _ id cpu delta
  case incrementHere id => exact Grows.add _ id s.here 1
  case actors ids perNode =>
    rw [step_actors]
    exact actors_grow _ ids perNode fun _ => s.here
  case takeHandle id name =>
    simp only [step, Handle.ofId]
    cases s.hierarchy.find id with
    | error fault => exact Grows.refl _
    | ok k =>
      have held : Grows s.hierarchy (s.hierarchy.hold k) := Grows.of_arena rfl
      exact held.trans (released_grows _ _)
  case shareHandle name copy =>
    simp only [step]
    cases s.handles.lookup name with
    | none => exact Grows.refl _
    | some handle =>
      have held : Grows s.hierarchy (handle.share s.hierarchy) := Grows.of_arena rfl
      exact held.trans (released_grows _ _)
  case handleAdd name cpu delta => exact on_handle_grows s name cpu delta
  case handleIncrementHere name => exact on_handle_grows s name s.here 1
  case dropHandle name =>
    simp only [step, dropHandle]
    split
    · exact Grows.refl _
    · exact Grows.of_arena rfl
  case hold id name =>
    simp only [step]
    cases s.hierarchy.find id with
    | error fault => exact Grows.refl _
    | ok k =>
      have held : Grows s.hierarchy (s.hierarchy.hold k) := Grows.of_arena rfl
      exact held.trans (released_grows _ _)
  case heldCount name cpu delta => exact on_held_grows s name _ fun k => Grows.count _ k cpu delta
  case heldMark name cpu => exact on_held_grows s name _ fun k => Grows.mark _ k cpu
  case heldRequeue name => exact on_held_grows s name _ fun k => Grows.mark _ k ⟨0⟩
  case heldDrain name => exact on_held_grows s name _ (drain_counter_grows _)
  case heldInfo name => exact on_held_grows s name _ fun _ => Grows.refl _
  case dropHeld name =>
    simp only [step, dropHeld]
    split
    · exact Grows.refl _
    · exact Grows.of_arena rfl
  case flush => exact Grows.flush _
  case flushDump id => exact Grows.flush_and_dump _ id
  case exportTo sink =>
    simp only [step]
    split <;> exact Grows.refl _
  case drain => exact Grows.take_queues _ _
  case drainTake count => exact (Grows.drain_take _ _ count).trans (Grows.drain_stop _ _)
  case drainAround name count cpu =>
    apply on_held_grows s name _
    intro k
    exact (Grows.drain_take _ _ count).trans ((Grows.mark _ k cpu).trans (Grows.drain_rest _ _))
  case spawnWorker => exact drop_worker_grows s
  case requestSync requests =>
    simp only [step, requestSync]
    split
    · exact Grows.refl _
    · exact flush_sync_grows _ _ _
  case requestShutdown requests =>
    simp only [step, requestShutdown]
    split
    · exact Grows.refl _
    · exact shutdown_grows _ _
  case dropWorker => exact drop_worker_grows s
  all_goals exact Grows.refl _

/-- Over any run every node stays what it is. -/
theorem run_grows (s : Session cfg) (steps : List Step) :
    Grows s.hierarchy (s.run steps).hierarchy := by
  induction steps generalizing s with
  | nil => exact Grows.refl _
  | cons t rest ih => exact (step_grows s t).trans (ih (s.step t).1)

end Session

end Rollup
