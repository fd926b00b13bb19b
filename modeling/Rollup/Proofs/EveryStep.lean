import Mathlib
import Rollup.Proofs.Drains
import Rollup.Proofs.SessionSteps

/-!
Properties that every step of a session keeps: creating, removing and detaching, recording by id and
through handles, late writes to nodes under a name, marks and drains of one counter or of the lists,
flushes that succeed or fail, actors, and the background worker.

`Custody` lists what a property must survive for that. It may depend on how many events are yet to
come, so that one may ask that all events of a run fit a word; and queueing nodes may need a
condition that stays as long as no node comes to life.
-/
namespace Rollup

namespace Hierarchy

variable {cfg : Config} {h h' : Hierarchy cfg} {n : Nat}

/-- What keeps a property `K n` of states in which `n` more events may come. -/
structure Custody (K : Nat → Hierarchy cfg → Prop) (D : Hierarchy cfg → Prop) : Prop where
  shaped : ∀ {n h}, K n h → h.Shaped
  tending : ∀ n, Tending (K n) D
  spare : ∀ {n h} (m : Nat), K (n + m) h → K n h
  attach : ∀ {n} {h : Hierarchy cfg} {id p name} (next : UInt64), K n h → Vacancy h id p name →
    Allots h id next → K n { h.attach id p name with nextId := next }
  apart : ∀ {n h id k p}, K n h → Leaving h id k p → K n (h.apart id k p)
  leave : ∀ {n h id k p}, K n h → Leaving h id k p → K n (h.left id k p)
  count : ∀ {n h k} {delta : UInt64} (cpu : Cpu), K (n + delta.toNat) h → k < h.arena.size →
    K n (h.count k cpu delta)
  drain : ∀ {n h k own counter}, K n h → k < h.arena.size →
    (h.node k).counter.drain = .ok (own, counter) → K n (h.update k fun s => { s with counter })

theorem Fades.update {k : Nat} {f : Status cfg.slots → Status cfg.slots}
    (removed : ∀ s, (f s).removed = s.removed) (children : ∀ s, (f s).children = s.children) :
    Fades h (h.update k f) :=
  .of_stays (same_shape_update removed children) rfl rfl

theorem Fades.apart {id : NodeId} {k p : Nat} (leaving : Leaving h id k p) :
    Fades h (h.apart id k p) where
  size := size_apart
  identity := apart_identity leaving.inside leaving.before
  alive j alive := by
    rcases is_alive_iff.mp alive with live | held | ⟨c, listed⟩
    · rw [apart_removed leaving.inside leaving.before] at live
      split at live
      · exact absurd live (by simp)
      · exact alive_of_live live
    · exact alive_of_held held
    · rw [lists, congrArg Identity.id (apart_identity leaving.inside leaving.before j)] at listed
      exact alive_of_lists listed

theorem Tended.of_draining {K : Hierarchy cfg → Prop} {d : Drain cfg}
    (draining : Draining K h d h') (none : d.taken = []) : Tended K h h' := by
  have holds := draining.holds
  rw [none] at holds
  exact ⟨draining.fades, draining.kept, holds⟩

theorem resolve_ok (shaped : h.Shaped) {ids : List NodeId} {handles : List Handle}
    (run : Actors.resolve h ids = .ok handles) :
    handles.length = ids.length ∧ ∀ handle ∈ handles, handle.key < h.arena.size := by
  induction ids generalizing handles with
  | nil =>
    obtain rfl := Except.ok.inj run
    simp
  | cons id ids ih =>
    simp only [Actors.resolve, find] at run
    cases found : h.index[id]? with
    | none => simp [found] at run
    | some k =>
      cases rest : Actors.resolve h ids with
      | error fault => simp [found, rest] at run
      | ok later =>
        simp only [found, rest, Except.ok.injEq] at run
        subst run
        obtain ⟨length, inside⟩ := ih rest
        refine ⟨congrArg (· + 1) length, fun handle member => ?_⟩
        rcases List.mem_cons.mp member with rfl | old
        · exact (shaped.indexed found).1
        · exact inside handle old

theorem actors_inside (shaped : h.Shaped) {ids : List NodeId} {handles : List Handle}
    (run : Actors.resolve h ids = .ok handles) (perNode : Nat) (placement : Nat → Cpu) :
    ((Actors.enrol handles perNode).zipIdx.map fun (handle, i) => (handle, placement i)).length =
        ids.length * perNode ∧
      ∀ a ∈ (Actors.enrol handles perNode).zipIdx.map fun (handle, i) => (handle, placement i),
        a.1.key < h.arena.size := by
  obtain ⟨length, inside⟩ := resolve_ok shaped run
  refine ⟨by simp [Actors.enrol, length], fun a member => ?_⟩
  simp only [List.mem_map, Prod.exists] at member
  obtain ⟨handle, i, at_i, rfl⟩ := member
  obtain ⟨origin, known, copies⟩ := List.mem_flatMap.mp (List.fst_mem_of_mem_zipIdx at_i)
  rw [List.eq_of_mem_replicate copies]
  exact inside origin known

namespace Tending

variable {K D : Hierarchy cfg → Prop} (tending : Tending K D)
include tending

theorem flush_and_dump (kept : K h) (ready : D h) (id : NodeId) :
    Tended K h (h.flushAndDump id).1 := by
  rw [flush_and_dump_fst]
  split
  · exact tending.flushes kept ready
  · exact .stay kept

theorem serves (kept : K h) (ready : D h) (w : Worker) (m : Message) :
    Tended K h (Worker.serve h w m).1 :=
  tending.flushes kept ready

theorem serves_all (kept : K h) (ready : D h) (w : Worker) (ms : List Message) :
    Tended K h (Worker.serveAll h w ms).1 := by
  induction ms generalizing h w with
  | nil => exact .stay kept
  | cons m ms ih =>
    have first := tending.serves kept ready w m
    exact first.trans (ih first.kept (tending.ready ready first.toFades) _)

theorem finishes (kept : K h) (ready : D h) (w : Worker) :
    Tended K h ((Worker.finish h w).getD (h, w)).1 := by
  unfold Worker.finish
  split
  · exact .stay kept
  · exact tending.flushes kept ready

theorem shuts_down (kept : K h) (ready : D h) (w : Worker) :
    Tended K h (Worker.shutdown h w).1 := by
  have served := tending.serves_all kept ready { w.close with inbox := [] } w.close.inbox
  exact served.trans (tending.finishes served.kept (tending.ready ready served.toFades) _)

theorem flushes_sync (kept : K h) (ready : D h) (w : Worker) (caller : Nat) :
    Tended K h (Worker.flushSync h w caller).1 := by
  have room : Tended K h (if w.hasRoom then (h, w) else (Worker.receive h w).getD (h, w)).1 := by
    split
    · exact .stay kept
    · unfold Worker.receive
      split
      · exact .stay kept
      · split
        · exact .stay kept
        · exact tending.serves kept ready _ _
  simp only [Worker.flushSync]
  split
  · exact room
  · rename_i left _
    have served := room.trans (tending.serves_all room.kept (tending.ready ready room.toFades)
      { left with inbox := [] } left.inbox)
    split
    · exact served
    · exact served

theorem drains (kept : K h) : Tended K h h.drainAll.2 :=
  .of_draining ((Draining.start kept).rest tending.toTaking) rfl

theorem drains_part (kept : K h) (count : Nat) : Tended K h (Session.drainTake h count).1 :=
  .of_draining (((Draining.start kept).take tending.toTaking count).stop tending.toTaking) rfl

theorem drains_around (kept : K h) (ready : D h) {k : Nat} (inside : k < h.arena.size)
    (held : k ∈ h.holds) (count : Nat) (cpu : Cpu) :
    Tended K h (Session.drainAround h count k cpu).1 := by
  have taken := (Draining.start kept).take tending.toTaking count
  have alive := taken.held held
  have marked := tending.mark cpu taken.kept (tending.ready ready taken.fades)
    (taken.size ▸ inside) alive
  exact .of_draining ((taken.mark alive marked).rest tending.toTaking) rfl

end Tending

namespace Custody

variable {K : Nat → Hierarchy cfg → Prop} {D : Hierarchy cfg → Prop} (custody : Custody K D)
include custody

theorem hosting (n : Nat) : Session.Hosting (K n) where
  shaped kept := custody.shaped kept
  attach next kept place allots := custody.attach next kept place allots
  hold kept held := (custody.tending n).holding kept held

theorem detaches (kept : K n h) (id : NodeId) : Tended (K n) h (h.detach id).1 := by
  rcases detach_cases (custody.shaped kept) id with ⟨fault, run⟩ | ⟨k, p, run, found, up, childless⟩
  · rw [run]
    exact .stay kept
  · have leaving : Leaving h id k p := ⟨found, up, childless⟩
    rw [run]
    exact ⟨Fades.apart leaving, custody.apart kept leaving, List.Perm.refl _⟩

theorem leaves (kept : K n h) {id : NodeId} {k p : Nat} (leaving : Leaving h id k p) :
    Tended (K n) h (h.left id k p) := by
  have left := custody.leave kept leaving
  rw [leaving.bequeath_eq (custody.shaped kept)] at left ⊢
  exact ⟨(Fades.apart leaving).trans (.update (fun _ => rfl) fun _ => rfl), left, List.Perm.refl _⟩

theorem removes (kept : K n h) (ready : D h) (id : NodeId) : Tended (K n) h (h.remove id).1 := by
  rcases remove_cases (custody.shaped kept) id with ⟨fault, run⟩ | ⟨k, p, leaving, _, run⟩
  · rw [run]
    exact .stay kept
  · have left := custody.leaves kept leaving
    rw [run]
    exact left.trans ((custody.tending n).flushes left.kept
      ((custody.tending n).ready ready left.toFades))

theorem counts {k : Nat} {delta : UInt64} (kept : K (n + delta.toNat) h)
    (inside : k < h.arena.size) (cpu : Cpu) : Tended (K n) h (h.count k cpu delta) :=
  ⟨.update (fun _ => rfl) fun _ => rfl, custody.count cpu kept inside, List.Perm.refl _⟩

theorem records {k : Nat} {delta : UInt64} (kept : K (n + delta.toNat) h) (ready : D h)
    (inside : k < h.arena.size) (cpu : Cpu) : Tended (K n) h (h.record k cpu delta) := by
  unfold record
  split
  · exact .stay (custody.spare _ kept)
  · rename_i live
    have counted := custody.counts kept inside cpu
    refine counted.trans ((custody.tending n).marks counted.kept
      ((custody.tending n).ready ready counted.toFades) ?_ ?_ cpu)
    · rw [counted.size]
      exact inside
    · have shape : SameShape h (h.count k cpu delta) :=
        same_shape_update (fun _ => rfl) (fun _ => rfl)
      exact alive_of_live ((shape.removed k).trans (Bool.eq_false_iff.mpr live))

theorem adds {delta : UInt64} (kept : K (n + delta.toNat) h) (ready : D h) (id : NodeId)
    (cpu : Cpu) : Tended (K n) h (h.add id cpu delta).1 := by
  unfold add find
  cases found : h.index[id]? with
  | none => exact .stay (custody.spare _ kept)
  | some k => exact custody.records kept ready ((custody.shaped kept).indexed found).1 cpu

theorem drains_counter (kept : K n h) {k : Nat} (inside : k < h.arena.size) :
    Tended (K n) h (Session.drainCounter h k).1 := by
  unfold Session.drainCounter
  split
  · exact .stay kept
  · rename_i own counter run
    exact ⟨.update (fun _ => rfl) fun _ => rfl, custody.drain kept inside run, List.Perm.refl _⟩

theorem works {actors : List (Handle × Cpu)} (kept : K (n + actors.length) h) (ready : D h)
    (inside : ∀ a ∈ actors, a.1.key < h.arena.size) : Tended (K n) h (Actors.work h actors) := by
  induction actors generalizing h with
  | nil => exact .stay kept
  | cons a rest ih =>
    have budget : K (n + rest.length + (1 : UInt64).toNat) h := kept
    have first := custody.records budget ready (inside a (by simp)) a.2
    refine first.trans (ih first.kept ((custody.tending 0).ready ready first.toFades) ?_)
    intro b member
    rw [first.size]
    exact inside b (by simp [member])

theorem attaches {ids : List NodeId} {perNode : Nat} (kept : K (n + ids.length * perNode) h)
    (ready : D h) (placement : Nat → Cpu) :
    Tended (K n) h (Actors.attach h ids perNode placement).1 := by
  unfold Actors.attach
  split
  · exact .stay (custody.spare _ kept)
  · rename_i handles run
    obtain ⟨length, inside⟩ := actors_inside (custody.shaped kept) run perNode placement
    rw [← length] at kept
    exact custody.works kept ready inside

end Custody

end Hierarchy

namespace Step

def events : Step → Nat
  | .actors ids perNode => ids.length * perNode
  | t => t.delta

end Step

namespace Session

variable {cfg : Config} {s : Session cfg} {n : Nat} {K : Nat → Hierarchy cfg → Prop}
  {D : Hierarchy cfg → Prop}

open Hierarchy

namespace Healthy

section
variable {L : Hierarchy cfg → Prop} (healthy : Healthy L s)
include healthy

theorem tended {h : Hierarchy cfg} (tended : Tended (K n) s.hierarchy h) :
    Healthy (K n) (s.withHierarchy h) :=
  ⟨tended.kept, healthy.referenced.of_holds tended.holds (Nat.le_of_eq tended.size.symm)⟩

theorem with_worker (worker : Option Worker) : Healthy L { s with worker := worker } :=
  ⟨healthy.kept, ⟨healthy.referenced.holds, healthy.referenced.handles, healthy.referenced.held,
    healthy.referenced.inside⟩⟩

theorem on_held_tended {name : String} {act : Nat → Hierarchy cfg × Answer}
    (idle : K n s.hierarchy)
    (acts : ∀ k, k < s.hierarchy.arena.size → k ∈ s.hierarchy.holds →
      Tended (K n) s.hierarchy (act k).1) : Healthy (K n) (s.onHeld name act).1 := by
  unfold onHeld
  cases found : s.held.lookup name with
  | none => exact ⟨idle, healthy.referenced⟩
  | some k =>
    have member := Referenced.held_mem found
    exact healthy.tended (acts k (healthy.referenced.inside k member)
      (healthy.referenced.holds.mem_iff.mpr member))

end

variable (custody : Custody K D)
include custody

theorem handle_adds {delta : UInt64} (healthy : Healthy (K (n + delta.toNat)) s)
    (ready : D s.hierarchy) (name : String) (cpu : Cpu) :
    Healthy (K n) (s.onHandle name fun handle => handle.add s.hierarchy cpu delta).1 := by
  unfold onHandle
  cases found : s.handles.lookup name with
  | none => exact ⟨custody.spare _ healthy.kept, healthy.referenced⟩
  | some handle =>
    have inside := healthy.referenced.inside _ (Referenced.handle_mem found)
    exact healthy.tended (custody.records healthy.kept ready inside cpu)

theorem worker_dropped (healthy : Healthy (K n) s) (ready : D s.hierarchy) :
    Healthy (K n) s.dropWorker := by
  unfold dropWorker
  split
  · exact healthy
  · rename_i w _
    have stopped := (custody.tending n).shuts_down healthy.kept ready w
    exact (healthy.tended stopped).with_worker none

end Healthy

theorem step_keeps (custody : Custody K D) {t : Step} (healthy : Healthy (K (n + t.events)) s)
    (ready : D s.hierarchy) : Healthy (K n) (s.step t).1 := by
  have spare : Healthy (K n) s := ⟨custody.spare _ healthy.kept, healthy.referenced⟩
  have tending := custody.tending n
  cases t
  case remove id => exact spare.tended (custody.removes spare.kept ready id)
  case detach id => exact spare.tended (custody.detaches spare.kept id)
  case add id cpu delta => exact spare.tended (custody.adds healthy.kept ready id cpu)
  case incrementHere id =>
    have budget : K (n + (1 : UInt64).toNat) s.hierarchy := healthy.kept
    exact spare.tended (custody.adds budget ready id s.here)
  case actors ids perNode =>
    rw [step_actors]
    exact spare.tended (custody.attaches healthy.kept ready fun _ => s.here)
  case handleAdd name cpu delta => exact healthy.handle_adds custody ready name cpu
  case handleIncrementHere name =>
    have budget : Healthy (K (n + (1 : UInt64).toNat)) s := healthy
    exact budget.handle_adds custody ready name s.here
  case heldCount name cpu delta =>
    exact spare.on_held_tended spare.kept fun k inside _ => custody.counts healthy.kept inside cpu
  case heldMark name cpu =>
    exact spare.on_held_tended spare.kept fun k inside held =>
      tending.marks spare.kept ready inside (alive_of_held held) cpu
  case heldRequeue name =>
    exact spare.on_held_tended spare.kept fun k inside held =>
      tending.marks spare.kept ready inside (alive_of_held held) ⟨0⟩
  case heldDrain name =>
    exact spare.on_held_tended spare.kept fun k inside _ =>
      custody.drains_counter spare.kept inside
  case flush => exact spare.tended (tending.flushes spare.kept ready)
  case flushDump id => exact spare.tended (tending.flush_and_dump spare.kept ready id)
  case drain => exact spare.tended (tending.drains spare.kept)
  case drainTake count => exact spare.tended (tending.drains_part spare.kept count)
  case drainAround name count cpu =>
    exact spare.on_held_tended spare.kept fun k inside held =>
      tending.drains_around spare.kept ready inside held count cpu
  case spawnWorker => exact (spare.worker_dropped custody ready).with_worker (some .spawned)
  case requestSync requests =>
    simp only [step, requestSync]
    split
    · exact spare
    · rename_i w _
      have flushed := tending.flushes_sync spare.kept ready (w.requestTimes requests)
        w.replies.length
      exact (spare.tended flushed).with_worker _
  case requestShutdown requests =>
    simp only [step, requestShutdown]
    split
    · exact spare
    · rename_i w _
      have stopped := tending.shuts_down spare.kept ready (w.requestTimes requests)
      exact (spare.tended stopped).with_worker none
  case dropWorker => exact spare.worker_dropped custody ready
  all_goals exact quiet_step (custody.hosting n) spare rfl

/-- Every run keeps what is in custody, as long as the condition for queueing nodes lasts. -/
theorem run_keeps (custody : Custody K D) {steps : List Step}
    (healthy : Healthy (K (n + (steps.map Step.events).sum)) s)
    (ready : ∀ before after, steps = before ++ after → D (s.run before).hierarchy) :
    Healthy (K n) (s.run steps) := by
  induction steps generalizing s with
  | nil => exact healthy
  | cons t rest ih =>
    have sum : n + ((t :: rest).map Step.events).sum =
        n + (rest.map Step.events).sum + t.events := by
      rw [List.map_cons, List.sum_cons]
      omega
    rw [sum] at healthy
    have first := step_keeps custody healthy (ready [] (t :: rest) rfl)
    rw [run_cons]
    refine ih first fun before after parted => ?_
    exact ready (t :: before) after (by rw [parted]; rfl)

end Session

end Rollup
