import Mathlib
import Rollup.Proofs.FixedNodes
import Rollup.Proofs.OneTree
import Rollup.Proofs.Refusals

/-!
Handles stay with the node they were taken from. While it is in the tree, what is recorded through
the handle is what is recorded under the id; once it has been removed, nothing is, in every state
that follows, whatever node has the id then.

A node of the tree is found under its id, and a removed node stays removed (`run_gone`). The handle
has only its node's key, so these two facts about the node are all that the handle depends on.
-/
namespace Rollup

namespace Hierarchy

variable {cfg : Config} {h h' : Hierarchy cfg} {k : Nat} {id : NodeId}

structure Gone (k : Nat) (h : Hierarchy cfg) : Prop extends Charted h where
  inside : k < h.arena.size
  removed : (h.node k).removed = true

theorem Gone.of_shape (gone : Gone k h) (shape : SameShape h h') (charted : h'.Charted) :
    Gone k h' :=
  ⟨charted, by rw [shape.size]; exact gone.inside, (shape.removed k).trans gone.removed⟩

theorem Gone.absent (gone : Gone k h) : k ∉ h.keys := by
  intro member
  exact absurd gone.removed (by simp [(gone.toShaped.key_of_mem member).2])

theorem gone_of_absent (charted : h.Charted) (inside : k < h.arena.size) (absent : k ∉ h.keys) :
    Gone k h := by
  refine ⟨charted, inside, ?_⟩
  cases live : (h.node k).removed with
  | true => rfl
  | false => exact absurd (charted.toShaped.mem_keys.mpr ⟨inside, live⟩) absent

theorem gone_tending : Tending (@Gone cfg k) fun _ => True where
  filed gone := gone.toFiled
  take gone taken alive := gone.of_shape (taken.toSameShape.trans (.of_arena rfl rfl))
    (charted_tending.take gone.toCharted taken alive)
  ready _ _ := trivial
  mark cpu gone ready inside alive := gone.of_shape (only_lists_mark _ _ cpu).toSameShape
    (charted_tending.mark cpu gone.toCharted ready inside alive)
  settle gone inside done := by
    obtain ⟨_, _, settled⟩ := settle_ok inside done
    exact gone.of_shape settled.toSameShape (charted_tending.settle gone.toCharted inside done)
  finish flushes gone :=
    gone.of_shape (.of_arena rfl rfl) (charted_tending.finish flushes gone.toCharted)

theorem gone_apart {j p : Nat} (charted : h.Charted) (leaving : Leaving h id j p)
    (inside : k < h.arena.size) (removed : k = j ∨ (h.node k).removed = true) :
    Gone k (h.apart id j p) := by
  refine ⟨charted.apart leaving, size_apart.symm ▸ inside, ?_⟩
  rw [apart_removed leaving.inside leaving.before]
  rcases removed with same | removed
  · rw [if_pos same]
  · rw [removed, ite_self]

theorem gone_left {j p : Nat} (charted : h.Charted) (leaving : Leaving h id j p)
    (inside : k < h.arena.size) (removed : k = j ∨ (h.node k).removed = true) :
    Gone k (h.left id j p) := by
  rw [leaving.bequeath_eq charted.toShaped]
  have apart := gone_apart charted leaving inside removed
  exact apart.of_shape (same_shape_update (fun _ => rfl) fun _ => rfl)
    (apart.toCharted.update (fun _ => rfl) (fun _ => rfl) fun _ => rfl)

/-- A removed node is never put back: only a removal sets the flag, and nothing clears it. -/
theorem gone_custody : Custody (fun _ => @Gone cfg k) fun _ => True where
  shaped gone := gone.toShaped
  tending _ := gone_tending
  spare _ gone := gone
  attach {_ h id p name} next gone place _ := by
    have inside := lt_of_lt_of_le gone.inside (Grows.attach h id p name).size
    have attached : Gone k (h.attach id p name) :=
      ⟨gone.toCharted.attach place h.nextId, inside,
        (attach_removed place.inside k).trans gone.removed⟩
    exact attached.of_shape (.of_arena rfl rfl) (attached.toCharted.of_arena rfl rfl rfl)
  apart gone leaving := gone_apart gone.toCharted leaving gone.inside (.inr gone.removed)
  leave gone leaving := gone_left gone.toCharted leaving gone.inside (.inr gone.removed)
  count _ gone _ := gone.of_shape (same_shape_update (fun _ => rfl) fun _ => rfl)
    (gone.toCharted.update (fun _ => rfl) (fun _ => rfl) fun _ => rfl)
  drain gone _ _ := gone.of_shape (same_shape_update (fun _ => rfl) fun _ => rfl)
    (gone.toCharted.update (fun _ => rfl) (fun _ => rfl) fun _ => rfl)

theorem record_of_removed (removed : (h.node k).removed = true) (cpu : Cpu) (delta : UInt64) :
    h.record k cpu delta = h := by
  rw [record, if_pos removed]

theorem record_elsewhere (h : Hierarchy cfg) (k : Nat) (cpu : Cpu) (delta : UInt64) {j : Nat}
    (other : j ≠ k) :
    ((h.record k cpu delta).node j).counter = (h.node j).counter ∧
    ((h.record k cpu delta).node j).total = (h.node j).total ∧
    ((h.record k cpu delta).node j).pending = (h.node j).pending := by
  unfold record
  split
  · exact ⟨rfl, rfl, rfl⟩
  · have marked := only_lists_mark (h.count k cpu delta) k cpu
    have counted : (h.count k cpu delta).node j = h.node j := by
      rw [count, node_update, if_neg fun same => other same.1.symm]
    rw [← counted]
    exact ⟨marked.counter j, marked.total j, marked.pending j⟩

end Hierarchy

theorem Handle.entry_of_taken {cfg : Config} {h : Hierarchy cfg} {id : NodeId} {handle : Handle}
    (taken : (Handle.ofId h id).2 = .ok handle) : h.index[id]? = some handle.key := by
  unfold ofId Hierarchy.find at taken
  cases found : h.index[id]? with
  | none => simp [found] at taken
  | some k =>
    simp only [found, Except.ok.injEq] at taken
    rw [← taken]

namespace Session

open Hierarchy

variable {cfg : Config} {s : Session cfg} {handle : Handle} {id : NodeId}

/-- What a handle records is what is recorded under this id, by whatever name the handle or a copy
    of it is kept. -/
structure Serves (s : Session cfg) (handle : Handle) (id : NodeId) : Prop where
  add : ∀ cpu delta, s.hierarchy.add id cpu delta = (handle.add s.hierarchy cpu delta, .ok ())
  increment : ∀ cpu, s.hierarchy.add id cpu 1 = (handle.increment s.hierarchy cpu, .ok ())
  named : ∀ name, s.handles.lookup name = some handle →
    (∀ cpu delta, s.step (.handleAdd name cpu delta) = s.step (.add id cpu delta)) ∧
    s.step (.handleIncrementHere name) = s.step (.incrementHere id)

structure Spent (s : Session cfg) (handle : Handle) : Prop where
  outside : handle.key ∉ s.hierarchy.keys
  add : ∀ cpu delta, handle.add s.hierarchy cpu delta = s.hierarchy
  increment : ∀ cpu, handle.increment s.hierarchy cpu = s.hierarchy
  named : ∀ name, s.handles.lookup name = some handle →
    (∀ cpu delta, (s.step (.handleAdd name cpu delta)).1 = s) ∧
    (s.step (.handleIncrementHere name)).1 = s

theorem serves_of_entry (found : s.hierarchy.index[id]? = some handle.key) :
    s.Serves handle id := by
  have agree (cpu : Cpu) (delta : UInt64) :
      s.hierarchy.add id cpu delta = (handle.add s.hierarchy cpu delta, .ok ()) := by
    simp only [Hierarchy.add, find, found, Handle.add]
  refine ⟨agree, fun cpu => agree cpu 1, fun name kept => ⟨fun cpu delta => ?_, ?_⟩⟩
  · simp only [step, onHandle, kept, change, agree, Answer.ofResult]
  · simp only [step, onHandle, kept, change, agree, Answer.ofResult, Handle.increment]

theorem spent_of_gone (gone : Gone handle.key s.hierarchy) : s.Spent handle := by
  have still (cpu : Cpu) (delta : UInt64) : handle.add s.hierarchy cpu delta = s.hierarchy :=
    record_of_removed gone.removed cpu delta
  refine ⟨gone.absent, still, fun cpu => still cpu 1, fun name kept => ⟨fun cpu delta => ?_, ?_⟩⟩
  · simp only [step, onHandle, kept, still]
    rfl
  · simp only [step, onHandle, kept, Handle.increment, still]
    rfl

theorem gone_by_step {t : Step} {k : Nat} (charted : s.hierarchy.Charted)
    (found : s.hierarchy.index[id]? = some k) (removal : t = .remove id ∨ t = .detach id)
    (done : (s.step t).2.isFault = false) : Gone k (s.step t).1.hierarchy := by
  rcases removal with rfl | rfl
  · rcases remove_cases charted.toShaped id with ⟨fault, run⟩ | ⟨j, p, leaving, _, run⟩
    · simp [step, change, run, Answer.ofResult, Answer.isFault] at done
    · obtain rfl := Option.some.inj (found.symm.trans leaving.found)
      have left := gone_left charted leaving leaving.inside (.inl rfl)
      simp only [step, change, run, withHierarchy]
      exact (gone_tending.flushes left trivial).kept
  · rcases detach_cases charted.toShaped id with ⟨fault, run⟩ | ⟨j, p, run, entry, up, childless⟩
    · simp [step, change, run, Answer.ofResult, Answer.isFault] at done
    · obtain rfl := Option.some.inj (found.symm.trans entry)
      have leaving : Leaving s.hierarchy id k p := ⟨entry, up, childless⟩
      simp only [step, change, run, withHierarchy]
      exact gone_apart charted leaving leaving.inside (.inl rfl)

theorem spent_later (referenced : s.Referenced) (gone : Gone handle.key s.hierarchy)
    (steps : List Step) : (s.run steps).Spent handle := by
  have healthy : Healthy (Gone handle.key) s := ⟨gone, referenced⟩
  exact spent_of_gone (run_keeps (n := 0) gone_custody healthy fun _ _ _ => trivial).kept

/-- A handle serves the id it was taken from as long as its node is in the tree. From the step that
    removes the node, nothing is ever recorded through it. It never changes the counts of others. -/
theorem handles_follow_nodes (cfg : Config) (before rest : List Step) (id : NodeId)
    (handle : Handle) (taken : (Handle.ofId ((start cfg).run before).hierarchy id).2 = .ok handle) :
    let s := (start cfg).run (before ++ rest)
    (handle.key ∈ s.hierarchy.keys →
      s.hierarchy.index[id]? = some handle.key ∧ s.Serves handle id ∧
      ∀ t, t = .remove id ∨ t = .detach id → (s.step t).2.isFault = false →
        ∀ later, ((s.step t).1.run later).Spent handle) ∧
    (handle.key ∉ s.hierarchy.keys → ∀ later, (s.run later).Spent handle) ∧
    ∀ cpu delta k, k ≠ handle.key →
      ((handle.add s.hierarchy cpu delta).node k).counter = (s.hierarchy.node k).counter ∧
      ((handle.add s.hierarchy cpu delta).node k).total = (s.hierarchy.node k).total ∧
      ((handle.add s.hierarchy cpu delta).node k).pending = (s.hierarchy.node k).pending := by
  intro s
  have healthy : Healthy (@Charted cfg) s := run_healthy cfg (before ++ rest)
  have early := (run_healthy cfg before).kept
  obtain ⟨inside, named, -⟩ := early.indexed (Handle.entry_of_taken taken)
  have grows : Grows ((start cfg).run before).hierarchy s.hierarchy := by
    have later := run_grows ((start cfg).run before) rest
    rwa [← run_append] at later
  have same : (s.hierarchy.node handle.key).id = id :=
    (congrArg Identity.id (grows.identity _ inside)).trans named
  refine ⟨fun member => ?_, fun absent later => ?_, fun cpu delta k other => ?_⟩
  · have entry := healthy.kept.entry member
    rw [same] at entry
    refine ⟨entry, serves_of_entry entry, fun t removal done later => ?_⟩
    have after : (start cfg).run (before ++ rest ++ [t]) = (s.step t).1 := run_append ..
    have referenced := (run_healthy cfg (before ++ rest ++ [t])).referenced
    exact spent_later (after ▸ referenced) (gone_by_step healthy.kept entry removal done) later
  · exact spent_later healthy.referenced
      (gone_of_absent healthy.kept (lt_of_lt_of_le inside grows.size) absent) later
  · exact record_elsewhere s.hierarchy handle.key cpu delta other

/-- A handle is taken from a node and copied, and events come to the node under its id. -/
def copyingSteps : List Step :=
  [.create NodeId.root "a", .takeHandle ⟨2⟩ "first", .shareHandle "first" "copy", .add ⟨2⟩ ⟨1⟩ 5]

def replacingSteps : List Step := [.createWithId ⟨2⟩ NodeId.root "b", .handleAdd "copy" ⟨0⟩ 7]

theorem copied_handle_spent :
    let s := (start ⟨2⟩).run copyingSteps
    let later := (s.step (.remove ⟨2⟩)).1.run replacingSteps
    s.handles.lookup "copy" = some ⟨1⟩ ∧ s.Serves ⟨1⟩ ⟨2⟩ ∧
      later.handles.lookup "copy" = some ⟨1⟩ ∧ later.hierarchy.index[(⟨2⟩ : NodeId)]? = some 2 ∧
      later.Spent ⟨1⟩ := by
  intro s later
  obtain ⟨there, -⟩ := handles_follow_nodes ⟨2⟩ (copyingSteps.take 1) (copyingSteps.drop 1) ⟨2⟩ ⟨1⟩
    (by decide +kernel)
  obtain ⟨-, serves, removal⟩ := there (by decide +kernel)
  exact ⟨by decide +kernel, serves, by decide +kernel, by decide +kernel,
    removal (.remove ⟨2⟩) (.inl rfl) (by decide +kernel) replacingSteps⟩

end Session

end Rollup
