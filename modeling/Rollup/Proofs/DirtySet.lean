import Mathlib
import Rollup.Proofs.KeptBooks
import Rollup.Proofs.SessionSteps

/-!
The dirty set is exact. The updates that a session has recorded since its last flush are read off its
steps, each with its node and its slot, and not off any list or counter. The nodes on the list of a
slot are just those of the tree at or below which one of these updates was recorded on that slot. A
removal flushes, so no update outlives its node, and what is recorded through the handle of a removed
node is no update at all.
-/
namespace Rollup

structure Touch (cfg : Config) where
  node : Nat
  slot : Fin cfg.slots

namespace Hierarchy

variable {cfg : Config} {h h' : Hierarchy cfg} {touches : List (Touch cfg)}

def dirty (h : Hierarchy cfg) (touches : List (Touch cfg)) (c : Fin cfg.slots) : Finset Nat :=
  {n ∈ h.keys.toFinset | ∃ u ∈ touches, u.slot = c ∧ n ∈ h.lineage u.node}

/-- These are the updates that no flush has folded, and the lists hold the nodes above them. -/
structure Exact (h : Hierarchy cfg) (touches : List (Touch cfg)) : Prop where
  kept : h.Kept
  live : ∀ u ∈ touches, u.node < h.arena.size ∧ (h.node u.node).removed = false
  lists : ∀ c n, h.lists c n ↔ ∃ u ∈ touches, u.slot = c ∧ n ∈ h.lineage u.node
  slots : ∀ n (c : Fin cfg.slots), (h.node n).counter.slots[c].unflushed ≠ 0 → h.lists c n

namespace Exact

variable {k n : Nat} {c : Fin cfg.slots}

theorem start (cfg : Config) : (Hierarchy.new cfg).Exact [] where
  kept := Kept.start cfg
  live := by simp
  lists := by
    intro c n
    have empty : (Hierarchy.new cfg).queues[c] = ∅ := by simp [Hierarchy.new]
    simp [Hierarchy.lists, empty]
  slots := by
    intro n c some
    rw [new_counter] at some
    simp [Counter.zero, Slot.unflushed] at some

theorem in_tree (exact : h.Exact touches) (listed : h.lists c n) : n ∈ h.keys :=
  exact.kept.shaped.mem_keys.mpr ⟨exact.kept.tracked.inside listed, exact.kept.live listed⟩

theorem mem_dirty (exact : h.Exact touches) : n ∈ h.dirty touches c ↔ h.lists c n := by
  rw [dirty, Finset.mem_filter, List.mem_toFinset, ← exact.lists]
  exact and_iff_right_of_imp exact.in_tree

theorem attach (exact : h.Exact touches) {id : NodeId} {p : Nat} {name : String}
    (place : Vacancy h id p name) (next : UInt64) :
    Exact { h.attach id p name with nextId := next } touches := by
  have books := place.books next
  have lists {c : Fin cfg.slots} {n : Nat} : (h.attach id p name).lists c n ↔ h.lists c n :=
    attach_lists exact.kept.tracked.filed place.inside
  constructor
  case kept => exact exact.kept.attach place next
  case live =>
    intro u member
    obtain ⟨inside, live⟩ := exact.live u member
    exact ⟨Nat.lt_of_lt_of_le inside books.grown, (attach_removed place.inside u.node).trans live⟩
  case lists =>
    intro c n
    refine lists.trans ((exact.lists c n).trans ?_)
    refine exists_congr fun u => and_congr_right fun member => ?_
    rw [books.lineage (exact.live u member).1]
  case slots =>
    intro n c some
    refine lists.mpr (exact.slots n c ?_)
    rw [← books.counter]
    exact some

theorem holding (exact : h.Exact touches) {holds : List Nat}
    (held : ∀ k ∈ holds, h.isAlive k = true) : Exact { h with holds := holds } touches where
  kept := kept_upkeep.hold exact.kept held
  live := exact.live
  lists c n := (exact.lists c n).trans (by
    simp only [(SameShape.of_arena rfl rfl : SameShape h { h with holds := holds }).lineage])
  slots := exact.slots

theorem record (exact : h.Exact touches) {delta : UInt64} (inside : k < h.arena.size)
    (live : (h.node k).removed = false) (fits : h.recordings + delta.toNat < UInt64.size)
    (cpu : Cpu) : Exact (h.record k cpu delta) (⟨k, cfg.slot cpu⟩ :: touches) := by
  have counted := exact.kept.solvent.counted inside fits cpu
  have marked := exact.kept.record_enqueues inside live fits cpu
  have shape := counted.toSameShape.trans marked.toSameShape
  constructor
  case kept => exact exact.kept.record inside live fits cpu
  case live =>
    intro u member
    rw [shape.size, shape.removed]
    rcases List.mem_cons.mp member with rfl | old
    · exact ⟨inside, live⟩
    · exact exact.live u old
  case lists =>
    intro c n
    rw [marked.lists, lists_count, exact.lists]
    simp only [List.exists_mem_cons_iff, shape.lineage]
    rw [or_comm, eq_comm]
  case slots =>
    intro n c some
    rw [marked.lists, lists_count]
    rw [marked.counter, node_count] at some
    by_cases here : k = n ∧ cfg.slot cpu = c
    · obtain ⟨rfl, rfl⟩ := here
      exact Or.inr ⟨rfl, self_mem_lineage h k⟩
    · refine Or.inl (exact.slots n c ?_)
      split at some
      · rename_i same
        rw [Counter.slot_add, if_neg fun slot => here ⟨same.1, slot⟩] at some
        exact some
      · exact some

theorem of_clean (kept : h.Kept) (empty : ∀ c : Fin cfg.slots, h.queues[c] = ∅) (clean : h.Clean) :
    h.Exact [] where
  kept := kept
  live := by simp
  lists := by
    intro c n
    simp [Hierarchy.lists, empty]
  slots := by
    intro n c some
    have ordered := kept.solvent.ordered n _ (Counter.slot_mem _ c)
    have le := Counter.slot_amount_le Slot.waiting (h.node n).counter c
    have none : (h.node n).counter.amount Slot.waiting = 0 := clean n
    have value := Slot.unflushed_of_ordered ordered
    refine absurd (UInt64.toNat_inj.mp ?_) some
    rw [value]
    exact Nat.le_zero.mp (none ▸ le)

end Exact

theorem pending_count_eq (h : Hierarchy cfg) : h.pendingCount = ∑ c : Fin cfg.slots, h.queues[c].size := by
  have sizes : h.queues.toList.map Std.ExtTreeMap.size =
      List.ofFn fun c : Fin cfg.slots => h.queues[c].size := by
    apply List.ext_getElem
    · simp
    · intro i _ _
      simp
  rw [pendingCount, ← List.sum_ofFn, ← sizes, List.sum_eq_foldr, List.foldr_map]

namespace Exact

variable (exact : h.Exact touches)
include exact

theorem entry {c : Fin cfg.slots} {id : NodeId} {n : Nat} :
    h.queues[c][id]? = some n ↔ h.index[id]? = some n ∧ n ∈ h.dirty touches c := by
  rw [exact.kept.tracked.entry, exact.mem_dirty]
  constructor
  · rintro ⟨listed, rfl⟩
    exact ⟨exact.kept.shaped.present (exact.kept.tracked.inside listed) (exact.kept.live listed),
      listed⟩
  · rintro ⟨found, listed⟩
    exact ⟨listed, (exact.kept.shaped.indexed found).2.1⟩

theorem is_queued_iff {id : NodeId} : h.isQueued id = true ↔
    ∃ n c, h.index[id]? = some n ∧ n ∈ h.dirty touches c := by
  simp only [← exact.entry]
  simp only [isQueued, List.any_eq_true, Std.ExtTreeMap.contains_eq_isSome_getElem?,
    Option.isSome_iff_exists]
  constructor
  · rintro ⟨queue, member, n, found⟩
    obtain ⟨i, inside, rfl⟩ := List.getElem_of_mem member
    have bound : i < cfg.slots := by simpa using inside
    exact ⟨n, ⟨i, bound⟩, by simpa using found⟩
  · rintro ⟨n, c, found⟩
    exact ⟨h.queues[c], by simp, n, found⟩

theorem queue_size (c : Fin cfg.slots) : h.queues[c].size = (h.dirty touches c).card := by
  have tracked := exact.kept.tracked
  have nodup : h.queues[c].values.Nodup :=
    IdMap.values_nodup fun i j n first second =>
      (tracked.entry.mp first).2.symm.trans (tracked.entry.mp second).2
  have same : h.queues[c].values.toFinset = h.dirty touches c := by
    ext n
    rw [List.mem_toFinset, IdMap.mem_values, exact.mem_dirty]
    constructor
    · rintro ⟨id, found⟩
      exact (tracked.entry.mp found).1
    · intro listed
      exact ⟨_, listed⟩
  rw [← same, List.toFinset_card_of_nodup nodup, IdMap.values_eq_map, List.length_map,
    Std.ExtTreeMap.length_toList]

theorem dirty_closed {c : Fin cfg.slots} {n p : Nat} (member : n ∈ h.dirty touches c)
    (up : (h.node n).parent = some p) : p ∈ h.dirty touches c := by
  rw [exact.mem_dirty] at member ⊢
  have living := exact.kept.shaped.parent_of_live (exact.kept.live member)
  exact exact.kept.tracked.closed member (living.trans up)

end Exact

theorem Exact.flushed (exact : h.Exact touches) :
    ∃ after sum, h.flush = (after, .ok sum) ∧ after.Exact [] ∧ after.holds = h.holds ∧
      after.arena.size = h.arena.size := by
  obtain ⟨after, sum, run, flushed, advanced⟩ := kept_upkeep.flushes exact.kept
  have clean := clean_of_flushed exact.kept.dirty flushed
  exact ⟨after, sum, run, .of_clean advanced.kept flushed.queues clean, flushed.holds, flushed.size⟩

theorem Exact.removed (exact : h.Exact touches) (id : NodeId) :
    (∃ fault, h.remove id = (h, .error fault)) ∨
      ∃ after, h.remove id = (after, .ok ()) ∧ after.Exact [] ∧ after.holds = h.holds ∧
        after.arena.size = h.arena.size := by
  have shaped := exact.kept.shaped
  rcases remove_cases shaped id with failed | ⟨k, p, leaving, _, run⟩
  · exact Or.inl failed
  · obtain ⟨after, sum, flush, flushed, advanced⟩ := kept_upkeep.leaves exact.kept leaving
    have clean := clean_of_flushed (leaving.dirty exact.kept) flushed
    rw [flush] at run
    exact Or.inr ⟨after, run, .of_clean advanced.kept flushed.queues clean,
      flushed.holds.trans (leaving.holds shaped), flushed.size.trans (leaving.size shaped)⟩

end Hierarchy

def Step.source (here : Cpu) : Step → Option Cpu
  | .add _ cpu _ | .handleAdd _ cpu _ => some cpu
  | .incrementHere _ | .handleIncrementHere _ => some here
  | _ => none

namespace Session

variable {cfg : Config} {s : Session cfg} {touches : List (Touch cfg)}

def touch (s : Session cfg) (t : Step) : Option (Touch cfg) :=
  match s.target t, t.source s.here with
  | some k, some cpu => some ⟨k, cfg.slot cpu⟩
  | _, _ => none

def folds (s : Session cfg) : Step → Bool
  | .flush => true
  | .flushDump id => s.hierarchy.index.contains id
  | .remove id => (s.hierarchy.remove id).2.isOk
  | _ => false

def touchesAfter (s : Session cfg) (touches : List (Touch cfg)) (t : Step) : List (Touch cfg) :=
  if s.folds t then [] else (s.touch t).toList ++ touches

def unfolded (s : Session cfg) (touches : List (Touch cfg)) : List Step → List (Touch cfg)
  | [] => touches
  | t :: rest => (s.step t).1.unfolded (s.touchesAfter touches t) rest

open Hierarchy

theorem exact_hosting (touches : List (Touch cfg)) :
    Hosting fun h : Hierarchy cfg => h.Exact touches where
  shaped exact := exact.kept.shaped
  attach next exact place _ := exact.attach place next
  hold exact held := exact.holding held

theorem touches_after_fold {t : Step} (folds : s.folds t = true) :
    s.touchesAfter touches t = [] :=
  if_pos folds

theorem touches_after_idle {t : Step} (folds : s.folds t = false) (idle : s.target t = none) :
    s.touchesAfter touches t = touches := by
  simp [touchesAfter, folds, touch, idle]

theorem touches_after_recording {t : Step} {k : Nat} {cpu : Cpu} (folds : s.folds t = false)
    (target : s.target t = some k) (source : t.source s.here = some cpu) :
    s.touchesAfter touches t = ⟨k, cfg.slot cpu⟩ :: touches := by
  simp [touchesAfter, folds, touch, target, source]

def Traced (s : Session cfg) (touches : List (Touch cfg)) : Prop :=
  Healthy (fun h => h.Exact touches) s

namespace Traced

variable (traced : s.Traced touches)
include traced

theorem healthy : Healthy Kept s := ⟨traced.kept.kept, traced.referenced⟩

theorem refolds {after : Hierarchy cfg} (exact : after.Exact [])
    (holds : after.holds = s.hierarchy.holds)
    (size : after.arena.size = s.hierarchy.arena.size) :
    (s.withHierarchy after).Traced [] :=
  ⟨exact, traced.referenced.of_holds (holds ▸ List.Perm.refl _) (Nat.le_of_eq size.symm)⟩

theorem records {k : Nat} {delta : UInt64} (inside : k < s.hierarchy.arena.size)
    (live : (s.hierarchy.node k).removed = false)
    (fits : s.hierarchy.recordings + delta.toNat < UInt64.size) (cpu : Cpu) :
    (s.withHierarchy (s.hierarchy.record k cpu delta)).Traced (⟨k, cfg.slot cpu⟩ :: touches) := by
  have advanced := kept_upkeep.records traced.kept.kept trivial inside live fits cpu
  exact ⟨traced.kept.record inside live fits cpu,
    traced.referenced.of_holds (advanced.2 ▸ List.Perm.refl _) advanced.1.grown⟩

theorem adds {t : Step} {id : NodeId} {delta : UInt64} {cpu : Cpu} (folds : s.folds t = false)
    (target : s.target t = s.hierarchy.index[id]?) (source : t.source s.here = some cpu)
    (fits : s.hierarchy.recordings + delta.toNat < UInt64.size) :
    (s.withHierarchy (s.hierarchy.add id cpu delta).1).Traced (s.touchesAfter touches t) := by
  simp only [Hierarchy.add, Hierarchy.find]
  cases found : s.hierarchy.index[id]? with
  | none =>
    rw [touches_after_idle folds (target.trans found)]
    exact traced
  | some k =>
    obtain ⟨inside, _, live⟩ := traced.kept.kept.shaped.indexed found
    rw [touches_after_recording folds (target.trans found) source]
    exact traced.records inside live fits cpu

/-- Recording through a handle; once its node is removed, nothing happens. -/
theorem adds_through {t : Step} {name : String} {delta : UInt64} {cpu : Cpu}
    (folds : s.folds t = false) (target : s.target t = s.handleTarget name)
    (source : t.source s.here = some cpu)
    (fits : s.hierarchy.recordings + delta.toNat < UInt64.size) :
    (s.onHandle name fun handle => handle.add s.hierarchy cpu delta).1.Traced
      (s.touchesAfter touches t) := by
  simp only [onHandle, Handle.add]
  cases found : s.handles.lookup name with
  | none =>
    have none : s.target t = none := by rw [target, handleTarget, found]
    rw [touches_after_idle folds none]
    exact traced
  | some handle =>
    have inside := traced.referenced.inside _ (Referenced.handle_mem found)
    cases live : (s.hierarchy.node handle.key).removed with
    | true =>
      have none : s.target t = none := by
        rw [target, handleTarget, found]
        simp [live]
      rw [touches_after_idle folds none]
      simp only [Hierarchy.record, live, if_true]
      exact traced
    | false =>
      have some : s.target t = some handle.key := by
        rw [target, handleTarget, found]
        simp [live]
      rw [touches_after_recording folds some source]
      exact traced.records inside live fits cpu

theorem rests {t : Step} (quiet : t.isQuiet = true) :
    (s.step t).1.Traced (s.touchesAfter touches t) := by
  have folds : s.folds t = false := by
    cases t <;> first | rfl | exact absurd quiet Bool.false_ne_true
  rw [touches_after_idle folds (target_of_quiet quiet)]
  exact quiet_step (exact_hosting touches) traced quiet

end Traced

theorem step_traced (traced : s.Traced touches) {t : Step} (plain : t.isPlain = true)
    (fits : s.hierarchy.recordings + t.delta < UInt64.size) :
    (s.step t).1.Traced (s.touchesAfter touches t) := by
  cases t
  case remove id =>
    simp only [step, change]
    rcases traced.kept.removed id with ⟨fault, run⟩ | ⟨after, run, exact, holds, size⟩
    · have folds : s.folds (.remove id) = false := by simp [folds, run, Except.isOk, Except.toBool]
      rw [touches_after_idle folds rfl, run]
      exact traced
    · have folds : s.folds (.remove id) = true := by simp [folds, run, Except.isOk, Except.toBool]
      rw [touches_after_fold folds, run]
      exact traced.refolds exact holds size
  case add id cpu delta => exact traced.adds rfl rfl rfl fits
  case incrementHere id => exact traced.adds rfl rfl rfl fits
  case handleAdd name cpu delta => exact traced.adds_through rfl rfl rfl fits
  case handleIncrementHere name => exact traced.adds_through rfl rfl rfl fits
  case flush =>
    obtain ⟨after, sum, run, exact, holds, size⟩ := traced.kept.flushed
    simp only [step, change, run]
    rw [touches_after_fold rfl]
    exact traced.refolds exact holds size
  case flushDump id =>
    obtain ⟨after, sum, run, exact, holds, size⟩ := traced.kept.flushed
    simp only [step, change, flushAndDump, run]
    cases known : s.hierarchy.index.contains id with
    | true =>
      have folds : s.folds (.flushDump id) = true := known
      rw [touches_after_fold folds]
      exact traced.refolds exact holds size
    | false =>
      have folds : s.folds (.flushDump id) = false := known
      rw [touches_after_idle folds rfl]
      exact traced
  all_goals first
    | exact absurd plain Bool.false_ne_true
    | exact traced.rests rfl

theorem run_traced (traced : s.Traced touches) {steps : List Step}
    (plain : ∀ t ∈ steps, t.isPlain = true)
    (fits : s.hierarchy.recordings + Step.deltas steps < UInt64.size) :
    (s.run steps).Traced (s.unfolded touches steps) := by
  induction steps generalizing s touches with
  | nil => exact traced
  | cons t rest ih =>
    have sum : Step.deltas (t :: rest) = t.delta + Step.deltas rest := rfl
    have first := step_advances kept_upkeep traced.healthy trivial (plain t (by simp)) (by omega)
    have le := first.recordings_le
    have next := step_traced traced (plain t (by simp)) (by omega)
    have room : (s.step t).1.hierarchy.recordings + Step.deltas rest < UInt64.size := by omega
    exact ih next (fun u member => plain u (by simp [member])) room

/-- In every state that a session reaches the list of each slot holds the nodes of the tree at or below
    which an update was recorded on that slot since the last flush, and no others. With each node its
    parent is among them. So a node is queued if one was recorded on any slot, the entries pending are
    the sizes of these sets, and where a slot holds events not yet drained its node is listed there. -/
theorem dirty_set_exact (cfg : Config) (steps : List Step)
    (plain : ∀ t ∈ steps, t.isPlain = true) (fits : Step.deltas steps < UInt64.size) :
    let h := ((start cfg).run steps).hierarchy
    let touches := (start cfg).unfolded [] steps
    (∀ (c : Fin cfg.slots) (id : NodeId) n,
      h.queues[c][id]? = some n ↔ h.index[id]? = some n ∧ n ∈ h.dirty touches c) ∧
    (∀ c n p, n ∈ h.dirty touches c → (h.node n).parent = some p → p ∈ h.dirty touches c) ∧
    (∀ id, h.isQueued id = true ↔ ∃ n c, h.index[id]? = some n ∧ n ∈ h.dirty touches c) ∧
    h.pendingCount = ∑ c, (h.dirty touches c).card ∧
    (∀ n (c : Fin cfg.slots), (h.node n).counter.slots[c].unflushed ≠ 0 →
      n ∈ h.keys ∧ h.lists c n) := by
  intro h touches
  have none : (start cfg).hierarchy.recordings = 0 := new_recordings cfg
  have begins : (start cfg).Traced [] := ⟨Exact.start cfg, Referenced.start cfg⟩
  have exact : h.Exact touches := (run_traced begins plain (by omega)).kept
  refine ⟨fun _ _ _ => exact.entry, fun _ _ _ => exact.dirty_closed, fun _ => exact.is_queued_iff,
    ?_, fun n c some => ?_⟩
  · rw [pending_count_eq]
    exact Finset.sum_congr rfl fun c _ => exact.queue_size c
  · have listed := exact.slots n c some
    exact ⟨exact.in_tree listed, listed⟩

/-- Of four updates one is folded by a removal, one comes through the handle of the removed node, and
    one brings no events. -/
def touchingSteps : List Step :=
  [.create NodeId.root "job", .create ⟨2⟩ "task", .add ⟨3⟩ ⟨3⟩ 4, .takeHandle ⟨3⟩ "task",
    .remove ⟨3⟩, .handleAdd "task" ⟨0⟩ 7, .add ⟨2⟩ ⟨5⟩ 0, .add NodeId.root ⟨2⟩ 1]

theorem dirty_set_after_removal :
    let h := ((start ⟨4⟩).run touchingSteps).hierarchy
    let touches := (start ⟨4⟩).unfolded [] touchingSteps
    1 ∈ h.dirty touches (Config.slot ⟨4⟩ ⟨1⟩) ∧ 0 ∈ h.dirty touches (Config.slot ⟨4⟩ ⟨1⟩) ∧
      ∑ c, (h.dirty touches c).card = 3 := by
  intro h touches
  obtain ⟨entries, closed, _, sizes, _⟩ := dirty_set_exact ⟨4⟩ touchingSteps (by decide) (by decide)
  have job := ((entries (Config.slot ⟨4⟩ ⟨1⟩) ⟨2⟩ 1).mp (by decide +kernel)).2
  exact ⟨job, closed _ 1 0 job (by decide +kernel), sizes.symm.trans (by decide +kernel)⟩

end Session

end Rollup
