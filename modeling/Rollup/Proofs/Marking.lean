import Mathlib
import Rollup.Proofs.FlushGains
import Rollup.Proofs.ListsInOrder

/-!
Marks of living nodes. The walk of a mark stops at the first node that is queued already. Where the
lists are in order that changes nothing: a walk that queues every living ancestor anew comes to the
same state (`mark_eq_through`).

Marks bring no node to life and take none away, so the nodes that one mark queues do not depend on the
marks before it. What marks one after another lead to is thus said by the pairs of nodes and slots
alone (`marks_all`), in whatever order and however often they come.
-/
namespace Rollup

namespace Hierarchy

variable {cfg : Config} {h h' g g' : Hierarchy cfg} {k : Nat} {cpu : Cpu}

def Ascends (h : Hierarchy cfg) : Nat → Nat → Prop :=
  Relation.ReflTransGen fun k p => h.parent? k = some p

theorem mem_chain_iff_ascends {j : Nat} : j ∈ h.chain k ↔ h.Ascends k j := by
  constructor
  · intro member
    have closed {i p : Nat} (above : h.Ascends k i) (up : h.parent? i = some p) : h.Ascends k p :=
      above.tail up
    exact chain_closed closed Relation.ReflTransGen.refl member
  · intro above
    induction above using Relation.ReflTransGen.head_induction_on with
    | refl => exact self_mem_chain h j
    | head up _ ih => exact mem_chain.mpr (Or.inr ⟨_, up, ih⟩)

def enqueueEach (h : Hierarchy cfg) (c : Fin cfg.slots) : List Nat → Hierarchy cfg
  | [] => h
  | k :: ks => (h.enqueue c k).enqueueEach c ks

def markThrough (h : Hierarchy cfg) (k : Nat) (cpu : Cpu) : Hierarchy cfg :=
  h.enqueueEach (cfg.slot cpu) (h.chain k)

def markAll (h : Hierarchy cfg) (ms : List (Nat × Cpu)) : Hierarchy cfg :=
  ms.foldl (fun h m => h.mark m.1 m.2) h

theorem enqueue_each {c : Fin cfg.slots} {ks : List Nat} (ready : Enqueueable h c ks) :
    Enqueued h (h.enqueueEach c ks) c ks := by
  induction ks generalizing h with
  | nil =>
    refine ⟨OnlyLists.refl h, ready.keyed, ?_, ?_⟩
    · simp [enqueueEach]
    · simp [enqueueEach]
  | cons k ks ih => exact ready.cons (ih ready.next)

theorem OnlyLists.determined (first : OnlyLists h g) (second : OnlyLists h g')
    (keyed : ∀ {c : Fin cfg.slots} {i : NodeId} {j}, g.queues[c][i]? = some j → (g.node j).id = i)
    (keyed' : ∀ {c : Fin cfg.slots} {i : NodeId} {j},
      g'.queues[c][i]? = some j → (g'.node j).id = i)
    (lists : ∀ c j, g.lists c j ↔ g'.lists c j)
    (queued : ∀ (c : Fin cfg.slots) j,
      (g.node j).queued[c] = true ↔ (g'.node j).queued[c] = true) : g = g' := by
  apply eq_of_same (second.toSameShape.symm.trans first.toSameShape)
  case counts =>
    exact ⟨fun k => (first.counter k).trans (second.counter k).symm,
      fun k => (first.total k).trans (second.total k).symm,
      fun k => (first.pending k).trans (second.pending k).symm,
      fun k => (first.inherited k).trans (second.inherited k).symm⟩
  case queued =>
    intro j
    exact Vector.ext fun i bound => Bool.eq_iff_iff.mpr (queued ⟨i, bound⟩ j)
  case nextId => exact first.nextId.trans second.nextId.symm
  case queues =>
    refine Vector.ext fun i bound => Std.ExtTreeMap.ext_getElem? fun id => ?_
    have entry (j : Nat) : g.queues[(⟨i, bound⟩ : Fin cfg.slots)][id]? = some j ↔
        g'.queues[(⟨i, bound⟩ : Fin cfg.slots)][id]? = some j := by
      constructor
      · intro found
        have named := keyed found
        have listed : g'.lists ⟨i, bound⟩ j := (lists _ j).mp (by rwa [Hierarchy.lists, named])
        rwa [Hierarchy.lists, second.id, ← first.id, named] at listed
      · intro found
        have named := keyed' found
        have listed : g.lists ⟨i, bound⟩ j := (lists _ j).mpr (by rwa [Hierarchy.lists, named])
        rwa [Hierarchy.lists, first.id, ← second.id, named] at listed
    exact Option.ext entry
  case flushes => exact first.flushes.trans second.flushes.symm
  case holds => exact first.holds.trans second.holds.symm

/-- The walk may stop early: with a listed node its living ancestors are listed. -/
theorem mark_eq_through (tracked : h.Tracked) (distinct : h.LiveDistinct)
    (inside : k < h.arena.size) (alive : h.isAlive k = true) (cpu : Cpu) :
    h.mark k cpu = h.markThrough k cpu := by
  have ready := enqueueable_chain tracked (cfg.slot cpu) inside alive
    (distinct.chain tracked.filed inside alive)
  have short := enqueue_all h (h.chain k) ready
  have whole := enqueue_each ready
  apply short.toOnlyLists.determined whole.toOnlyLists
  case keyed =>
    intro c i j found
    exact (short.keyed found).1
  case keyed' =>
    intro c i j found
    exact (whole.keyed found).1
  case lists =>
    intro c j
    exact (short.lists c j).trans (whole.lists c j).symm
  case queued =>
    intro c j
    exact (short.queued c j).trans (whole.queued c j).symm

structure Marked (h h' : Hierarchy cfg) (ms : List (Nat × Cpu)) : Prop extends OnlyLists h h' where
  tracked : h'.Tracked
  lists : ∀ c j, h'.lists c j ↔ h.lists c j ∨ ∃ m ∈ ms, cfg.slot m.2 = c ∧ j ∈ h.chain m.1
  queued : ∀ (c : Fin cfg.slots) j, (h'.node j).queued[c] = true ↔
    (h.node j).queued[c] = true ∨ ∃ m ∈ ms, cfg.slot m.2 = c ∧ j ∈ h.chain m.1

theorem marks_all {ms : List (Nat × Cpu)} (tracked : h.Tracked) (distinct : h.LiveDistinct)
    (known : ∀ m ∈ ms, m.1 < h.arena.size ∧ h.isAlive m.1 = true) :
    Marked h (h.markAll ms) ms := by
  induction ms generalizing h with
  | nil => exact ⟨OnlyLists.refl h, tracked, by simp [markAll], by simp [markAll]⟩
  | cons m ms ih =>
    obtain ⟨inside, alive⟩ := known m (by simp)
    have apart := distinct.chain tracked.filed inside alive
    have marked := mark_enqueues tracked inside alive apart m.2
    have living := marked.alive fun j member => chain_alive alive member
    -- later marks walk the same chains
    have chain := chain_congr fun j => parent_congr (marked.parent j) fun p _ => living p
    have later := ih (h := h.mark m.1 m.2) (tracked.mark inside alive apart m.2)
      (distinct.fades (.mark alive m.2)) fun i member => by
        obtain ⟨inside_i, alive_i⟩ := known i (by simp [member])
        exact ⟨Nat.lt_of_lt_of_eq inside_i marked.size.symm, (living i.1).trans alive_i⟩
    refine ⟨marked.toOnlyLists.trans later.toOnlyLists, later.tracked, fun c j => ?_, fun c j => ?_⟩
    · refine (later.lists c j).trans ?_
      simp only [marked.lists, chain, List.exists_mem_cons_iff, or_assoc, @eq_comm _ c]
    · refine (later.queued c j).trans ?_
      simp only [marked.queued, chain, List.exists_mem_cons_iff, or_assoc, @eq_comm _ c]

theorem marks_determined {ms ms' : List (Nat × Cpu)} (tracked : h.Tracked)
    (distinct : h.LiveDistinct)
    (known : ∀ m ∈ ms ++ ms', m.1 < h.arena.size ∧ h.isAlive m.1 = true)
    (same : ∀ k c, (∃ cpu, (k, cpu) ∈ ms ∧ cfg.slot cpu = c) ↔
      ∃ cpu, (k, cpu) ∈ ms' ∧ cfg.slot cpu = c) : h.markAll ms = h.markAll ms' := by
  have first := marks_all tracked distinct fun m member => known m (List.mem_append_left _ member)
  have second := marks_all tracked distinct fun m member => known m (List.mem_append_right _ member)
  have reach (c : Fin cfg.slots) (j : Nat) : (∃ m ∈ ms, cfg.slot m.2 = c ∧ j ∈ h.chain m.1) ↔
      ∃ m ∈ ms', cfg.slot m.2 = c ∧ j ∈ h.chain m.1 := by
    constructor
    · rintro ⟨⟨k, cpu⟩, member, slot, above⟩
      obtain ⟨other, found, at_c⟩ := (same k c).mp ⟨cpu, member, slot⟩
      exact ⟨(k, other), found, at_c, above⟩
    · rintro ⟨⟨k, cpu⟩, member, slot, above⟩
      obtain ⟨other, found, at_c⟩ := (same k c).mpr ⟨cpu, member, slot⟩
      exact ⟨(k, other), found, at_c, above⟩
  apply first.toOnlyLists.determined second.toOnlyLists
  case keyed =>
    intro c i j found
    exact (first.tracked.keyed found).2.1
  case keyed' =>
    intro c i j found
    exact (second.tracked.keyed found).2.1
  case lists =>
    intro c j
    rw [first.lists, second.lists, reach]
  case queued =>
    intro c j
    rw [first.queued, second.queued, reach]

/-- What one mark leads to: the list of one slot has gained the node and its living ancestors, its
    flags agree, and nothing else differs. -/
structure Gathered (h h' : Hierarchy cfg) (k : Nat) (c : Fin cfg.slots) : Prop
    extends OnlyLists h h' where
  entries : ∀ (id : NodeId) j, h'.queues[c][id]? = some j ↔
    h.queues[c][id]? = some j ∨ (h.node j).id = id ∧ h.Ascends k j
  flags : ∀ j, (h'.node j).queued[c] = true ↔ (h.node j).queued[c] = true ∨ h.Ascends k j
  agree : ∀ j, j < h.arena.size → h.isAlive j = true →
    ((h'.node j).queued[c] = true ↔ h'.lists c j)
  otherLists : ∀ d : Fin cfg.slots, d ≠ c → h'.queues[d] = h.queues[d]
  otherFlags : ∀ (d : Fin cfg.slots) j, d ≠ c → (h'.node j).queued[d] = (h.node j).queued[d]

theorem gathers (tracked : h.Tracked) (distinct : h.LiveDistinct) (inside : k < h.arena.size)
    (alive : h.isAlive k = true) (cpu : Cpu) : Gathered h (h.mark k cpu) k (cfg.slot cpu) := by
  have apart := distinct.chain tracked.filed inside alive
  have marked := mark_enqueues tracked inside alive apart cpu
  have after := tracked.mark inside alive apart cpu
  have living := marked.alive fun j member => chain_alive alive member
  have entry (d : Fin cfg.slots) (id : NodeId) (j : Nat) :
      (h.mark k cpu).queues[d][id]? = some j ↔
        h.queues[d][id]? = some j ∨ d = cfg.slot cpu ∧ (h.node j).id = id ∧ h.Ascends k j := by
    rw [after.entry, tracked.entry, marked.lists, marked.id, mem_chain_iff_ascends]
    tauto
  constructor
  case toOnlyLists => exact marked.toOnlyLists
  case entries =>
    intro id j
    rw [entry]
    simp
  case flags =>
    intro j
    rw [marked.queued, mem_chain_iff_ascends]
    simp
  case agree =>
    intro j known live
    refine ⟨after.flagged (Nat.lt_of_lt_of_eq known marked.size.symm) ((living j).trans live), ?_⟩
    exact after.queued
  case otherLists =>
    intro d other
    refine Std.ExtTreeMap.ext_getElem? fun id => Option.ext fun j => ?_
    exact (entry d id j).trans (or_iff_left fun both => other both.1)
  case otherFlags =>
    intro d j other
    refine Bool.eq_iff_iff.mpr ?_
    rw [marked.queued]
    simp [other]

/-- Where the lists are in order, marking a living node is what a walk through all its living ancestors
    would be, and marking it again does nothing more. Marks one after another come to a state that
    depends only on which nodes are marked on which slots. -/
theorem marking_needs_no_whole_walk (formed : h.WellFormed) :
    (∀ k cpu, k < h.arena.size → h.isAlive k = true →
      h.mark k cpu = h.markThrough k cpu ∧ Gathered h (h.mark k cpu) k (cfg.slot cpu) ∧
        (h.mark k cpu).mark k cpu = h.mark k cpu) ∧
    ∀ ms ms' : List (Nat × Cpu),
      (∀ m ∈ ms ++ ms', m.1 < h.arena.size ∧ h.isAlive m.1 = true) →
      (∀ k c, (∃ cpu, (k, cpu) ∈ ms ∧ cfg.slot cpu = c) ↔
        ∃ cpu, (k, cpu) ∈ ms' ∧ cfg.slot cpu = c) →
      h.markAll ms = h.markAll ms' := by
  have tracked := formed.tracked
  have distinct := formed.live
  refine ⟨fun k cpu inside alive => ?_, fun ms ms' known same => ?_⟩
  · refine ⟨mark_eq_through tracked distinct inside alive cpu,
      gathers tracked distinct inside alive cpu, ?_⟩
    have twice : h.markAll [(k, cpu), (k, cpu)] = h.markAll [(k, cpu)] :=
      marks_determined tracked distinct (by simp [inside, alive]) (by simp)
    exact twice
  · exact marks_determined tracked distinct known same

end Hierarchy

namespace Session

open Hierarchy

/-- Two nodes are referred to after they have left the tree, and a third above them is gone. -/
def orphanSteps : List Step :=
  [.create NodeId.root "job", .create ⟨2⟩ "task", .create ⟨3⟩ "part", .hold ⟨3⟩ "task",
    .hold ⟨4⟩ "part", .add ⟨3⟩ ⟨0⟩ 1, .detach ⟨4⟩, .detach ⟨3⟩, .flush, .detach ⟨2⟩]

theorem marking_below_lost_parent :
    let h := ((start ⟨2⟩).run orphanSteps).hierarchy
    let c := Config.slot ⟨2⟩ ⟨5⟩
    h.mark 3 ⟨5⟩ = h.markThrough 3 ⟨5⟩ ∧ (h.mark 3 ⟨5⟩).lists c 2 ∧ ¬ (h.mark 3 ⟨5⟩).lists c 1 ∧
      h.markAll [(3, ⟨5⟩), (0, ⟨2⟩), (3, ⟨1⟩)] = h.markAll [(0, ⟨0⟩), (3, ⟨3⟩)] := by
  intro h c
  have distinct : h.Distinct := by decide +kernel
  have tracked : h.Tracked := (run_in_order ⟨2⟩ orphanSteps fun _ _ parted =>
    (distinct_all_along distinct parted).live).tracked
  have alive : ∀ k ∈ [0, 3], k < h.arena.size ∧ h.isAlive k = true := by decide +kernel
  obtain ⟨one, orders⟩ := marking_needs_no_whole_walk (tracked.well_formed distinct.live)
  obtain ⟨same, gathered, _⟩ := one 3 ⟨5⟩ (alive 3 (by simp)).1 (alive 3 (by simp)).2
  have up : h.Ascends 3 2 := .single (by decide +kernel)
  have gone : (h.mark 3 ⟨5⟩).queues[c][((h.mark 3 ⟨5⟩).node 1).id]? = none := by decide +kernel
  refine ⟨same, ?_, ?_, orders _ _ ?_ ?_⟩
  · rw [Hierarchy.lists, gathered.id]
    exact (gathered.entries _ 2).mpr (Or.inr ⟨rfl, up⟩)
  · rw [Hierarchy.lists, gone]
    simp
  · intro m member
    refine alive m.1 ?_
    simp only [List.cons_append, List.nil_append, List.mem_cons, List.not_mem_nil, or_false] at member
    rcases member with rfl | rfl | rfl | rfl | rfl <;> simp
  · intro k slot
    have odd : Config.slot ⟨2⟩ ⟨5⟩ = Config.slot ⟨2⟩ ⟨3⟩ ∧
        Config.slot ⟨2⟩ ⟨1⟩ = Config.slot ⟨2⟩ ⟨3⟩ := by decide
    have even : Config.slot ⟨2⟩ ⟨2⟩ = Config.slot ⟨2⟩ ⟨0⟩ := by decide
    simp only [List.mem_cons, Prod.mk.injEq, List.not_mem_nil, or_false]
    constructor
    · rintro ⟨_, ⟨rfl, rfl⟩ | ⟨rfl, rfl⟩ | ⟨rfl, rfl⟩, at_slot⟩
      · exact ⟨⟨3⟩, by simp, odd.1 ▸ at_slot⟩
      · exact ⟨⟨0⟩, by simp, even ▸ at_slot⟩
      · exact ⟨⟨3⟩, by simp, odd.2 ▸ at_slot⟩
    · rintro ⟨_, ⟨rfl, rfl⟩ | ⟨rfl, rfl⟩, at_slot⟩
      · exact ⟨⟨2⟩, by simp, even ▸ at_slot⟩
      · exact ⟨⟨5⟩, by simp, odd.1 ▸ at_slot⟩

end Session

end Rollup
