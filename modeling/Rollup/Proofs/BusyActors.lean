import Mathlib
import Rollup.Proofs.ActorCounts
import Rollup.Proofs.ListsInOrder
import Rollup.Proofs.SummedGains

/-!
Actors that work at the same time. Each counts its event and marks its node some time later, and the
steps of different actors may come in any order (`Busy`). Wherever they end, every actor has counted
once and every node with an actor is queued with its ancestors, so the next flush finds the same
whatever the order was and whatever CPUs they ran on.

What that flush folds besides are the events that were afloat before at queued nodes, and those at
nodes that no list had any more and the actors have queued again.
-/
namespace Rollup

namespace Hierarchy

variable {cfg : Config} {h g g' : Hierarchy cfg} {n m k : Nat} {ids : List NodeId}
  {handles : List Handle} {perNode : Nat} {idle counted crew : List (Handle × Cpu)}

/-- Actors on nodes of the tree at work. Those of the first list have not begun, those of the second
    have counted their event and not yet marked their node. Any of them may go on next. -/
inductive Busy :
    List (Handle × Cpu) → List (Handle × Cpu) → Hierarchy cfg → Hierarchy cfg → Prop where
  | done {h : Hierarchy cfg} : Busy [] [] h h
  | count {idle rest counted : List (Handle × Cpu)} {a : Handle × Cpu} {h g : Hierarchy cfg} :
      idle.Perm (a :: rest) → Busy rest (a :: counted) (h.count a.1.key a.2 1) g →
      Busy idle counted h g
  | mark {idle counted rest : List (Handle × Cpu)} {a : Handle × Cpu} {h g : Hierarchy cfg} :
      counted.Perm (a :: rest) → Busy idle rest (h.mark a.1.key a.2) g → Busy idle counted h g

theorem work_busy (live : ∀ a ∈ crew, (h.node a.1.key).removed = false) :
    Busy crew [] h (Actors.work h crew) := by
  induction crew generalizing h with
  | nil => exact .done
  | cons a rest ih =>
    have shape := same_shape_record h a.1.key a.2 1
    have later := ih (h := h.record a.1.key a.2 1) fun b member =>
      (shape.removed b.1.key).trans (live b (by simp [member]))
    rw [record_of_live (live a (by simp))] at later
    have first : Actors.work h (a :: rest) = Actors.work (h.record a.1.key a.2 1) rest := rfl
    rw [first, record_of_live (live a (by simp))]
    exact .count (.refl _) (.mark (.refl _) later)

structure Brought (h g : Hierarchy cfg) (counted marked : List (Handle × Cpu)) : Prop
    extends SameShape h g where
  chain : ∀ k, g.chain k = h.chain k
  due : ∀ k, k ∈ g.due ↔ k ∈ h.due ∨ ∃ a ∈ marked, k ∈ h.chain a.1.key
  afloat : ∀ k, g.afloat k = h.afloat k + tally counted k
  total : ∀ k, g.total k = h.total k

namespace Brought

variable {cs cs' ms ms' : List (Handle × Cpu)}

theorem refl (h : Hierarchy cfg) : Brought h h [] [] where
  toSameShape := .refl h
  chain _ := rfl
  due k := by simp
  afloat k := by simp [tally]
  total _ := rfl

theorem trans (first : Brought h g cs ms) (second : Brought g g' cs' ms') :
    Brought h g' (cs ++ cs') (ms ++ ms') where
  toSameShape := first.toSameShape.trans second.toSameShape
  chain k := (second.chain k).trans (first.chain k)
  due k := by
    simp only [second.due, first.due, first.chain, List.mem_append, or_and_right, exists_or,
      or_assoc]
  afloat k := by
    rw [second.afloat, first.afloat, tally, tally, tally, List.map_append, List.count_append,
      Nat.add_assoc]
  total k := (second.total k).trans (first.total k)

theorem perm (brought : Brought h g cs ms) (counts : cs.Perm cs') (marks : ms.Perm ms') :
    Brought h g cs' ms' where
  toSameShape := brought.toSameShape
  chain := brought.chain
  due k := by simp only [brought.due, marks.mem_iff]
  afloat k := by rw [brought.afloat, tally, tally, (counts.map _).count_eq]
  total := brought.total

end Brought

structure Ready (n : Nat) (h : Hierarchy cfg) : Prop extends Endowed n h where
  tracked : h.Tracked
  distinct : h.LiveDistinct

theorem Ready.counts (ready : Ready (n + 1) h) {a : Handle × Cpu} (member : a.1.key ∈ h.keys) :
    Ready n (h.count a.1.key a.2 1) ∧ Brought h (h.count a.1.key a.2 1) [a] [] := by
  obtain ⟨inside, live⟩ := ready.shaped.key_of_mem member
  have one : (1 : UInt64).toNat = 1 := rfl
  have room : h.recordings + (1 : UInt64).toNat < UInt64.size := by
    have room := ready.room
    omega
  have done := ready.solvent.counted inside room a.2
  have stays : Fades h (h.count a.1.key a.2 1) := .update (fun _ => rfl) fun _ => rfl
  refine ⟨⟨endowed_custody.count a.2 ready.toEndowed inside, ready.tracked.update (fun _ => rfl)
    (fun _ => rfl) fun _ => rfl, ready.distinct.fades stays⟩, done.toSameShape, ?_, ?_, ?_, ?_⟩
  · exact chain_congr (parent_same done.toSameShape rfl rfl)
  · intro k
    simp only [mem_due, done.size, lists_count]
    simp
  · intro k
    rw [afloat, afloat, done.undrained ready.solvent, done.pending_eq, tally, List.map_singleton,
      List.count_singleton, one]
    simp only [beq_iff_eq, eq_comm (a := a.1.key)]
    omega
  · intro k
    rw [done.total_eq]

theorem Ready.marks (ready : Ready n h) {a : Handle × Cpu} (member : a.1.key ∈ h.keys) :
    Ready n (h.mark a.1.key a.2) ∧ Brought h (h.mark a.1.key a.2) [] [a] := by
  obtain ⟨inside, live⟩ := ready.shaped.key_of_mem member
  have alive := alive_of_live live
  have apart := ready.distinct.chain ready.tracked.filed inside alive
  have marked := mark_enqueues ready.tracked inside alive apart a.2
  have living := marked.alive fun j above => chain_alive alive above
  refine ⟨⟨(endowed_tending n).mark a.2 ready.toEndowed trivial inside alive,
    ready.tracked.mark inside alive apart a.2, ready.distinct.fades (.mark alive a.2)⟩,
    marked.toSameShape, ?_, ?_, ?_, ?_⟩
  · exact chain_congr fun j => parent_congr (marked.parent j) fun p _ => living p
  · intro k
    simp only [mem_due, marked.size, marked.lists, List.mem_singleton, exists_eq_left]
    constructor
    · rintro ⟨known, c, old | ⟨-, above⟩⟩
      · exact .inl ⟨known, c, old⟩
      · exact .inr above
    · rintro (⟨known, c, old⟩ | above)
      · exact ⟨known, c, .inl old⟩
      · exact ⟨chain_inside inside above, _, .inr ⟨rfl, above⟩⟩
  · intro k
    simp only [afloat, undrained, pending, marked.counter, marked.pending]
    rfl
  · intro k
    rw [total, marked.total]
    rfl

theorem Busy.brings (busy : Busy idle counted h g) (ready : Ready idle.length h)
    (known : ∀ a ∈ idle ++ counted, a.1.key ∈ h.keys) :
    Ready 0 g ∧ Brought h g idle (idle ++ counted) := by
  induction busy with
  | done => exact ⟨ready, .refl _⟩
  | @count idle rest counted a h g order _ ih =>
    rw [order.length_eq, List.length_cons] at ready
    obtain ⟨next, first⟩ := ready.counts (known a (by simp [order.mem_iff]))
    have moved : (rest ++ a :: counted).Perm (idle ++ counted) :=
      List.perm_middle.trans (order.symm.append_right counted)
    obtain ⟨last, later⟩ := ih next fun b member => by
      rw [first.keys]
      exact known b (moved.mem_iff.mp member)
    exact ⟨last, (first.trans later).perm order.symm moved⟩
  | @mark idle counted rest a h g order _ ih =>
    obtain ⟨next, first⟩ := ready.marks (known a (by simp [order.mem_iff]))
    have moved : (a :: (idle ++ rest)).Perm (idle ++ counted) :=
      List.perm_middle.symm.trans (order.symm.append_left idle)
    obtain ⟨last, later⟩ := ih next fun b member => by
      have among : b ∈ a :: (idle ++ rest) := List.mem_cons_of_mem _ member
      rw [first.keys]
      exact known b (moved.mem_iff.mp among)
    exact ⟨last, (first.trans later).perm (.refl _) moved⟩

/-- Whether a node is the one with this id or above it. -/
def covers (h : Hierarchy cfg) (n : Nat) (id : NodeId) : Bool :=
  h.index[id]?.any fun k => n ∈ h.chain k

def roused (h : Hierarchy cfg) (ids : List NodeId) (perNode : Nat) : Finset Nat :=
  {m ∈ Finset.range h.arena.size | 0 < perNode ∧ ids.any (h.covers m) = true}

theorem resolve_known (known : ∀ id ∈ ids, h.index.contains id = true) :
    ∃ handles, Actors.resolve h ids = .ok handles ∧
      handles.map (fun handle => some handle.key) = ids.map (h.index[·]?) := by
  induction ids with
  | nil => exact ⟨[], rfl, rfl⟩
  | cons id ids ih =>
    obtain ⟨first, rest⟩ := List.forall_mem_cons.mp known
    obtain ⟨handles, run, keys⟩ := ih rest
    obtain ⟨k, found⟩ := Option.isSome_iff_exists.mp (Std.ExtTreeMap.isSome_getElem?_iff_mem.mpr
      (Std.ExtTreeMap.mem_iff_contains.mpr first))
    refine ⟨⟨k⟩ :: handles, by simp only [Actors.resolve, find, found, run], ?_⟩
    rw [List.map_cons, List.map_cons, keys, found]

theorem resolve_stops {before after : List NodeId} {id : NodeId}
    (known : ∀ i ∈ before, h.index.contains i = true) (absent : h.index.contains id = false) :
    Actors.resolve h (before ++ id :: after) = .error (.notFound id) := by
  induction before with
  | nil =>
    have none : h.index[id]? = none := index_lacks.mp absent
    simp only [List.nil_append, Actors.resolve, find, none]
  | cons first before ih =>
    obtain ⟨head, rest⟩ := List.forall_mem_cons.mp known
    obtain ⟨k, found⟩ := Option.isSome_iff_exists.mp (Std.ExtTreeMap.isSome_getElem?_iff_mem.mpr
      (Std.ExtTreeMap.mem_iff_contains.mpr head))
    simp only [List.cons_append, Actors.resolve, find, found, ih rest]

theorem sum_tally {among : Finset Nat} (within : ∀ a ∈ crew, a.1.key ∈ among) (p : Nat → Prop)
    [DecidablePred p] :
    ∑ m ∈ among with p m, tally crew m = (crew.map fun a => a.1.key).countP p := by
  rw [← Finset.sum_filter_count_eq_countP]
  symm
  apply Finset.sum_subset
  · apply Finset.filter_subset_filter
    intro k member
    obtain ⟨a, known, rfl⟩ := List.mem_map.mp (List.mem_toFinset.mp member)
    exact within a known
  · intro m member other
    obtain ⟨_, holds⟩ := Finset.mem_filter.mp member
    refine List.count_eq_zero.mpr fun listed => other ?_
    exact Finset.mem_filter.mpr ⟨List.mem_toFinset.mpr listed, holds⟩

theorem count_repeated (ks : List Nat) (perNode : Nat) (p : Nat → Bool) :
    (ks.flatMap fun k => List.replicate perNode k).countP p = perNode * ks.countP p := by
  induction ks with
  | nil => simp
  | cons k rest ih =>
    rw [List.flatMap_cons, List.countP_append, ih, List.countP_replicate, List.countP_cons]
    split <;> simp [Nat.mul_add, Nat.add_comm]

section
variable (resolved : handles.map (fun handle => some handle.key) = ids.map (h.index[·]?))
include resolved

theorem count_covered (n : Nat) :
    (handles.map Handle.key).countP (fun k => n ∈ h.chain k) = ids.countP (h.covers n) := by
  have both := congrArg (List.countP fun entry : Option Nat =>
    entry.any fun k => n ∈ h.chain k) resolved
  rw [List.countP_map, List.countP_map] at both
  rw [List.countP_map]
  exact both

theorem length_enrol : (Actors.enrol handles perNode).length = ids.length * perNode := by
  have same := congrArg List.length resolved
  rw [List.length_map, List.length_map] at same
  simp [Actors.enrol, same]

theorem attach_of_resolved (run : Actors.resolve h ids = .ok handles) (placement : Nat → Cpu) :
    Actors.attach h ids perNode placement =
      (Actors.work h (actorsOn (handles.map Handle.key) perNode placement),
        .ok (ids.length * perNode)) := by
  rw [actorsOn, handles_of_keys]
  simp only [Actors.attach, run, length_enrol resolved]

variable (enrolled : crew.map Prod.fst = Actors.enrol handles perNode)
include enrolled

omit resolved in
theorem keys_crew : (crew.map fun a => a.1.key) =
    (handles.map Handle.key).flatMap fun k => List.replicate perNode k := by
  rw [← keys_enrol, ← enrolled, List.map_map]
  rfl

theorem length_crew : crew.length = ids.length * perNode := by
  rw [← List.length_map (f := Prod.fst), enrolled, length_enrol resolved]

theorem crew_known {a : Handle × Cpu} (member : a ∈ crew) : a.1.key ∈ h.keys := by
  have listed := List.mem_map_of_mem (f := fun a => a.1.key) member
  rw [keys_crew enrolled] at listed
  obtain ⟨k, among, copies⟩ := List.mem_flatMap.mp listed
  rw [List.eq_of_mem_replicate copies]
  obtain ⟨handle, taken, rfl⟩ := List.mem_map.mp among
  have entry := List.mem_map_of_mem (f := fun handle : Handle => some handle.key) taken
  rw [resolved] at entry
  obtain ⟨id, _, found⟩ := List.mem_map.mp entry
  exact IdMap.mem_values.mpr ⟨id, found⟩

theorem count_crew (n : Nat) : (crew.map fun a => a.1.key).countP (fun k => n ∈ h.chain k) =
    perNode * ids.countP (h.covers n) := by
  rw [keys_crew enrolled, count_repeated, count_covered resolved]

theorem crew_covers (n : Nat) : (∃ a ∈ crew, n ∈ h.chain a.1.key) ↔
    0 < perNode ∧ ids.any (h.covers n) = true := by
  calc (∃ a ∈ crew, n ∈ h.chain a.1.key)
      ↔ 0 < (crew.map fun a => a.1.key).countP (fun k => n ∈ h.chain k) := by
        simp [List.countP_pos_iff]
    _ ↔ 0 < perNode ∧ ids.any (h.covers n) = true := by
        rw [count_crew resolved enrolled, CanonicallyOrderedAdd.mul_pos, List.countP_pos_iff,
          List.any_eq_true]

theorem Brought.due_eq (brought : Brought h g crew crew) :
    g.due = h.due ∪ h.roused ids perNode := by
  ext k
  rw [Finset.mem_union, brought.due, crew_covers resolved enrolled, roused, Finset.mem_filter,
    Finset.mem_range]
  refine or_congr_right (iff_and_self.mpr fun above => ?_)
  have queued := (brought.due k).mpr (.inr ((crew_covers resolved enrolled k).mpr above))
  exact brought.size ▸ (mem_due.mp queued).1

/-- What the next flush gives a node: what was afloat at nodes that were queued before, what was
    afloat at those that actors have queued, and the actors' own events. -/
theorem Brought.stock_eq (brought : Brought h g crew crew) (n : Nat) :
    g.stock g.due n = h.stock h.due n + h.stock (h.roused ids perNode \ h.due) n +
      perNode * ids.countP (h.covers n) := by
  have within (a : Handle × Cpu) (member : a ∈ crew) : a.1.key ∈ g.due :=
    (brought.due _).mpr (.inr ⟨a, member, self_mem_chain h _⟩)
  have events : ∑ m ∈ g.due with n ∈ h.chain m, tally crew m = perNode * ids.countP (h.covers n) :=
    (sum_tally within _).trans (count_crew resolved enrolled n)
  have parts : h.stock g.due n = h.stock h.due n + h.stock (h.roused ids perNode \ h.due) n := by
    rw [brought.due_eq resolved enrolled, stock_union]
  calc g.stock g.due n = ∑ m ∈ g.due with n ∈ h.chain m, (h.afloat m + tally crew m) := by
        simp only [stock, brought.chain, brought.afloat]
    _ = h.stock g.due n + ∑ m ∈ g.due with n ∈ h.chain m, tally crew m := Finset.sum_add_distrib
    _ = _ := by rw [events, parts]

theorem Busy.flushed (busy : Busy crew [] h g) (ready : Ready crew.length h) :
    ∃ after sum, g.flush = (after, .ok sum) ∧ ∀ n,
      after.total n = h.total n + h.stock h.due n + h.stock (h.roused ids perNode \ h.due) n +
        perNode * ids.countP (h.covers n) := by
  obtain ⟨last, brought⟩ := busy.brings ready fun a member =>
    crew_known resolved enrolled (by simpa using member)
  rw [List.append_nil] at brought
  obtain ⟨after, sum, flush, totals⟩ := flush_stocks last.tracked last.toEndowed
  refine ⟨after, sum, flush, fun n => ?_⟩
  rw [totals, brought.total, brought.stock_eq resolved enrolled]
  omega

end

theorem stock_elsewhere (dirty : ∀ m, h.afloat m ≠ 0 → m ∈ h.due) (among : Finset Nat) (n : Nat) :
    h.stock (among \ h.due) n = 0 := by
  refine Finset.sum_eq_zero fun m member => ?_
  by_contra some_event
  have outside := (Finset.mem_sdiff.mp (Finset.mem_filter.mp member).1).2
  exact outside (dirty m some_event)

end Hierarchy

namespace Session

open Hierarchy

theorem ready_for_actors {cfg : Config} {steps : List Step} {ids : List NodeId} {perNode : Nat}
    {handles : List Handle} (formed : ((start cfg).run steps).hierarchy.WellFormed)
    (run : Actors.resolve ((start cfg).run steps).hierarchy ids = .ok handles)
    (fits : (start cfg).given (steps ++ [.actors ids perNode]) < UInt64.size) :
    Ready (ids.length * perNode) ((start cfg).run steps).hierarchy := by
  have begins : Healthy (Endowed ((start cfg).given (steps ++ [.actors ids perNode])))
      (start cfg) := ⟨.start cfg fits, Referenced.start cfg⟩
  have endowed := (run_endowed begins).kept
  have brings : ((start cfg).run steps).given [.actors ids perNode] = ids.length * perNode := by
    simp only [given, Session.brings, run, Nat.add_zero]
  rw [brings] at endowed
  exact ⟨endowed, formed.tracked, formed.live⟩

/-- Actors on nodes of which one is unknown do nothing, and the fault names the first such id. When
    all are known, whatever CPUs the actors run on and in whatever order their steps come, there are
    so many of them at each position, and the next flush gives every node what was afloat at queued
    nodes at or below it and so many events for each position of an id at or below it. Besides, it
    gives what was afloat at nodes that no list had and the actors have queued. That is nothing where
    every node with events afloat was queued. -/
theorem actors_all_or_none (cfg : Config) (steps : List Step) (ids : List NodeId) (perNode : Nat) :
    let h := ((start cfg).run steps).hierarchy
    (∀ before id after, ids = before ++ id :: after →
      (∀ i ∈ before, h.index.contains i = true) → h.index.contains id = false →
      ∀ placement, Actors.attach h ids perNode placement = (h, .error (.notFound id))) ∧
    ((∀ id ∈ ids, h.index.contains id = true) → ∃ handles, Actors.resolve h ids = .ok handles ∧
      (∀ placement, ∃ crew g, crew.map Prod.fst = Actors.enrol handles perNode ∧
        Busy crew [] h g ∧
        Actors.attach h ids perNode placement = (g, .ok (ids.length * perNode))) ∧
      ∀ crew g, crew.map Prod.fst = Actors.enrol handles perNode → Busy crew [] h g →
        crew.length = ids.length * perNode ∧
        (h.WellFormed → (start cfg).given (steps ++ [.actors ids perNode]) < UInt64.size →
          ∃ after sum, g.flush = (after, .ok sum) ∧ ∀ n,
            after.total n = h.total n + h.stock h.due n +
              h.stock (h.roused ids perNode \ h.due) n + perNode * ids.countP (h.covers n) ∧
            ((∀ m, h.afloat m ≠ 0 → m ∈ h.due) →
              h.stock (h.roused ids perNode \ h.due) n = 0))) := by
  intro h
  have charted : h.Charted := run_charted cfg steps
  refine ⟨?_, fun known => ?_⟩
  · rintro before id after rfl known absent placement
    simp only [Actors.attach, resolve_stops known absent]
  · obtain ⟨handles, run, resolved⟩ := resolve_known known
    refine ⟨handles, run, fun placement => ?_, fun crew g enrolled busy => ⟨?_, ?_⟩⟩
    · have enrolled := actors_on_enrol (handles.map Handle.key) perNode placement
      rw [handles_of_keys] at enrolled
      refine ⟨_, _, enrolled, work_busy fun a member => ?_,
        attach_of_resolved resolved run placement⟩
      exact (charted.toShaped.key_of_mem (crew_known resolved enrolled member)).2
    · exact length_crew resolved enrolled
    · intro formed fits
      have ready : Ready crew.length h := by
        rw [length_crew resolved enrolled]
        exact ready_for_actors formed run fits
      obtain ⟨after, sum, flush, totals⟩ := busy.flushed resolved enrolled ready
      exact ⟨after, sum, flush, fun n => ⟨totals n, fun dirty => stock_elsewhere dirty _ n⟩⟩

def partlyDrainedSteps : List Step :=
  [.create NodeId.root "job", .create ⟨2⟩ "task", .add ⟨3⟩ ⟨1⟩ 5, .drain, .add ⟨2⟩ ⟨0⟩ 3]

theorem actors_after_drain :
    let h := ((start ⟨2⟩).run partlyDrainedSteps).hierarchy
    ∃ g after sum, Busy [(⟨2⟩, ⟨0⟩), (⟨1⟩, ⟨1⟩), (⟨2⟩, ⟨1⟩)] [] h g ∧ g.flush = (after, .ok sum) ∧
      after.total 0 = 11 ∧ after.total 1 = 11 ∧ after.total 2 = 7 ∧
      Actors.attach h [⟨3⟩, ⟨9⟩, ⟨8⟩] 3 (fun _ => ⟨0⟩) = (h, .error (.notFound ⟨9⟩)) := by
  intro h
  have distinct : h.Distinct := by decide +kernel
  have tracked : h.Tracked := (run_in_order ⟨2⟩ partlyDrainedSteps fun _ _ parted =>
    (distinct_all_along distinct parted).live).tracked
  obtain ⟨refused, -⟩ := actors_all_or_none ⟨2⟩ partlyDrainedSteps [⟨3⟩, ⟨9⟩, ⟨8⟩] 3
  obtain ⟨-, accepted⟩ := actors_all_or_none ⟨2⟩ partlyDrainedSteps [⟨3⟩, ⟨2⟩, ⟨3⟩] 1
  obtain ⟨handles, run, -, counted⟩ := accepted (by decide +kernel)
  have known : handles = [⟨2⟩, ⟨1⟩, ⟨2⟩] := by
    have found : Actors.resolve h [⟨3⟩, ⟨2⟩, ⟨3⟩] = .ok [⟨2⟩, ⟨1⟩, ⟨2⟩] := by decide +kernel
    exact Except.ok.inj (run.symm.trans found)
  have counts : [(⟨2⟩, ⟨0⟩), (⟨1⟩, ⟨1⟩), (⟨2⟩, ⟨1⟩)].Perm
      [((⟨1⟩ : Handle), (⟨1⟩ : Cpu)), (⟨2⟩, ⟨0⟩), (⟨2⟩, ⟨1⟩)] := by decide
  have marks : [(⟨2⟩, ⟨1⟩), (⟨2⟩, ⟨0⟩), (⟨1⟩, ⟨1⟩)].Perm
      [((⟨1⟩ : Handle), (⟨1⟩ : Cpu)), (⟨2⟩, ⟨1⟩), (⟨2⟩, ⟨0⟩)] := by decide
  have busy : Busy [(⟨2⟩, ⟨0⟩), (⟨1⟩, ⟨1⟩), (⟨2⟩, ⟨1⟩)] [] h _ :=
    .count counts <| .count (.refl _) <| .count (.refl _) <|
      .mark marks <| .mark (.refl _) <| .mark (.refl _) .done
  obtain ⟨-, flushed⟩ := counted _ _ (by rw [known]; rfl) busy
  obtain ⟨after, sum, flush, totals⟩ := flushed (tracked.well_formed distinct.live)
    (by decide +kernel)
  refine ⟨_, after, sum, busy, flush, (totals 0).1.trans ?_, (totals 1).1.trans ?_,
    (totals 2).1.trans ?_, refused [⟨3⟩] ⟨9⟩ [⟨8⟩] rfl (by decide +kernel) (by decide +kernel) _⟩
  · decide +kernel
  · decide +kernel
  · decide +kernel

def drainedSteps : List Step :=
  [.create NodeId.root "a", .create NodeId.root "b", .add ⟨2⟩ ⟨0⟩ 5, .add ⟨3⟩ ⟨0⟩ 7, .drain]

def rivalSteps : List Step :=
  [.create NodeId.root "job", .hold ⟨2⟩ "job", .remove ⟨2⟩, .heldCount "job" ⟨0⟩ 5,
    .heldMark "job" ⟨0⟩, .createWithId ⟨2⟩ NodeId.root "task"]

/-- An actor brings back what was afloat at its node and on no list, whereas that of other nodes
    stays out. Actors at a node that shares its id with a queued one make the flush miss this. -/
theorem drained_events_come_back :
    (let h := ((start ⟨1⟩).run drainedSteps).hierarchy
     let after := (Actors.attach h [⟨3⟩] 1 fun _ => ⟨0⟩).1.flush.1
     after.total 2 ≠ h.total 2 + h.stock h.due 2 + 1 * [⟨3⟩].countP (h.covers 2) ∧
     after.total 1 ≠ h.total 1 + h.stock (Finset.range h.arena.size) 1 +
       1 * [⟨3⟩].countP (h.covers 1)) ∧
    (let h := ((start ⟨1⟩).run rivalSteps).hierarchy
     let after := (Actors.attach h [⟨2⟩] 3 fun _ => ⟨0⟩).1.flush.1
     after.total 0 ≠ h.total 0 + h.stock h.due 0 + 3 * [⟨2⟩].countP (h.covers 0)) := by
  decide +kernel

end Session

end Rollup
