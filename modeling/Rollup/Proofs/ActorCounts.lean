import Mathlib
import Rollup.Proofs.BalancedBooks
import Rollup.Proofs.KeptBooks

/-!
What actors count. Actors on nodes of the tree bring one event each to their node, whatever CPUs
they run on, and after the flush of a worker of one's own every total is the number of actors at the
node and below it (`counted_by_actors`).
-/
namespace Rollup

namespace Hierarchy

variable {cfg : Config} {h h' : Hierarchy cfg} {K D : Hierarchy cfg → Prop}

theorem same_shape_record (h : Hierarchy cfg) (k : Nat) (cpu : Cpu) (delta : UInt64) :
    SameShape h (h.record k cpu delta) := by
  unfold record
  split
  · exact .refl h
  · have counted : SameShape h (h.count k cpu delta) :=
      same_shape_update (fun _ => rfl) (fun _ => rfl)
    exact counted.trans (only_lists_mark (h.count k cpu delta) k cpu).toSameShape

def tally (actors : List (Handle × Cpu)) (k : Nat) : Nat := (actors.map fun a => a.1.key).count k

theorem Upkeep.works (upkeep : Upkeep K D) (kept : K h)
    (ready : ∀ h', SameShape h h' → D h') {actors : List (Handle × Cpu)}
    (member : ∀ a ∈ actors, a.1.key ∈ h.keys)
    (fits : h.recordings + actors.length < UInt64.size) :
    Advanced K h (Actors.work h actors) (tally actors) ∧ SameShape h (Actors.work h actors) := by
  induction actors generalizing h with
  | nil => exact ⟨.stay kept, .refl h⟩
  | cons a rest ih =>
    rw [List.length_cons] at fits
    obtain ⟨inside, live⟩ := (upkeep.sound kept).shaped.key_of_mem (member a (by simp))
    have one : (1 : UInt64).toNat = 1 := rfl
    have shape := same_shape_record h a.1.key a.2 1
    have here : h.recordings + (1 : UInt64).toNat < UInt64.size := by
      rw [one]
      omega
    obtain ⟨first, _⟩ := upkeep.records kept (ready h (.refl h)) inside live here a.2
    have more : (h.record a.1.key a.2 1).recordings ≤ h.recordings + 1 := by
      rw [first.recordings, Finset.sum_ite_eq', one]
      split <;> omega
    obtain ⟨later, same⟩ := ih first.kept (fun h' next => ready h' (shape.trans next))
      (fun b among => by rw [shape.keys]; exact member b (by simp [among])) (by omega)
    have whole := first.trans later
    have split : (fun k => (if k = a.1.key then (1 : UInt64).toNat else 0) + tally rest k) =
        tally (a :: rest) := by
      funext k
      simp only [tally, List.map_cons, List.count_cons, beq_iff_eq, one, eq_comm (a := k)]
      omega
    rw [split] at whole
    exact ⟨whole, shape.trans same⟩

theorem resolve_members (charted : ∀ k ∈ h.keys, h.index[(h.node k).id]? = some k) {ks : List Nat}
    (member : ∀ k ∈ ks, k ∈ h.keys) :
    Actors.resolve h (ks.map fun k => (h.node k).id) = .ok (ks.map Handle.mk) := by
  induction ks with
  | nil => rfl
  | cons k rest ih =>
    have found := charted k (member k (by simp))
    have later := ih fun j among => member j (by simp [among])
    simp only [List.map_cons, Actors.resolve, find, found, later]

theorem keys_enrol (handles : List Handle) (perNode : Nat) :
    (Actors.enrol handles perNode).map Handle.key =
      (handles.map Handle.key).flatMap fun k => List.replicate perNode k := by
  simp [Actors.enrol, List.map_flatMap, List.flatMap_map]

theorem handles_of_keys (handles : List Handle) :
    (handles.map Handle.key).map Handle.mk = handles := by
  rw [List.map_map]
  exact List.map_id handles

def actorsOn (ks : List Nat) (perNode : Nat) (placement : Nat → Cpu) : List (Handle × Cpu) :=
  (Actors.enrol (ks.map Handle.mk) perNode).zipIdx.map fun (handle, i) => (handle, placement i)

section
variable (ks : List Nat) (perNode : Nat) (placement : Nat → Cpu)

theorem actors_on_enrol : (actorsOn ks perNode placement).map Prod.fst =
    Actors.enrol (ks.map Handle.mk) perNode := by
  rw [actorsOn, List.map_map]
  exact List.zipIdx_map_fst 0 _

theorem keys_actors_on : (actorsOn ks perNode placement).map (fun a => a.1.key) =
    ks.flatMap fun k => List.replicate perNode k := by
  have keys := keys_enrol (ks.map Handle.mk) perNode
  rw [← actors_on_enrol ks perNode placement, List.map_map, List.map_map] at keys
  exact keys.trans (congrArg _ (List.map_id ks))

theorem length_actors_on : (actorsOn ks perNode placement).length = ks.length * perNode := by
  rw [← List.length_map (f := fun a => a.1.key), keys_actors_on]
  simp

theorem mem_actors_on {a : Handle × Cpu} (member : a ∈ actorsOn ks perNode placement) :
    a.1.key ∈ ks := by
  have listed := List.mem_map_of_mem (f := fun a => a.1.key) member
  rw [keys_actors_on, List.mem_flatMap] at listed
  obtain ⟨k, among, copies⟩ := listed
  rwa [List.eq_of_mem_replicate copies]

theorem tally_actors_on :
    tally (actorsOn ks perNode placement) = fun k => perNode * ks.count k := by
  funext k
  rw [tally, keys_actors_on]
  induction ks with
  | nil => simp
  | cons j rest ih =>
    rw [List.flatMap_cons, List.count_append, ih, List.count_replicate, List.count_cons,
      Nat.mul_add, Nat.add_comm]
    by_cases same : j = k
    · simp [same]
    · simp [same]

end

theorem Upkeep.attaches_actors (upkeep : Upkeep K D) (kept : K h)
    (ready : ∀ h', SameShape h h' → D h') {ks : List Nat} (member : ∀ k ∈ ks, k ∈ h.keys)
    {perNode : Nat} (fits : h.recordings + ks.length * perNode < UInt64.size)
    (placement : Nat → Cpu) :
    ∃ after, Actors.attach h (ks.map fun k => (h.node k).id) perNode placement =
        (after, .ok (ks.length * perNode)) ∧
      Advanced K h after (fun k => perNode * ks.count k) ∧ SameShape h after := by
  have shaped := (upkeep.sound kept).shaped
  have entries (k : Nat) (among : k ∈ h.keys) : h.index[(h.node k).id]? = some k := by
    obtain ⟨inside, live⟩ := shaped.key_of_mem among
    exact shaped.present inside live
  have resolved := resolve_members entries member
  have known (a : Handle × Cpu) (among : a ∈ actorsOn ks perNode placement) : a.1.key ∈ h.keys :=
    member _ (mem_actors_on ks perNode placement among)
  have room : h.recordings + (actorsOn ks perNode placement).length < UInt64.size := by
    rw [length_actors_on]
    exact fits
  have worked := upkeep.works kept ready known room
  rw [tally_actors_on] at worked
  have count : (Actors.enrol (ks.map Handle.mk) perNode).length = ks.length * perNode := by
    rw [← length_actors_on ks perNode placement, actorsOn, List.length_map, List.length_zipIdx]
  refine ⟨_, ?_, worked⟩
  simp only [Actors.attach, resolved, count]
  rfl

theorem flush_sync_spawned (h : Hierarchy cfg) : (Worker.flushSync h .spawned 0).1 = h.flush.1 ∧
    (Worker.flushSync h .spawned 0).2.2 = h.flush.2 :=
  ⟨rfl, rfl⟩

theorem sum_counts_below {n : Nat} {ks : List Nat} (inside : ∀ k ∈ ks, k < h.arena.size)
    (perNode : Nat) : h.sumBelow n (fun m => perNode * ks.count m) =
      perNode * (ks.filter fun k => n ∈ h.lineage k).length := by
  rw [sumBelow, ← Finset.mul_sum]
  congr 1
  induction ks with
  | nil => simp
  | cons k rest ih =>
    have here := inside k (by simp)
    simp only [List.count_cons, beq_iff_eq, Finset.sum_add_distrib,
      ih fun j among => inside j (by simp [among]), Finset.sum_ite_eq, mem_below, here, true_and,
      List.filter_cons]
    by_cases above : n ∈ h.lineage k
    · simp [above]
    · simp [above]

/-- Actors on these nodes and then a flush: every total is the number of actors within, and the
    books balance. -/
theorem counted_by_actors (kept : h.Kept) (additive : h.Additive) (distinct : h.Distinct)
    (none : ∀ k, h.recorded k = 0) {ks : List Nat} (member : ∀ k ∈ ks, k ∈ h.keys)
    {perNode : Nat} (fits : ks.length * perNode < UInt64.size) (placement : Nat → Cpu) :
    ∃ between after sum, Actors.attach h (ks.map fun k => (h.node k).id) perNode placement =
        (between, .ok (ks.length * perNode)) ∧
      between.flush = (after, .ok sum) ∧ SameShape h after ∧ after.Additive ∧
      ∀ n ∈ h.keys, after.total n = perNode * (ks.filter fun k => n ∈ h.lineage k).length := by
  have empty : h.recordings = 0 := Finset.sum_eq_zero fun k _ => none k
  have room : h.recordings + ks.length * perNode < UInt64.size := by
    rw [empty]
    omega
  obtain ⟨between, run, worked, shape⟩ := kept_upkeep.attaches_actors kept (fun _ _ => trivial)
    member room placement
  have still (h' : Hierarchy cfg) (same : SameShape h h') : h'.Distinct :=
    distinct.of_grows (Grows.of_shape same.symm)
  obtain ⟨_, again, balanced, _⟩ := additive_upkeep.attaches_actors additive still
    member room placement
  obtain rfl := (Prod.mk.inj (run.symm.trans again)).1
  obtain ⟨after, sum, flush, flushed, folded⟩ := kept_upkeep.flushes worked.kept
  obtain ⟨_, _, flush', _, even⟩ := additive_upkeep.flushes balanced.kept
  obtain rfl := (Prod.mk.inj (flush.symm.trans flush')).1
  have clean : after.Clean := by
    have result := worked.kept.clean_after_flush
    rwa [flush] at result
  have whole := shape.trans flushed.toSameShape
  refine ⟨between, after, sum, run, flush, whole, even.kept, fun n among => ?_⟩
  have counts : after.recorded = fun k => perNode * ks.count k := by
    funext k
    rw [folded.recorded, worked.recorded, none]
    omega
  have inside := (kept.shaped.key_of_mem among).1
  rw [folded.kept.total_eq clean (whole.size.symm ▸ inside), counts, whole.sum_below]
  exact sum_counts_below (fun k known => (kept.shaped.key_of_mem (member k known)).1) perNode

end Hierarchy

end Rollup
