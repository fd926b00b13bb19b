import Mathlib
import Rollup.Race
import Rollup.Proofs.FlushSteps

/-!
The steps of a race with nothing in between. The flusher alone comes to the end of its flush from
wherever it is, and from the start of a flush it does in its steps what `flush` does at once. The two
steps of an update, one right after the other, are what `record` does at once.
-/
namespace Rollup

namespace Hierarchy

variable {cfg : Config}

theorem schedule_congr {h h' : Hierarchy cfg} (shape : SameShape h h') :
    h'.schedule = h.schedule := by
  funext s k
  simp only [schedule, shape.rank]

theorem flushes_settle {h h' : Hierarchy cfg} {s s' : Schedule} {k : Nat} {own : UInt64}
    (done : h.settle s k = .ok (own, h', s')) : h'.flushes = h.flushes := by
  obtain ⟨_, _, outcome⟩ := settle_iff.mp done
  rcases outcome with ⟨_, rfl, _⟩ | ⟨_, _, _, rfl, _⟩
  · rfl
  · rfl

theorem flushes_settle_all {h h' : Hierarchy cfg} {s : Schedule} {sum sum' : Summary}
    (done : h.settleAll s sum = (h', .ok sum')) : h'.flushes = h.flushes := by
  induction weight : s.weight id using Nat.strongRecOn generalizing h s sum with
  | ind w ih =>
    unfold settleAll at done
    split at done
    · rw [← (Prod.mk.inj done).1]
    · rename_i k rest pop
      split at done
      · exact absurd (Prod.mk.inj done).2 (by simp)
      · rename_i own after s' settled
        have popped := Schedule.weight_pop id pop
        have less := weight_settle settled
        simp only [id_eq] at popped
        exact (ih (s'.weight id) (by omega) done rfl).trans (flushes_settle settled)

end Hierarchy

namespace Race

variable {cfg : Config} {r r' : Race cfg}

theorem run_append (r : Race cfg) (first second : List Move) :
    r.run (first ++ second) = (r.run first).run second := by
  simp only [run, List.foldl_append]

def Leads (r r' : Race cfg) : Prop := ∃ n, r.run (List.replicate n .flush) = r'

namespace Leads

theorem refl (r : Race cfg) : Leads r r := ⟨0, rfl⟩

theorem first (later : Leads r.flush r') : Leads r r' := by
  obtain ⟨n, run_eq⟩ := later
  exact ⟨n + 1, run_eq⟩

theorem trans {r'' : Race cfg} (before : Leads r r') (after : Leads r' r'') : Leads r r'' := by
  obtain ⟨n, run_eq⟩ := before
  obtain ⟨m, run_eq'⟩ := after
  refine ⟨n + m, ?_⟩
  rw [List.replicate_add, run_append, run_eq, run_eq']

end Leads

section
variable (updates : List Update) (results : List (Except NodeFault Summary))

theorem schedules_taken (h : Hierarchy cfg) (taken : List Nat) (ahead : List (Fin cfg.slots))
    (found : Schedule) :
    Leads ⟨h, updates, .gathering taken ahead found, results⟩
      ⟨h, updates, .gathering [] ahead (taken.foldl h.schedule found), results⟩ := by
  induction taken generalizing found with
  | nil => exact Leads.refl _
  | cons k ks ih => exact Leads.first (ih (h.schedule found k))

theorem gathers (h : Hierarchy cfg) (ahead : List (Fin cfg.slots)) (found : Schedule) :
    Leads ⟨h, updates, .gathering [] ahead found, results⟩
      ⟨(h.takeQueues ahead).2, updates,
        .gathering [] [] ((h.takeQueues ahead).1.foldl (h.takeQueues ahead).2.schedule found),
        results⟩ := by
  induction ahead generalizing h found with
  | nil => exact Leads.refl _
  | cons c cs ih =>
    have later := ih (h.takeQueue c).2 ((h.takeQueue c).1.foldl (h.takeQueue c).2.schedule found)
    have shape := (Hierarchy.only_lists_take_queues (h.takeQueue c).2 cs).toSameShape
    have all : (h.takeQueues (c :: cs)).1.foldl (h.takeQueues (c :: cs)).2.schedule found =
        ((h.takeQueue c).2.takeQueues cs).1.foldl ((h.takeQueue c).2.takeQueues cs).2.schedule
          ((h.takeQueue c).1.foldl (h.takeQueue c).2.schedule found) := by
      simp only [Hierarchy.takeQueues, List.foldl_append, Hierarchy.schedule_congr shape]
    rw [all]
    exact Leads.first ((schedules_taken updates results _ _ cs found).trans later)

theorem settles (h : Hierarchy cfg) (due : Schedule) (sum : Summary) (holds : List Nat) :
    Leads ⟨h, updates, .settling due sum holds, results⟩
      (settled ⟨h, updates, .settling due sum holds, results⟩ holds (h.settleAll due sum)) := by
  induction weight : due.weight id using Nat.strongRecOn generalizing h due sum with
  | ind w ih =>
    unfold Hierarchy.settleAll
    split
    · rename_i last
      refine Leads.first ⟨0, ?_⟩
      simp only [flush, last]
      rfl
    · rename_i k rest pop
      split
      · rename_i fault failed
        refine Leads.first ⟨0, ?_⟩
        simp only [flush, pop, failed]
        rfl
      · rename_i own after s done
        have popped := Schedule.weight_pop id pop
        have less := Hierarchy.weight_settle done
        simp only [id_eq] at popped
        have later := ih (s.weight id) (by omega) after s
          ⟨sum.nodes + 1, saturatingAdd sum.delta own⟩ rfl
        have next : flush ⟨h, updates, .settling due sum holds, results⟩ =
            ⟨after, updates, .settling s ⟨sum.nodes + 1, saturatingAdd sum.delta own⟩ holds,
              results⟩ := by
          simp only [flush, pop, done]
        refine Leads.first ?_
        rw [next]
        exact later

end

/-- Left alone, the flusher does what `flush` does. -/
theorem flushes_alone (idle : r.flusher = .idle) :
    Leads r (r.ended r.hierarchy.flush.1 r.hierarchy.flush.2) := by
  obtain ⟨h, updates, f, results⟩ := r
  obtain rfl : f = .idle := idle
  have only := Hierarchy.only_lists_take_queues h (List.finRange cfg.slots)
  have gathered := gathers updates results h (List.finRange cfg.slots) .empty
  refine Leads.first (gathered.trans ?_)
  change Leads ⟨h.drainAll.2, updates,
    .gathering [] [] (h.drainAll.1.foldl h.drainAll.2.schedule .empty), results⟩ _
  simp only [Hierarchy.flush]
  generalize found_eq : h.drainAll.1.foldl h.drainAll.2.schedule Schedule.empty = found
  by_cases none : found.nodes.isEmpty = true
  · refine Leads.first ⟨0, ?_⟩
    rw [if_pos none]
    exact if_pos none
  · have next : flush ⟨h.drainAll.2, updates, .gathering [] [] found, results⟩ =
        ⟨{ h.drainAll.2 with holds := found.waiting ++ h.holds }, updates,
          .settling found .zero h.holds, results⟩ := by
      rw [← show h.drainAll.2.holds = h.holds from only.holds]
      exact if_neg none
    have last := settles updates results { h.drainAll.2 with holds := found.waiting ++ h.holds }
      found .zero h.holds
    refine Leads.first ?_
    rw [next, if_neg none]
    cases outcome : Hierarchy.settleAll { h.drainAll.2 with holds := found.waiting ++ h.holds }
        found .zero with
    | mk after result =>
      rw [outcome] at last
      cases result with
      | ok sum =>
        have flushes : after.flushes = h.flushes :=
          (Hierarchy.flushes_settle_all outcome).trans only.flushes
        simp only [settled, flushes] at last
        exact last
      | error fault => exact last

/-- A flush under way ends if nothing comes in between any more. -/
theorem comes_to_rest (r : Race cfg) : ∃ r', Leads r r' ∧ r'.flusher = .idle := by
  obtain ⟨h, updates, f, results⟩ := r
  have settling (h : Hierarchy cfg) (due : Schedule) (sum : Summary) (holds : List Nat) :
      ∃ r', Leads ⟨h, updates, .settling due sum holds, results⟩ r' ∧ r'.flusher = .idle := by
    refine ⟨_, settles updates results h due sum holds, ?_⟩
    cases h.settleAll due sum with
    | mk after result => cases result <;> rfl
  cases f with
  | idle => exact ⟨_, Leads.refl _, rfl⟩
  | gathering taken ahead found =>
    have gathered := (schedules_taken updates results h taken ahead found).trans
      (gathers updates results h ahead _)
    generalize (h.takeQueues ahead).1.foldl _ _ = found at gathered
    by_cases none : found.nodes.isEmpty = true
    · exact ⟨_, gathered.trans (Leads.first ⟨0, if_pos none⟩), rfl⟩
    · obtain ⟨r', rests, idle⟩ := settling
        { (h.takeQueues ahead).2 with holds := found.waiting ++ (h.takeQueues ahead).2.holds }
        found .zero (h.takeQueues ahead).2.holds
      refine ⟨r', gathered.trans (Leads.first ?_), idle⟩
      rw [show flush ⟨(h.takeQueues ahead).2, updates, .gathering [] [] found, results⟩ = _ from
        if_neg none]
      exact rests
  | settling due sum holds => exact settling h due sum holds

theorem unfinished_found {writer i : Nat} {u : Update} (unfinished : r.unfinished writer = some (u, i)) :
    r.updates[i]? = some u ∧ u.marked = false := by
  refine ⟨List.mk_mem_zipIdx_iff_getElem?.mp (List.mem_of_find?_eq_some unfinished), ?_⟩
  have mine := List.find?_some unfinished
  simp only [Bool.and_eq_true, Bool.not_eq_true'] at mine
  exact mine.2

theorem unfinished_of_counted {writer key : Nat} {cpu : Cpu} {delta : UInt64}
    (ready : key ∈ r.hierarchy.keys ∧ r.unfinished writer = none) :
    (r.count writer key cpu delta).unfinished writer =
      some (⟨writer, key, cpu, delta, false⟩, r.updates.length) := by
  have before := ready.2
  unfold unfinished at before
  simp only [count, ready, and_self, if_true, unfinished, List.zipIdx_append, List.find?_append,
    before]
  simp

theorem updates_alone (shaped : r.hierarchy.Shaped) {writer key : Nat} {cpu : Cpu} {delta : UInt64}
    (ready : key ∈ r.hierarchy.keys ∧ r.unfinished writer = none) :
    ((r.count writer key cpu delta).mark writer).hierarchy =
      r.hierarchy.record key cpu delta := by
  have live := (shaped.key_of_mem ready.1).2
  simp only [mark, unfinished_of_counted ready, Hierarchy.record, live]
  simp only [count, ready, and_self, if_true]
  rfl

end Race

end Rollup
