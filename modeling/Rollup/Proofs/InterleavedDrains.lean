import Mathlib
import Rollup.Proofs.Sweeps

/-!
Drains with marks in between, from first to last. As long as a list is not reached, or once it has been,
steps only add to it what they mark (`Spared`). A run is one such stretch up to the call that reaches
the list and another from there on.
-/
namespace Rollup

open Hierarchy

variable {cfg : Config}

namespace Sweep

variable {h : Hierarchy cfg} {w w' : Sweep cfg} {c : Fin cfg.slots}

theorem allows_cons {s : SweepStep} {steps : List SweepStep} :
    w.allows (s :: steps) = true ↔ w.permits s = true ∧ (w.step s).allows steps = true := by
  rw [allows, Bool.and_eq_true]

theorem allows_append {before after : List SweepStep} :
    w.allows (before ++ after) = true ↔
      w.allows before = true ∧ (w.run before).allows after = true := by
  induction before generalizing w with
  | nil => simp [allows, run]
  | cons s before ih =>
    rw [List.cons_append, allows_cons, allows_cons, ih, and_assoc]
    rfl

theorem run_append (before after : List SweepStep) :
    w.run (before ++ after) = (w.run before).run after := List.foldl_append

theorem run_sweeping {steps : List SweepStep} (sweeping : w.Sweeping)
    (allowed : w.allows steps = true) :
    (w.run steps).Sweeping ∧ w.drain.reached ≤ (w.run steps).drain.reached := by
  induction steps generalizing w with
  | nil => exact ⟨sweeping, Nat.le_refl _⟩
  | cons s steps ih =>
    obtain ⟨permitted, rest⟩ := allows_cons.mp allowed
    obtain ⟨next, stepped⟩ := sweeping.step permitted
    obtain ⟨final, further⟩ := ih next rest
    exact ⟨final, Nat.le_trans stepped.reached further⟩

structure Spared (w w' : Sweep cfg) (c : Fin cfg.slots) (ks : List Nat) : Prop where
  lists : ∀ j, w'.hierarchy.lists c j ↔ w.hierarchy.lists c j ∨ j ∈ ks
  queued : ∀ j, (w'.hierarchy.node j).queued[c] = true ↔
    (w.hierarchy.node j).queued[c] = true ∨ j ∈ ks
  got : w'.got c = w.got c

theorem Stepped.spares {s : SweepStep} (stepped : Stepped w w' s) (other : ¬ w.Passes w' c) :
    Spared w w' c (w.entering c s) where
  lists j := by rw [stepped.lists, and_iff_left other]
  queued j := by rw [stepped.queued, and_iff_left fun both => other both.1]
  got := stepped.keeps c other

theorem Spared.trans {w'' : Sweep cfg} {ks js : List Nat} (first : Spared w w' c ks)
    (second : Spared w' w'' c js) : Spared w w'' c (ks ++ js) where
  lists j := by rw [second.lists, first.lists, List.mem_append, or_assoc]
  queued j := by rw [second.queued, first.queued, List.mem_append, or_assoc]
  got := second.got.trans first.got

theorem Sweeping.spares {steps : List SweepStep} (sweeping : w.Sweeping)
    (allowed : w.allows steps = true) (other : ¬ w.Passes (w.run steps) c) :
    Spared w (w.run steps) c (w.entered c steps) := by
  induction steps generalizing w with
  | nil => exact ⟨by simp [run, entered], by simp [run, entered], rfl⟩
  | cons s steps ih =>
    obtain ⟨permitted, rest⟩ := allows_cons.mp allowed
    obtain ⟨next, stepped⟩ := sweeping.step permitted
    -- the number of lists reached only grows, so neither the first step nor the rest reaches this one
    have further : (w.step s).drain.reached ≤ (w.run (s :: steps)).drain.reached :=
      (run_sweeping next rest).2
    have first : ¬ w.Passes (w.step s) c := fun passes =>
      other ⟨passes.1, Nat.lt_of_lt_of_le passes.2 further⟩
    have later : ¬ (w.step s).Passes (w.run (s :: steps)) c := fun passes =>
      other ⟨Nat.le_trans stepped.reached passes.1, passes.2⟩
    exact (stepped.spares first).trans (ih next rest later)

theorem Sweeping.reaching_call {steps : List SweepStep} (sweeping : w.Sweeping)
    (allowed : w.allows steps = true) (passes : w.Passes (w.run steps) c) :
    ∃ before keep after, steps = before ++ .next keep :: after ∧
      (w.run before).Passes ((w.run before).step (.next keep)) c := by
  induction steps generalizing w with
  | nil => exact absurd passes.2 (Nat.not_lt.mpr passes.1)
  | cons s steps ih =>
    obtain ⟨permitted, rest⟩ := allows_cons.mp allowed
    by_cases here : w.Passes (w.step s) c
    · cases s with
      | next keep => exact ⟨[], keep, steps, rfl, here⟩
      | mark k cpu => exact absurd here.2 (Nat.not_lt.mpr here.1)
      | release k => exact absurd here.2 (Nat.not_lt.mpr here.1)
    · have ahead : (w.step s).drain.reached ≤ c :=
        Nat.le_of_not_lt fun behind => here ⟨passes.1, behind⟩
      obtain ⟨before, keep, after, parted, found⟩ := ih (sweeping.step permitted).1 rest
        ⟨ahead, passes.2⟩
      exact ⟨s :: before, keep, after, by rw [parted]; rfl, found⟩

theorem dropped_eq (w : Sweep cfg) : w.dropped =
    { w.hierarchy with holds := w.hierarchy.holds.diff w.drain.taken } :=
  w.drain.stop_eq w.hierarchy

theorem lists_dropped (w : Sweep cfg) (c : Fin cfg.slots) (j : Nat) :
    w.dropped.lists c j ↔ w.hierarchy.lists c j := by
  rw [dropped_eq]
  rfl

theorem queued_dropped (w : Sweep cfg) (c : Fin cfg.slots) (j : Nat) :
    (w.dropped.node j).queued[c] = (w.hierarchy.node j).queued[c] := by
  rw [dropped_eq]
  rfl

theorem Sweeping.well_formed (sweeping : w.Sweeping) : w.dropped.WellFormed := by
  have alive (k : Nat) (member : k ∈ w.hierarchy.holds.diff w.drain.taken) :
      w.hierarchy.isAlive k = true := alive_of_held (List.diff_subset _ _ member)
  rw [dropped_eq]
  exact Tracked.well_formed (sweeping.tracked.taken_holding (Taken.none _) alive)
    (sweeping.distinct.fades (.holding alive))

theorem start_sweeping (formed : h.WellFormed) : (start h).Sweeping where
  inside := by simp [start, Drain.start]
  held := by simp [start, Drain.start]
  begun := by simp [start, Drain.start]
  places := by simp [start]
  ends := by simp [start]
  tracked := formed.tracked
  distinct := formed.live
  ahead := List.suffix_rfl

theorem reached_start (h : Hierarchy cfg) : (start h).drain.reached = 0 := by
  simp [start, Drain.start, Drain.reached]

theorem got_start (h : Hierarchy cfg) (c : Fin cfg.slots) : (start h).got c = [] := by
  simp [got, yieldedFrom, inHand, start, Drain.start, Drain.reached]

/-- What has become of the list of a slot that the drain reached between `m` and `n`, where `earlier`
    and `later` are the nodes queued on the slot before and after. -/
structure Drained (h : Hierarchy cfg) (m n w : Sweep cfg) (c : Fin cfg.slots)
    (earlier later : List Nat) : Prop where
  found : ∀ j, m.hierarchy.lists c j ↔ h.lists c j ∨ j ∈ earlier
  yields : ∀ j, j ∈ w.yieldedFrom c ++ w.inHand c ↔ m.hierarchy.lists c j
  once : (w.yieldedFrom c ++ w.inHand c).Nodup
  lists : ∀ j, w.dropped.lists c j ↔ j ∈ later
  queued : ∀ j, (w.dropped.node j).queued[c] = true ↔
    ((h.node j).queued[c] = true ∨ j ∈ earlier) ∧ ¬ m.hierarchy.lists c j ∨ j ∈ later

theorem Stepped.drains {keep : Bool} {m n : Sweep cfg} {earlier later : List Nat}
    (moment : m.Sweeping) (stepped : Stepped m n (.next keep)) (passes : m.Passes n c)
    (first : Spared (start h) m c earlier) (last : Spared n w c later) :
    Drained h m n w c earlier later := by
  have got : w.yieldedFrom c ++ w.inHand c = m.hierarchy.queues[c].values :=
    last.got.trans (stepped.got c passes)
  obtain ⟨taken, nodup⟩ := take_queue moment.tracked.filed c
  constructor
  case found => exact first.lists
  case yields =>
    intro j
    rw [got]
    exact (taken.yields j).trans (by simp)
  case once =>
    rw [got]
    exact nodup
  case lists =>
    intro j
    rw [lists_dropped, last.lists, stepped.lists]
    simp [entering, passes]
  case queued =>
    intro j
    rw [queued_dropped, last.queued, stepped.queued, first.queued]
    simp [entering, passes, start]

theorem Sweeping.drains {before after : List SweepStep} {keep : Bool} (begins : (start h).Sweeping)
    (allowed : (start h).allows (before ++ .next keep :: after) = true)
    (passes : ((start h).run before).Passes (((start h).run before).step (.next keep)) c) :
    Drained h ((start h).run before) (((start h).run before).step (.next keep))
      ((start h).run (before ++ .next keep :: after)) c ((start h).entered c before)
      ((((start h).run before).step (.next keep)).entered c after) := by
  obtain ⟨allowed_before, rest⟩ := allows_append.mp allowed
  obtain ⟨permitted, allowed_after⟩ := allows_cons.mp rest
  obtain ⟨moment, _⟩ := run_sweeping begins allowed_before
  obtain ⟨next, stepped⟩ := moment.step permitted
  rw [run_append]
  refine stepped.drains moment passes (begins.spares allowed_before fun early => ?_)
    (next.spares allowed_after fun late => ?_)
  · exact Nat.not_lt.mpr passes.1 early.2
  · exact Nat.not_lt.mpr late.1 passes.2

/-- What a drain with marks and returns of references in between comes to, whenever it is dropped. -/
structure Outcome (h : Hierarchy cfg) (steps : List SweepStep) (w : Sweep cfg) : Prop where
  formed : w.dropped.WellFormed
  markable : ∀ k ∈ w.drain.taken, ∀ cpu, w.permits (.mark k cpu) = true
  placed : ∀ e ∈ w.yielded, ∃ c : Fin cfg.slots, e.1 = c.val + 1 ∧ c < w.drain.reached
  ahead : ∀ c : Fin cfg.slots, w.drain.reached ≤ c → w.yieldedFrom c = [] ∧ ∀ j,
    (w.dropped.lists c j ↔ h.lists c j ∨ j ∈ (start h).entered c steps) ∧
    ((w.dropped.node j).queued[c] = true ↔
      (h.node j).queued[c] = true ∨ j ∈ (start h).entered c steps)
  reached : ∀ c : Fin cfg.slots, c < w.drain.reached → ∃ before keep after,
    steps = before ++ .next keep :: after ∧
      ((start h).run before).Passes (((start h).run before).step (.next keep)) c
  drained : ∀ (c : Fin cfg.slots) before keep after, steps = before ++ .next keep :: after →
    let m := (start h).run before
    let n := m.step (.next keep)
    m.Passes n c → Drained h m n w c ((start h).entered c before) (n.entered c after)
  exhausted : w.exhausted = true → ∀ c : Fin cfg.slots, c < w.drain.reached ∧ w.inHand c = []

/-- A drain yields every entry once, and marks made meanwhile survive. A list that the drain has not
    reached holds what it held and what has been marked. One that it has reached was reached in some
    call; what the list held then, with all that had been marked, has been yielded or is in hand, each
    entry once, and the list now holds just what has been marked since. Once a call finds nothing more,
    every list has been reached and nothing is in hand. -/
theorem entries_yielded_once (formed : h.WellFormed) {steps : List SweepStep}
    (allowed : (start h).allows steps = true) : Outcome h steps ((start h).run steps) := by
  have begins := start_sweeping formed
  obtain ⟨ends, _⟩ := run_sweeping begins allowed
  have low (c : Fin cfg.slots) : (start h).drain.reached ≤ c := by
    rw [reached_start]
    exact Nat.zero_le _
  constructor
  case formed => exact ends.well_formed
  case markable =>
    intro k member cpu
    have held := ends.held k
    have counted := List.count_pos_iff.mpr member
    have alive := alive_of_held (List.count_pos_iff.mp (Nat.lt_of_lt_of_le counted held))
    simp [permits, ends.inside k member, alive]
  case placed =>
    intro e member
    obtain ⟨some, place⟩ := ends.places e member
    have bound : ((start h).run steps).drain.reached ≤ cfg.slots := Nat.sub_le _ _
    exact ⟨⟨e.1 - 1, by omega⟩, by simp only; omega, by simp only; omega⟩
  case ahead =>
    intro c ahead
    have spared := begins.spares allowed fun passes => Nat.not_lt.mpr ahead passes.2
    have none := spared.got.trans (got_start h c)
    refine ⟨(List.append_eq_nil_iff.mp none).1, fun j => ⟨?_, ?_⟩⟩
    · rw [lists_dropped]
      exact spared.lists j
    · rw [queued_dropped]
      exact spared.queued j
  case reached => exact fun c behind => begins.reaching_call allowed ⟨low c, behind⟩
  case drained =>
    rintro c before keep after rfl m n passes
    exact begins.drains allowed passes
  case exhausted =>
    intro stopped c
    obtain ⟨hand, none⟩ := ends.ends stopped
    refine ⟨Nat.not_le.mp fun later => ?_, by simp [inHand, hand]⟩
    have member := ends.mem_ahead.mpr later
    rw [none] at member
    exact absurd member (by simp)

/-- Two nodes are queued on one slot, one of them on another as well, and then the lower one leaves the
    tree while somebody still refers to it. -/
def queuedSteps : List Step :=
  [.create NodeId.root "job", .create ⟨2⟩ "task", .hold ⟨3⟩ "task", .add ⟨3⟩ ⟨0⟩ 1, .add ⟨2⟩ ⟨1⟩ 1,
    .detach ⟨3⟩]

theorem entries_yielded_once_around_marks :
    let h := ((Session.start ⟨2⟩).run queuedSteps).hierarchy
    let before : List SweepStep := [.mark 2 ⟨0⟩, .mark 2 ⟨3⟩, .release 2, .next true, .next false]
    let after : List SweepStep := [.next false, .next false, .next false]
    let w := (start h).run (.next false :: (before ++ .next false :: after))
    w.exhausted = true ∧ w.yieldedFrom (Config.slot ⟨2⟩ ⟨1⟩) = [0, 1, 2] ∧
      w.dropped.lists (Config.slot ⟨2⟩ ⟨0⟩) 2 ∧ ¬ w.dropped.lists (Config.slot ⟨2⟩ ⟨1⟩) 2 := by
  intro h before after w
  have distinct : h.Distinct := by decide +kernel
  have tracked : h.Tracked := (Session.run_in_order ⟨2⟩ queuedSteps fun _ _ parted =>
    (Session.distinct_all_along distinct parted).live).tracked
  have outcome : Outcome h (.next false :: (before ++ .next false :: after)) w :=
    entries_yielded_once (tracked.well_formed distinct.live) (by decide +kernel)
  have first := outcome.drained (Config.slot ⟨2⟩ ⟨0⟩) [] false _ rfl (by decide +kernel)
  have second := outcome.drained (Config.slot ⟨2⟩ ⟨1⟩) (.next false :: before) false after rfl
    (by decide +kernel)
  refine ⟨by decide +kernel, by decide +kernel, ?_, ?_⟩
  · exact (first.lists 2).mpr (by decide +kernel)
  · rw [second.lists]
    decide +kernel

end Sweep

end Rollup
