import Mathlib
import Rollup.Proofs.KeptBooks
import Rollup.Proofs.SessionSteps

/-!
No event is lost or counted twice. Over any run of a session that creates and removes nodes, takes
handles, records events and flushes, a node's total is at most what was recorded at it and at all
nodes ever created below it while they were in the tree, and right after a flush it is exactly that.
-/
namespace Rollup

namespace Session

variable {cfg : Config} {s : Session cfg}

theorem healthy_start (cfg : Config) : Healthy Hierarchy.Kept (Session.start cfg) :=
  ⟨Hierarchy.Kept.start cfg, Referenced.start cfg⟩

theorem run_advances (healthy : Healthy Hierarchy.Kept s) {steps : List Step}
    (plain : ∀ t ∈ steps, t.isPlain = true)
    (fits : s.hierarchy.recordings + Step.deltas steps < UInt64.size) :
    Steps Hierarchy.Kept s (s.run steps) (s.accrued steps) ∧
      (s.run steps).hierarchy.recordings ≤ s.hierarchy.recordings + Step.deltas steps := by
  induction steps generalizing s with
  | nil => exact ⟨healthy.stays, Nat.le_refl _⟩
  | cons t rest ih =>
    have sum : Step.deltas (t :: rest) = t.delta + Step.deltas rest := rfl
    have first := step_advances Hierarchy.kept_upkeep healthy trivial (plain t (by simp)) (by omega)
    have le := first.recordings_le
    have later := ih first.healthy
      (fun u member => plain u (by simp [member])) (by omega)
    rw [run_cons]
    exact ⟨⟨first.advanced.trans later.1.advanced, later.1.referenced⟩, by omega⟩

theorem recorded_from_start {steps : List Step} {k : Nat}
    (run : Steps Hierarchy.Kept (Session.start cfg) ((Session.start cfg).run steps)
      ((Session.start cfg).accrued steps)) :
    ((Session.start cfg).run steps).hierarchy.recorded k = (Session.start cfg).accrued steps k := by
  have none : (Session.start cfg).hierarchy.recorded k = 0 := by
    change (Hierarchy.new cfg).recorded k = 0
    rw [Hierarchy.recorded, Hierarchy.new_counter]
    exact Counter.amount_zero rfl
  rw [run.advanced.recorded, none, Nat.zero_add]

theorem clean_after (healthy : Healthy Hierarchy.Kept s) {t : Step}
    (folds : t = .flush ∨ ∃ id, t = .remove id ∧ (s.step t).2 = .done) :
    (s.step t).1.hierarchy.Clean := by
  rcases folds with rfl | ⟨id, rfl, done⟩
  · exact healthy.kept.clean_after_flush
  · refine healthy.kept.clean_after_removal ?_
    simp only [step, change] at done
    cases result : (s.hierarchy.remove id).2 with
    | ok _ => rfl
    | error fault =>
      rw [result] at done
      exact absurd done (by simp [Answer.ofResult])

/-- No event is lost or counted twice: totals never exceed what was recorded at a node and below
    it, never fall while the node stays, and are exact after a flush or a removal. -/
theorem totals_of_recorded (cfg : Config) (steps : List Step)
    (plain : ∀ t ∈ steps, t.isPlain = true) (fits : Step.deltas steps < UInt64.size) :
    (∀ n ∈ ((start cfg).run steps).hierarchy.keys,
      (((start cfg).run steps).hierarchy.node n).total.toNat ≤
        ((start cfg).run steps).hierarchy.sumBelow n ((start cfg).accrued steps)) ∧
    (∀ before after, steps = before ++ after → ∀ n ∈ ((start cfg).run before).hierarchy.keys,
      n ∈ ((start cfg).run steps).hierarchy.keys →
        (((start cfg).run before).hierarchy.node n).total ≤
          (((start cfg).run steps).hierarchy.node n).total) ∧
    (∀ before t, steps = before ++ [t] →
      (t = .flush ∨ ∃ id, t = .remove id ∧ (((start cfg).run before).step t).2 = .done) →
      (∀ n ∈ ((start cfg).run steps).hierarchy.keys,
        (((start cfg).run steps).hierarchy.node n).total.toNat =
          ((start cfg).run steps).hierarchy.sumBelow n ((start cfg).accrued steps)) ∧
      (((start cfg).run steps).hierarchy.node Hierarchy.rootKey).total.toNat =
        ∑ k ∈ Finset.range ((start cfg).run steps).hierarchy.arena.size,
          (start cfg).accrued steps k) := by
  have none : (start cfg).hierarchy.recordings = 0 := Hierarchy.new_recordings cfg
  have whole := (run_advances (healthy_start cfg) plain (by omega)).1
  have accrued : ((start cfg).run steps).hierarchy.recorded = (start cfg).accrued steps :=
    funext fun k => recorded_from_start whole
  have kept := whole.advanced.kept
  have part {before after : List Step} (parted : steps = before ++ after) :
      Steps Hierarchy.Kept (start cfg) ((start cfg).run before) ((start cfg).accrued before) ∧
        ((start cfg).run before).hierarchy.recordings + Step.deltas after < UInt64.size := by
    have sum : Step.deltas steps = Step.deltas before + Step.deltas after := by
      rw [parted, Step.deltas, List.map_append, List.sum_append]
      rfl
    have result := run_advances (healthy_start cfg)
      (fun t member => plain t (by rw [parted]; exact List.mem_append_left _ member)) (by omega)
    exact ⟨result.1, by omega⟩
  refine ⟨?_, ?_, ?_⟩
  · intro n member
    have inside := (kept.shaped.key_of_mem member).1
    rw [← accrued]
    exact kept.total_le inside
  · intro before after parted n _ _
    obtain ⟨first, room⟩ := part parted
    have later := (run_advances first.healthy
      (fun t member => plain t (by rw [parted]; exact List.mem_append_right _ member)) room).1
    rw [← run_append, ← parted] at later
    exact UInt64.le_iff_toNat_le.mpr (later.advanced.rising n)
  · intro before t parted folds
    obtain ⟨first, _⟩ := part parted
    have clean := clean_after first.healthy folds
    have last : (start cfg).run steps = (((start cfg).run before).step t).1 := by
      rw [parted, run_append]
      rfl
    rw [← last] at clean
    rw [← accrued, ← kept.shaped.sum_below_root]
    refine ⟨?_, kept.total_eq clean kept.shaped.rooted.1⟩
    intro n member
    exact kept.total_eq clean (kept.shaped.key_of_mem member).1

def passingSteps : List Step :=
  [.create NodeId.root "job", .add ⟨2⟩ ⟨1⟩ 5, .takeHandle ⟨2⟩ "job", .remove ⟨2⟩,
    .handleAdd "job" ⟨0⟩ 7]

def passingSession : Session ⟨2⟩ := (start ⟨2⟩).run (passingSteps ++ [.flush])

theorem totals_of_removed_child : passingSession.hierarchy.keys = [0] ∧
    ∀ n ∈ passingSession.hierarchy.keys, (passingSession.hierarchy.node n).total.toNat =
      passingSession.hierarchy.sumBelow n ((start ⟨2⟩).accrued (passingSteps ++ [.flush])) := by
  obtain ⟨_, _, folded⟩ :=
    totals_of_recorded ⟨2⟩ (passingSteps ++ [.flush]) (by decide) (by decide)
  exact ⟨by decide +kernel, (folded passingSteps .flush rfl (Or.inl rfl)).1⟩

end Session

end Rollup
