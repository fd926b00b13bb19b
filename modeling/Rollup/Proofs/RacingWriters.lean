import Mathlib
import Rollup.Proofs.RacingUpdates
import Rollup.Proofs.RecordedTotals

/-!
Writers racing a flusher lose nothing, whatever the order of their steps. An event not yet flushed is
on a list, in the hands of the flush under way, or of an update still to be marked. A flush folds
every update that was marked when it began, and of each update all or nothing is in the totals. Once
every update is marked, one more flush makes each total the sum of the updates at or below its node.
-/
namespace Rollup

theorem Flusher.idle_of_is_idle {cfg : Config} {f : Flusher cfg} (idle : f.isIdle = true) :
    f = .idle := by
  cases f with
  | idle => rfl
  | gathering => exact absurd idle (by simp [isIdle])
  | settling => exact absurd idle (by simp [isIdle])

namespace Race

variable {cfg : Config} {r : Race cfg}

def onTree (cfg : Config) (steps : List Step) : Race cfg :=
  start ((Session.start cfg).run steps).hierarchy

theorem run_cons (r : Race cfg) (m : Move) (rest : List Move) :
    r.run (m :: rest) = (r.step m).run rest := rfl

theorem flush_updates (r : Race cfg) : r.flush.updates = r.updates := by
  have ended (r : Race cfg) (holds : List Nat)
      (outcome : Hierarchy cfg × Except Counter.Fault Summary) :
      (r.settled holds outcome).updates = r.updates := by
    obtain ⟨h, result⟩ := outcome
    cases result <;> rfl
  unfold flush
  split
  · rfl
  · rfl
  · rfl
  · split <;> rfl
  · split
    · exact ended _ _ _
    · split
      · exact ended _ _ _
      · rfl

theorem Moved.given_le {r' : Race cfg} (moved : Moved r r') : r.given ≤ r'.given := by
  cases moved with
  | stays => exact Nat.le_refl _
  | counts writer key cpu delta member => simp [given]
  | marks u i found unmarked =>
    simp only [given, ← sum_worth, List.length_set]
    exact Nat.le_of_eq (Finset.sum_congr rfl fun j _ =>
      (worth_set (v := { u with marked := true }) found rfl j).symm)
  | flushes =>
    simp only [given, flush_updates]
    exact Nat.le_refl _

theorem given_le_run (r : Race cfg) (moves : List Move) : r.given ≤ (r.run moves).given := by
  induction moves generalizing r with
  | nil => exact Nat.le_refl _
  | cons m rest ih => exact Nat.le_trans (r.step_moved m).given_le (ih (r.step m))

namespace Raced

variable {tree : Hierarchy cfg} {old folded : Finset Nat}

theorem step {r' : Race cfg} (raced : Raced tree old folded r) (moved : Moved r r')
    (fits : r'.given < UInt64.size) : ∃ folded', folded ⊆ folded' ∧ Raced tree old folded' r' := by
  cases moved with
  | stays => exact ⟨folded, Finset.Subset.refl _, raced⟩
  | counts writer key cpu delta member =>
    exact ⟨folded, Finset.Subset.refl _, raced.counted member (by simpa [given] using fits)⟩
  | marks u i found unmarked => exact ⟨folded, Finset.Subset.refl _, raced.marked found⟩
  | flushes => exact raced.flushed

theorem run (raced : Raced tree old folded r) (moves : List Move)
    (fits : (r.run moves).given < UInt64.size) :
    ∃ folded', folded ⊆ folded' ∧ Raced tree old folded' (r.run moves) := by
  induction moves generalizing r folded with
  | nil => exact ⟨folded, Finset.Subset.refl _, raced⟩
  | cons m rest ih =>
    have room := Nat.lt_of_le_of_lt (given_le_run (r.step m) rest) fits
    obtain ⟨between, first, stepped⟩ := raced.step (r.step_moved m) room
    obtain ⟨folded', later, done⟩ := ih stepped fits
    exact ⟨folded', first.trans later, done⟩

theorem start {h : Hierarchy cfg} (kept : h.Kept) (fresh : h.recordings = 0) :
    Raced h ∅ ∅ (Race.start h) := by
  have recorded (k : Nat) : h.recorded k = 0 := by
    by_cases inside : k < h.arena.size
    · have le := Hierarchy.Solvent.recorded_le inside
      omega
    · exact Hierarchy.recorded_outside (Nat.le_of_not_lt inside)
  constructor
  case flushing => exact .start kept.intact kept.quiet
  case shape => exact Hierarchy.SameShape.refl h
  case keyed =>
    intro u member
    exact absurd member (by simp [Race.start])
  case recorded => exact recorded
  case inside => exact Finset.empty_subset _
  case drained =>
    intro k
    have split := kept.solvent.split k
    have none := recorded k
    change h.drained k = 0
    omega
  case awaited =>
    intro i u found
    exact absurd found (by simp [Race.start])
  case promised =>
    intro i member
    exact absurd member (by simp)

theorem begins (raced : Raced tree old folded r) (idle : r.flusher = .idle) (marked : Finset Nat)
    (marks : ∀ i ∈ marked, ∃ u, r.updates[i]? = some u ∧ u.marked = true) :
    Raced tree marked folded r.flush := by
  obtain ⟨h, updates, f, results⟩ := r
  obtain rfl : f = .idle := idle
  have step := Hierarchy.flushing_begins raced.flushing
  constructor
  case flushing => exact step.flushing
  case shape => exact raced.shape
  case keyed => exact raced.keyed
  case recorded => exact raced.recorded
  case inside => exact raced.inside
  case drained => exact raced.drained
  case awaited =>
    intro i u found marked left
    exact step.awaited _ (by simp) (raced.awaited found marked left)
  case promised =>
    intro i member left
    obtain ⟨u, found, mark⟩ := marks i member
    exact ⟨u, found, step.awaited _ (by simp) (raced.awaited found mark left)⟩

theorem kept_promise (raced : Raced tree old folded r) (idle : r.flusher = .idle) :
    old ⊆ folded := by
  intro i member
  by_contra left
  obtain ⟨u, _, awaits⟩ := raced.promised member left
  rw [idle] at awaits
  rcases awaits with ⟨c, ahead, _⟩ | claimed
  · exact absurd ahead (by simp [Flusher.ahead])
  · exact Hierarchy.not_claimed_idle _ claimed

theorem total_of_folded (raced : Raced tree old folded r) (idle : r.flusher = .idle) {n : Nat}
    (inside : n < r.hierarchy.arena.size) :
    r.hierarchy.total n = ∑ i ∈ folded, r.share n i := by
  rw [raced.racing.total_eq idle inside, sum_below_share raced.key_inside raced.drained]

theorem dirty (raced : Raced tree old folded r) {k : Nat} (some : r.hierarchy.undrained k ≠ 0) :
    (∃ c, r.hierarchy.lists c k) ∨ k ∈ r.flusher.claimed ∨
      ∃ u ∈ r.updates, u.key = k ∧ u.marked = false := by
  obtain ⟨i, u, found, rfl, left⟩ := raced.unfolded some
  cases mark : u.marked with
  | false => exact Or.inr (Or.inr ⟨u, List.mem_of_getElem? found, rfl, mark⟩)
  | true =>
    rcases raced.awaited found mark left with ⟨c, _, listed⟩ | claimed
    · exact Or.inl ⟨c, listed⟩
    · exact Or.inr (Or.inl claimed)

theorem kept (raced : Raced tree old folded r) (idle : r.flusher = .idle)
    (marked : ∀ u ∈ r.updates, u.marked = true) : r.hierarchy.Kept := by
  have intact := raced.flushing.toIntact
  have unclaimed : ∀ k, k ∉ r.flusher.claimed := by
    rw [idle]
    exact Hierarchy.not_claimed_idle
  refine ⟨⟨intact.shaped, intact.tracked, intact.solvent, ?_⟩, intact.live, fun {k} some => ?_,
    intact.conserved⟩
  · exact raced.flushing.quiet_of_unclaimed unclaimed
  · rcases raced.dirty some with listed | claimed | ⟨u, member, _, unmarked⟩
    · exact listed
    · exact absurd claimed (unclaimed k)
    · exact absurd (marked u member) (by simp [unmarked])

theorem completes (raced : Raced tree old folded r) (idle : r.flusher = .idle)
    (marked : ∀ u ∈ r.updates, u.marked = true) :
    ∃ after sum, r.hierarchy.flush = (after, .ok sum) ∧ Leads r (r.ended after (.ok sum)) ∧
      ∀ n, n < r.hierarchy.arena.size →
        after.total n = ∑ i ∈ Finset.range r.updates.length, r.share n i := by
  have kept := raced.kept idle marked
  obtain ⟨after, sum, run, flushed, sound⟩ := kept.toSound.flushes
  have complete := Hierarchy.kept_of_flushed kept.dirty kept.conserved kept.linked flushed sound
  have clean := Hierarchy.clean_of_flushed kept.dirty flushed
  have alone := flushes_alone idle
  rw [run] at alone
  refine ⟨after, sum, run, alone, fun n inside => ?_⟩
  rw [complete.total_eq clean (Nat.lt_of_lt_of_eq inside flushed.size.symm), flushed.sum_below]
  exact sum_below_share raced.key_inside (fun k => (flushed.recorded k).trans (raced.recorded k)) n

end Raced

theorem raced_on_tree {steps : List Step} (plain : ∀ t ∈ steps, t.isPlain = true)
    (fresh : Step.deltas steps = 0) {moves : List Move}
    (fits : ((onTree cfg steps).run moves).given < UInt64.size) :
    ∃ folded, Raced ((Session.start cfg).run steps).hierarchy ∅ folded
      ((onTree cfg steps).run moves) := by
  have none : (Session.start cfg).hierarchy.recordings = 0 := Hierarchy.new_recordings cfg
  have room : (Session.start cfg).hierarchy.recordings + Step.deltas steps < UInt64.size := by
    rw [none, fresh]
    decide
  obtain ⟨built, le⟩ := Session.run_advances (Session.healthy_start cfg) plain room
  obtain ⟨folded, _, raced⟩ := (Raced.start built.advanced.kept (by omega)).run moves fits
  exact ⟨folded, raced⟩

theorem unflushed_iff {tree : Hierarchy cfg} {old folded : Finset Nat}
    (raced : Raced tree old folded r) (k : Nat) :
    (r.hierarchy.node k).counter.unflushed ≠ 0 ↔ r.hierarchy.undrained k ≠ 0 := by
  rw [← raced.flushing.solvent.unflushed_eq, ← UInt64.toNat_zero, Ne, Ne, UInt64.toNat_inj]

/-- In any race over a tree on which nothing is recorded yet, after any steps: a node with unflushed
    events is on a list, in the hands of the flush under way, or of an update still to be marked;
    when a flush ends, the totals are the sums of a set of updates that includes all that were
    marked before it began; and when all are marked, one more flush makes the totals the sums of
    all updates. A flush under way always ends. -/
theorem writers_lose_nothing (cfg : Config) (steps : List Step)
    (plain : ∀ t ∈ steps, t.isPlain = true) (fresh : Step.deltas steps = 0) (moves : List Move)
    (fits : ((onTree cfg steps).run moves).given < UInt64.size) :
    (∀ k, (((onTree cfg steps).run moves).hierarchy.node k).counter.unflushed ≠ 0 →
      (∃ c, ((onTree cfg steps).run moves).hierarchy.lists c k) ∨
        k ∈ ((onTree cfg steps).run moves).flusher.claimed ∨
        ∃ u ∈ ((onTree cfg steps).run moves).updates, u.key = k ∧ u.marked = false) ∧
    (∀ before after, moves = before ++ .flush :: after →
      ((onTree cfg steps).run before).flusher.isIdle = true →
      ((onTree cfg steps).run moves).flusher.isIdle = true →
      ∃ folded ⊆ Finset.range ((onTree cfg steps).run moves).updates.length,
        (∀ i u, ((onTree cfg steps).run before).updates[i]? = some u → u.marked = true →
          i ∈ folded) ∧
        ∀ n ∈ (onTree cfg steps).hierarchy.keys,
          (((onTree cfg steps).run moves).hierarchy.node n).total.toNat =
            ∑ i ∈ folded, ((onTree cfg steps).run moves).share n i) ∧
    ((∀ u ∈ ((onTree cfg steps).run moves).updates, u.marked = true) →
      ((onTree cfg steps).run moves).flusher.isIdle = true →
      ∃ after sum, ((onTree cfg steps).run moves).hierarchy.flush = (after, .ok sum) ∧
        Leads ((onTree cfg steps).run moves) (((onTree cfg steps).run moves).ended after (.ok sum)) ∧
        ∀ n ∈ (onTree cfg steps).hierarchy.keys, (after.node n).total.toNat =
          ∑ i ∈ Finset.range ((onTree cfg steps).run moves).updates.length,
            ((onTree cfg steps).run moves).share n i) ∧
    ∃ rest, Leads ((onTree cfg steps).run moves) rest ∧ rest.flusher.isIdle = true := by
  obtain ⟨folded, raced⟩ := raced_on_tree plain fresh fits
  have key_inside {n : Nat} (member : n ∈ (onTree cfg steps).hierarchy.keys) :
      n < ((onTree cfg steps).run moves).hierarchy.arena.size := by
    refine (raced.flushing.shaped.key_of_mem ?_).1
    rw [raced.shape.keys]
    exact member
  refine ⟨fun k some => raced.dirty ((unflushed_iff raced k).mp some), ?_, ?_, ?_⟩
  · intro before after parted idle rested
    have moved : (onTree cfg steps).run moves = ((onTree cfg steps).run before).flush.run after := by
      rw [parted, run_append, run_cons]
      rfl
    have room : ((onTree cfg steps).run before).given < UInt64.size := by
      refine Nat.lt_of_le_of_lt ?_ fits
      rw [parted, run_append]
      exact given_le_run _ _
    obtain ⟨early, first⟩ := raced_on_tree plain fresh room
    let marked : Finset Nat :=
      {i ∈ Finset.range ((onTree cfg steps).run before).updates.length |
        ∃ u, ((onTree cfg steps).run before).updates[i]? = some u ∧ u.marked = true}
    have begun := first.begins (Flusher.idle_of_is_idle idle) marked
      fun i member => (Finset.mem_filter.mp member).2
    rw [moved] at fits
    obtain ⟨folded', _, ended⟩ := begun.run after fits
    rw [← moved] at ended
    have rested := Flusher.idle_of_is_idle rested
    refine ⟨folded', ended.inside, fun i u found mark => ?_, fun n member => ?_⟩
    · have inside := (List.getElem?_eq_some_iff.mp found).1
      exact ended.kept_promise rested
        (Finset.mem_filter.mpr ⟨Finset.mem_range.mpr inside, u, found, mark⟩)
    · exact ended.total_of_folded rested (key_inside member)
  · intro marked idle
    obtain ⟨after, sum, run, alone, totals⟩ :=
      raced.completes (Flusher.idle_of_is_idle idle) marked
    exact ⟨after, sum, run, alone, fun n member => totals n (key_inside member)⟩
  · obtain ⟨rest, leads, idle⟩ := comes_to_rest ((onTree cfg steps).run moves)
    exact ⟨rest, leads, by rw [idle]; rfl⟩

def earlyMoves : List Move := [.count 1 1 ⟨0⟩ 5, .count 2 0 ⟨1⟩ 7, .mark 1]

/-- A third writer counts once the flush has taken the first list, and marks while nodes are being
    settled; the second marks before the flush takes the next list. -/
def lateMoves : List Move :=
  [.flush, .count 3 1 ⟨0⟩ 2, .flush, .flush, .mark 2, .flush, .flush, .flush, .mark 3, .flush,
    .flush, .flush]

def lateRace : Race ⟨2⟩ :=
  (onTree ⟨2⟩ [.create NodeId.root "job"]).run (earlyMoves ++ .flush :: lateMoves)

theorem three_writers_lose_nothing :
    (∃ folded ⊆ Finset.range lateRace.updates.length, 0 ∈ folded ∧
      ∀ n ∈ (onTree ⟨2⟩ [.create NodeId.root "job"]).hierarchy.keys,
        (lateRace.hierarchy.node n).total.toNat = ∑ i ∈ folded, lateRace.share n i) ∧
    ∃ after sum, lateRace.hierarchy.flush = (after, .ok sum) ∧
      ∀ n ∈ (onTree ⟨2⟩ [.create NodeId.root "job"]).hierarchy.keys,
        (after.node n).total.toNat =
          ∑ i ∈ Finset.range lateRace.updates.length, lateRace.share n i := by
  obtain ⟨_, ended, completes, _⟩ := writers_lose_nothing ⟨2⟩ [.create NodeId.root "job"]
    (by decide) (by decide) (earlyMoves ++ .flush :: lateMoves) (by decide +kernel)
  obtain ⟨folded, inside, marked, totals⟩ :=
    ended earlyMoves lateMoves rfl (by decide +kernel) (by decide +kernel)
  obtain ⟨after, sum, run, _, complete⟩ := completes (by decide +kernel) (by decide +kernel)
  exact ⟨⟨folded, inside, marked 0 _ rfl rfl, totals⟩, after, sum, run, complete⟩

end Race

end Rollup
