import Mathlib
import Rollup.Proofs.Additivity

/-!
One flush as a recursion over the tree. What a queued node gains is what its own counter holds
undrained, what was pending, and the gains of the queued nodes whose living parent it is. A flush
of a well-formed state gives every queued node its gain, in whatever order the rounds come, and
touches nothing else.

`Progress` is the state between two rounds in closed form: the nodes settled so far have their
gains, and every other node has pending just what its settled children gained.
-/
namespace Rollup

namespace Hierarchy

variable {cfg : Config} {h g : Hierarchy cfg}

def due (h : Hierarchy cfg) : Finset Nat := {k ∈ Finset.range h.arena.size | h.isListed k}

theorem mem_due {k : Nat} : k ∈ h.due ↔ k < h.arena.size ∧ ∃ c, h.lists c k := by
  rw [due, Finset.mem_filter, Finset.mem_range, is_listed_iff]

def dueUnder (h : Hierarchy cfg) (n : Nat) : Finset Nat := {m ∈ h.due | h.parent? m = some n}

theorem mem_due_under {m n : Nat} : m ∈ h.dueUnder n ↔ m ∈ h.due ∧ h.parent? m = some n := by
  rw [dueUnder, Finset.mem_filter]

def gain (h : Hierarchy cfg) (n : Nat) : Nat :=
  (h.node n).counter.unflushed.toNat + (h.node n).pending.toNat +
    ∑ m ∈ (h.dueUnder n).attach, h.gain m
termination_by h.arena.size - n
decreasing_by
  have member := mem_due_under.mp m.property
  have inside := (mem_due.mp member.1).1
  have before := parent_before member.2
  omega

theorem gain_eq (h : Hierarchy cfg) (n : Nat) :
    h.gain n = (h.node n).counter.unflushed.toNat + (h.node n).pending.toNat +
      ∑ m ∈ h.dueUnder n, h.gain m := by
  rw [gain, Finset.sum_attach (h.dueUnder n) h.gain]

def legacy (h : Hierarchy cfg) (n : Nat) : Nat :=
  ∑ m ∈ h.dueUnder n with (h.node m).removed = true, h.gain m

/-- A state as the operations leave it. Depths of nodes and their parents agree in every arena. -/
structure WellFormed (h : Hierarchy cfg) : Prop where
  keyed : ∀ {c : Fin cfg.slots} {id : NodeId} {k}, h.queues[c][id]? = some k →
    k < h.arena.size ∧ (h.node k).id = id
  distinct : ∀ {j k}, j < h.arena.size → k < h.arena.size → h.isAlive j = true →
    h.isAlive k = true → (h.node j).id = (h.node k).id → j = k
  flagged : ∀ {c : Fin cfg.slots} {k}, k < h.arena.size → h.isAlive k = true →
    ((h.node k).queued[c] = true ↔ h.lists c k)
  closed : ∀ {c k p}, h.lists c k → h.parent? k = some p → h.lists c p

theorem WellFormed.tracked (formed : h.WellFormed) : h.Tracked where
  keyed := by
    intro c id k found
    obtain ⟨inside, rfl⟩ := formed.keyed found
    have listed : h.lists c k := found
    exact ⟨inside, rfl, (formed.flagged inside (alive_of_lists listed)).mpr listed⟩
  flagged inside alive flag := (formed.flagged inside alive).mp flag
  closed := formed.closed
  distinct := by
    intro c d j k first second same
    exact formed.distinct (formed.keyed first).1 (formed.keyed second).1 (alive_of_lists first)
      (alive_of_lists second) same

theorem WellFormed.live (formed : h.WellFormed) : h.LiveDistinct :=
  fun _ _ hj hk alive_j alive_k same => formed.distinct hj hk alive_j alive_k same

theorem Tracked.well_formed (tracked : h.Tracked) (distinct : h.LiveDistinct) : h.WellFormed where
  keyed found := ⟨(tracked.keyed found).1, (tracked.keyed found).2.1⟩
  distinct hj hk alive_j alive_k same := distinct _ _ hj hk alive_j alive_k same
  flagged inside alive := ⟨tracked.flagged inside alive, tracked.queued⟩
  closed := tracked.closed

structure GainsFit (h : Hierarchy cfg) : Prop where
  total : ∀ n ∈ h.due, (h.node n).total.toNat + h.gain n < UInt64.size
  inherited : ∀ n ∈ h.due, (h.node n).inherited.toNat + h.legacy n < UInt64.size
  own : ∀ n ∈ h.due,
    (h.node n).own.toNat + (h.node n).counter.unflushed.toNat < UInt64.size
  delta : ∑ n ∈ h.due, (h.node n).counter.unflushed.toNat < UInt64.size

def Drainable (h : Hierarchy cfg) : Prop :=
  ∀ n ∈ h.due, ∃ own after, (h.node n).counter.drain = .ok (own, after)

theorem Solvent.drainable (solvent : h.Solvent) : h.Drainable := by
  intro n _
  obtain ⟨own, run, _⟩ := Counter.drain_ok (solvent.ordered n) (solvent.undrained_fits n)
  exact ⟨own, _, run⟩

theorem Drainable.counter (drainable : h.Drainable) {n : Nat} (queued : n ∈ h.due) :
    (h.node n).counter.Ordered ∧
      (h.node n).counter.unflushed.toNat = (h.node n).counter.waiting := by
  obtain ⟨own, after, run⟩ := drainable n queued
  obtain ⟨ordered, _, value⟩ := Counter.drain_requires run
  have fits : (h.node n).counter.waiting < UInt64.size := value ▸ own.toNat_lt
  exact ⟨ordered, Counter.unflushed_of_fits ordered fits⟩

theorem begun_waiting (tracked : h.Tracked) {k : Nat} : k ∈ h.begunSchedule.waiting ↔ k ∈ h.due := by
  rw [(begins tracked).waiting, mem_due]
  exact ⟨fun ⟨c, listed⟩ => ⟨tracked.inside listed, c, listed⟩, And.right⟩

/-- Between two rounds, when the nodes in `done` are settled. -/
structure Progress (h : Hierarchy cfg) (done : Finset Nat) (g : Hierarchy cfg) (s : Schedule)
    (sum : Summary) : Prop where
  under : Underway h.begun g s
  waiting : ∀ k ∈ s.waiting, k ∈ h.due
  mem_done : ∀ k, k ∈ done ↔ k ∈ h.due ∧ k ∉ s.waiting
  counter : ∀ k, (g.node k).counter =
    if k ∈ done then (h.node k).counter.settled else (h.node k).counter
  total : ∀ k, (g.node k).total =
    if k ∈ done then (h.node k).total + UInt64.ofNat (h.gain k) else (h.node k).total
  pending : ∀ k, (g.node k).pending =
    if k ∈ done then 0
    else (h.node k).pending + UInt64.ofNat (∑ m ∈ done with h.parent? m = some k, h.gain m)
  inherited : ∀ k, (g.node k).inherited = (h.node k).inherited +
    UInt64.ofNat (∑ m ∈ done with h.parent? m = some k ∧ (h.node m).removed = true, h.gain m)
  nodes : sum.nodes = done.card
  delta : sum.delta = UInt64.ofNat (∑ m ∈ done, (h.node m).counter.unflushed.toNat)

theorem Progress.start (tracked : h.Tracked) :
    Progress h ∅ h.begun h.begunSchedule .zero := by
  have begun := begins tracked
  constructor
  case under => exact begun.underway
  case waiting =>
    intro k member
    exact (begun_waiting tracked).mp member
  case mem_done =>
    intro k
    rw [begun_waiting tracked]
    simp
  case counter => exact begun.counter
  case total => exact begun.total
  case pending =>
    intro k
    simp [begun.pending k]
  case inherited =>
    intro k
    simp [begun.inherited k]
  case nodes => rfl
  case delta => simp [Summary.zero]

section
variable {done : Finset Nat} {s rest s' : Schedule} {sum : Summary} {k : Nat} {own : UInt64}
  {g' : Hierarchy cfg}

theorem Progress.counter_of_waiting (progress : Progress h done g s sum)
    (waits : k ∈ s.waiting) : (g.node k).counter = (h.node k).counter := by
  rw [progress.counter, if_neg fun settled => ((progress.mem_done k).mp settled).2 waits]

theorem Progress.parent (tracked : h.Tracked) (progress : Progress h done g s sum) (j : Nat) :
    g.parent? j = h.parent? j :=
  (progress.under.parent j).trans ((begins tracked).parent j)

theorem Progress.children_done (tracked : h.Tracked) (progress : Progress h done g s sum)
    (last : ∀ j ∈ s.waiting, g.parent? j ≠ some k) :
    Finset.filter (fun m => h.parent? m = some k) done = h.dueUnder k := by
  ext m
  rw [mem_due_under, Finset.mem_filter, progress.mem_done]
  constructor
  · exact fun ⟨settled, up⟩ => ⟨settled.1, up⟩
  · rintro ⟨queued, up⟩
    refine ⟨⟨queued, fun waits => last m waits ?_⟩, up⟩
    rw [progress.parent tracked]
    exact up

theorem Progress.gain_word (tracked : h.Tracked) (drainable : h.Drainable) (fits : h.GainsFit)
    (progress : Progress h done g s sum) (waits : k ∈ s.waiting)
    (last : ∀ j ∈ s.waiting, g.parent? j ≠ some k)
    (value : own.toNat = (g.node k).counter.waiting) :
    saturatingAdd own (g.node k).pending = UInt64.ofNat (h.gain k) := by
  have queued := progress.waiting k waits
  have counter := drainable.counter queued
  have room := fits.total k queued
  have parts := h.gain_eq k
  rw [progress.counter_of_waiting waits] at value
  have passed : (UInt64.ofNat (∑ m ∈ h.dueUnder k, h.gain m)).toNat =
      ∑ m ∈ h.dueUnder k, h.gain m := word_of_nat (by omega)
  have pending : (g.node k).pending.toNat =
      (h.node k).pending.toNat + ∑ m ∈ h.dueUnder k, h.gain m := by
    rw [progress.pending, if_neg fun settled => ((progress.mem_done k).mp settled).2 waits,
      progress.children_done tracked last, word_add (by omega), passed]
  refine UInt64.toNat_inj.mp ?_
  rw [saturating_of_fits (by omega), word_of_nat (by omega), parts]
  omega

theorem sum_insert_child {P : Nat → Prop} [DecidablePred P] (fresh : k ∉ done) (f : Nat → Nat) :
    ∑ m ∈ insert k done with P m, f m =
      (∑ m ∈ done with P m, f m) + if P k then f k else 0 := by
  rw [Finset.filter_insert]
  split
  · rw [Finset.sum_insert fun member => fresh (Finset.mem_filter.mp member).1, Nat.add_comm]
  · rfl

theorem Progress.round (tracked : h.Tracked) (drainable : h.Drainable) (fits : h.GainsFit)
    (progress : Progress h done g s sum) (step : Round h.begun g s k own g' s') :
    Progress h (insert k done) g' s' ⟨sum.nodes + 1, saturatingAdd sum.delta own⟩ := by
  have waits := step.popped.waited
  have queued := progress.waiting k waits
  have counter := drainable.counter queued
  have fresh : k ∉ done := fun settled => ((progress.mem_done k).mp settled).2 waits
  have settled := step.settled
  rw [progress.gain_word tracked drainable fits waits step.due step.own_eq] at settled
  have same_counter := progress.counter_of_waiting waits
  have up : g.parent? k = h.parent? k := progress.parent tracked k
  have removed : (g.node k).removed = (h.node k).removed :=
    (progress.under.shape.removed k).trans ((begins tracked).removed k)
  constructor
  case under => exact step.after
  case waiting =>
    intro j member
    exact progress.waiting j ((step.popped.rest_waiting j).mp member).1
  case mem_done =>
    intro j
    rw [Finset.mem_insert, progress.mem_done, step.popped.rest_waiting]
    by_cases same : j = k
    · subst same
      simp [queued]
    · simp [same]
  case counter =>
    intro j
    rw [settled.counter, progress.counter]
    by_cases same : j = k
    · subst same
      simp [fresh]
    · simp [same]
  case total =>
    intro j
    rw [settled.total, progress.total]
    by_cases same : j = k
    · subst same
      simp [fresh]
    · simp [same]
  case pending =>
    intro j
    rw [settled.pending, progress.pending, up, sum_insert_child fresh, UInt64.ofNat_add]
    by_cases same : j = k
    · subst same
      simp
    · by_cases link : h.parent? k = some j
      · have above : j ∉ done := by
          intro member
          have waits_too := progress.under.closed k waits j (up.trans link)
          exact ((progress.mem_done j).mp member).2 waits_too
        simp [same, link, above, UInt64.add_assoc]
      · simp [same, link]
  case inherited =>
    intro j
    rw [settled.inherited, progress.inherited, up, removed, sum_insert_child fresh,
      UInt64.ofNat_add]
    by_cases link : h.parent? k = some j ∧ (h.node k).removed = true
    · rw [if_pos link, if_pos link, UInt64.add_assoc]
    · rw [if_neg link, if_neg link]
      simp
  case nodes =>
    rw [Finset.card_insert_of_notMem fresh]
    exact congrArg (· + 1) progress.nodes
  case delta =>
    have more : ∑ m ∈ insert k done, (h.node m).counter.unflushed.toNat ≤
        ∑ m ∈ h.due, (h.node m).counter.unflushed.toNat := by
      apply Finset.sum_le_sum_of_subset
      intro m member
      rcases Finset.mem_insert.mp member with rfl | old
      · exact queued
      · exact ((progress.mem_done m).mp old).1
    have room := fits.delta
    have value := step.own_eq
    rw [same_counter, ← counter.2] at value
    rw [Finset.sum_insert fresh] at more ⊢
    have so_far : sum.delta.toNat = ∑ m ∈ done, (h.node m).counter.unflushed.toNat := by
      rw [progress.delta]
      exact word_of_nat (by omega)
    refine UInt64.toNat_inj.mp ?_
    rw [saturating_of_fits (by omega), word_of_nat (by omega)]
    omega

end

structure Gained (h h' : Hierarchy cfg) (n : Nat) : Prop where
  total : (h'.node n).total.toNat = (h.node n).total.toNat + h.gain n
  inherited : (h'.node n).inherited.toNat = (h.node n).inherited.toNat + h.legacy n
  own : (h'.node n).own.toNat = (h.node n).own.toNat + (h.node n).counter.unflushed.toNat
  pending : (h'.node n).pending = 0
  unflushed : (h'.node n).counter.unflushed = 0

theorem Progress.gained {s : Schedule} {sum : Summary} (drainable : h.Drainable)
    (fits : h.GainsFit) (progress : Progress h h.due g s sum) {n : Nat} (queued : n ∈ h.due) :
    Gained h g n := by
  have counter := drainable.counter queued
  have room_total := fits.total n queued
  have room_inherited := fits.inherited n queued
  have room_own := fits.own n queued
  constructor
  case total =>
    rw [progress.total, if_pos queued, word_add, word_of_nat (by omega)]
    rw [word_of_nat (by omega)]
    exact room_total
  case inherited =>
    have same : ∑ m ∈ h.due with h.parent? m = some n ∧ (h.node m).removed = true, h.gain m =
        h.legacy n := by
      rw [legacy, dueUnder, Finset.filter_filter]
    rw [progress.inherited, same, word_add, word_of_nat (by omega)]
    rw [word_of_nat (by omega)]
    exact room_inherited
  case own =>
    simp only [Node.own] at room_own ⊢
    rw [progress.counter, if_pos queued, Counter.flushed_total_settled counter.1]
    exact word_add room_own
  case pending => rw [progress.pending, if_pos queued]
  case unflushed => rw [progress.counter, if_pos queued, Counter.unflushed_settled]

theorem Progress.untouched (formed : h.WellFormed) {s : Schedule} {sum : Summary}
    (progress : Progress h h.due g s sum) {n : Nat} (other : n ∉ h.due) :
    g.node n = h.node n := by
  have begun := begins formed.tracked
  have unlisted (c : Fin cfg.slots) : ¬ h.lists c n := fun listed =>
    other (mem_due.mpr ⟨formed.tracked.inside listed, c, listed⟩)
  -- a queued child would have queued its living parent
  have childless : {m ∈ h.due | h.parent? m = some n} = ∅ := by
    apply Finset.filter_eq_empty_iff.mpr
    intro m member up
    obtain ⟨c, listed⟩ := (mem_due.mp member).2
    exact unlisted c (formed.closed listed up)
  have heirless : {m ∈ h.due | h.parent? m = some n ∧ (h.node m).removed = true} = ∅ := by
    rw [← Finset.filter_filter, childless]
    rfl
  apply node_eq
  case identity => exact (progress.under.shape.identity n).trans (begun.identity n)
  case children => exact (progress.under.shape.children n).trans (begun.children n)
  case removed => exact (progress.under.shape.removed n).trans (begun.removed n)
  case counter => rw [progress.counter, if_neg other]
  case total => rw [progress.total, if_neg other]
  case pending =>
    rw [progress.pending, if_neg other, childless]
    simp
  case inherited =>
    rw [progress.inherited, heirless]
    simp
  case queued =>
    rw [progress.under.queued]
    refine Vector.ext fun i bound => Bool.eq_iff_iff.mpr ?_
    exact (begun.queued ⟨i, bound⟩ n).trans (and_iff_left (unlisted _))

theorem flush_settles (tracked : h.Tracked) (drainable : h.Drainable) (fits : h.GainsFit) :
    ∃ g s sum after, Progress h h.due g s sum ∧ h.flush = (after, .ok sum) ∧
      after.arena = g.arena ∧ after.index = g.index ∧ after.queues = g.queues ∧
      after.flushes = h.flushes + if h.due.Nonempty then 1 else 0 := by
  obtain ⟨g, s, sum, ⟨done, progress⟩, last, run⟩ :=
    flush_by_rounds (P := fun g s sum => ∃ done, Progress h done g s sum) tracked
      ⟨∅, Progress.start tracked⟩ fun {g s sum k rest} kept pop => by
        obtain ⟨done, progress⟩ := kept
        have popped := Schedule.pop_some progress.under.valid pop
        have waits := popped.waited
        have counter := drainable.counter (progress.waiting k waits)
        have same := progress.counter_of_waiting waits
        obtain ⟨own, g', s', step⟩ := settle_succeeds (h := g) (k := k) (by rw [same]; exact counter.1)
          (by rw [same, ← counter.2]; exact UInt64.toNat_lt _) rest
        exact ⟨own, g', s', step, _,
          progress.round tracked drainable fits (progress.under.round pop step)⟩
  have all : done = h.due := by
    ext k
    rw [progress.mem_done, Schedule.pop_none progress.under.valid last]
    simp
  subst all
  have any : (∃ c k, h.lists c k) ↔ h.due.Nonempty := by
    constructor
    · rintro ⟨c, k, listed⟩
      exact ⟨k, mem_due.mpr ⟨tracked.inside listed, c, listed⟩⟩
    · rintro ⟨k, member⟩
      obtain ⟨c, listed⟩ := (mem_due.mp member).2
      exact ⟨c, k, listed⟩
  simp only [any] at run
  exact ⟨g, s, sum, _, progress, run, rfl, rfl, rfl, rfl⟩

theorem Progress.unlisted (tracked : h.Tracked) {done : Finset Nat} {s : Schedule} {sum : Summary}
    (progress : Progress h done g s sum) (c : Fin cfg.slots) : g.queues[c] = ∅ := by
  rw [progress.under.queues]
  exact (begins tracked).queues c

/-- A flush of a well-formed state settles the queued nodes, gives each what the recursion says,
    leaves the others as they were, and leaves nothing for a second flush. -/
theorem flush_gains (formed : h.WellFormed) (drainable : h.Drainable) (fits : h.GainsFit) :
    ∃ after sum, h.flush = (after, .ok sum) ∧
      sum.nodes = h.due.card ∧
      sum.delta.toNat = ∑ n ∈ h.due, (h.node n).counter.unflushed.toNat ∧
      (∀ n ∈ h.due, Gained h after n) ∧
      (∀ n, n ∉ h.due → after.node n = h.node n) ∧
      (∀ c : Fin cfg.slots, after.queues[c] = ∅) ∧
      (∀ n, n < h.arena.size → h.isAlive n = true →
        ∀ c : Fin cfg.slots, (after.node n).queued[c] = false) ∧
      after.flushes = h.flushes + (if h.due.Nonempty then 1 else 0) ∧
      SameShape h after ∧
      after.flush = (after, .ok .zero) := by
  have begun := begins formed.tracked
  obtain ⟨g, s, sum, after, progress, run, arena, index, queues, flushes⟩ :=
    flush_settles formed.tracked drainable fits
  have node (n : Nat) : after.node n = g.node n := congrArg (fun a => Arena.node a n) arena
  have unlisted (c : Fin cfg.slots) : after.queues[c] = ∅ := by
    rw [queues]
    exact progress.unlisted formed.tracked c
  refine ⟨after, sum, run, progress.nodes, ?_, ?_, ?_, unlisted, ?_, flushes, ?_,
    flush_of_unlisted unlisted⟩
  · rw [progress.delta]
    exact word_of_nat fits.delta
  · intro n queued
    have gained := progress.gained drainable fits queued
    refine ⟨?_, ?_, ?_, ?_, ?_⟩ <;> rw [node]
    exacts [gained.total, gained.inherited, gained.own, gained.pending, gained.unflushed]
  · intro n other
    rw [node]
    exact progress.untouched formed other
  · intro n inside alive c
    rw [Bool.eq_false_iff, node, progress.under.queued]
    intro set
    obtain ⟨old, unlisted⟩ := (begun.queued c n).mp set
    exact unlisted ((formed.flagged inside alive).mp old)
  · exact (begun.toSameShape.trans progress.under.shape).trans (.of_arena arena index)

/-- A state that a session has reached, with late events on a node that left the tree. -/
def lateState : Hierarchy ⟨2⟩ := ((Session.start ⟨2⟩).run Session.lateSteps).hierarchy

theorem late_additive : lateState.Additive :=
  (Session.run_additive ⟨Additive.start ⟨2⟩, Session.Referenced.start ⟨2⟩⟩ (by decide)
    (by rw [show (Session.start ⟨2⟩).hierarchy.recordings = 0 from new_recordings ⟨2⟩]; decide)
    Session.late_distinct).kept

theorem flush_gains_late : ∃ after sum, lateState.flush = (after, .ok sum) ∧ sum.nodes = 2 ∧
    (after.node 0).total.toNat = 8 ∧ (after.node 0).inherited.toNat = 8 ∧
    after.flush = (after, .ok .zero) := by
  have formed := late_additive.tracked.well_formed Session.late_distinct.live
  have fits : lateState.GainsFit :=
    ⟨by decide +kernel, by decide +kernel, by decide +kernel, by decide +kernel⟩
  obtain ⟨after, sum, run, nodes, _, gained, _, _, _, _, _, again⟩ :=
    flush_gains formed late_additive.solvent.drainable fits
  have root := gained 0 (by decide +kernel)
  refine ⟨after, sum, run, nodes.trans (by decide +kernel), root.total.trans (by decide +kernel),
    root.inherited.trans (by decide +kernel), again⟩

end Hierarchy

end Rollup
