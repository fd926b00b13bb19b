import Mathlib
import Rollup.Proofs.FailedFlush
import Rollup.Proofs.ListsInOrder

/-!
A failed flush and the one after it. Once the counters that could not be drained have been replaced,
a second flush leads to the state to which one flush would have led, had they been replaced before.

Both are followed round by round. Until a round fails, the flush with the counters replaced does what
the failing one does, on a state that differs in these counters only. What is queued again then is
what the other flush still has waiting, so the second flush and the rest of the other one run in step,
on states that differ in references only.
-/
namespace Rollup

namespace Arena

variable {n : Nat}

def refit (a : Arena n) (ks : List Nat) (spare : Nat → Counter n) : Arena n :=
  ks.foldl (fun a k => a.update k fun s => { s with counter := spare k }) a

theorem size_refit (a : Arena n) (ks : List Nat) (spare : Nat → Counter n) :
    (a.refit ks spare).size = a.size := by
  induction ks generalizing a with
  | nil => rfl
  | cons k ks ih => exact (ih _).trans (a.size_update k _)

theorem node_refit (a : Arena n) (ks : List Nat) (spare : Nat → Counter n) (j : Nat) :
    (a.refit ks spare).node j =
      if j ∈ ks ∧ j < a.size then { a.node j with counter := spare j } else a.node j := by
  induction ks generalizing a with
  | nil => simp [refit]
  | cons k ks ih =>
    have later := ih (a.update k fun s => { s with counter := spare k })
    refine later.trans ?_
    rw [size_update, node_update]
    by_cases same : k = j
    · subst same
      by_cases inside : k < a.size <;> simp [inside]
    · simp [same, Ne.symm same]

theorem refit_update (a : Arena n) (ks : List Nat) (spare : Nat → Counter n) (k : Nat)
    {f : Status n → Status n}
    (keeps : k ∈ ks → ∀ s c, f { s with counter := c } = { f s with counter := c }) :
    (a.update k f).refit ks spare = (a.refit ks spare).update k f := by
  refine eq_of_nodes (by simp only [size_refit, size_update]) fun j => ?_
  simp only [node_refit, node_update, size_refit, size_update]
  by_cases same : k = j
  · subst same
    by_cases member : k ∈ ks
    · have swap := keeps member (a.node k).toStatus (spare k)
      by_cases inside : k < a.size
      · simp [member, inside, swap]
      · simp [inside]
    · simp [member]
  · simp [same]

end Arena

namespace Hierarchy

variable {cfg : Config} {h h' b g g' : Hierarchy cfg} {s t rest s' : Schedule} {j k : Nat}
  {ks : List Nat} {spare : Nat → Counter cfg.slots}

def refit (h : Hierarchy cfg) (ks : List Nat) (spare : Nat → Counter cfg.slots) : Hierarchy cfg :=
  { h with arena := h.arena.refit ks spare }

theorem node_refit (h : Hierarchy cfg) (ks : List Nat) (spare : Nat → Counter cfg.slots) (j : Nat) :
    (h.refit ks spare).node j =
      if j ∈ ks ∧ j < h.arena.size then { h.node j with counter := spare j } else h.node j :=
  h.arena.node_refit ks spare j

theorem node_refit_other (other : j ∉ ks) : (h.refit ks spare).node j = h.node j := by
  rw [node_refit, if_neg fun both => other both.1]

theorem refit_shape (h : Hierarchy cfg) (ks : List Nat) (spare : Nat → Counter cfg.slots) :
    SameShape h (h.refit ks spare) where
  size := h.arena.size_refit ks spare
  index := rfl
  identity j := by
    rw [node_refit]
    split <;> rfl
  removed j := by
    rw [node_refit]
    split <;> rfl
  children j := by
    rw [node_refit]
    split <;> rfl

theorem refit_queued (h : Hierarchy cfg) (ks : List Nat) (spare : Nat → Counter cfg.slots)
    (j : Nat) : ((h.refit ks spare).node j).queued = (h.node j).queued := by
  rw [node_refit]
  split <;> rfl

theorem refit_lists (c : Fin cfg.slots) (j : Nat) : (h.refit ks spare).lists c j ↔ h.lists c j := by
  rw [Hierarchy.lists, (refit_shape h ks spare).id]
  rfl

theorem refit_parent (h : Hierarchy cfg) (ks : List Nat) (spare : Nat → Counter cfg.slots)
    (j : Nat) : (h.refit ks spare).parent? j = h.parent? j :=
  parent_same (refit_shape h ks spare) rfl rfl j

theorem refit_rank (h : Hierarchy cfg) (ks : List Nat) (spare : Nat → Counter cfg.slots) :
    (h.refit ks spare).rank = h.rank :=
  (refit_shape h ks spare).rank

theorem SameCounts.refit (counts : SameCounts h h') (size : h'.arena.size = h.arena.size)
    (ks : List Nat) (spare : Nat → Counter cfg.slots) :
    SameCounts (h.refit ks spare) (h'.refit ks spare) := by
  constructor
  all_goals
    intro j
    rw [node_refit, node_refit, size]
    split
  · rfl
  · exact counts.counter j
  · exact counts.total j
  · exact counts.total j
  · exact counts.pending j
  · exact counts.pending j
  · exact counts.inherited j
  · exact counts.inherited j

theorem Tracked.refit (tracked : h.Tracked) (ks : List Nat) (spare : Nat → Counter cfg.slots) :
    (h.refit ks spare).Tracked :=
  tracked.stay (refit_shape h ks spare) rfl (refit_queued h ks spare) fun _ held =>
    alive_of_held held

theorem Underway.refit (under : Underway b g s) (ks : List Nat) (spare : Nat → Counter cfg.slots) :
    Underway (g.refit ks spare) (g.refit ks spare) s where
  shape := SameShape.refl _
  queues := rfl
  holds := rfl
  nextId := rfl
  flushes := rfl
  queued _ := rfl
  valid := refit_rank g ks spare ▸ under.valid
  inside k member := by
    rw [(refit_shape g ks spare).size]
    exact under.inside k member
  closed k member p up := under.closed k member p ((refit_parent g ks spare k).symm.trans up)

/-- A round goes over to any state that shows the same of the node settled, and on which folding and
    passing up do the same. -/
theorem settle_mirrors {f : Hierarchy cfg → Hierarchy cfg} {own : UInt64}
    (node : (f g).node k = g.node k) (rank : (f g).rank = g.rank)
    (up : (f g).parent? k = g.parent? k)
    (fold : ∀ counter gain, (f g).fold k counter gain = f (g.fold k counter gain))
    (pass : ∀ x p gain, (f x).passUp k p gain = f (x.passUp k p gain))
    (done : g.settle s k = .ok (own, g', s')) : (f g).settle s k = .ok (own, f g', s') := by
  obtain ⟨counter, drained, outcome⟩ := settle_iff.mp done
  refine settle_iff.mpr ⟨counter, (congrArg (·.counter.drain) node).trans drained, ?_⟩
  rw [node, up]
  rcases outcome with ⟨stays, rfl, rfl⟩ | ⟨p, some, link, rfl, rfl⟩
  · exact Or.inl ⟨stays, (fold _ _).symm, rfl⟩
  · refine Or.inr ⟨p, some, link, ?_, ?_⟩
    · rw [fold, pass]
    · simp only [schedule, rank]

theorem settle_refit (fresh : k ∉ ks) {own : UInt64} (done : g.settle s k = .ok (own, g', s')) :
    (g.refit ks spare).settle s k = .ok (own, g'.refit ks spare, s') := by
  refine settle_mirrors (f := fun x => x.refit ks spare) ?node ?rank ?up ?fold ?pass done
  case node => exact node_refit_other fresh
  case rank => exact refit_rank g ks spare
  case up => exact refit_parent g ks spare k
  case fold =>
    intro counter gain
    simp only [Hierarchy.fold, update, refit]
    rw [Arena.refit_update _ _ _ _ fun member => absurd member fresh]
  case pass =>
    intro x p gain
    simp only [passUp, (refit_shape x ks spare).removed]
    simp only [update, refit]
    rw [Arena.refit_update _ _ _ _ fun _ _ _ => rfl]

theorem parent_holding {holds : List Nat} (kept : ∀ p, g.parent? k = some p → p ∈ holds)
    (fewer : ∀ j ∈ holds, g.isAlive j = true) :
    parent? { g with holds := holds } k = g.parent? k := by
  refine Option.ext fun p => ?_
  constructor
  · exact (Fades.holding fewer).parent
  · intro up
    exact parent_eq_some.mpr ⟨(parent_eq_some.mp up).1, alive_of_held (kept p up)⟩

theorem settle_holding {holds : List Nat} {own : UInt64}
    (up : parent? { g with holds := holds } k = g.parent? k)
    (done : g.settle s k = .ok (own, g', s')) :
    settle { g with holds := holds } s k = .ok (own, { g' with holds := holds }, s') :=
  settle_mirrors (f := fun x => { x with holds := holds }) rfl rfl up (fun _ _ => rfl)
    (fun _ _ _ => rfl) done

/-- Between two rounds, from `b` and `t` on, of a flush and of one that holds on to these nodes only. -/
structure Abreast (b : Hierarchy cfg) (t : Schedule) (holds : List Nat) (first : Summary)
    (g : Hierarchy cfg) (s : Schedule) : Prop where
  under : Underway b g s
  waiting : ∀ k ∈ s.waiting, k ∈ t.waiting
  counter : ∀ k ∈ s.waiting, (g.node k).counter = (b.node k).counter
  step : ∃ sum, settleAll { b with holds := holds } t first =
    settleAll { g with holds := holds } s sum

theorem Abreast.round {holds : List Nat} {first : Summary} {own : UInt64}
    (abreast : Abreast b t holds first g s) (kept : ∀ k ∈ t.waiting, k ∈ holds)
    (held : ∀ k ∈ holds, k ∈ b.holds) (pop : s.pop = some (k, rest))
    (done : g.settle rest k = .ok (own, g', s')) : Abreast b t holds first g' s' := by
  have round := abreast.under.round pop done
  obtain ⟨sum, step⟩ := abreast.step
  have up : parent? { g with holds := holds } k = g.parent? k := by
    refine parent_holding (fun p up => ?_) fun j member => ?_
    · exact kept p (abreast.waiting p (abreast.under.closed k round.popped.waited p up))
    · exact alive_of_held (abreast.under.holds ▸ held j member)
  constructor
  case under => exact round.after
  case waiting =>
    intro j member
    exact abreast.waiting j ((round.popped.rest_waiting j).mp member).1
  case counter =>
    intro j member
    obtain ⟨waited, other⟩ := (round.popped.rest_waiting j).mp member
    rw [round.settled.counter, if_neg other]
    exact abreast.counter j waited
  case step => exact ⟨_, step.trans (settle_all_next pop (settle_holding up done))⟩

theorem settle_all_holding {base : List Nat} (under : Underway g g t)
    (drains : ∀ k ∈ t.waiting, ∃ own after, (g.node k).counter.drain = .ok (own, after))
    (held : ∀ k ∈ t.waiting ++ base, k ∈ g.holds) (first second : Summary) :
    ∃ after total total', g.settleAll t first = (after, .ok total) ∧
      settleAll { g with holds := t.waiting ++ base } t second =
        ({ after with holds := t.waiting ++ base }, .ok total') ∧
      after.queues = g.queues ∧ after.flushes = g.flushes := by
  have rounds : KeptByRounds fun g₁ s _ => Abreast g t (t.waiting ++ base) second g₁ s :=
    ⟨fun abreast pop done =>
      abreast.round (fun _ waits => List.mem_append_left base waits) held pop done⟩
  obtain ⟨after, s, total, abreast, ends⟩ :=
    settle_all_ends rounds g t first ⟨under, fun _ waits => waits, fun _ _ => rfl, second, rfl⟩
  rcases ends with ⟨last, run⟩ | ⟨k, rest, fault, pop, failed, _⟩
  · obtain ⟨sum, step⟩ := abreast.step
    exact ⟨after, total, sum, run, step.trans (settle_all_last last), abreast.under.queues,
      abreast.under.flushes⟩
  · have waited := (Schedule.pop_waits pop).1
    obtain ⟨own, _, drained⟩ := drains k (abreast.waiting k waited)
    rw [← abreast.counter k waited, settle_error failed] at drained
    exact absurd drained (by simp)

theorem Begun.schedule_eq (begun : Begun h b s) (valid : t.Valid h.rank)
    (waits : ∀ k, k ∈ t.waiting ↔ ∃ c, h.lists c k) : s = t :=
  Schedule.Valid.ext (begun.rank ▸ begun.underway.valid) valid fun k =>
    (begun.waiting k).trans (waits k).symm

theorem Begun.state_eq (begun : Begun h b s) (shape : SameShape h g) (counts : SameCounts h g)
    (queues : ∀ d : Fin cfg.slots, g.queues[d] = ∅)
    (queued : ∀ (d : Fin cfg.slots) j, (g.node j).queued[d] = true ↔
      (h.node j).queued[d] = true ∧ ¬ h.lists d j)
    (nextId : g.nextId = h.nextId) (flushes : g.flushes = h.flushes)
    (holds : g.holds = s.waiting ++ h.holds) : b = g := by
  apply eq_of_same (shape.symm.trans begun.toSameShape)
  case counts =>
    exact ⟨fun k => (begun.counter k).trans (counts.counter k).symm,
      fun k => (begun.total k).trans (counts.total k).symm,
      fun k => (begun.pending k).trans (counts.pending k).symm,
      fun k => (begun.inherited k).trans (counts.inherited k).symm⟩
  case queued =>
    intro k
    refine Vector.ext fun i bound => Bool.eq_iff_iff.mpr ?_
    exact (begun.queued ⟨i, bound⟩ k).trans (queued ⟨i, bound⟩ k).symm
  case nextId => exact begun.nextId.trans nextId.symm
  case queues =>
    exact Vector.ext fun i bound => (begun.queues ⟨i, bound⟩).trans (queues ⟨i, bound⟩).symm
  case flushes => exact begun.flushes.trans flushes.symm
  case holds => exact begun.holds.trans holds.symm

theorem refit_begins (tracked : h.Tracked) (ks : List Nat) (spare : Nat → Counter cfg.slots) :
    (h.refit ks spare).begunSchedule = h.begunSchedule ∧
      (h.refit ks spare).begun = h.begun.refit ks spare := by
  have begun := begins tracked
  have again := begins (tracked.refit ks spare)
  have schedule : (h.refit ks spare).begunSchedule = h.begunSchedule := by
    apply again.schedule_eq
    · rw [refit_rank, ← begun.rank]
      exact begun.underway.valid
    · simp only [refit_lists]
      exact begun.waiting
  refine ⟨schedule, ?_⟩
  apply again.state_eq
  case shape =>
    exact ((refit_shape h ks spare).symm.trans begun.toSameShape).trans (refit_shape _ ks spare)
  case counts => exact begun.toSameCounts.refit begun.size ks spare
  case queues => exact begun.queues
  case queued =>
    intro d j
    rw [refit_queued, refit_queued, refit_lists]
    exact begun.queued d j
  case nextId => exact begun.nextId
  case flushes => exact begun.flushes
  case holds =>
    rw [schedule]
    exact begun.holds

theorem Stopped.begins_again {after : Hierarchy cfg} (formed : h.WellFormed)
    (half : Halfway h g t) (stopped : Stopped g after t) (tracked : after.Tracked) :
    after.begunSchedule = t ∧
      after.begun = { g with holds := t.waiting ++ after.holds } := by
  have begun := begins tracked
  have schedule : after.begunSchedule = t := by
    apply begun.schedule_eq
    · rw [stopped.rank]
      exact half.under.valid
    · simp only [stopped.lists]
      intro k
      exact ⟨fun waits => ⟨_, rfl, waits⟩, fun ⟨_, _, waits⟩ => waits⟩
  refine ⟨schedule, ?_⟩
  apply begun.state_eq
  case shape => exact stopped.toSameShape.symm.trans (.of_arena rfl rfl)
  case counts =>
    exact ⟨fun k => (stopped.counter k).symm, fun k => (stopped.total k).symm,
      fun k => (stopped.pending k).symm, fun k => (stopped.inherited k).symm⟩
  case queues =>
    intro d
    have none := begun_queues h d
    rw [← half.under.queues] at none
    exact none
  case queued =>
    intro d j
    -- the flags of what waits were cleared when the failed flush began
    have cleared (waits : j ∈ t.waiting) : (g.node j).queued[d] = false := by
      rw [Bool.eq_false_iff, half.under.queued]
      intro flag
      obtain ⟨old, unlisted⟩ := ((begins formed.tracked).queued d j).mp flag
      obtain ⟨inside, _, listed⟩ := mem_due.mp (half.waiting j waits)
      exact unlisted ((formed.flagged inside (alive_of_lists listed)).mp old)
    have flag : (node { g with holds := t.waiting ++ after.holds } j).queued = (g.node j).queued :=
      rfl
    rw [flag, stopped.queued, stopped.lists]
    constructor
    · intro set
      have unlisted : ¬ (d = cfg.slot ⟨0⟩ ∧ j ∈ t.waiting) := fun both => by
        rw [cleared both.2] at set
        exact absurd set (by simp)
      exact ⟨Or.inl set, unlisted⟩
    · rintro ⟨old | listed, unlisted⟩
      · exact old
      · exact absurd listed unlisted
  case nextId => exact stopped.nextId.symm
  case flushes => exact stopped.flushes.symm
  case holds => rw [schedule]

structure Finalised (h after : Hierarchy cfg) (n : Nat) : Prop where
  counter : (after.node n).counter = (h.node n).counter.settled
  pending : (after.node n).pending = 0
  unlisted : ∀ c, ¬ after.lists c n

structure Postponed (h after : Hierarchy cfg) (n : Nat) : Prop where
  counter : (after.node n).counter = (h.node n).counter
  total : (after.node n).total = (h.node n).total
  queued : ∀ a ∈ h.chain n, after.lists (cfg.slot ⟨0⟩) a

theorem Halfway.postponed {after : Hierarchy cfg} (tracked : h.Tracked) (half : Halfway h g t)
    (stopped : Stopped g after t) {n : Nat} (waits : n ∈ t.waiting) : Postponed h after n where
  counter := (stopped.counter n).trans (half.counter_of_waiting waits)
  total := (stopped.total n).trans (half.total n waits)
  queued a member := by
    rw [← chain_congr (half.parent tracked)] at member
    refine (stopped.lists _ a).mpr ⟨rfl, ?_⟩
    exact chain_closed (fun {i p} waits up => half.under.closed i waits p up) waits member

theorem Halfway.finalised {after : Hierarchy cfg} (half : Halfway h g t)
    (stopped : Stopped g after t) {n : Nat} (queued : n ∈ h.due) (done : n ∉ t.waiting) :
    Finalised h after n where
  counter := by
    rw [stopped.counter, half.counter, if_pos ⟨queued, done⟩]
  pending := (stopped.pending n).trans (half.pending n queued done)
  unlisted c listed := done ((stopped.lists c n).mp listed).2

theorem flush_of_settled {sum : Summary} (some : h.begunSchedule.waiting ≠ [])
    (run : h.begun.settleAll h.begunSchedule .zero = (g, .ok sum)) :
    h.flush = ({ g with holds := h.holds, flushes := h.flushes + 1 }, .ok sum) := by
  rw [flush_eq, if_neg fun empty => some (waiting_nil_iff.mp empty), run]

structure InStep (h : Hierarchy cfg) (spare : Nat → Counter cfg.slots) (g : Hierarchy cfg)
    (s : Schedule) (sum : Summary) : Prop where
  half : Halfway h g s
  step : settleAll (h.begun.refit h.faulty spare) h.begunSchedule .zero =
    settleAll (g.refit h.faulty spare) s sum

theorem InStep.rounds (tracked : h.Tracked) (spare : Nat → Counter cfg.slots) :
    KeptByRounds (InStep h spare) := by
  refine ⟨fun {g s sum k rest own g' s'} before pop done => ?_⟩
  have sound := before.half.sound_of_settle (Schedule.pop_waits pop).1 done
  exact ⟨before.half.round tracked pop done,
    before.step.trans (settle_all_next pop (settle_refit sound done))⟩

theorem InStep.retries {after : Hierarchy cfg} {sum : Summary} (formed : h.WellFormed)
    (abreast : InStep h spare g t sum) (stopped : Stopped g after t) (tracked : after.Tracked)
    (holds : after.holds = h.holds) (some : t.waiting ≠ [])
    (spares : ∀ k ∈ h.faulty, ∃ own after, (spare k).drain = .ok (own, after)) :
    ∃ final first second,
      (after.refit h.faulty spare).flush = (final, .ok second) ∧
      (h.refit h.faulty spare).flush = (final, .ok first) ∧
      final.flushes = h.flushes + 1 ∧ ∀ c : Fin cfg.slots, final.queues[c] = ∅ := by
  have half := abreast.half
  obtain ⟨schedule, begun⟩ := refit_begins formed.tracked h.faulty spare
  obtain ⟨schedule_after, begun_after⟩ := refit_begins tracked h.faulty spare
  obtain ⟨same_schedule, same_begun⟩ := stopped.begins_again formed half tracked
  have drains (k : Nat) (waits : k ∈ t.waiting) :
      ∃ own left, ((g.refit h.faulty spare).node k).counter.drain = .ok (own, left) := by
    by_cases member : k ∈ h.faulty
    · rw [node_refit, if_pos ⟨member, half.under.inside k waits⟩]
      exact spares k member
    · rw [node_refit_other member, half.counter_of_waiting waits]
      cases drained : (h.node k).counter.drain with
      | error fault => exact absurd (mem_faulty.mpr ⟨half.waiting k waits, fault, drained⟩) member
      | ok result => exact ⟨result.1, result.2, rfl⟩
  have held (k : Nat) (member : k ∈ t.waiting ++ h.holds) : k ∈ g.holds := by
    cases List.mem_append.mp member with
    | inl waits => exact half.held formed.tracked waits
    | inr old =>
      rw [half.under.holds]
      exact List.mem_append_right _ old
  obtain ⟨final, first, second, single, again, queues, flushes⟩ :=
    settle_all_holding (half.under.refit h.faulty spare) drains held sum .zero
  have begin_again : (after.refit h.faulty spare).begun =
      { g.refit h.faulty spare with holds := t.waiting ++ h.holds } := by
    rw [begun_after, same_begun, holds]
    rfl
  have waiting : (h.refit h.faulty spare).begunSchedule.waiting ≠ [] := by
    obtain ⟨k, waits⟩ := List.exists_mem_of_ne_nil _ some
    rw [schedule]
    exact List.ne_nil_of_mem ((begun_waiting formed.tracked).mpr (half.waiting k waits))
  have waiting_after : (after.refit h.faulty spare).begunSchedule.waiting ≠ [] := by
    rw [schedule_after, same_schedule]
    exact some
  have run := flush_of_settled waiting (by rw [begun, schedule, abreast.step, single])
  have rerun := flush_of_settled waiting_after
    (by rw [begin_again, schedule_after, same_schedule, again])
  have holds_after : (after.refit h.faulty spare).holds = h.holds := holds
  have flushes_after : (after.refit h.faulty spare).flushes = h.flushes :=
    stopped.flushes.trans (half.under.flushes.trans (begins formed.tracked).flushes)
  rw [holds_after, flushes_after] at rerun
  refine ⟨_, first, second, rerun, run, rfl, fun c => ?_⟩
  have none := begun_queues h c
  rw [← half.under.queues] at none
  have same : final.queues = g.queues := queues
  rw [← same] at none
  exact none

/-- When a listed counter cannot be drained, the flush fails at a node `k` of that kind. What ranks
    above `k` is finished, everything else that was listed keeps its counts and is queued again with
    its living ancestors. With the counters replaced, a second flush then leads to the state to which
    a single one would have led, had they been replaced before. -/
theorem failed_flush_retries (formed : h.WellFormed) (faults : h.faulty ≠ [])
    (spare : Nat → Counter cfg.slots)
    (spares : ∀ k ∈ h.faulty, ∃ own after, (spare k).drain = .ok (own, after)) :
    ∃ after k fault, h.flush = (after, .error (.inconsistent (.counter fault))) ∧
      k ∈ h.faulty ∧ (h.node k).counter.drain = .error fault ∧
      after.flushes = h.flushes ∧ after.WellFormed ∧
      (∀ n ∈ h.due, (h.rank k).isAfter (h.rank n) = true → Finalised h after n) ∧
      (∀ n ∈ h.due, (h.rank k).isAfter (h.rank n) = false → Postponed h after n) ∧
      ∃ final first second,
        (after.refit h.faulty spare).flush = (final, .ok second) ∧
        (h.refit h.faulty spare).flush = (final, .ok first) ∧
        final.flushes = h.flushes + 1 ∧ ∀ c : Fin cfg.slots, final.queues[c] = ∅ := by
  have tracked := formed.tracked
  obtain ⟨g, t, sum, abreast, ends⟩ :=
    flush_ends (InStep.rounds tracked spare) ⟨Halfway.start tracked, rfl⟩
  have half := abreast.half
  rcases ends with ⟨last, _⟩ | ⟨k, rest, fault, pop, failed, run⟩
  · obtain ⟨j, member⟩ := List.exists_mem_of_ne_nil _ faults
    have waits := half.faulty j member
    rw [Schedule.pop_none half.under.valid last] at waits
    exact absurd waits (by simp)
  have popped := Schedule.pop_some half.under.valid pop
  have drained := settle_error failed
  rw [half.counter_of_waiting popped.waited] at drained
  have member : k ∈ h.faulty := mem_faulty.mpr ⟨half.waiting k popped.waited, fault, drained⟩
  have tended := tracked_tending.flushes tracked formed.live
  have stopped := half.stops formed pop
  rw [run] at tended
  refine ⟨_, k, fault, run, member, drained, ?_, ?_, ?_, ?_, ?_⟩
  · exact stopped.flushes.trans (half.under.flushes.trans (begins tracked).flushes)
  · exact tended.kept.well_formed (formed.live.fades tended.toFades)
  · intro n queued later
    refine half.finalised stopped queued fun waits => ?_
    by_cases same : n = k
    · rw [same, Rank.is_after_irrefl] at later
      exact absurd later (by simp)
    · have above := popped.highest n ((popped.rest_waiting n).mpr ⟨waits, same⟩)
      rw [(half.shape tracked).rank] at above
      have circle := Rank.is_after_trans above later
      rw [Rank.is_after_irrefl] at circle
      exact absurd circle (by simp)
  · intro n queued early
    refine half.postponed tracked stopped (Classical.byContradiction fun done => ?_)
    rw [half.ahead n queued done k popped.waited] at early
    exact absurd early (by simp)
  · exact abreast.retries formed stopped tended.kept rfl (List.ne_nil_of_mem popped.waited) spares

/-- What two CPUs record on one node of three does not fit a word. -/
def overflowSteps : List Step :=
  [.create NodeId.root "job", .create ⟨2⟩ "task", .create ⟨3⟩ "part", .add ⟨4⟩ ⟨1⟩ 9,
    .add ⟨3⟩ ⟨0⟩ 0xffffffffffffffff, .add ⟨3⟩ ⟨1⟩ 5]

def overflowing : Hierarchy ⟨2⟩ := ((Session.start ⟨2⟩).run overflowSteps).hierarchy

theorem overflowing_formed : overflowing.WellFormed := by
  have distinct : overflowing.Distinct := by decide +kernel
  have order := Session.run_in_order ⟨2⟩ overflowSteps fun _ _ parted =>
    (Session.distinct_all_along distinct parted).live
  exact order.tracked.well_formed distinct.live

def replacement (_ : Nat) : Counter (Config.slots ⟨2⟩) :=
  (Counter.zero _).add (Config.slot ⟨2⟩ ⟨1⟩) 5

theorem overflow_retries : ∃ after fault final first second,
    overflowing.flush = (after, .error (.inconsistent (.counter fault))) ∧
      Finalised overflowing after 3 ∧ Postponed overflowing after 2 ∧
      Postponed overflowing after 1 ∧ Postponed overflowing after 0 ∧
      (after.refit [2] replacement).flush = (final, .ok second) ∧
      (overflowing.refit [2] replacement).flush = (final, .ok first) ∧
      final.flushes = 1 := by
  have faults : overflowing.faulty = [2] := by decide +kernel
  obtain ⟨after, k, fault, run, member, _, _, _, finished, left, final, first, second, again,
      single, flushes, _⟩ := failed_flush_retries overflowing_formed
    (by rw [faults]; decide) replacement fun _ _ => ⟨5, _, rfl⟩
  rw [faults] at member again single
  obtain rfl : k = 2 := List.mem_singleton.mp member
  exact ⟨after, fault, final, first, second, run, finished 3 (by decide +kernel) (by decide +kernel),
    left 2 (by decide +kernel) (by decide +kernel), left 1 (by decide +kernel) (by decide +kernel),
    left 0 (by decide +kernel) (by decide +kernel), again, single,
    flushes.trans (by decide +kernel)⟩

end Hierarchy

end Rollup
