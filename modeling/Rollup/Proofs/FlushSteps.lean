import Mathlib
import Rollup.Proofs.CounterAmounts
import Rollup.Proofs.ScheduleOrder
import Rollup.Proofs.UpdateLists

/-!
How a flush goes on. It begins with everything listed waiting and every list empty (`Begun`). Each
round settles the node due next, and `Settled` says what that does to every node. Since a listed
node's living parent is listed too, a parent waits already when a gain reaches it, and it waits
until all that pass their gains to it are settled (`Underway`).

What holds when a flush begins and is kept by every round holds when it ends, whether the last round
is over or one fails; `flush_ends` says so once for all such properties, and `flush_by_rounds` for
flushes of which no round fails.
-/
namespace Rollup

namespace Hierarchy

variable {cfg : Config} {h h' b : Hierarchy cfg}

theorem alive_congr (shape : SameShape h h') (queues : h'.queues = h.queues)
    (holds : h'.holds = h.holds) (k : Nat) : h'.isAlive k = h.isAlive k := by
  have listed : h'.isListed k = h.isListed k := by
    simp only [isListed, queues, shape.id]
  simp only [isAlive, shape.removed, holds, listed]

theorem parent_same (shape : SameShape h h') (queues : h'.queues = h.queues)
    (holds : h'.holds = h.holds) (k : Nat) : h'.parent? k = h.parent? k :=
  parent_congr (shape.parent k) fun p _ => alive_congr shape queues holds p

theorem SameShape.rank (same : SameShape h h') : h'.rank = h.rank := by
  funext j
  simp only [Hierarchy.rank, same.depth, same.id]

theorem parent_after {k p : Nat} (link : (h.node k).parent = some p) :
    (h.rank p).isAfter (h.rank k) = true := by
  have above := Arena.parent_above link
  rw [Rank.is_after_iff]
  simp only [Hierarchy.rank, node] at above ⊢
  omega

structure Settled (h h' : Hierarchy cfg) (k : Nat) (gain : UInt64) : Prop
    extends SameShape h h' where
  queues : h'.queues = h.queues
  holds : h'.holds = h.holds
  nextId : h'.nextId = h.nextId
  flushes : h'.flushes = h.flushes
  queued : ∀ j, (h'.node j).queued = (h.node j).queued
  counter : ∀ j, (h'.node j).counter =
    if j = k then (h.node j).counter.settled else (h.node j).counter
  total : ∀ j, (h'.node j).total = if j = k then (h.node j).total + gain else (h.node j).total
  pending : ∀ j, (h'.node j).pending =
    if j = k then 0
    else if h.parent? k = some j then (h.node j).pending + gain else (h.node j).pending
  inherited : ∀ j, (h'.node j).inherited =
    if h.parent? k = some j ∧ (h.node k).removed = true then (h.node j).inherited + gain
    else (h.node j).inherited

theorem node_fold (k : Nat) (counter : Counter cfg.slots) (gain : UInt64)
    (inside : k < h.arena.size) (j : Nat) : (h.fold k counter gain).node j =
      if k = j then
        { h.node j with counter, pending := 0, total := (h.node j).total + gain }
      else h.node j := by
  rw [fold, node_update]
  simp [inside]

theorem fold_settles {k : Nat} (inside : k < h.arena.size) (gain : UInt64)
    (stays : gain = 0 ∨ h.parent? k = none) :
    Settled h (h.fold k (h.node k).counter.settled gain) k gain where
  toSameShape := same_shape_update (fun _ => rfl) (fun _ => rfl)
  queues := rfl
  holds := rfl
  nextId := rfl
  flushes := rfl
  queued j := by
    rw [node_fold k _ gain inside]
    split <;> rfl
  counter j := by
    rw [node_fold k _ gain inside]
    by_cases same : k = j
    · subst same
      simp
    · simp [same, Ne.symm same]
  total j := by
    rw [node_fold k _ gain inside]
    by_cases same : k = j
    · subst same
      simp
    · simp [same, Ne.symm same]
  pending j := by
    rw [node_fold k _ gain inside]
    by_cases same : k = j
    · subst same
      simp
    · rcases stays with rfl | top
      · simp [same, Ne.symm same]
      · simp [same, Ne.symm same, top]
  inherited j := by
    rw [node_fold k _ gain inside]
    have kept : (if k = j then
        { h.node j with
          counter := (h.node k).counter.settled, pending := 0,
          total := (h.node j).total + gain }
        else h.node j).inherited = (h.node j).inherited := by
      split <;> rfl
    rw [kept]
    rcases stays with rfl | top
    · simp
    · simp [top]

theorem pass_settles {k p : Nat} (inside : k < h.arena.size) (gain : UInt64)
    (up : h.parent? k = some p) :
    Settled h ((h.fold k (h.node k).counter.settled gain).passUp k p gain) k gain := by
  have before := parent_before up
  have size : (h.fold k (h.node k).counter.settled gain).arena.size = h.arena.size :=
    Arena.size_update _ _ _
  have inside_p : p < (h.fold k (h.node k).counter.settled gain).arena.size := by omega
  have first : SameShape h (h.fold k (h.node k).counter.settled gain) :=
    same_shape_update (fun _ => rfl) (fun _ => rfl)
  have node (j : Nat) : ((h.fold k (h.node k).counter.settled gain).passUp k p gain).node j =
      if j = k then
        { h.node k with
          counter := (h.node k).counter.settled, pending := 0, total := (h.node k).total + gain }
      else if j = p then
        { h.node p with
          pending := (h.node p).pending + gain
          inherited := (h.node p).inherited + if (h.node k).removed then gain else 0 }
      else h.node j := by
    rw [passUp, node_update, node_fold k _ gain inside, first.removed]
    by_cases at_k : j = k
    · subst at_k
      simp [Nat.ne_of_lt before]
    · by_cases at_p : j = p
      · subst at_p
        simp [inside_p, at_k, Ne.symm at_k]
      · simp [at_k, at_p, Ne.symm at_k, Ne.symm at_p]
  constructor
  case toSameShape => exact first.trans (same_shape_update (fun _ => rfl) (fun _ => rfl))
  case queues => rfl
  case holds => rfl
  case nextId => rfl
  case flushes => rfl
  all_goals
    intro j
    rw [node]
    by_cases at_k : j = k
    · subst at_k
      simp [up, Nat.ne_of_lt before]
    · by_cases at_p : j = p
      · subst at_p
        cases (h.node k).removed <;> simp [at_k, up]
      · have other : ¬ p = j := fun same => at_p same.symm
        simp [at_k, at_p, up, other]

theorem fold_parent (counter : Counter cfg.slots) (gain : UInt64) (k j : Nat) :
    (h.fold k counter gain).parent? j = h.parent? j := by
  have shape : SameShape h (h.fold k counter gain) :=
    same_shape_update (fun _ => rfl) (fun _ => rfl)
  exact parent_same shape rfl rfl j

/-- Settling drains the node's counter. What the node gained stays there, or goes to its living
    parent as well, which is then scheduled. -/
theorem settle_iff {s s' : Schedule} {k : Nat} {own : UInt64} :
    h.settle s k = .ok (own, h', s') ↔
      ∃ counter, (h.node k).counter.drain = .ok (own, counter) ∧
        ((saturatingAdd own (h.node k).pending = 0 ∨ h.parent? k = none) ∧
            h' = h.fold k counter (saturatingAdd own (h.node k).pending) ∧ s' = s ∨
          ∃ p, saturatingAdd own (h.node k).pending ≠ 0 ∧ h.parent? k = some p ∧
            h' = (h.fold k counter (saturatingAdd own (h.node k).pending)).passUp k p
              (saturatingAdd own (h.node k).pending) ∧ s' = h.schedule s p) := by
  cases drained : (h.node k).counter.drain with
  | error fault => simp [settle, drained]
  | ok result =>
    obtain ⟨delta, counter⟩ := result
    simp only [settle, drained, fold_parent]
    by_cases none : saturatingAdd delta (h.node k).pending = 0
    · grind
    · cases up : h.parent? k with
      | none => grind
      | some p => grind

theorem settle_ok {s s' : Schedule} {k : Nat} {own : UInt64} (inside : k < h.arena.size)
    (done : h.settle s k = .ok (own, h', s')) :
    (h.node k).counter.Ordered ∧ own.toNat = (h.node k).counter.waiting ∧
      Settled h h' k (saturatingAdd own (h.node k).pending) := by
  obtain ⟨counter, drained, outcome⟩ := settle_iff.mp done
  obtain ⟨ordered, rfl, value⟩ := Counter.drain_requires drained
  refine ⟨ordered, value, ?_⟩
  rcases outcome with ⟨stays, rfl, _⟩ | ⟨p, _, up, rfl, _⟩
  · exact fold_settles inside _ stays
  · exact pass_settles inside _ up

section
variable {s s' : Schedule} {k j p : Nat} {own : UInt64}
  (done : h.settle s k = .ok (own, h', s'))
include done

theorem settle_schedule : s' = s ∨ ∃ p, h.parent? k = some p ∧ s' = h.schedule s p := by
  obtain ⟨_, _, outcome⟩ := settle_iff.mp done
  rcases outcome with ⟨_, _, rfl⟩ | ⟨p, _, up, _, rfl⟩
  · exact Or.inl rfl
  · exact Or.inr ⟨p, up, rfl⟩

theorem settle_waits (waits : j ∈ s.waiting) : j ∈ s'.waiting := by
  rcases settle_schedule done with rfl | ⟨p, _, rfl⟩
  · exact waits
  · exact Schedule.waits_of_push waits

theorem waiting_of_settle (waits : j ∈ s'.waiting) : j ∈ s.waiting ∨ h.parent? k = some j := by
  rcases settle_schedule done with rfl | ⟨p, up, rfl⟩
  · exact Or.inl waits
  · rcases Schedule.waiting_of_push waits with old | rfl
    · exact Or.inl old
    · exact Or.inr up

theorem settle_valid (valid : s.Valid h.rank) : s'.Valid h.rank := by
  rcases settle_schedule done with rfl | ⟨p, _, rfl⟩
  · exact valid
  · exact Schedule.push_valid valid p

theorem settle_heir (valid : s.Valid h.rank) (up : h.parent? k = some p)
    (apart : ∀ i ∈ s.waiting, (h.node i).id = (h.node p).id → i = p) :
    saturatingAdd own (h.node k).pending = 0 ∨ p ∈ s'.waiting := by
  obtain ⟨_, _, outcome⟩ := settle_iff.mp done
  rcases outcome with ⟨none | top, _, _⟩ | ⟨q, _, link, _, rfl⟩
  · exact Or.inl none
  · rw [up] at top
    exact absurd top (by simp)
  · obtain rfl := Option.some.inj (up.symm.trans link)
    exact Or.inr ((Schedule.waiting_push valid apart p).mpr (Or.inr rfl))

end

theorem settle_of_drained {k : Nat} {own : UInt64} {counter : Counter cfg.slots}
    (drained : (h.node k).counter.drain = .ok (own, counter)) (s : Schedule) :
    ∃ h' s', h.settle s k = .ok (own, h', s') := by
  by_cases stays : saturatingAdd own (h.node k).pending = 0 ∨ h.parent? k = none
  · exact ⟨_, _, settle_iff.mpr ⟨counter, drained, Or.inl ⟨stays, rfl, rfl⟩⟩⟩
  · obtain ⟨some, up⟩ := not_or.mp stays
    obtain ⟨p, up⟩ := Option.ne_none_iff_exists'.mp up
    exact ⟨_, _, settle_iff.mpr ⟨counter, drained, Or.inr ⟨p, some, up, rfl, rfl⟩⟩⟩

theorem settle_succeeds {k : Nat} (ordered : (h.node k).counter.Ordered)
    (fits : (h.node k).counter.waiting < UInt64.size) (s : Schedule) :
    ∃ own h' s', h.settle s k = .ok (own, h', s') := by
  obtain ⟨own, drained, _⟩ := Counter.drain_ok ordered fits
  exact ⟨own, settle_of_drained drained s⟩

theorem saturating_of_fits {x y : UInt64} (fits : x.toNat + y.toNat < UInt64.size) :
    (saturatingAdd x y).toNat = x.toNat + y.toNat := by
  simp only [saturatingAdd, fits, if_true]
  exact word_add fits

/-- A flush between two rounds: as it began but for counts, with every living parent of a waiting
    node still waiting. -/
structure Underway (b h : Hierarchy cfg) (s : Schedule) : Prop where
  shape : SameShape b h
  queues : h.queues = b.queues
  holds : h.holds = b.holds
  nextId : h.nextId = b.nextId
  flushes : h.flushes = b.flushes
  queued : ∀ j, (h.node j).queued = (b.node j).queued
  valid : s.Valid h.rank
  inside : ∀ k ∈ s.waiting, k < h.arena.size
  closed : ∀ k ∈ s.waiting, ∀ p, h.parent? k = some p → p ∈ s.waiting

theorem Underway.parent {s : Schedule} (under : Underway b h s) (k : Nat) :
    h.parent? k = b.parent? k :=
  parent_same under.shape under.queues under.holds k

structure Round (b h : Hierarchy cfg) (s : Schedule) (k : Nat) (own : UInt64)
    (h' : Hierarchy cfg) (s' : Schedule) : Prop where
  settled : Settled h h' k (saturatingAdd own (h.node k).pending)
  own_eq : own.toNat = (h.node k).counter.waiting
  popped : Schedule.Popped h.rank s k s'
  after : Underway b h' s'
  due : ∀ j ∈ s.waiting, h.parent? j ≠ some k

theorem Underway.round {s rest s' : Schedule} {k : Nat} {own : UInt64} (under : Underway b h s)
    (pop : s.pop = some (k, rest)) (done : h.settle rest k = .ok (own, h', s')) :
    Round b h s k own h' s' := by
  have popped := Schedule.pop_some under.valid pop
  obtain ⟨_, own_eq, settled⟩ := settle_ok (under.inside k popped.waited) done
  have due (j : Nat) (member : j ∈ s.waiting) : h.parent? j ≠ some k := by
    intro up
    have before := parent_before up
    have later := popped.highest j ((popped.rest_waiting j).mpr ⟨member, by omega⟩)
    exact Rank.is_after_asymm (parent_after (link_of_parent up)) later
  have same : s' = rest := by
    rcases settle_schedule done with same | ⟨p, up, pushed⟩
    · exact same
    · have waits := under.closed k popped.waited p up
      have before := parent_before up
      have kept := (popped.rest_waiting p).mpr ⟨waits, by omega⟩
      rw [pushed]
      exact Schedule.push_of_waiting popped.valid kept
  subst same
  have up (j : Nat) : h'.parent? j = h.parent? j :=
    parent_same settled.toSameShape settled.queues settled.holds j
  refine ⟨settled, own_eq, popped, ?_, due⟩
  constructor
  case shape => exact under.shape.trans settled.toSameShape
  case queues => exact settled.queues.trans under.queues
  case holds => exact settled.holds.trans under.holds
  case nextId => exact settled.nextId.trans under.nextId
  case flushes => exact settled.flushes.trans under.flushes
  case queued =>
    intro j
    exact (settled.queued j).trans (under.queued j)
  case valid =>
    rw [settled.rank]
    exact popped.valid
  case inside =>
    intro j member
    rw [settled.size]
    exact under.inside j ((popped.rest_waiting j).mp member).1
  case closed =>
    intro j member p link
    rw [up] at link
    have waited := ((popped.rest_waiting j).mp member).1
    refine (popped.rest_waiting p).mpr ⟨under.closed j waited p link, fun same => ?_⟩
    exact due j waited (same ▸ link)

section
variable {s rest s' : Schedule} {sum : Summary} {k : Nat} {own : UInt64}

theorem settle_all_last (last : s.pop = none) : h.settleAll s sum = (h, .ok sum) := by
  unfold settleAll
  split
  · rfl
  · rename_i k rest due
    rw [last] at due
    exact absurd due (by simp)

theorem settle_all_next (pop : s.pop = some (k, rest)) (done : h.settle rest k = .ok (own, h', s')) :
    h.settleAll s sum = h'.settleAll s' ⟨sum.nodes + 1, saturatingAdd sum.delta own⟩ := by
  rw [settleAll]
  split
  · rename_i last
    rw [pop] at last
    exact absurd last (by simp)
  · rename_i j others due
    rw [pop, Option.some.injEq, Prod.mk.injEq] at due
    obtain ⟨rfl, rfl⟩ := due
    split
    · rename_i fault failed
      rw [done] at failed
      exact absurd failed (by simp)
    · rename_i own' h₂ s₂ same
      rw [done, Except.ok.injEq, Prod.mk.injEq, Prod.mk.injEq] at same
      obtain ⟨rfl, rfl, rfl⟩ := same
      rfl

theorem settle_all_fails {fault : Counter.Fault} (pop : s.pop = some (k, rest))
    (failed : h.settle rest k = .error fault) :
    h.settleAll s sum = ((k :: rest.waiting).foldl .requeue h, .error fault) := by
  unfold settleAll
  split
  · rename_i last
    rw [pop] at last
    exact absurd last (by simp)
  · rename_i j others due
    rw [pop, Option.some.injEq, Prod.mk.injEq] at due
    obtain ⟨rfl, rfl⟩ := due
    split
    · rename_i fault' same
      rw [failed, Except.error.injEq] at same
      rw [same]
    · rename_i own' h₂ s₂ done
      rw [failed] at done
      exact absurd done (by simp)

end

structure KeptByRounds (P : Hierarchy cfg → Schedule → Summary → Prop) : Prop where
  round : ∀ {h s sum k rest own h' s'}, P h s sum → s.pop = some (k, rest) →
    h.settle rest k = .ok (own, h', s') → P h' s' ⟨sum.nodes + 1, saturatingAdd sum.delta own⟩

theorem settle_all_ends {P : Hierarchy cfg → Schedule → Summary → Prop} (kept : KeptByRounds P)
    (h : Hierarchy cfg) (s : Schedule) (sum : Summary) (start : P h s sum) :
    ∃ g t total, P g t total ∧
      (t.pop = none ∧ h.settleAll s sum = (g, .ok total) ∨
        ∃ k rest fault, t.pop = some (k, rest) ∧ g.settle rest k = .error fault ∧
          h.settleAll s sum = ((k :: rest.waiting).foldl .requeue g, .error fault)) := by
  induction weight : s.weight id using Nat.strongRecOn generalizing h s sum with
  | ind w ih =>
    cases pop : s.pop with
    | none => exact ⟨h, s, sum, start, Or.inl ⟨pop, settle_all_last pop⟩⟩
    | some next =>
      obtain ⟨k, rest⟩ := next
      cases done : h.settle rest k with
      | error fault =>
        exact ⟨h, s, sum, start, Or.inr ⟨k, rest, fault, pop, done, settle_all_fails pop done⟩⟩
      | ok result =>
        obtain ⟨own, h₁, s₁⟩ := result
        have popped := Schedule.weight_pop id pop
        have settled := weight_settle done
        simp only [id_eq] at popped
        rw [settle_all_next pop done]
        exact ih (s₁.weight id) (by omega) h₁ s₁ _ (kept.round start pop done) rfl

structure Begun (h b : Hierarchy cfg) (s : Schedule) : Prop
    extends SameShape h b, SameCounts h b where
  queues : ∀ d : Fin cfg.slots, b.queues[d] = ∅
  queued : ∀ (d : Fin cfg.slots) j, (b.node j).queued[d] = true ↔
    (h.node j).queued[d] = true ∧ ¬ h.lists d j
  holds : b.holds = s.waiting ++ h.holds
  nextId : b.nextId = h.nextId
  flushes : b.flushes = h.flushes
  waiting : ∀ k, k ∈ s.waiting ↔ ∃ c, h.lists c k
  parent : ∀ k, b.parent? k = h.parent? k
  underway : Underway b b s

def begunSchedule (h : Hierarchy cfg) : Schedule :=
  h.drainAll.1.foldl h.drainAll.2.schedule Schedule.empty

def begun (h : Hierarchy cfg) : Hierarchy cfg :=
  { h.drainAll.2 with holds := h.begunSchedule.waiting ++ h.holds }

theorem begins (tracked : h.Tracked) : Begun h h.begun h.begunSchedule := by
  have taken := drain_all tracked.filed
  have yields (k : Nat) : k ∈ h.drainAll.1 ↔ ∃ c, h.lists c k := by
    rw [taken.yields]
    simp
  have apart : ∀ i ∈ h.drainAll.1, ∀ j, j ∈ Schedule.empty.waiting ∨ j ∈ h.drainAll.1 →
      (h.drainAll.2.rank j).id = (h.drainAll.2.rank i).id → j = i := by
    intro i first j second same
    rw [Schedule.waiting_empty] at second
    have second := second.resolve_left (by simp)
    obtain ⟨c, listed_i⟩ := (yields i).mp first
    obtain ⟨d, listed_j⟩ := (yields j).mp second
    simp only [Hierarchy.rank, taken.id] at same
    exact tracked.distinct listed_j listed_i same
  obtain ⟨valid, waits⟩ := Schedule.push_all (Schedule.valid_empty h.drainAll.2.rank) apart
  have waiting (k : Nat) : k ∈ h.begunSchedule.waiting ↔ ∃ c, h.lists c k := by
    refine (waits k).trans ?_
    rw [Schedule.waiting_empty, yields]
    simp
  have shape : SameShape h h.begun :=
    ⟨taken.size, taken.index, taken.identity, taken.removed, taken.children⟩
  have queues (d : Fin cfg.slots) : h.begun.queues[d] = ∅ :=
    (taken.queues d).trans (if_pos (List.mem_finRange d))
  have alive (k : Nat) : h.begun.isAlive k = h.isAlive k := by
    rw [Bool.eq_iff_iff, is_alive_iff, is_alive_iff, shape.removed]
    have unlisted : ¬ ∃ c, h.begun.lists c k := by
      rintro ⟨c, listed⟩
      rw [lists, queues] at listed
      exact absurd listed (by simp)
    have held : k ∈ h.begun.holds ↔ (∃ c, h.lists c k) ∨ k ∈ h.holds := by
      rw [begun, List.mem_append, waiting]
    rw [held, or_iff_left unlisted, or_comm (a := ∃ c, h.lists c k)]
  have parent (k : Nat) : h.begun.parent? k = h.parent? k :=
    parent_congr (shape.parent k) fun p _ => alive p
  refine ⟨shape, ⟨taken.counter, taken.total, taken.pending, taken.inherited⟩, queues, ?_, rfl,
    taken.nextId, taken.flushes, waiting, parent, ?_⟩
  · intro d j
    refine (taken.queued d j).trans ?_
    simp
  · refine ⟨SameShape.refl _, rfl, rfl, rfl, rfl, fun _ => rfl, valid, ?_, ?_⟩
    · intro k member
      obtain ⟨c, listed⟩ := (waiting k).mp member
      rw [shape.size]
      exact tracked.inside listed
    · intro k member p up
      obtain ⟨c, listed⟩ := (waiting k).mp member
      rw [parent] at up
      exact (waiting p).mpr ⟨c, tracked.closed listed up⟩

theorem waiting_nil_iff {s : Schedule} : s.nodes.isEmpty = true ↔ s.waiting = [] := by
  rw [Std.ExtTreeMap.isEmpty_iff]
  constructor
  · intro none
    rw [List.eq_nil_iff_forall_not_mem]
    intro k member
    obtain ⟨id, found⟩ := Schedule.mem_waiting.mp member
    rw [none] at found
    exact absurd found (by simp)
  · intro none
    refine Std.ExtTreeMap.ext_getElem? fun id => ?_
    rw [Std.ExtTreeMap.getElem?_empty, Option.eq_none_iff_forall_not_mem]
    intro k found
    have member := Schedule.mem_waiting.mpr ⟨id, found⟩
    rw [none] at member
    exact absurd member (by simp)

theorem pop_of_idle {s : Schedule} (idle : s.waiting = []) : s.pop = none := by
  cases due : s.pop with
  | none => rfl
  | some next =>
    have waited := (Schedule.pop_waits due).1
    rw [idle] at waited
    exact absurd waited (by simp)

theorem flush_eq (h : Hierarchy cfg) : h.flush =
    if h.begunSchedule.nodes.isEmpty then (h.drainAll.2, .ok .zero)
    else match h.begun.settleAll h.begunSchedule .zero with
      | (after, .ok sum) => ({ after with holds := h.holds, flushes := h.flushes + 1 }, .ok sum)
      | (after, .error fault) =>
        ({ after with holds := h.holds }, .error (.inconsistent (.counter fault))) := rfl

theorem flush_arena (h : Hierarchy cfg) :
    h.flush.1.arena = (h.begun.settleAll h.begunSchedule .zero).1.arena := by
  rw [flush_eq]
  split
  · rename_i none
    rw [settle_all_last (pop_of_idle (waiting_nil_iff.mp none))]
    rfl
  · split <;> rename_i run <;> rw [run]

theorem flush_of_rounds {sum : Summary}
    (run : h.begun.settleAll h.begunSchedule .zero = (b, .ok sum)) :
    h.flush = ({ b with
      holds := h.holds
      flushes := h.flushes + if h.begunSchedule.waiting = [] then 0 else 1 }, .ok sum) := by
  by_cases idle : h.begunSchedule.waiting = []
  · have only := only_lists_take_queues h (List.finRange cfg.slots)
    obtain ⟨rfl, rfl⟩ : h.begun = b ∧ Summary.zero = sum := by
      simpa using (settle_all_last (pop_of_idle idle)).symm.trans run
    rw [flush_eq, if_pos (waiting_nil_iff.mpr idle), if_pos idle]
    simp only [begun, drainAll, Nat.add_zero, ← only.holds, ← only.flushes]
  · have busy : ¬ h.begunSchedule.nodes.isEmpty = true := fun empty =>
      idle (waiting_nil_iff.mp empty)
    rw [flush_eq, if_neg busy, if_neg idle, run]

/-- However a flush ends, what every round keeps has held until then. A flush counts when it had
    anything to do and no round failed. -/
theorem flush_ends {P : Hierarchy cfg → Schedule → Summary → Prop} (kept : KeptByRounds P)
    (start : P h.begun h.begunSchedule .zero) :
    ∃ g t total, P g t total ∧
      (t.pop = none ∧ h.flush = ({ g with
          holds := h.holds
          flushes := h.flushes + if h.begunSchedule.waiting = [] then 0 else 1 }, .ok total) ∨
        ∃ k rest fault, t.pop = some (k, rest) ∧ g.settle rest k = .error fault ∧
          h.flush = ({ (k :: rest.waiting).foldl .requeue g with holds := h.holds },
            .error (.inconsistent (.counter fault)))) := by
  obtain ⟨g, t, total, holds, ends⟩ := settle_all_ends kept h.begun h.begunSchedule .zero start
  refine ⟨g, t, total, holds, ?_⟩
  rcases ends with ⟨last, run⟩ | ⟨k, rest, fault, pop, failed, run⟩
  · exact Or.inl ⟨last, flush_of_rounds run⟩
  · refine Or.inr ⟨k, rest, fault, pop, failed, ?_⟩
    have busy : ¬ h.begunSchedule.nodes.isEmpty = true := by
      intro empty
      rw [settle_all_last (pop_of_idle (waiting_nil_iff.mp empty))] at run
      exact absurd run (by simp)
    rw [flush_eq, if_neg busy, run]

theorem flush_completes {P : Hierarchy cfg → Schedule → Summary → Prop} (kept : KeptByRounds P)
    (start : P h.begun h.begunSchedule .zero)
    (able : ∀ {g s sum k rest}, P g s sum → s.pop = some (k, rest) →
      ∃ own g' s', g.settle rest k = .ok (own, g', s')) :
    ∃ b s sum, P b s sum ∧ s.pop = none ∧
      h.flush = ({ b with
        holds := h.holds
        flushes := h.flushes + if h.begunSchedule.waiting = [] then 0 else 1 }, .ok sum) := by
  obtain ⟨b, s, sum, holds, ends⟩ := flush_ends kept start
  rcases ends with ⟨last, run⟩ | ⟨k, rest, fault, pop, failed, _⟩
  · exact ⟨b, s, sum, holds, last, run⟩
  · obtain ⟨own, b', s', done⟩ := able holds pop
    exact absurd (failed.symm.trans done) (by simp)

open Classical in
theorem flush_by_rounds {P : Hierarchy cfg → Schedule → Summary → Prop} (tracked : h.Tracked)
    (start : P h.begun h.begunSchedule .zero)
    (step : ∀ {h s sum k rest}, P h s sum → s.pop = some (k, rest) →
      ∃ own h' s', h.settle rest k = .ok (own, h', s') ∧
        P h' s' ⟨sum.nodes + 1, saturatingAdd sum.delta own⟩) :
    ∃ b s sum, P b s sum ∧ s.pop = none ∧
      h.flush = ({ b with
        holds := h.holds
        flushes := h.flushes + if ∃ c k, h.lists c k then 1 else 0 }, .ok sum) := by
  have kept : KeptByRounds P := by
    refine ⟨fun {h s sum k rest own h' s'} before pop done => ?_⟩
    obtain ⟨own₁, h₁, s₁, run, after⟩ := step before pop
    rw [done, Except.ok.injEq, Prod.mk.injEq, Prod.mk.injEq] at run
    obtain ⟨rfl, rfl, rfl⟩ := run
    exact after
  have able {g : Hierarchy cfg} {s : Schedule} {sum : Summary} {k : Nat} {rest : Schedule}
      (before : P g s sum) (pop : s.pop = some (k, rest)) :
      ∃ own g' s', g.settle rest k = .ok (own, g', s') := by
    obtain ⟨own, g', s', done, _⟩ := step before pop
    exact ⟨own, g', s', done⟩
  obtain ⟨b, s, sum, holds, last, run⟩ := flush_completes kept start able
  refine ⟨b, s, sum, holds, last, ?_⟩
  have any : h.begunSchedule.waiting = [] ↔ ¬ ∃ c k, h.lists c k := by
    rw [List.eq_nil_iff_forall_not_mem]
    simp only [(begins tracked).waiting, not_exists]
    exact forall_comm
  by_cases listed : ∃ c k, h.lists c k
  · rw [run, if_neg (fun none => any.mp none listed), if_pos listed]
  · rw [run, if_pos (any.mpr listed), if_neg listed]

theorem flush_of_unlisted (none : ∀ c : Fin cfg.slots, h.queues[c] = ∅) :
    h.flush = (h, .ok .zero) := by
  have idle : (Schedule.empty.nodes).isEmpty = true := by simp [Schedule.empty]
  simp only [flush, drainAll, take_queues_empty none, List.foldl_nil, idle, if_true]

end Hierarchy

end Rollup
