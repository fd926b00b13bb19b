import Mathlib
import Rollup.Proofs.SharedIds

/-!
The order in which a flush settles nodes. The schedule grows while it is emptied, but only by
parents of nodes that have just been settled, which rank below them. So the nodes taken from it come
in strictly falling rank, no node comes twice, and when a node comes all its children in this flush
have come before it (`Falling`). Nothing that a flush passes up reaches a node that it has settled,
and it settles no more nodes than the lists lead to. None of this needs the ancestors of a queued
node to be queued as well.
-/
namespace Rollup

namespace Hierarchy

variable {cfg : Config} {h g g' : Hierarchy cfg} {s rest s' : Schedule} {ks : List Nat} {j k p : Nat}

instance : Decidable h.LiveDistinct :=
  decidable_of_iff
    (∀ j, j < h.arena.size → ∀ k, k < h.arena.size → h.isAlive j = true → h.isAlive k = true →
      (h.node j).id = (h.node k).id → j = k)
    ⟨fun all j k hj hk => all j hj k hk, fun all j hj k hk => all j k hj hk⟩

theorem addressed_iff : h.Addressed ↔ ∀ c : Fin cfg.slots, ∀ e ∈ h.queues[c].toList,
    e.2 < h.arena.size ∧ (h.node e.2).id = e.1 := by
  constructor
  · rintro ⟨addressed⟩ c e entry
    exact addressed (Std.ExtTreeMap.mem_toList_iff_getElem?_eq_some.mp entry)
  · intro each
    exact ⟨fun found => each _ _ (Std.ExtTreeMap.mem_toList_iff_getElem?_eq_some.mpr found)⟩

instance : Decidable h.Addressed := decidable_of_iff' _ addressed_iff

structure Identified (h : Hierarchy cfg) : Prop extends Addressed h where
  distinct : h.LiveDistinct

instance : Decidable h.Identified :=
  decidable_of_iff (h.Addressed ∧ h.LiveDistinct)
    ⟨fun both => ⟨both.1, both.2⟩, fun both => ⟨both.toAddressed, both.distinct⟩⟩

namespace Identified

variable (identified : h.Identified)
include identified

theorem reached_apart (first : j ∈ h.reached) (second : k ∈ h.reached)
    (same : (h.node j).id = (h.node k).id) : j = k := by
  have known {i : Nat} (member : i ∈ h.reached) : i < h.arena.size ∧ h.isAlive i = true := by
    obtain ⟨top, queued, above⟩ := mem_reached.mp member
    obtain ⟨inside, c, listed⟩ := mem_due.mp queued
    exact ⟨chain_inside inside above, chain_alive (alive_of_lists listed) above⟩
  exact identified.distinct j k (known first).1 (known second).1 (known first).2 (known second).2
    same

theorem begun_waits : k ∈ h.begunSchedule.waiting ↔ ∃ c, h.lists c k := by
  have drained {i : Nat} (taken : i ∈ h.drainAll.1) : i ∈ h.reached := by
    obtain ⟨c, listed⟩ := identified.mem_drain_all.mp taken
    exact reached_of_due (mem_due.mpr ⟨(identified.addressed listed).1, c, listed⟩)
  have apart : ∀ i ∈ h.drainAll.1, ∀ j, j ∈ Schedule.empty.waiting ∨ j ∈ h.drainAll.1 →
      (h.drainAll.2.rank j).id = (h.drainAll.2.rank i).id → j = i := by
    intro i first j second same
    rw [Schedule.waiting_empty] at second
    rw [drained_rank] at same
    exact identified.reached_apart (drained (second.resolve_left (by simp))) (drained first) same
  refine ((Schedule.push_all (Schedule.valid_empty h.drainAll.2.rank) apart).2 k).trans ?_
  rw [Schedule.waiting_empty, identified.mem_drain_all]
  simp

end Identified

inductive Course (h : Hierarchy cfg) : List Nat → Hierarchy cfg → Schedule → Prop where
  | begun : Course h [] h.begun h.begunSchedule
  | round {ks g s k rest own g' s'} (before : Course h ks g s) (pop : s.pop = some (k, rest))
      (done : g.settle rest k = .ok (own, g', s')) : Course h (ks ++ [k]) g' s'

structure Falling (rank : Nat → Rank) (popped : List Nat) (s : Schedule) : Prop where
  valid : s.Valid rank
  strictly : (popped.map rank).Pairwise fun a b => b.isAfter a = true
  below : ∀ j ∈ popped, ∀ k ∈ s.waiting, (rank k).isAfter (rank j) = true

namespace Falling

variable {rank : Nat → Rank}

theorem start (valid : s.Valid rank) : Falling rank [] s :=
  ⟨valid, List.Pairwise.nil, fun _ member => absurd member (by simp)⟩

theorem pop (falling : Falling rank ks s) (popped : Schedule.Popped rank s k rest) :
    Falling rank (ks ++ [k]) rest where
  valid := popped.valid
  strictly := by
    rw [List.map_append, List.pairwise_append]
    refine ⟨falling.strictly, by simp, fun a first b last => ?_⟩
    obtain ⟨j, member, rfl⟩ := List.mem_map.mp first
    obtain rfl : b = rank k := by simpa using last
    exact falling.below j member k popped.waited
  below := by
    intro j member i waits
    rcases List.mem_append.mp member with old | last
    · exact falling.below j old i ((popped.rest_waiting i).mp waits).1
    · rw [List.mem_singleton.mp last]
      exact popped.highest i waits

theorem joined (falling : Falling rank ks s) (valid : s'.Valid rank)
    (lower : ∀ i ∈ s'.waiting, i ∈ s.waiting ∨ ∀ j ∈ ks, (rank i).isAfter (rank j) = true) :
    Falling rank ks s' where
  valid := valid
  strictly := falling.strictly
  below := by
    intro j member i waits
    rcases lower i waits with old | after
    · exact falling.below j member i old
    · exact after j member

theorem nodup (falling : Falling rank ks s) : ks.Nodup :=
  (Rank.nodup_of_falling falling.strictly).of_map rank

theorem taken_before {before after : List Nat} (falling : Falling rank (before ++ p :: after) s)
    (member : k ∈ before ++ p :: after ∨ k ∈ s.waiting)
    (above : (rank p).isAfter (rank k) = true) : k ∈ before := by
  have sorted := List.pairwise_map.mp falling.strictly
  obtain ⟨_, later, _⟩ := List.pairwise_append.mp sorted
  rcases member with taken | waits
  · rcases List.mem_append.mp taken with first | last
    · exact first
    · rcases List.mem_cons.mp last with rfl | behind
      · exact absurd above (Rank.is_after_asymm above)
      · exact absurd above (Rank.is_after_asymm ((List.pairwise_cons.mp later).1 k behind))
  · exact absurd above (Rank.is_after_asymm (falling.below p (by simp) k waits))

end Falling

/-- Between two rounds: what has been settled has nothing pending, and whatever was on a list or has
    been passed something has been settled or waits. -/
structure Settling (h : Hierarchy cfg) (ks : List Nat) (g : Hierarchy cfg) (s : Schedule) : Prop
    extends Falling h.rank ks s where
  ongoing : Ongoing h.begun g s
  reached : ∀ k, k ∈ ks ∨ k ∈ s.waiting → k ∈ h.reached
  gathered : ∀ c k, h.lists c k → k ∈ ks ∨ k ∈ s.waiting
  spent : ∀ k ∈ ks, (g.node k).pending = 0
  received : ∀ k, (g.node k).pending ≠ (h.node k).pending → k ∈ ks ∨ k ∈ s.waiting

namespace Settling

theorem start (identified : h.Identified) : h.Settling [] h.begun h.begunSchedule where
  toFalling := .start (begun_valid h)
  ongoing := .start identified.toAddressed
  reached k member := by
    have waits : k ∈ h.begunSchedule.waiting := member.resolve_left (by simp)
    exact reached_of_due (identified.begun_due waits)
  gathered c k listed := Or.inr (identified.begun_waits.mpr ⟨c, listed⟩)
  spent k member := absurd member (by simp)
  received k differs :=
    absurd ((only_lists_take_queues h (List.finRange cfg.slots)).pending k) differs

section
variable (settling : h.Settling ks g s)
include settling

theorem length_le : ks.length ≤ h.reached.card := by
  rw [← List.toFinset_card_of_nodup settling.nodup]
  refine Finset.card_le_card fun k member => ?_
  exact settling.reached k (Or.inl (List.mem_toFinset.mp member))

theorem parent_below (popped : Schedule.Popped h.rank s k rest) (up : g.parent? k = some p) :
    ∀ j ∈ ks ++ [k], (h.rank p).isAfter (h.rank j) = true := by
  have below : (h.rank p).isAfter (h.rank k) = true := by
    rw [← settling.ongoing.rank]
    exact parent_after (link_of_parent up)
  intro j member
  rcases List.mem_append.mp member with before | last
  · exact Rank.is_after_trans below (settling.below j before k popped.waited)
  · rw [List.mem_singleton.mp last]
    exact below

theorem parent_reached (identified : h.Identified) (waits : k ∈ s.waiting)
    (up : g.parent? k = some p) : p ∈ h.reached := by
  have fades : Fades h g := settling.ongoing.fades identified.toAddressed
  exact reached_up (settling.reached k (Or.inr waits)) (fades.parent up)

end

theorem round (identified : h.Identified) (settling : h.Settling ks g s) {own : UInt64}
    (pop : s.pop = some (k, rest)) (done : g.settle rest k = .ok (own, g', s')) :
    h.Settling (ks ++ [k]) g' s' := by
  have popped := Schedule.pop_some settling.valid pop
  obtain ⟨_, _, settled⟩ := settle_ok (settling.ongoing.known popped.waited) done
  have valid : rest.Valid g.rank := by
    rw [settling.ongoing.rank]
    exact popped.valid
  have goes_on {j : Nat} (member : j ∈ ks ∨ j ∈ s.waiting) : j ∈ ks ++ [k] ∨ j ∈ s'.waiting := by
    rcases member with before | waits
    · exact Or.inl (List.mem_append_left _ before)
    · by_cases same : j = k
      · exact Or.inl (by simp [same])
      · exact Or.inr (settle_waits done ((popped.rest_waiting j).mpr ⟨waits, same⟩))
  have came {j : Nat} (member : j ∈ ks ++ [k] ∨ j ∈ rest.waiting) : j ∈ h.reached := by
    refine settling.reached j ?_
    rcases member with before | waits
    · rcases List.mem_append.mp before with first | last
      · exact Or.inl first
      · exact Or.inr (List.mem_singleton.mp last ▸ popped.waited)
    · exact Or.inr ((popped.rest_waiting j).mp waits).1
  constructor
  case toFalling =>
    refine (settling.toFalling.pop popped).joined ?_ fun i waits => ?_
    · rw [← settling.ongoing.rank]
      exact settle_valid done valid
    · exact (waiting_of_settle done waits).imp_right (settling.parent_below popped)
  case ongoing => exact settling.ongoing.round (begun_queues h) pop done
  case reached =>
    intro j member
    rcases member with before | waits
    · exact came (Or.inl before)
    · rcases waiting_of_settle done waits with later | up
      · exact came (Or.inr later)
      · exact settling.parent_reached identified popped.waited up
  case gathered =>
    intro c j listed
    exact goes_on (settling.gathered c j listed)
  case spent =>
    intro j member
    rw [settled.pending]
    split
    · rfl
    · rename_i other
      -- what is passed up goes to a node that ranks below `j`, and so not to `j`
      rw [if_neg fun up => ?_]
      · exact settling.spent j (by simpa [other] using member)
      · have later := settling.parent_below popped up j member
        exact absurd later (Rank.is_after_asymm later)
  case received =>
    intro j differs
    rw [settled.pending] at differs
    by_cases last : j = k
    · exact Or.inl (by simp [last])
    · rw [if_neg last] at differs
      by_cases up : g.parent? k = some j
      · rw [if_pos up] at differs
        have apart : ∀ i ∈ rest.waiting, (g.node i).id = (g.node j).id → i = j := by
          intro i waits same
          rw [settling.ongoing.same_shape.id, settling.ongoing.same_shape.id] at same
          exact identified.reached_apart (came (Or.inr waits))
            (settling.parent_reached identified popped.waited up) same
        rcases settle_heir done valid up apart with none | waits
        · rw [none, UInt64.add_zero] at differs
          exact goes_on (settling.received j differs)
        · exact Or.inr waits
      · rw [if_neg up] at differs
        exact goes_on (settling.received j differs)

end Settling

theorem Course.settling (identified : h.Identified) (course : h.Course ks g s) :
    h.Settling ks g s := by
  induction course with
  | begun => exact .start identified
  | round _ pop done ih => exact ih.round identified pop done

/-- The nodes taken from the schedule so far come in falling rank, none of them twice, and each after
    all nodes of the flush whose parent it is. -/
structure InTurn (h : Hierarchy cfg) (popped : List Nat) (s : Schedule) : Prop
    extends Falling h.rank popped s where
  once : popped.Nodup
  children_first : ∀ before p after, popped = before ++ p :: after →
    ∀ k, k ∈ popped ∨ k ∈ s.waiting → (h.node k).parent = some p → k ∈ before

theorem Falling.in_turn (falling : Falling h.rank ks s) : h.InTurn ks s where
  toFalling := falling
  once := falling.nodup
  children_first := by
    rintro before p after rfl k member link
    exact falling.taken_before member (parent_after link)

def Closes (h : Hierarchy cfg) (ks : List Nat) (g : Hierarchy cfg) (s : Schedule) : Prop :=
  (s.pop = none ∧ ∃ sum, sum.nodes = ks.length ∧ h.flush = ({ g with
      holds := h.holds
      flushes := h.flushes + if h.begunSchedule.waiting = [] then 0 else 1 }, .ok sum)) ∨
    ∃ k rest fault, s.pop = some (k, rest) ∧ g.settle rest k = .error fault ∧
      h.flush = ({ (k :: rest.waiting).foldl .requeue g with holds := h.holds },
        .error (.inconsistent (.counter fault)))

theorem flush_closes (h : Hierarchy cfg) : ∃ ks g s, h.Course ks g s ∧ h.Closes ks g s := by
  have rounds : KeptByRounds fun g s sum => ∃ ks, h.Course ks g s ∧ sum.nodes = ks.length := by
    refine ⟨?_⟩
    rintro g s sum k rest own g' s' ⟨ks, course, count⟩ pop done
    exact ⟨ks ++ [k], course.round pop done, by simp [count]⟩
  obtain ⟨g, s, sum, ⟨ks, course, count⟩, ends⟩ := flush_ends rounds ⟨[], .begun, rfl⟩
  refine ⟨ks, g, s, course, ?_⟩
  rcases ends with ⟨last, run⟩ | failed
  · exact Or.inl ⟨last, sum, count, run⟩
  · exact Or.inr failed

/-- A flush of a state in which ids tell the living nodes apart. From the first list that it takes to
    its end, its schedule has one entry for each node that waits. It settles nodes in turn, no more
    than the lists lead to, also when the next one fails; each node that was on a list or has been
    passed something is settled or waits; and what it has settled has nothing pending again. It ends
    after some number of such rounds. -/
theorem settled_in_turn (identified : h.Identified) :
    (∀ taken, taken <+: h.drainAll.1 →
      (taken.foldl h.drainAll.2.schedule Schedule.empty).Valid h.rank) ∧
    (∀ ks g s, h.Course ks g s →
      h.InTurn ks s ∧ ks.length ≤ h.reached.card ∧
      (∀ c k, h.lists c k → k ∈ ks ∨ k ∈ s.waiting) ∧
      (∀ k, (g.node k).pending ≠ (h.node k).pending → k ∈ ks ∨ k ∈ s.waiting) ∧
      (∀ k ∈ ks, (g.node k).pending = 0) ∧
      ∀ k rest, s.pop = some (k, rest) → h.InTurn (ks ++ [k]) rest) ∧
    ∃ ks g s, h.Course ks g s ∧ h.Closes ks g s := by
  refine ⟨fun taken _ => ?_, fun ks g s course => ?_, flush_closes h⟩
  · rw [← drained_rank h]
    exact Schedule.push_all_valid (Schedule.valid_empty _)
  · have settling := course.settling identified
    refine ⟨settling.in_turn, settling.length_le, settling.gathered, settling.received,
      settling.spent, fun k rest pop => ?_⟩
    exact (settling.toFalling.pop (Schedule.pop_some settling.valid pop)).in_turn

end Hierarchy

namespace Session

open Hierarchy

/-- Two nodes, one three levels below the other, have counted events, and only these two are put on
    lists, the deeper one on both. -/
def strayed : Hierarchy ⟨2⟩ :=
  let h := ((start ⟨2⟩).run [.create NodeId.root "a", .create ⟨2⟩ "b", .create ⟨3⟩ "c",
    .create ⟨4⟩ "d", .hold ⟨2⟩ "a", .hold ⟨5⟩ "d",
    .heldCount "a" ⟨0⟩ 2, .heldCount "d" ⟨1⟩ 5]).hierarchy
  ((h.enqueue (Config.slot _ ⟨0⟩) 4).enqueue (Config.slot _ ⟨1⟩) 4).enqueue (Config.slot _ ⟨1⟩) 1

theorem settled_in_turn_above_strayed :
    (4 ∈ strayed.due ∧ strayed.parent? 4 = some 3 ∧ 3 ∉ strayed.due) ∧ strayed.reached.card = 5 ∧
      ∃ ks g s, strayed.Course ks g s ∧ strayed.InTurn ks s ∧ ks.length = 5 ∧
        (∀ k ∈ ks, (g.node k).pending = 0) ∧ strayed.Closes ks g s := by
  obtain ⟨_, rounds, ks, g, s, course, closes⟩ :=
    settled_in_turn (h := strayed) (by decide +kernel)
  obtain ⟨in_turn, _, _, _, spent, _⟩ := rounds ks g s course
  refine ⟨by decide +kernel, by decide +kernel, ks, g, s, course, in_turn, ?_, spent, closes⟩
  have settles : strayed.flush.2.toOption = some ⟨5, 7⟩ := by decide +kernel
  rcases closes with ⟨_, sum, count, run⟩ | ⟨_, _, _, _, _, run⟩
  · rw [run] at settles
    rw [← count, Option.some.inj settles]
  · rw [run] at settles
    exact absurd settles (by simp [Except.toOption])

end Session

end Rollup
