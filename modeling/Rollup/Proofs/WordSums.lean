import Mathlib
import Rollup.Proofs.Inheritances

/-!
The sums of words that operations on a hierarchy form, listed by the operands of each. `settleSums`,
`flushSums`, `recordSums` and the like go through the same branches as the operations themselves. An
addition that fits neither wraps around nor saturates; where the books are solvent with what is
inherited backed, all of them fit and every flush succeeds.
-/
namespace Rollup

structure Addition where
  left : UInt64
  right : UInt64
  deriving DecidableEq, Repr

def Addition.Fits (a : Addition) : Prop := a.left.toNat + a.right.toNat < UInt64.size

theorem Counter.slot_state_settled {n : Nat} (c : Counter n) (i : Fin n) :
    c.settled.slots[i].state = c.slots[i].state := by
  simp [settled]

namespace Hierarchy

variable {cfg : Config} {h h' g g' b : Hierarchy cfg} {n k : Nat} {s s' rest : Schedule}
  {sum : Summary} {own : UInt64}

def Adds (sums : List Addition) (old new : UInt64) : Prop :=
  new = old ∨ ∃ a ∈ sums, new = a.left + a.right

def Becomes (sums : List Addition) (old new : UInt64) : Prop := Adds sums old new ∨ new = 0

/-- How the words in which events are counted change: what is pending may be passed on, the others
    only take sums. -/
structure Writes (sums : List Addition) (h h' : Hierarchy cfg) : Prop where
  state : ∀ k (i : Fin cfg.slots), Adds sums (h.node k).counter.slots[i].state
    (h'.node k).counter.slots[i].state
  total : ∀ k, Adds sums (h.node k).total (h'.node k).total
  inherited : ∀ k, Adds sums (h.node k).inherited (h'.node k).inherited
  pending : ∀ k, Becomes sums (h.node k).pending (h'.node k).pending

section
variable {sums first second more : List Addition} {old mid new : UInt64}

theorem Adds.stays (sums : List Addition) (word : UInt64) : Adds sums word word := Or.inl rfl

theorem Adds.mono (adds : Adds sums old new) (among : ∀ a ∈ sums, a ∈ more) :
    Adds more old new := by
  rcases adds with same | ⟨a, member, value⟩
  · exact Or.inl same
  · exact Or.inr ⟨a, among a member, value⟩

theorem Adds.trans (before : Adds first old mid) (after : Adds second mid new) :
    Adds (first ++ second) old new := by
  rcases after with rfl | ⟨a, member, value⟩
  · exact before.mono fun a member => List.mem_append_left _ member
  · exact Or.inr ⟨a, List.mem_append_right _ member, value⟩

theorem Becomes.stays (sums : List Addition) (word : UInt64) : Becomes sums word word :=
  Or.inl (.stays sums word)

theorem Becomes.mono (becomes : Becomes sums old new) (among : ∀ a ∈ sums, a ∈ more) :
    Becomes more old new :=
  becomes.imp_left fun adds => adds.mono among

theorem Becomes.trans (before : Becomes first old mid) (after : Becomes second mid new) :
    Becomes (first ++ second) old new := by
  rcases after with (rfl | ⟨a, member, value⟩) | cleared
  · exact before.mono fun a member => List.mem_append_left _ member
  · exact Or.inl (Or.inr ⟨a, List.mem_append_right _ member, value⟩)
  · exact Or.inr cleared

end

namespace Writes

variable {sums more : List Addition}

theorem of_counts (counts : SameCounts h h') : Writes sums h h' where
  state k i := by
    rw [counts.counter]
    exact .stays _ _
  total k := Or.inl (counts.total k)
  inherited k := Or.inl (counts.inherited k)
  pending k := Or.inl (Or.inl (counts.pending k))

theorem mono (writes : Writes sums h h') (among : ∀ a ∈ sums, a ∈ more) : Writes more h h' where
  state k i := (writes.state k i).mono among
  total k := (writes.total k).mono among
  inherited k := (writes.inherited k).mono among
  pending k := (writes.pending k).mono among

theorem trans (before : Writes sums h g) (after : Writes more g h') :
    Writes (sums ++ more) h h' where
  state k i := (before.state k i).trans (after.state k i)
  total k := (before.total k).trans (after.total k)
  inherited k := (before.inherited k).trans (after.inherited k)
  pending k := (before.pending k).trans (after.pending k)

end Writes

def settleSums (h : Hierarchy cfg) (k : Nat) (own : UInt64) : List Addition :=
  let x := h.node k
  let gain := saturatingAdd own x.pending
  ⟨own, x.pending⟩ :: ⟨x.total, gain⟩ ::
    if gain = 0 then []
    else match h.parent? k with
      | none => []
      | some p =>
        [⟨(h.node p).pending, gain⟩, ⟨(h.node p).inherited, if x.removed then gain else 0⟩]

def settleAllSums (h : Hierarchy cfg) (s : Schedule) (sum : Summary) : List Addition :=
  match _due : s.pop with
  | none => []
  | some (k, rest) =>
    match _done : h.settle rest k with
    | .error _ => []
    | .ok (own, after, rest) =>
      h.settleSums k own ++ ⟨sum.delta, own⟩ ::
        after.settleAllSums rest ⟨sum.nodes + 1, saturatingAdd sum.delta own⟩
termination_by s.weight id
decreasing_by
  have popped := Schedule.weight_pop id _due
  have settled := weight_settle _done
  simp only [id_eq] at popped
  omega

def flushSums (h : Hierarchy cfg) : List Addition := h.begun.settleAllSums h.begunSchedule .zero

theorem settle_writes (inside : k < h.arena.size) (done : h.settle s k = .ok (own, h', s')) :
    Writes (h.settleSums k own) h h' := by
  obtain ⟨_, _, settled⟩ := settle_ok inside done
  have gains (j : Nat) (up : h.parent? k = some j) (word : UInt64)
      (listed : saturatingAdd own (h.node k).pending ≠ 0 →
        ⟨word, saturatingAdd own (h.node k).pending⟩ ∈ h.settleSums k own) :
      Adds (h.settleSums k own) word (word + saturatingAdd own (h.node k).pending) := by
    by_cases none : saturatingAdd own (h.node k).pending = 0
    · rw [none, UInt64.add_zero]
      exact .stays _ _
    · exact Or.inr ⟨_, listed none, rfl⟩
  constructor
  case state =>
    intro j i
    rw [settled.counter]
    split
    · exact Or.inl (Counter.slot_state_settled _ i)
    · exact .stays _ _
  case total =>
    intro j
    rw [settled.total]
    split
    · rename_i at_k
      subst at_k
      exact Or.inr ⟨⟨_, saturatingAdd own _⟩, by simp [settleSums], rfl⟩
    · exact .stays _ _
  case inherited =>
    intro j
    rw [settled.inherited]
    split
    · rename_i heir
      exact gains j heir.1 _ fun some => by simp [settleSums, some, heir]
    · exact .stays _ _
  case pending =>
    intro j
    rw [settled.pending]
    split
    · exact Or.inr rfl
    · split
      · rename_i up
        exact Or.inl (gains j up _ fun some => by simp [settleSums, some, up])
      · exact .stays _ _

theorem only_lists_requeue (h : Hierarchy cfg) (ks : List Nat) :
    OnlyLists h (ks.foldl requeue h) := by
  induction ks generalizing h with
  | nil => exact OnlyLists.refl h
  | cons k ks ih => exact (only_lists_mark h k ⟨0⟩).trans (ih _)

theorem settle_all_writes (ongoing : Ongoing b h s)
    (empty : ∀ d : Fin cfg.slots, b.queues[d] = ∅) (sum : Summary) :
    Writes (h.settleAllSums s sum) h (h.settleAll s sum).1 := by
  fun_induction h.settleAllSums s sum with
  | case1 h s sum last =>
    rw [settle_all_last last]
    exact .of_counts (.of_arena rfl)
  | case2 h s sum k rest pop fault failed =>
    rw [settle_all_fails pop failed]
    exact .of_counts (only_lists_requeue h _).toSameCounts
  | case3 h s sum k rest pop own after s' done ih =>
    have first := settle_writes (ongoing.known (Schedule.pop_waits pop).1) done
    have later := ih (ongoing.round empty pop done)
    rw [settle_all_next pop done]
    exact first.trans (later.mono fun a member => List.mem_cons_of_mem _ member)

theorem flush_writes (filed : h.Filed) : Writes h.flushSums h h.flush.1 := by
  have taken := drain_all filed
  have begun : Writes [] h h.begun :=
    .of_counts ⟨taken.counter, taken.total, taken.pending, taken.inherited⟩
  have settled := settle_all_writes (Ongoing.start filed.addressed) (begun_queues h) .zero
  have ended : Writes [] (h.begun.settleAll h.begunSchedule .zero).1 h.flush.1 :=
    .of_counts (.of_arena (flush_arena h))
  have whole := begun.trans (settled.trans ended)
  rw [List.nil_append, List.append_nil] at whole
  exact whole

theorem Endowed.settling_fits (endowed : g.Endowed n) (inside : k < g.arena.size)
    (done : g.settle s k = .ok (own, g', s')) : ∀ a ∈ g.settleSums k own, a.Fits := by
  obtain ⟨_, own_eq, settled⟩ := settle_ok inside done
  have solvent := endowed.solvent
  have credited := solvent.credited inside own_eq settled
  have gain := solvent.gain_eq inside own_eq
  have room := solvent.gain_room inside
  have word : (g.node k).pending.toNat = g.pending k := rfl
  have mine : own.toNat = g.undrained k := own_eq
  intro a member
  simp only [settleSums, List.mem_cons] at member
  rcases member with rfl | rfl | member
  · simp only [Addition.Fits]
    omega
  · have total : (g.node k).total.toNat = g.total k := rfl
    simp only [Addition.Fits, gain]
    omega
  · split at member
    · exact absurd member (by simp)
    · cases up : g.parent? k with
      | none => simp [up] at member
      | some p =>
        have passed := solvent.pass_room (link_of_parent up)
        have heir := endowed.backed.gain_room solvent credited (link_of_parent up)
        have waiting : (g.node p).pending.toNat = g.pending p := rfl
        have got : (g.node p).inherited.toNat = g.inherited p := rfl
        simp only [up, List.mem_cons, List.not_mem_nil, or_false] at member
        rcases member with rfl | rfl
        · simp only [Addition.Fits, gain]
          omega
        · simp only [Addition.Fits]
          split
          · omega
          · have none : (0 : UInt64).toNat = 0 := rfl
            omega

def drainings (h : Hierarchy cfg) : Nat := ∑ k ∈ Finset.range h.arena.size, h.drained k

theorem Solvent.drainings_le (solvent : h.Solvent) : h.drainings ≤ h.recordings := by
  refine Finset.sum_le_sum fun k _ => ?_
  have split := solvent.split k
  omega

theorem Credited.drainings (credited : Credited g g' k) (inside : k < g.arena.size) :
    g'.drainings = g.drainings + g.undrained k := by
  have terms (j : Nat) : g'.drained j = g.drained j + if j = k then g.undrained k else 0 := by
    rw [credited.drained]
    split
    · rename_i at_k
      rw [at_k]
    · rfl
  simp only [Hierarchy.drainings, credited.size, terms, Finset.sum_add_distrib,
    Finset.sum_ite_eq', Finset.mem_range, inside, if_true]

/-- Between two rounds of a flush that began at `b`, its summary tells of no more than was ever
    drained. -/
structure Metered (n : Nat) (b g : Hierarchy cfg) (s : Schedule) (sum : Summary) : Prop
    extends Ongoing b g s where
  endowed : g.Endowed n
  delta : sum.delta.toNat ≤ g.drainings

namespace Metered

theorem start (endowed : h.Endowed n) : Metered n h.begun h.begun h.begunSchedule .zero where
  toOngoing := .start endowed.filed.addressed
  endowed := (endowed_tending n).take endowed (drain_all endowed.filed) fun _ member =>
    endowed.filed.addressed.begun_held member
  delta := Nat.zero_le _

theorem summary_room (metered : Metered n b g s sum) (pop : s.pop = some (k, rest))
    (done : g.settle rest k = .ok (own, g', s')) :
    sum.delta.toNat + own.toNat ≤ g'.drainings ∧ g'.drainings < UInt64.size := by
  have inside := metered.known (Schedule.pop_waits pop).1
  obtain ⟨_, own_eq, settled⟩ := settle_ok inside done
  have credited := metered.endowed.solvent.credited inside own_eq settled
  have after := credited.solvent inside metered.endowed.solvent
  have le := after.drainings_le
  have fits := after.fits
  have more := credited.drainings inside
  have mine : own.toNat = g.undrained k := own_eq
  have delta := metered.delta
  omega

theorem round (metered : Metered n b g s sum) (empty : ∀ d : Fin cfg.slots, b.queues[d] = ∅)
    (pop : s.pop = some (k, rest)) (done : g.settle rest k = .ok (own, g', s')) :
    Metered n b g' s' ⟨sum.nodes + 1, saturatingAdd sum.delta own⟩ where
  toOngoing := metered.toOngoing.round empty pop done
  endowed := (endowed_tending n).settle metered.endowed
    (metered.known (Schedule.pop_waits pop).1) done
  delta := by
    obtain ⟨le, fits⟩ := metered.summary_room pop done
    rw [saturating_of_fits (by omega)]
    exact le

theorem settling_all_fits (metered : Metered n b g s sum)
    (empty : ∀ d : Fin cfg.slots, b.queues[d] = ∅) : ∀ a ∈ g.settleAllSums s sum, a.Fits := by
  fun_induction g.settleAllSums s sum with
  | case1 => simp
  | case2 => simp
  | case3 g s sum k rest pop own after s' done ih =>
    have inside := metered.known (Schedule.pop_waits pop).1
    have later := ih (metered.round empty pop done)
    obtain ⟨le, fits⟩ := metered.summary_room pop done
    intro a member
    rcases List.mem_append.mp member with first | member
    · exact metered.endowed.settling_fits inside done a first
    · rcases List.mem_cons.mp member with rfl | member
      · exact Nat.lt_of_le_of_lt le fits
      · exact later a member

end Metered

theorem Endowed.flush_fits (endowed : h.Endowed n) : ∀ a ∈ h.flushSums, a.Fits :=
  (Metered.start endowed).settling_all_fits (begun_queues h)

theorem Endowed.flush_ok (endowed : h.Endowed n) : ∃ after sum, h.flush = (after, .ok sum) := by
  have rounds : KeptByRounds fun g s sum => Metered n h.begun g s sum :=
    ⟨fun metered pop done => metered.round (begun_queues h) pop done⟩
  obtain ⟨g, s, sum, _, _, run⟩ := flush_completes rounds (Metered.start endowed)
    fun metered pop => metered.endowed.solvent.settles (metered.known (Schedule.pop_waits pop).1) _
  exact ⟨_, _, run⟩

def flushSeries (h : Hierarchy cfg) : Nat → List (Hierarchy cfg)
  | 0 => []
  | times + 1 => h :: h.flush.1.flushSeries times

def afterFlushes (h : Hierarchy cfg) : Nat → Hierarchy cfg
  | 0 => h
  | times + 1 => h.flush.1.afterFlushes times

theorem Endowed.flush (endowed : h.Endowed n) : h.flush.1.Endowed n :=
  ((endowed_tending n).flushes endowed trivial).kept

theorem Endowed.series (endowed : h.Endowed n) (times : Nat) :
    (∀ g ∈ h.flushSeries times, g.Endowed n) ∧ (h.afterFlushes times).Endowed n := by
  induction times generalizing h with
  | zero => exact ⟨by simp [flushSeries], endowed⟩
  | succ times ih =>
    obtain ⟨starts, ended⟩ := ih endowed.flush
    refine ⟨fun g member => ?_, ended⟩
    rcases List.mem_cons.mp member with rfl | member
    · exact endowed
    · exact starts g member

theorem Endowed.series_writes (endowed : h.Endowed n) (times : Nat) :
    Writes ((h.flushSeries times).flatMap flushSums) h (h.afterFlushes times) := by
  induction times generalizing h with
  | zero => exact .of_counts (.of_arena rfl)
  | succ times ih =>
    exact (flush_writes endowed.filed).trans (ih endowed.flush)

def countSums (h : Hierarchy cfg) (k : Nat) (cpu : Cpu) (delta : UInt64) : List Addition :=
  [⟨(h.node k).counter.slots[cfg.slot cpu].state, delta⟩]

def recordSums (h : Hierarchy cfg) (k : Nat) (cpu : Cpu) (delta : UInt64) : List Addition :=
  if (h.node k).removed then [] else h.countSums k cpu delta

def workSums (h : Hierarchy cfg) : List (Handle × Cpu) → List Addition
  | [] => []
  | a :: rest => h.recordSums a.1.key a.2 1 ++ (a.1.increment h a.2).workSums rest

section
variable {delta : UInt64} (cpu : Cpu)

theorem count_writes (h : Hierarchy cfg) (k : Nat) (delta : UInt64) :
    Writes (h.countSums k cpu delta) h (h.count k cpu delta) := by
  constructor
  case state =>
    intro j i
    rw [node_count]
    split
    · rename_i at_k
      obtain ⟨rfl, _⟩ := at_k
      simp only [Counter.slot_add]
      split
      · rename_i same
        subst same
        exact Or.inr ⟨_, List.mem_singleton_self _, rfl⟩
      · exact .stays _ _
    · exact .stays _ _
  all_goals
    intro j
    rw [node_count]
    split <;> exact .stays _ _

theorem record_writes (h : Hierarchy cfg) (k : Nat) (delta : UInt64) :
    Writes (h.recordSums k cpu delta) h (h.record k cpu delta) := by
  unfold recordSums record
  split
  · exact .of_counts (.of_arena rfl)
  · have marked : Writes [] (h.count k cpu delta) ((h.count k cpu delta).mark k cpu) :=
      .of_counts (only_lists_mark _ k cpu).toSameCounts
    have both := (count_writes cpu h k delta).trans marked
    rw [List.append_nil] at both
    exact both

theorem Endowed.count_fits (endowed : h.Endowed (n + delta.toNat)) (inside : k < h.arena.size) :
    ∀ a ∈ h.countSums k cpu delta, a.Fits := by
  intro a member
  have le := Solvent.recorded_le inside
  have room := endowed.room
  have slot := (h.node k).counter.slot_amount_le (fun s => s.state.toNat) (cfg.slot cpu)
  obtain rfl := List.mem_singleton.mp member
  simp only [Hierarchy.recorded, Counter.recorded] at le
  simp only [Addition.Fits]
  omega

theorem Endowed.record_fits (endowed : h.Endowed (n + delta.toNat)) (inside : k < h.arena.size) :
    ∀ a ∈ h.recordSums k cpu delta, a.Fits := by
  unfold recordSums
  split
  · simp
  · exact endowed.count_fits cpu inside

end

theorem work_writes (h : Hierarchy cfg) (actors : List (Handle × Cpu)) :
    Writes (h.workSums actors) h (Actors.work h actors) := by
  induction actors generalizing h with
  | nil => exact .of_counts (.of_arena rfl)
  | cons a rest ih => exact (record_writes a.2 h a.1.key 1).trans (ih _)

theorem Endowed.work_fits {actors : List (Handle × Cpu)} (endowed : h.Endowed (n + actors.length))
    (inside : ∀ a ∈ actors, a.1.key < h.arena.size) : ∀ a ∈ h.workSums actors, a.Fits := by
  induction actors generalizing h with
  | nil => simp [workSums]
  | cons actor rest ih =>
    have budget : h.Endowed (n + rest.length + (1 : UInt64).toNat) := endowed
    have here := inside actor (by simp)
    have first := endowed_custody.records budget trivial here actor.2
    have later := ih first.kept fun b member => by
      rw [first.size]
      exact inside b (by simp [member])
    intro a member
    rcases List.mem_append.mp member with now | next
    · exact budget.record_fits actor.2 here a now
    · exact later a next

def bequestSums (h : Hierarchy cfg) (k : Nat) : List Addition :=
  match h.parent? k with
  | some p => [⟨(h.node p).inherited, (h.node k).total⟩]
  | none => []

theorem bequeath_writes (h : Hierarchy cfg) (k : Nat) :
    Writes (h.bequestSums k) h (h.bequeath k) := by
  cases up : h.parent? k with
  | none =>
    simp only [bequestSums, bequeath, up]
    exact .of_counts (.of_arena rfl)
  | some p =>
    simp only [bequestSums, bequeath, up]
    constructor
    case inherited =>
      intro j
      rw [node_update]
      split
      · rename_i at_p
        obtain ⟨rfl, _⟩ := at_p
        exact Or.inr ⟨_, List.mem_singleton_self _, rfl⟩
      · exact .stays _ _
    case state =>
      intro j i
      rw [node_update]
      split <;> exact .stays _ _
    all_goals
      intro j
      rw [node_update]
      split <;> exact .stays _ _

theorem Endowed.bequest_fits (endowed : h.Endowed n) {id : NodeId} {p : Nat}
    (leaving : Leaving h id k p) : ∀ a ∈ (h.apart id k p).bequestSums k, a.Fits := by
  have counts : SameCounts h (h.apart id k p) := apart_counts leaving.inside leaving.before
  have room := endowed.backed.leave_room endowed.solvent endowed.shaped leaving
  intro a member
  unfold bequestSums at member
  split at member
  · rename_i q up
    have link := link_of_parent up
    have same : ((h.apart id k p).node k).toIdentity = (h.node k).toIdentity :=
      apart_identity leaving.inside leaving.before k
    obtain rfl : p = q := by
      rw [congrArg Identity.parent same, leaving.up] at link
      exact Option.some.inj link
    obtain rfl := List.mem_singleton.mp member
    simp only [Addition.Fits, counts.inherited, counts.total]
    exact room
  · exact absurd member (by simp)

end Hierarchy

end Rollup
