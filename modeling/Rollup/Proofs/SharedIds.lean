import Mathlib
import Rollup.Proofs.FlushGains
import Rollup.Proofs.FundedSessions

/-!
Flushes in which ids meet. A removed node may still be queued when its id has been given to another.
Lists and schedules go by id, so of two such nodes a flush may settle only one, and what the other
recorded stays where it is.

A node of the tree is unrivalled when no other node that a flush can reach has its id or that of one of
its ancestors. However ids meet elsewhere, a flush drains every unrivalled node on a list, and what it
drains is in the totals of all its ancestors afterwards: what is in the total of a node, undrained below
it or on its way up only ever grows (`Mixing`), and in the end nothing more is undrained or on its way.
-/
namespace Rollup

namespace Hierarchy

variable {cfg : Config} {h h' g g' : Hierarchy cfg} {s rest s' : Schedule} {a k m n : Nat}

def reached (h : Hierarchy cfg) : Finset Nat := h.due.biUnion fun k => (h.chain k).toFinset

theorem Addressed.begun_due (addressed : h.Addressed) (waits : k ∈ h.begunSchedule.waiting) :
    k ∈ h.due := by
  obtain ⟨c, listed⟩ := addressed.begun_listed waits
  exact mem_due.mpr ⟨(addressed.addressed listed).1, c, listed⟩

theorem mem_reached : k ∈ h.reached ↔ ∃ j ∈ h.due, k ∈ h.chain j := by
  simp [reached]

theorem reached_of_due (queued : k ∈ h.due) : k ∈ h.reached :=
  mem_reached.mpr ⟨k, queued, self_mem_chain h k⟩

theorem reached_up {p : Nat} (member : k ∈ h.reached) (up : h.parent? k = some p) :
    p ∈ h.reached := by
  obtain ⟨j, queued, above⟩ := mem_reached.mp member
  have next : p ∈ h.chain k := mem_chain.mpr (Or.inr ⟨p, up, self_mem_chain h p⟩)
  exact mem_reached.mpr ⟨j, queued, chain_trans next above⟩

/-- No other node that a flush can reach has the id of this node or of one of its ancestors. -/
def Unrivalled (h : Hierarchy cfg) (n : Nat) : Prop :=
  ∀ a ∈ h.lineage n, ∀ k ∈ h.reached, (h.node k).id = (h.node a).id → k = a

instance : Decidable (h.Unrivalled n) :=
  inferInstanceAs
    (Decidable (∀ a ∈ h.lineage n, ∀ k ∈ h.reached, (h.node k).id = (h.node a).id → k = a))

theorem Unrivalled.alone (alone : h.Unrivalled n) (member : k ∈ h.reached)
    (same : (h.node k).id = (h.node n).id) : k = n :=
  alone n (self_mem_lineage h n) k member same

theorem LiveDistinct.unrivalled (distinct : h.LiveDistinct) (shaped : h.Shaped)
    (inside : n < h.arena.size) (live : (h.node n).removed = false) : h.Unrivalled n := by
  intro a above k member same
  obtain ⟨j, queued, through⟩ := mem_reached.mp member
  obtain ⟨known, c, listed⟩ := mem_due.mp queued
  have above_live : (h.node a).removed = false := by
    clear same
    induction n using Nat.strongRecOn with
    | ind n ih =>
      rcases mem_lineage.mp above with rfl | ⟨p, up, higher⟩
      · exact live
      · have before : p < n := Arena.parent_before up
        exact ih p before (Nat.lt_trans before inside) (shaped.upward live up) higher
  exact distinct k a (chain_inside known through)
    (Nat.lt_of_le_of_lt (le_of_mem_lineage above) inside)
    (chain_alive (alive_of_lists listed) through) (alive_of_live above_live) same

def clear (h : Hierarchy cfg) (a : Nat) : Finset Nat :=
  {n ∈ h.below a | (h.node n).removed = false ∧ h.Unrivalled n}

theorem mem_clear : n ∈ h.clear a ↔ (n < h.arena.size ∧ a ∈ h.lineage n) ∧
    (h.node n).removed = false ∧ h.Unrivalled n := by
  rw [clear, Finset.mem_filter, mem_below]

theorem clear_up (shaped : h.Shaped) (member : n ∈ h.clear a) (other : n ≠ a) :
    ∃ p ∈ h.clear a, (h.node n).parent = some p := by
  obtain ⟨⟨inside, above⟩, live, alone⟩ := mem_clear.mp member
  obtain ⟨p, up, higher⟩ := (mem_lineage.mp above).resolve_left (Ne.symm other)
  have live_p := shaped.upward live up
  refine ⟨p, mem_clear.mpr ⟨⟨Nat.lt_trans (Arena.parent_before up) inside, higher⟩, live_p, ?_⟩, up⟩
  intro i member
  exact alone i (mem_lineage_of_parent up member)

def afloat (h : Hierarchy cfg) (k : Nat) : Nat := h.undrained k + h.pending k

theorem Credited.afloat (credited : Credited g g' k)
    (undrained : ∀ j, g'.undrained j = if j = k then 0 else g.undrained j) (j : Nat) :
    g'.afloat j + (if j = k then g.afloat k else 0) =
      g.afloat j + if g.parent? k = some j then g.afloat k else 0 := by
  simp only [Hierarchy.afloat, undrained, credited.pending]
  by_cases same : j = k
  · subst same
    have apart : g.parent? j ≠ some j := fun up => Nat.lt_irrefl j (parent_before up)
    simp [apart]
  · simp only [if_neg same]
    split <;> omega

/-- Between two rounds: of unrivalled nodes, those that no longer wait have nothing left that they
    should have passed on, and what was afloat below a node is still, or is in its total. -/
structure Mixing (h g : Hierarchy cfg) (s : Schedule) : Prop where
  ongoing : Ongoing h.begun g s
  valid : s.Valid h.rank
  solvent : g.Solvent
  reached : ∀ k ∈ s.waiting, k ∈ h.reached
  passed : ∀ n, h.Unrivalled n → n ∉ s.waiting → g.pending n ≤ h.pending n
  drained : ∀ n ∈ h.due, h.Unrivalled n → n ∉ s.waiting → g.undrained n = 0
  left : ∀ n, g.undrained n ≤ h.undrained n
  rising : ∀ a, h.total a + ∑ n ∈ h.clear a, h.afloat n ≤ g.total a + ∑ n ∈ h.clear a, g.afloat n

namespace Mixing

theorem start (filed : h.Filed) (solvent : h.Solvent) : Mixing h h.begun h.begunSchedule := by
  have taken := drain_all filed
  have books : SameBooks h h.begun :=
    ⟨Nat.le_of_eq taken.size.symm, fun {k} _ => taken.parent k, taken.counter, taken.total,
      taken.pending⟩
  constructor
  case ongoing => exact Ongoing.start filed.addressed
  case valid => exact begun_valid h
  case solvent => exact books.solvent solvent
  case reached =>
    intro k waits
    exact reached_of_due (filed.addressed.begun_due waits)
  case passed =>
    intro n _ _
    rw [books.pending_eq]
  case drained =>
    intro n member alone absent
    refine absurd (Schedule.waits_of_push_all (Schedule.valid_empty h.drainAll.2.rank) ?_ ?_) absent
    · refine Or.inr ((taken.yields n).mpr ?_)
      obtain ⟨c, listed⟩ := (mem_due.mp member).2
      exact ⟨c, List.mem_finRange c, listed⟩
    · intro j known same
      rw [Schedule.waiting_empty] at known
      obtain ⟨c, _, listed⟩ := (taken.yields j).mp (known.resolve_left (by simp))
      rw [taken.rank] at same
      exact alone.alone (reached_of_due (mem_due.mpr ⟨filed.inside listed, c, listed⟩)) same
  case left =>
    intro n
    rw [books.undrained_eq]
  case rising =>
    intro a
    simp only [Hierarchy.afloat, books.total_eq, books.undrained_eq, books.pending_eq]
    exact Nat.le_refl _

theorem afloat_moves (mixing : Mixing h g s) (shaped : h.Shaped) (credited : Credited g g' k)
    (undrained : ∀ j, g'.undrained j = if j = k then 0 else g.undrained j) (a : Nat) :
    g.total a + ∑ n ∈ h.clear a, g.afloat n ≤ g'.total a + ∑ n ∈ h.clear a, g'.afloat n := by
  have moved : ∑ n ∈ h.clear a, g'.afloat n + ∑ n ∈ h.clear a, (if n = k then g.afloat k else 0) =
      ∑ n ∈ h.clear a, g.afloat n +
        ∑ n ∈ h.clear a, if g.parent? k = some n then g.afloat k else 0 := by
    rw [← Finset.sum_add_distrib, ← Finset.sum_add_distrib]
    exact Finset.sum_congr rfl fun j _ => credited.afloat undrained j
  rw [Finset.sum_ite_eq'] at moved
  have total := credited.total a
  by_cases here : a = k
  · subst here
    have float : g.afloat a = g.undrained a + g.pending a := rfl
    rw [if_pos rfl] at total
    split at moved <;> omega
  · rw [if_neg here] at total
    by_cases member : k ∈ h.clear a
    · obtain ⟨p, above, link⟩ := clear_up shaped member (Ne.symm here)
      have live := (mem_clear.mp above).2.1
      have up : g.parent? k = some p :=
        parent_eq_some.mpr ⟨(mixing.ongoing.same_shape.parent k).trans link,
          alive_of_live ((mixing.ongoing.same_shape.removed p).trans live)⟩
      have gained := Finset.single_le_sum
        (f := fun n => if g.parent? k = some n then g.afloat k else 0)
        (fun _ _ => Nat.zero_le _) above
      rw [if_pos up] at gained
      rw [if_pos member] at moved
      omega
    · rw [if_neg member] at moved
      omega

theorem round (shaped : h.Shaped) (filed : h.Filed) (mixing : Mixing h g s) {own : UInt64}
    (pop : s.pop = some (k, rest)) (done : g.settle rest k = .ok (own, g', s')) :
    Mixing h g' s' := by
  have popped := Schedule.pop_some mixing.valid pop
  have inside := mixing.ongoing.known popped.waited
  obtain ⟨_, own_eq, settled⟩ := settle_ok inside done
  have credited := mixing.solvent.credited inside own_eq settled
  have undrained := settled.undrained
  have kept {j : Nat} (waits : j ∈ s.waiting) (other : j ≠ k) : j ∈ s'.waiting := by
    exact settle_waits done ((popped.rest_waiting j).mpr ⟨waits, other⟩)
  have valid : rest.Valid g.rank := by
    rw [mixing.ongoing.rank]
    exact popped.valid
  have known {j : Nat} (waits : j ∈ rest.waiting) : j ∈ h.reached :=
    mixing.reached j ((popped.rest_waiting j).mp waits).1
  -- an unrivalled parent waits once something is passed to it
  have heir {j : Nat} (alone : h.Unrivalled j) (up : g.parent? k = some j) (absent : j ∉ s'.waiting) :
      g.undrained k + g.pending k = 0 := by
    have apart : ∀ i ∈ rest.waiting, (g.node i).id = (g.node j).id → i = j := by
      intro i waits same
      rw [mixing.ongoing.same_shape.id, mixing.ongoing.same_shape.id] at same
      exact alone.alone (known waits) same
    rw [← mixing.solvent.gain_eq inside own_eq, (settle_heir done valid up apart).resolve_right absent]
    rfl
  constructor
  case ongoing => exact mixing.ongoing.round (begun_queues h) pop done
  case valid =>
    rw [← mixing.ongoing.rank]
    exact settle_valid done valid
  case solvent => exact credited.solvent inside mixing.solvent
  case reached =>
    intro j waits
    rcases waiting_of_settle done waits with old | up
    · exact known old
    · have fades := mixing.ongoing.fades filed.addressed
      exact reached_up (mixing.reached k popped.waited) (fades.parent up)
  case passed =>
    intro n alone absent
    rw [credited.pending]
    split
    · exact Nat.zero_le _
    · rename_i other
      have before := mixing.passed n alone fun waits => absent (kept waits other)
      split
      · rename_i up
        rw [heir alone up absent]
        exact before
      · exact before
  case drained =>
    intro n queued alone absent
    rw [undrained]
    split
    · rfl
    · rename_i other
      exact mixing.drained n queued alone fun waits => absent (kept waits other)
  case left =>
    intro n
    rw [undrained]
    split
    · exact Nat.zero_le _
    · exact mixing.left n
  case rising =>
    intro a
    exact Nat.le_trans (mixing.rising a) (mixing.afloat_moves shaped credited undrained a)

end Mixing

theorem Funded.flush_clears (funded : h.Funded n) :
    ∃ after sum, h.flush = (after, .ok sum) ∧
      (∀ n ∈ h.due, h.Unrivalled n → after.undrained n = 0) ∧
      ∀ a, h.total a + ∑ n ∈ h.clear a with n ∈ h.due, h.undrained n ≤ after.total a := by
  have filed := funded.filed
  have rounds : KeptByRounds fun g s _ => Mixing h g s :=
    ⟨fun mixing pop done => mixing.round funded.shaped filed pop done⟩
  obtain ⟨g, s, sum, mixing, last, run⟩ := flush_completes rounds
    (Mixing.start filed funded.solvent) fun mixing pop =>
      mixing.solvent.settles (mixing.ongoing.known (Schedule.pop_waits pop).1) _
  have none (n : Nat) : n ∉ s.waiting := by
    rw [Schedule.pop_none mixing.valid last]
    simp
  refine ⟨_, sum, run, fun n queued alone => mixing.drained n queued alone (none n), fun a => ?_⟩
  have rising := mixing.rising a
  have floats : ∑ n ∈ h.clear a, g.afloat n + ∑ n ∈ h.clear a with n ∈ h.due, h.undrained n ≤
      ∑ n ∈ h.clear a, h.afloat n := by
    rw [Finset.sum_filter, ← Finset.sum_add_distrib]
    refine Finset.sum_le_sum fun n member => ?_
    have alone := (mem_clear.mp member).2.2
    have passed := mixing.passed n alone (none n)
    have left := mixing.left n
    simp only [afloat]
    split
    · rename_i queued
      rw [mixing.drained n queued alone (none n)]
      omega
    · omega
  have total : h.total a + ∑ n ∈ h.clear a with n ∈ h.due, h.undrained n ≤ g.total a := by omega
  exact total

end Hierarchy

namespace Session

variable {cfg : Config}

open Hierarchy

/-- In every state that a session reaches, whatever ids its nodes have shared, a flush succeeds, leaves
    nothing unflushed on a listed node without a rival, and adds what was unflushed there to the totals
    of the node and of all its ancestors. Where no two nodes that are alive share an id, no node of the
    tree has a rival. -/
theorem unrivalled_flushed (cfg : Config) (steps : List Step)
    (fits : (steps.map Step.events).sum < UInt64.size) :
    let h := ((start cfg).run steps).hierarchy
    ∃ after sum, h.flush = (after, .ok sum) ∧
      (∀ n ∈ h.due, h.Unrivalled n → (after.node n).counter.unflushed = 0) ∧
      (∀ a, (h.node a).total.toNat +
          ∑ n ∈ h.clear a with n ∈ h.due, (h.node n).counter.unflushed.toNat ≤
        (after.node a).total.toNat) ∧
      (h.LiveDistinct → ∀ n ∈ h.keys, h.Unrivalled n) := by
  intro h
  have funded : h.Funded 0 := run_funded cfg steps fits
  obtain ⟨after, sum, run, drained, totals⟩ := funded.flush_clears
  have tended := (funded_tending 0).flushes funded trivial
  rw [run] at tended
  refine ⟨after, sum, run, fun n queued alone => ?_, fun a => ?_, fun distinct n member => ?_⟩
  · refine UInt64.toNat_inj.mp ?_
    rw [tended.kept.solvent.unflushed_eq, drained n queued alone]
    rfl
  · have words : ∑ n ∈ h.clear a with n ∈ h.due, (h.node n).counter.unflushed.toNat =
        ∑ n ∈ h.clear a with n ∈ h.due, h.undrained n :=
      Finset.sum_congr rfl fun n _ => funded.solvent.unflushed_eq n
    rw [words]
    exact totals a
  · obtain ⟨inside, live⟩ := funded.shaped.key_of_mem member
    exact distinct.unrivalled funded.shaped inside live

/-- A node leaves the tree and is queued late on one CPU. Its id goes to a new node, on which another
    CPU records, and so does it on a third node. -/
def sharingSteps : List Step :=
  [.create NodeId.root "job", .hold ⟨2⟩ "job", .remove ⟨2⟩, .heldCount "job" ⟨0⟩ 5,
    .heldMark "job" ⟨0⟩, .createWithId ⟨2⟩ NodeId.root "task", .add ⟨2⟩ ⟨1⟩ 7,
    .create NodeId.root "next", .add ⟨3⟩ ⟨1⟩ 4]

theorem unrivalled_flushed_beside_shared :
    let h := ((start ⟨2⟩).run sharingSteps).hierarchy
    ∃ after sum, h.flush = (after, .ok sum) ∧ (h.node 3).counter.unflushed = 4 ∧
      (after.node 3).counter.unflushed = 0 := by
  intro h
  obtain ⟨after, sum, run, drained, _⟩ := unrivalled_flushed ⟨2⟩ sharingSteps (by decide)
  exact ⟨after, sum, run, by decide +kernel, drained 3 (by decide +kernel) (by decide +kernel)⟩

theorem shared_id_left_behind :
    let h := ((start ⟨2⟩).run sharingSteps).hierarchy
    2 ∈ h.keys ∧ 2 ∈ h.due ∧ (h.node 2).counter.unflushed = 7 ∧
      h.flush.2.toOption.isSome = true ∧ (h.flush.1.node 2).counter.unflushed = 7 ∧
      (h.flush.1.node 2).total = 0 ∧ (h.flush.1.node 0).total = 9 ∧ 2 ∉ h.flush.1.due := by
  decide +kernel

end Session

end Rollup
