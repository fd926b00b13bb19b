import Mathlib
import Rollup.Proofs.BalancedBooks
import Rollup.Proofs.FundedSessions

/-!
What nodes inherit, in every state of a session. A node inherits from children that have left the
tree, their totals when they leave and their gains afterwards, and so never more than the totals
they have by now (`Backed`). Nodes below different children are different nodes. Therefore what a
node drained, what it inherited and the totals of its children are together at most what was drained
at the node and everything ever created below it, also where the equation between them is broken.
-/
namespace Rollup

namespace Hierarchy

variable {cfg : Config} {h h' g g' : Hierarchy cfg} {n k p : Nat}

def issue (h : Hierarchy cfg) (n : Nat) : Finset Nat :=
  {c ∈ Finset.range h.arena.size | (h.node c).parent = some n}

def departed (h : Hierarchy cfg) (n : Nat) : Finset Nat :=
  {c ∈ h.issue n | (h.node c).removed = true}

theorem mem_issue {c : Nat} : c ∈ h.issue n ↔ (h.node c).parent = some n := by
  rw [issue, Finset.mem_filter, Finset.mem_range]
  exact and_iff_right_of_imp parent_inside

theorem mem_departed {c : Nat} :
    c ∈ h.departed n ↔ (h.node c).parent = some n ∧ (h.node c).removed = true := by
  rw [departed, Finset.mem_filter, mem_issue]

theorem sum_issue (h : Hierarchy cfg) (n : Nat) (f : Nat → Nat) :
    ∑ c ∈ h.issue n, f c = ∑ c ∈ h.offspring n, f c + ∑ c ∈ h.departed n, f c := by
  have stayed : h.offspring n = {c ∈ h.issue n | ¬ (h.node c).removed = true} := by
    ext c
    rw [mem_offspring, Finset.mem_filter, mem_issue, Bool.not_eq_true]
    exact ⟨fun ⟨_, live, up⟩ => ⟨up, live⟩, fun ⟨up, live⟩ => ⟨parent_inside up, live, up⟩⟩
  rw [stayed, Nat.add_comm]
  exact (Finset.sum_filter_add_sum_filter_not _ _ f).symm

theorem child_not_above {c : Nat} (child : c ∈ h.issue n) : c ∉ h.lineage n := by
  intro member
  have before : n < c := Arena.parent_before (mem_issue.mp child)
  have le := le_of_mem_lineage member
  omega

theorem issue_disjoint {c d : Nat} (first : c ∈ h.issue n) (second : d ∈ h.issue n)
    (other : c ≠ d) : Disjoint (h.below c) (h.below d) := by
  have apart {a b : Nat} (one : a ∈ h.issue n) (two : b ∈ h.issue n) (other : a ≠ b) :
      a ∉ h.lineage b := by
    intro member
    rcases mem_lineage.mp member with same | ⟨p, up, above⟩
    · exact other same
    · obtain rfl := Option.some.inj (up.symm.trans (mem_issue.mp two))
      exact child_not_above one above
  rw [Finset.disjoint_left]
  intro m under_c under_d
  rcases lineage_linear (mem_below.mp under_c).2 (mem_below.mp under_d).2 with above | above
  · exact apart first second other above
  · exact apart second first other.symm above

theorem add_sum_issue_le (inside : n < h.arena.size) (f : Nat → Nat) :
    f n + ∑ c ∈ h.issue n, h.sumBelow c f ≤ h.sumBelow n f := by
  have disjoint : Set.PairwiseDisjoint (h.issue n : Set Nat) h.below :=
    fun c first d second other => issue_disjoint first second other
  have outside : n ∉ (h.issue n).biUnion h.below := by
    intro member
    obtain ⟨c, child, under⟩ := Finset.mem_biUnion.mp member
    exact child_not_above child (mem_below.mp under).2
  have parts : insert n ((h.issue n).biUnion h.below) ⊆ h.below n := by
    intro m member
    rcases Finset.mem_insert.mp member with rfl | member
    · exact self_mem_below inside
    · obtain ⟨c, child, under⟩ := Finset.mem_biUnion.mp member
      obtain ⟨known, through⟩ := mem_below.mp under
      exact mem_below.mpr ⟨known, lineage_trans (mem_lineage_of_parent (mem_issue.mp child)
        (self_mem_lineage h n)) through⟩
  have le := Finset.sum_le_sum_of_subset (f := f) parts
  rw [Finset.sum_insert outside, Finset.sum_biUnion disjoint] at le
  exact le

theorem Solvent.issue_bounded (solvent : h.Solvent) (inside : n < h.arena.size) :
    h.drained n + ∑ c ∈ h.issue n, h.total c ≤ h.sumBelow n h.drained := by
  have each (c : Nat) (child : c ∈ h.issue n) : h.total c ≤ h.sumBelow c h.drained := by
    have bounded := solvent.bounded c (parent_inside (mem_issue.mp child))
    omega
  have totals := Finset.sum_le_sum each
  have whole := add_sum_issue_le inside h.drained
  omega

theorem Solvent.drained_below_le (solvent : h.Solvent) (n : Nat) :
    h.sumBelow n h.drained ≤ h.recordings := by
  have split := solvent.sum_split n
  have all : h.sumBelow n h.recorded ≤ h.recordings := h.sum_below_le_all n h.recorded
  omega

/-- No node has inherited more than the totals of its children that have left. -/
def Backed (h : Hierarchy cfg) : Prop :=
  ∀ n, h.inherited n ≤ ∑ c ∈ h.departed n, h.total c

theorem Backed.carry (backed : h.Backed) (inherited : ∀ n, h'.inherited n = h.inherited n)
    (total : h'.total = h.total) (departed : ∀ n, h.departed n ⊆ h'.departed n) : h'.Backed := by
  intro n
  have before := backed n
  have more := Finset.sum_le_sum_of_subset (f := h.total) (departed n)
  rw [inherited, total]
  omega

theorem SameShape.departed (shape : SameShape h h') (n : Nat) : h'.departed n = h.departed n := by
  ext c
  rw [mem_departed, mem_departed, shape.parent, shape.removed]

theorem Backed.counted (backed : h.Backed) (counts : SameCounts h h')
    (departed : ∀ n, h.departed n ⊆ h'.departed n) : h'.Backed := by
  apply backed.carry
  case inherited => exact fun n => congrArg UInt64.toNat (counts.inherited n)
  case total => exact funext fun n => congrArg UInt64.toNat (counts.total n)
  case departed => exact departed

theorem Backed.of_lists (backed : h.Backed) (only : OnlyLists h h') : h'.Backed := by
  apply backed.counted only.toSameCounts
  intro n
  rw [only.departed]

theorem Backed.attach (backed : h.Backed) {id : NodeId} {name : String} (next : UInt64)
    (inside : p < h.arena.size) : Backed { h.attach id p name with nextId := next } := by
  have counts : SameCounts h (h.attach id p name) := attach_counts inside
  have attached : (h.attach id p name).Backed := by
    apply backed.counted counts
    intro n c member
    obtain ⟨up, gone⟩ := mem_departed.mp member
    have old : c ≠ h.arena.size := Nat.ne_of_lt (parent_inside up)
    refine mem_departed.mpr ⟨?_, (attach_removed inside c).trans gone⟩
    exact (congrArg Identity.parent (attach_identity inside old)).trans up
  exact attached

theorem Backed.apart (backed : h.Backed) {id : NodeId} (inside : k < h.arena.size)
    (before : p < k) : (h.apart id k p).Backed := by
  apply backed.counted (apart_counts inside before)
  intro n c member
  obtain ⟨up, gone⟩ := mem_departed.mp member
  refine mem_departed.mpr ⟨?_, ?_⟩
  · exact (congrArg Identity.parent (apart_identity inside before c)).trans up
  · rw [apart_removed inside before, gone, ite_self]

theorem Backed.update {f : Status cfg.slots → Status cfg.slots} (backed : h.Backed)
    (removed : ∀ s, (f s).removed = s.removed) (children : ∀ s, (f s).children = s.children)
    (inherited : ∀ s, (f s).inherited = s.inherited) (total : ∀ s, (f s).total = s.total) :
    (h.update k f).Backed := by
  have shape : SameShape h (h.update k f) := same_shape_update removed children
  apply backed.carry
  case inherited =>
    intro n
    simp only [Hierarchy.inherited, node_update]
    split
    · rw [inherited]
    · rfl
  case total =>
    funext n
    simp only [Hierarchy.total, node_update]
    split
    · rw [total]
    · rfl
  case departed =>
    intro n
    rw [shape.departed]

theorem Backed.gain_room (backed : g.Backed) (solvent : g.Solvent)
    (credited : Credited g g' k) (up : (g.node k).parent = some p) :
    g.inherited p + (g.undrained k + g.pending k) < UInt64.size := by
  have inside := parent_inside up
  have before : p < k := Arena.parent_before up
  have after := credited.solvent inside solvent
  have bounded := after.issue_bounded (n := p) (by rw [credited.size]; omega)
  have fits := after.fits
  have below := after.drained_below_le p
  have same : g'.issue p = g.issue p := by
    ext c
    rw [mem_issue, mem_issue, credited.parent]
  have gained := credited.sum_totals (g.issue p)
  rw [if_pos (mem_issue.mpr up)] at gained
  rw [same] at bounded
  have parts := g.sum_issue p g.total
  have heir := backed p
  omega

theorem Backed.settled (backed : g.Backed) (solvent : g.Solvent) (credited : Credited g g' k) :
    g'.Backed := by
  intro n
  have before := backed n
  have inherited := credited.inherited n fun up =>
    backed.gain_room solvent credited (link_of_parent up)
  have totals := credited.sum_totals (g.departed n)
  rw [credited.departed]
  split at inherited
  · rename_i heir
    rw [if_pos (mem_departed.mpr ⟨link_of_parent heir.1, heir.2⟩)] at totals
    omega
  · omega

section
variable {id : NodeId}

theorem Leaving.departs (leaving : Leaving h id k p) (shaped : h.Shaped) (n : Nat) :
    (h.left id k p).departed n = if n = p then insert k (h.departed p) else h.departed n := by
  have parent (c : Nat) : ((h.left id k p).node c).parent = (h.node c).parent :=
    congrArg Identity.parent (leaving.identity shaped c)
  have member (c : Nat) : c ∈ (h.left id k p).departed n ↔
      (h.node c).parent = some n ∧ (c = k ∨ (h.node c).removed = true) := by
    rw [mem_departed, parent, leaving.removed shaped]
    split <;> simp [*]
  ext c
  rw [member]
  by_cases at_p : n = p
  · subst at_p
    rw [if_pos rfl, Finset.mem_insert, mem_departed]
    by_cases same : c = k
    · simp [same, leaving.up]
    · simp [same]
  · rw [if_neg at_p, mem_departed]
    by_cases same : c = k
    · simp [same, leaving.up, Ne.symm at_p]
    · simp [same]

theorem Leaving.stayed (leaving : Leaving h id k p) (shaped : h.Shaped) : k ∉ h.departed p := by
  intro member
  have gone := (mem_departed.mp member).2
  rw [leaving.live shaped] at gone
  exact absurd gone (by simp)

theorem Backed.leave_room (backed : h.Backed) (solvent : h.Solvent) (shaped : h.Shaped)
    (leaving : Leaving h id k p) : h.inherited p + h.total k < UInt64.size := by
  have bounded := solvent.issue_bounded (n := p) (Nat.lt_trans leaving.before leaving.inside)
  have below := solvent.drained_below_le p
  have fits := solvent.fits
  have both : insert k (h.departed p) ⊆ h.issue p :=
    Finset.insert_subset (mem_issue.mpr leaving.up) (Finset.filter_subset _ _)
  have part := Finset.sum_le_sum_of_subset (f := h.total) both
  rw [Finset.sum_insert (leaving.stayed shaped)] at part
  have heir := backed p
  omega

theorem Backed.left (backed : h.Backed) (solvent : h.Solvent) (shaped : h.Shaped)
    (leaving : Leaving h id k p) : (h.left id k p).Backed := by
  intro n
  have room := backed.leave_room solvent shaped leaving
  have total : (h.left id k p).total = h.total := (leaving.books shaped).total_eq
  have inherited := congrArg UInt64.toNat (leaving.inherited shaped n)
  have before := backed n
  rw [leaving.departs shaped, total]
  by_cases at_p : n = p
  · subst at_p
    rw [if_pos rfl, Finset.sum_insert (leaving.stayed shaped)]
    rw [if_pos rfl, word_add room] at inherited
    simp only [Hierarchy.inherited, Hierarchy.total] at inherited before ⊢
    omega
  · rw [if_neg at_p]
    rw [if_neg at_p] at inherited
    simp only [Hierarchy.inherited] at inherited before ⊢
    omega

end

/-- The books are solvent with room for `n` more events, and what is inherited is backed. -/
structure Endowed (n : Nat) (h : Hierarchy cfg) : Prop extends Funded n h where
  backed : h.Backed

theorem Endowed.start (cfg : Config) (fits : n < UInt64.size) : (Hierarchy.new cfg).Endowed n where
  toFunded := .start cfg fits
  backed k := by
    have none : ((Hierarchy.new cfg).node k).inherited = 0 := by
      cases k with
      | zero => rfl
      | succ k =>
        rw [node_outside (Nat.succ_le_succ (Nat.zero_le k))]
        rfl
    rw [inherited, none]
    exact Nat.zero_le _

theorem endowed_tending (n : Nat) : Tending (@Endowed cfg n) fun _ => True where
  filed endowed := endowed.filed
  take endowed taken held := by
    have backed := endowed.backed.of_lists taken.toOnlyLists
    exact ⟨(funded_tending n).take endowed.toFunded taken held, backed⟩
  ready _ _ := trivial
  mark cpu endowed ready inside alive :=
    ⟨(funded_tending n).mark cpu endowed.toFunded ready inside alive,
      endowed.backed.of_lists (only_lists_mark _ _ cpu)⟩
  settle endowed inside done := by
    obtain ⟨_, own_eq, settled⟩ := settle_ok inside done
    have credited := endowed.solvent.credited inside own_eq settled
    exact ⟨(funded_tending n).settle endowed.toFunded inside done,
      endowed.backed.settled endowed.solvent credited⟩
  finish flushes endowed :=
    ⟨(funded_tending n).finish flushes endowed.toFunded, endowed.backed⟩

theorem endowed_custody : Custody (fun n => @Endowed cfg n) fun _ => True where
  shaped endowed := endowed.shaped
  tending n := endowed_tending n
  spare m endowed := ⟨funded_custody.spare m endowed.toFunded, endowed.backed⟩
  attach next endowed place allots :=
    ⟨funded_custody.attach next endowed.toFunded place allots,
      endowed.backed.attach next place.inside⟩
  apart endowed leaving :=
    ⟨funded_custody.apart endowed.toFunded leaving,
      endowed.backed.apart leaving.inside leaving.before⟩
  leave endowed leaving :=
    ⟨funded_custody.leave endowed.toFunded leaving,
      endowed.backed.left endowed.solvent endowed.shaped leaving⟩
  count cpu endowed inside :=
    ⟨funded_custody.count cpu endowed.toFunded inside,
      endowed.backed.update (fun _ => rfl) (fun _ => rfl) (fun _ => rfl) fun _ => rfl⟩
  drain endowed inside run :=
    ⟨funded_custody.drain endowed.toFunded inside run,
      endowed.backed.update (fun _ => rfl) (fun _ => rfl) (fun _ => rfl) fun _ => rfl⟩

theorem Endowed.terms_bounded (endowed : h.Endowed n) (inside : k < h.arena.size) :
    h.drained k + h.inherited k + ∑ c ∈ h.offspring k, h.total c ≤ h.recordings := by
  have parts := h.sum_issue k h.total
  have bounded := endowed.solvent.issue_bounded inside
  have below := endowed.solvent.drained_below_le k
  have heir := endowed.backed k
  omega

end Hierarchy

end Rollup
