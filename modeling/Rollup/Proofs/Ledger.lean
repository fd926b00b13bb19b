import Mathlib
import Rollup.Proofs.FlushSteps

/-!
The books of a hierarchy, in unbounded numbers. As long as all that was recorded fits a word, no
sum of a flush wraps around (`Solvent`), and settling a node moves numbers from its counter to its
total and to what is pending above it (`Credited`).

Two equations hold of these numbers. `Conserved`: a node's total, with what is pending at it and
below it, is all that was drained there. `Balanced`: a node's total, with what is pending at it, is
what it drained itself, what it inherited, and the totals of its children.
-/
namespace Rollup

namespace Hierarchy

variable {cfg : Config} {h h' g g' : Hierarchy cfg}

def recorded (h : Hierarchy cfg) (k : Nat) : Nat := (h.node k).counter.recorded

def drained (h : Hierarchy cfg) (k : Nat) : Nat := (h.node k).counter.drained

def undrained (h : Hierarchy cfg) (k : Nat) : Nat := (h.node k).counter.waiting

def total (h : Hierarchy cfg) (k : Nat) : Nat := (h.node k).total.toNat

def pending (h : Hierarchy cfg) (k : Nat) : Nat := (h.node k).pending.toNat

def inherited (h : Hierarchy cfg) (k : Nat) : Nat := (h.node k).inherited.toNat

def recordings (h : Hierarchy cfg) : Nat := ∑ k ∈ Finset.range h.arena.size, h.recorded k

/-- No mark is ahead, no sum leaves a word, and no more has been passed up than was drained. -/
structure Solvent (h : Hierarchy cfg) : Prop where
  ordered : ∀ k, (h.node k).counter.Ordered
  fits : h.recordings < UInt64.size
  bounded : ∀ n, n < h.arena.size → h.total n + h.sumBelow n h.pending ≤ h.sumBelow n h.drained

/-- All that was drained at a node and below is in its total or on the way there. -/
def Conserved (h : Hierarchy cfg) : Prop :=
  ∀ n, n < h.arena.size → h.total n + h.sumBelow n h.pending = h.sumBelow n h.drained

def offspring (h : Hierarchy cfg) (n : Nat) : Finset Nat :=
  {c ∈ Finset.range h.arena.size | (h.node c).removed = false ∧ (h.node c).parent = some n}

def Balanced (h : Hierarchy cfg) : Prop :=
  ∀ n, n < h.arena.size → (h.node n).removed = false →
    h.total n + h.pending n = h.drained n + h.inherited n + ∑ c ∈ h.offspring n, h.total c

def Quiet (h : Hierarchy cfg) : Prop := ∀ k, h.pending k = 0

theorem mem_offspring {c n : Nat} : c ∈ h.offspring n ↔
    c < h.arena.size ∧ (h.node c).removed = false ∧ (h.node c).parent = some n := by
  rw [offspring, Finset.mem_filter, Finset.mem_range]

theorem Balanced.transport (shape : SameShape h h') (total : h'.total = h.total)
    (pending : h'.pending = h.pending) (drained : h'.drained = h.drained)
    (inherited : h'.inherited = h.inherited) (before : h.Balanced) : h'.Balanced := by
  intro n known live
  rw [shape.size] at known
  rw [shape.removed] at live
  have children : h'.offspring n = h.offspring n := by
    ext c
    rw [mem_offspring, mem_offspring, shape.size, shape.removed, shape.parent]
  rw [total, pending, drained, inherited, children]
  exact before n known live

theorem Balanced.of_counts (shape : SameShape h h') (same : SameCounts h h')
    (before : h.Balanced) : h'.Balanced :=
  before.transport shape (funext fun k => congrArg UInt64.toNat (same.total k))
    (funext fun k => congrArg UInt64.toNat (same.pending k))
    (funext fun k => congrArg Counter.drained (same.counter k))
    (funext fun k => congrArg UInt64.toNat (same.inherited k))

namespace Solvent

variable {k n : Nat}

theorem split (solvent : h.Solvent) (k : Nat) : h.recorded k = h.drained k + h.undrained k :=
  Counter.recorded_split (solvent.ordered k)

theorem sum_split (solvent : h.Solvent) (n : Nat) :
    h.sumBelow n h.recorded = h.sumBelow n h.drained + h.sumBelow n h.undrained := by
  rw [← sum_below_add]
  exact sum_below_congr fun k _ => solvent.split k

theorem sum_fits (solvent : h.Solvent) (n : Nat) : h.sumBelow n h.recorded < UInt64.size :=
  Nat.lt_of_le_of_lt (h.sum_below_le_all n h.recorded) solvent.fits

theorem room (solvent : h.Solvent) (inside : n < h.arena.size) :
    h.total n + h.sumBelow n h.pending + h.sumBelow n h.undrained < UInt64.size := by
  have bounded := solvent.bounded n inside
  have split := solvent.sum_split n
  have fits := solvent.sum_fits n
  omega

theorem gain_room (solvent : h.Solvent) (inside : k < h.arena.size) :
    h.total k + (h.undrained k + h.pending k) < UInt64.size := by
  have room := solvent.room inside
  have pending := le_sum_below h.pending (self_mem_below inside)
  have undrained := le_sum_below h.undrained (self_mem_below inside)
  omega

theorem pass_room {p : Nat} (solvent : h.Solvent) (up : (h.node k).parent = some p) :
    h.total p + h.pending p + (h.undrained k + h.pending k) < UInt64.size := by
  have inside := parent_inside up
  have before : p < k := Arena.parent_before up
  have inside_p : p < h.arena.size := Nat.lt_trans before inside
  have room := solvent.room inside_p
  have child : k ∈ h.below p :=
    mem_below.mpr ⟨inside, mem_lineage_of_parent up (self_mem_lineage h p)⟩
  have undrained := le_sum_below h.undrained child
  have both : h.pending p + h.pending k ≤ h.sumBelow p h.pending := by
    have pair : ({p, k} : Finset Nat) ⊆ h.below p := by
      intro m member
      rcases Finset.mem_insert.mp member with rfl | rest
      · exact self_mem_below inside_p
      · rw [Finset.mem_singleton.mp rest]
        exact child
    have le := Finset.sum_le_sum_of_subset (f := h.pending) pair
    rw [Finset.sum_pair (Nat.ne_of_lt before)] at le
    exact le
  omega

theorem settles (solvent : h.Solvent) (inside : k < h.arena.size) (s : Schedule) :
    ∃ own h' s', h.settle s k = .ok (own, h', s') := by
  have room := solvent.gain_room inside
  exact settle_succeeds (solvent.ordered k) (Nat.lt_of_le_of_lt (by rw [undrained]; omega) room) s

end Solvent

/-- What settling the node `k` does to the numbers. -/
structure Credited (g g' : Hierarchy cfg) (k : Nat) : Prop extends SameShape g g' where
  ordered : ∀ j, (g.node j).counter.Ordered → (g'.node j).counter.Ordered
  recorded : ∀ j, g'.recorded j = g.recorded j
  drained : ∀ j, g'.drained j = if j = k then g.drained k + g.undrained k else g.drained j
  total : ∀ j, g'.total j = if j = k then g.total k + (g.undrained k + g.pending k) else g.total j
  pending : ∀ j, g'.pending j = if j = k then 0
    else if g.parent? k = some j then g.pending j + (g.undrained k + g.pending k) else g.pending j
  inherited : ∀ j,
    (g.parent? k = some j → g.inherited j + (g.undrained k + g.pending k) < UInt64.size) →
    g'.inherited j = if g.parent? k = some j ∧ (g.node k).removed = true
      then g.inherited j + (g.undrained k + g.pending k) else g.inherited j

theorem Solvent.gain_eq (solvent : g.Solvent) {k : Nat} (inside : k < g.arena.size) {own : UInt64}
    (own_eq : own.toNat = (g.node k).counter.waiting) :
    (saturatingAdd own (g.node k).pending).toNat = g.undrained k + g.pending k := by
  have room := solvent.gain_room inside
  simp only [Hierarchy.total, undrained, Hierarchy.pending] at room ⊢
  rw [saturating_of_fits (by omega), own_eq]

theorem Solvent.credited (solvent : g.Solvent) {k : Nat} (inside : k < g.arena.size) {own : UInt64}
    (own_eq : own.toNat = (g.node k).counter.waiting)
    (settled : Settled g g' k (saturatingAdd own (g.node k).pending)) : Credited g g' k := by
  have room := solvent.gain_room inside
  have gain := solvent.gain_eq inside own_eq
  constructor
  case toSameShape => exact settled.toSameShape
  case ordered =>
    intro j ordered
    rw [settled.counter]
    split
    · exact Counter.settled_ordered _
    · exact ordered
  case recorded =>
    intro j
    simp only [Hierarchy.recorded, settled.counter]
    split
    · exact Counter.recorded_settled _
    · rfl
  case drained =>
    intro j
    rw [← solvent.split k]
    simp only [Hierarchy.drained, settled.counter]
    split
    · rename_i same
      rw [Counter.drained_settled, same, Hierarchy.recorded]
    · rfl
  case total =>
    intro j
    simp only [Hierarchy.total, settled.total] at room ⊢
    split
    · rename_i same
      rw [same, word_add (by omega), gain]
    · rfl
  case pending =>
    intro j
    simp only [Hierarchy.pending, settled.pending]
    split
    · rfl
    · split
      · rename_i up
        have room := solvent.pass_room (link_of_parent up)
        simp only [Hierarchy.total, Hierarchy.pending] at room gain
        rw [word_add (by omega), gain]
      · rfl
  case inherited =>
    intro j fits
    simp only [Hierarchy.inherited, settled.inherited] at fits ⊢
    split
    · rename_i heir
      have room := fits heir.1
      rw [word_add (by omega), gain]
    · rfl

theorem Settled.undrained {k : Nat} {gain : UInt64} (settled : Settled g g' k gain) (j : Nat) :
    g'.undrained j = if j = k then 0 else g.undrained j := by
  simp only [Hierarchy.undrained, settled.counter]
  split
  · exact Counter.waiting_settled _
  · rfl

namespace Credited

variable {k n : Nat}

theorem recordings (credited : Credited g g' k) : g'.recordings = g.recordings := by
  simp only [Hierarchy.recordings, credited.size, credited.recorded]

theorem sum_drained (credited : Credited g g' k) (inside : k < g.arena.size) (n : Nat) :
    g'.sumBelow n g'.drained =
      g.sumBelow n g.drained + if n ∈ g.lineage k then g.undrained k else 0 := by
  have change := sum_below_change (n := n) (f := g.drained) (g := g'.drained) inside
    fun m other => by rw [credited.drained, if_neg other]
  rw [credited.drained, if_pos rfl] at change
  rw [credited.sum_below]
  by_cases member : n ∈ g.lineage k
  · simp only [if_pos member] at change ⊢
    omega
  · simp only [if_neg member] at change ⊢
    omega

theorem sum_pending_passed (credited : Credited g g' k) {p : Nat} (up : g.parent? k = some p)
    (n : Nat) : g'.sumBelow n g'.pending + (if n ∈ g.lineage k then g.pending k else 0) =
      g.sumBelow n g.pending +
        if n ∈ g.lineage p then g.undrained k + g.pending k else 0 := by
  have link := link_of_parent up
  have before := parent_before up
  have inside := parent_inside link
  let between : Nat → Nat := fun j => if j = k then 0 else g.pending j
  have first := sum_below_change (n := n) (f := g.pending) (g := between) inside
    fun m other => if_neg other
  have second := sum_below_change (n := n) (f := between) (g := g'.pending)
    (Nat.lt_trans before inside) fun m other => by
      have elsewhere : ¬ g.parent? k = some m := fun same =>
        other (Option.some.inj (same.symm.trans up))
      rw [credited.pending, if_neg elsewhere]
  have at_k : between k = 0 := if_pos rfl
  have at_p : between p = g.pending p := if_neg (Nat.ne_of_lt before)
  have after : g'.pending p = g.pending p + (g.undrained k + g.pending k) := by
    rw [credited.pending, if_neg (Nat.ne_of_lt before), if_pos up]
  rw [at_k] at first
  rw [at_p, after] at second
  rw [credited.sum_below]
  by_cases at_lineage : n ∈ g.lineage p
  · simp only [if_pos at_lineage, if_pos (mem_lineage_of_parent link at_lineage)] at first second ⊢
    omega
  · simp only [if_neg at_lineage] at second ⊢
    split at first <;> rename_i member <;> simp only [member, if_true, if_false] <;> omega

theorem sum_pending_kept (credited : Credited g g' k) (inside : k < g.arena.size)
    (top : g.parent? k = none) (n : Nat) :
    g'.sumBelow n g'.pending + (if n ∈ g.lineage k then g.pending k else 0) =
      g.sumBelow n g.pending := by
  have change := sum_below_change (n := n) (f := g.pending) (g := g'.pending) inside
    fun m other => by
      rw [credited.pending, if_neg other, if_neg (by rw [top]; simp)]
  have at_k : g'.pending k = 0 := by rw [credited.pending, if_pos rfl]
  rw [at_k] at change
  rw [credited.sum_below]
  simpa using change

theorem flow_passed (credited : Credited g g' k) {p : Nat} (up : g.parent? k = some p) (n : Nat) :
    g'.total n + g'.sumBelow n g'.pending =
      g.total n + g.sumBelow n g.pending + if n ∈ g.lineage k then g.undrained k else 0 := by
  have link := link_of_parent up
  have before := parent_before up
  have pending := credited.sum_pending_passed up n
  have total := credited.total n
  by_cases same : n = k
  · subst same
    have below_self : n ∉ g.lineage p := fun member => by
      have le := le_of_mem_lineage member
      omega
    simp only [if_true, if_neg below_self, self_mem_lineage] at pending total ⊢
    omega
  · have through : n ∈ g.lineage k ↔ n ∈ g.lineage p := by
      rw [mem_lineage, link]
      simp [same]
    rw [if_neg same] at total
    simp only [through] at pending ⊢
    by_cases member : n ∈ g.lineage p
    · simp only [if_pos member] at pending ⊢
      omega
    · simp only [if_neg member] at pending ⊢
      omega

theorem flow_kept (credited : Credited g g' k) (inside : k < g.arena.size)
    (top : g.parent? k = none) (n : Nat) :
    g'.total n + g'.sumBelow n g'.pending ≤
        g.total n + g.sumBelow n g.pending + (if n ∈ g.lineage k then g.undrained k else 0) ∧
      (n = k ∨ n ∉ g.lineage k → g'.total n + g'.sumBelow n g'.pending =
        g.total n + g.sumBelow n g.pending + if n ∈ g.lineage k then g.undrained k else 0) := by
  have pending := credited.sum_pending_kept inside top n
  have total := credited.total n
  by_cases same : n = k
  · subst same
    simp only [if_true, self_mem_lineage] at pending total ⊢
    omega
  · rw [if_neg same] at total
    by_cases member : n ∈ g.lineage k
    · simp only [if_pos member] at pending ⊢
      exact ⟨by omega, fun either => absurd (either.resolve_left same) (not_not.mpr member)⟩
    · simp only [if_neg member] at pending ⊢
      omega

theorem solvent (credited : Credited g g' k) (inside : k < g.arena.size) (before : g.Solvent) :
    g'.Solvent where
  ordered j := credited.ordered j (before.ordered j)
  fits := by
    rw [credited.recordings]
    exact before.fits
  bounded n known := by
    rw [credited.size] at known
    have bounded := before.bounded n known
    rw [credited.sum_drained inside]
    cases up : g.parent? k with
    | none =>
      have flow := (credited.flow_kept inside up n).1
      omega
    | some p =>
      have flow := credited.flow_passed up n
      omega

theorem conserved (credited : Credited g g' k) (inside : k < g.arena.size)
    (linked : g.parent? k = (g.node k).parent) (before : g.Conserved) : g'.Conserved := by
  intro n known
  rw [credited.size] at known
  have conserved := before n known
  rw [credited.sum_drained inside]
  cases up : g.parent? k with
  | none =>
    have alone : n = k ∨ n ∉ g.lineage k := by
      rw [lineage_of_no_parent (linked.symm.trans up), List.mem_singleton]
      exact Decidable.em (n = k)
    have flow := (credited.flow_kept inside up n).2 alone
    omega
  | some p =>
    have flow := credited.flow_passed up n
    omega

theorem sum_totals (credited : Credited g g' k) (nodes : Finset Nat) :
    ∑ c ∈ nodes, g'.total c = (∑ c ∈ nodes, g.total c) +
      if k ∈ nodes then g.undrained k + g.pending k else 0 := by
  have terms (c : Nat) : g'.total c =
      g.total c + if c = k then g.undrained k + g.pending k else 0 := by
    rw [credited.total]
    split
    · rename_i at_k
      rw [at_k]
    · rfl
  simp only [terms, Finset.sum_add_distrib, Finset.sum_ite_eq']

theorem offspring (credited : Credited g g' k) (n : Nat) : g'.offspring n = g.offspring n := by
  ext c
  rw [mem_offspring, mem_offspring, credited.size, credited.removed, credited.parent]

/-- A gain shows in the parent through the child's total, or as inherited from a removed child. -/
theorem balanced (credited : Credited g g' k) (solvent : g.Solvent) (before : g.Balanced) :
    g'.Balanced := by
  intro n known live
  rw [credited.size] at known
  rw [credited.removed] at live
  have equation := before n known live
  rw [credited.offspring]
  have children := credited.sum_totals (g.offspring n)
  have drained := credited.drained n
  have total := credited.total n
  have pending := credited.pending n
  have inherited := credited.inherited n
  by_cases child : (g.node k).parent = some n
  · have up : g.parent? k = some n := parent_eq_some.mpr ⟨child, alive_of_live live⟩
    have room := solvent.pass_room child
    have other : n ≠ k := Nat.ne_of_lt (parent_before up)
    have inside := parent_inside child
    replace inherited := inherited fun _ => by omega
    rw [if_neg other] at drained total pending
    rw [if_pos up] at pending
    cases gone : (g.node k).removed with
    | true =>
      have absent : k ∉ g.offspring n := fun member => by
        rw [(mem_offspring.mp member).2.1] at gone
        exact absurd gone (by simp)
      rw [if_neg absent] at children
      rw [if_pos ⟨up, gone⟩] at inherited
      omega
    | false =>
      have present : k ∈ g.offspring n := mem_offspring.mpr ⟨inside, gone, child⟩
      rw [if_pos present] at children
      rw [if_neg (by rw [gone]; simp)] at inherited
      omega
  · have up : ¬ g.parent? k = some n := fun same => child (link_of_parent same)
    have absent : k ∉ g.offspring n := fun member => child (mem_offspring.mp member).2.2
    replace inherited := inherited fun same => absurd same up
    rw [if_neg absent] at children
    rw [if_neg fun both => up both.1] at inherited
    rw [if_neg up] at pending
    by_cases same : n = k
    · subst same
      simp only [if_true] at drained total pending
      omega
    · simp only [if_neg same] at drained total pending
      omega

end Credited

/-- Nodes are only added, with nothing on them. -/
structure SameBooks (h h' : Hierarchy cfg) : Prop where
  grown : h.arena.size ≤ h'.arena.size
  parent : ∀ {k}, k < h.arena.size → (h'.node k).parent = (h.node k).parent
  counter : ∀ k, (h'.node k).counter = (h.node k).counter
  total : ∀ k, (h'.node k).total = (h.node k).total
  pending : ∀ k, (h'.node k).pending = (h.node k).pending

theorem recorded_outside {k : Nat} (outside : h.arena.size ≤ k) : h.recorded k = 0 := by
  rw [recorded, node_outside outside]
  exact Counter.amount_zero rfl

theorem drained_outside {k : Nat} (outside : h.arena.size ≤ k) : h.drained k = 0 := by
  rw [drained, node_outside outside]
  exact Counter.amount_zero rfl

theorem total_outside {k : Nat} (outside : h.arena.size ≤ k) : h.total k = 0 := by
  rw [total, node_outside outside]
  rfl

theorem pending_outside {k : Nat} (outside : h.arena.size ≤ k) : h.pending k = 0 := by
  rw [pending, node_outside outside]
  rfl

theorem sum_below_new {f : Nat → Nat} {n bound : Nat} (none : ∀ k, bound ≤ k → f k = 0)
    (new : bound ≤ n) : h.sumBelow n f = 0 := by
  refine Finset.sum_eq_zero fun m member => none m ?_
  exact Nat.le_trans new (le_of_mem_lineage (mem_below.mp member).2)

namespace SameBooks

variable {k n : Nat}

theorem recorded_eq (same : SameBooks h h') : h'.recorded = h.recorded :=
  funext fun k => congrArg Counter.recorded (same.counter k)

theorem drained_eq (same : SameBooks h h') : h'.drained = h.drained :=
  funext fun k => congrArg Counter.drained (same.counter k)

theorem undrained_eq (same : SameBooks h h') : h'.undrained = h.undrained :=
  funext fun k => congrArg Counter.waiting (same.counter k)

theorem total_eq (same : SameBooks h h') : h'.total = h.total :=
  funext fun k => congrArg UInt64.toNat (same.total k)

theorem pending_eq (same : SameBooks h h') : h'.pending = h.pending :=
  funext fun k => congrArg UInt64.toNat (same.pending k)

theorem lineage (same : SameBooks h h') (inside : k < h.arena.size) :
    h'.lineage k = h.lineage k :=
  lineage_congr fun _ le => same.parent (Nat.lt_of_le_of_lt le inside)

theorem sum_below (same : SameBooks h h') {f : Nat → Nat}
    (none : ∀ k, h.arena.size ≤ k → f k = 0) (n : Nat) : h'.sumBelow n f = h.sumBelow n f := by
  symm
  refine Finset.sum_subset (fun m member => ?_) fun m member absent => ?_
  · obtain ⟨inside, through⟩ := mem_below.mp member
    rw [mem_below, same.lineage inside]
    exact ⟨Nat.lt_of_lt_of_le inside same.grown, through⟩
  · by_contra some
    have inside : m < h.arena.size := Nat.lt_of_not_le fun outside => some (none m outside)
    have through := (mem_below.mp member).2
    rw [same.lineage inside] at through
    exact absent (mem_below.mpr ⟨inside, through⟩)

theorem recordings (same : SameBooks h h') : h'.recordings = h.recordings := by
  rw [Hierarchy.recordings, Hierarchy.recordings, same.recorded_eq]
  symm
  refine Finset.sum_subset (fun m member => ?_) fun m _ absent => ?_
  · have grown := same.grown
    rw [Finset.mem_range] at member ⊢
    omega
  · rw [Finset.mem_range] at absent
    exact recorded_outside (Nat.le_of_not_lt absent)

theorem solvent (same : SameBooks h h') (before : h.Solvent) : h'.Solvent where
  ordered k := by
    rw [same.counter]
    exact before.ordered k
  fits := by
    rw [same.recordings]
    exact before.fits
  bounded n _ := by
    rw [same.total_eq, same.pending_eq, same.drained_eq]
    by_cases old : n < h.arena.size
    · rw [same.sum_below (fun _ => pending_outside), same.sum_below (fun _ => drained_outside)]
      exact before.bounded n old
    · have new := Nat.le_of_not_lt old
      rw [total_outside new, sum_below_new (fun _ => pending_outside) new]
      exact Nat.zero_le _

theorem conserved (same : SameBooks h h') (before : h.Conserved) : h'.Conserved := by
  intro n _
  rw [same.total_eq, same.pending_eq, same.drained_eq]
  by_cases old : n < h.arena.size
  · rw [same.sum_below (fun _ => pending_outside), same.sum_below (fun _ => drained_outside)]
    exact before n old
  · have new := Nat.le_of_not_lt old
    rw [total_outside new, sum_below_new (fun _ => pending_outside) new,
      sum_below_new (fun _ => drained_outside) new]

theorem quiet (same : SameBooks h h') (before : h.Quiet) : h'.Quiet := by
  intro k
  rw [same.pending_eq]
  exact before k

end SameBooks

theorem SameBooks.of_counts (shape : SameShape h h') (counts : SameCounts h h') : SameBooks h h' :=
  ⟨Nat.le_of_eq shape.size.symm, fun {_} _ => shape.parent _, counts.counter, counts.total,
    counts.pending⟩

theorem SameBooks.of_arena (arena : h'.arena = h.arena) (index : h'.index = h.index) :
    SameBooks h h' :=
  .of_counts (.of_arena arena index) (.of_arena arena)

theorem OnlyLists.books (only : OnlyLists h h') : SameBooks h h' :=
  .of_counts only.toSameShape only.toSameCounts

theorem attach_books {id : NodeId} {p : Nat} {name : String} (inside : p < h.arena.size) :
    SameBooks h (h.attach id p name) where
  grown := by
    rw [size_attach]
    exact Nat.le_succ _
  parent old := congrArg Identity.parent (attach_identity inside (Nat.ne_of_lt old))
  counter := (attach_counts inside).counter
  total := (attach_counts inside).total
  pending := (attach_counts inside).pending

theorem apart_books {id : NodeId} {k p : Nat} (inside : k < h.arena.size) (before : p < k) :
    SameBooks h (h.apart id k p) where
  grown := Nat.le_of_eq size_apart.symm
  parent _ := congrArg Identity.parent (apart_identity inside before _)
  counter := (apart_counts inside before).counter
  total := (apart_counts inside before).total
  pending := (apart_counts inside before).pending

structure Counted (h h' : Hierarchy cfg) (k delta : Nat) : Prop extends SameShape h h' where
  ordered : ∀ j, (h'.node j).counter.Ordered
  recorded : ∀ j, h'.recorded j = h.recorded j + if j = k then delta else 0
  drained : ∀ j, h'.drained j = h.drained j
  total : ∀ j, (h'.node j).total = (h.node j).total
  pending : ∀ j, (h'.node j).pending = (h.node j).pending
  inherited : ∀ j, (h'.node j).inherited = (h.node j).inherited
  queued : ∀ j, (h'.node j).queued = (h.node j).queued

theorem node_count (k : Nat) (cpu : Cpu) (delta : UInt64) (j : Nat) :
    (h.count k cpu delta).node j =
      if k = j ∧ k < h.arena.size then
        { h.node j with counter := (h.node j).counter.add (cfg.slot cpu) delta }
      else h.node j :=
  h.node_update k _ j

theorem lists_count (h : Hierarchy cfg) (k : Nat) (cpu : Cpu) (delta : UInt64)
    (c : Fin cfg.slots) (j : Nat) : (h.count k cpu delta).lists c j ↔ h.lists c j := by
  have shape : SameShape h (h.count k cpu delta) :=
    same_shape_update (fun _ => rfl) (fun _ => rfl)
  rw [lists, shape.id]
  rfl

theorem Solvent.recorded_le {k : Nat} (inside : k < h.arena.size) :
    h.recorded k ≤ h.recordings :=
  Finset.single_le_sum (f := h.recorded) (fun _ _ => Nat.zero_le _) (Finset.mem_range.mpr inside)

theorem Solvent.recorded_fits (solvent : h.Solvent) (k : Nat) :
    h.recorded k < UInt64.size := by
  by_cases inside : k < h.arena.size
  · have le := Solvent.recorded_le inside
    have all := solvent.fits
    omega
  · have none := recorded_outside (Nat.le_of_not_lt inside)
    have word : 0 < UInt64.size := by decide
    omega

theorem Solvent.drained_fits (solvent : h.Solvent) (k : Nat) : h.drained k < UInt64.size := by
  have split := solvent.split k
  have fits := solvent.recorded_fits k
  omega

theorem Solvent.undrained_fits (solvent : h.Solvent) (k : Nat) :
    h.undrained k < UInt64.size := by
  have split := solvent.split k
  have fits := solvent.recorded_fits k
  omega

theorem Solvent.unflushed_eq (solvent : h.Solvent) (k : Nat) :
    (h.node k).counter.unflushed.toNat = h.undrained k :=
  Counter.unflushed_of_fits (solvent.ordered k) (solvent.undrained_fits k)

theorem Solvent.counted {k : Nat} {delta : UInt64} (solvent : h.Solvent)
    (inside : k < h.arena.size) (fits : h.recordings + delta.toNat < UInt64.size) (cpu : Cpu) :
    Counted h (h.count k cpu delta) k delta.toNat := by
  have le := Solvent.recorded_le inside
  have room : (h.node k).counter.recorded + delta.toNat < UInt64.size := by
    unfold Hierarchy.recorded at le
    omega
  have counter (j : Nat) : ((h.count k cpu delta).node j).counter =
      if j = k then (h.node k).counter.add (cfg.slot cpu) delta else (h.node j).counter := by
    rw [node_count]
    by_cases same : k = j
    · subst same
      simp [inside]
    · simp [same, Ne.symm same]
  constructor
  case toSameShape => exact same_shape_update (fun _ => rfl) (fun _ => rfl)
  case ordered =>
    intro j
    rw [counter]
    split
    · exact Counter.ordered_add (solvent.ordered k) room
    · exact solvent.ordered j
  case recorded =>
    intro j
    simp only [Hierarchy.recorded, counter]
    split
    · rename_i same
      rw [Counter.recorded_add room, same]
    · rfl
  case drained =>
    intro j
    simp only [Hierarchy.drained, counter]
    split
    · rename_i same
      rw [Counter.drained_add, same]
    · rfl
  all_goals
    intro j
    rw [node_count]
    split <;> rfl

namespace Counted

variable {k delta : Nat}

theorem recordings (counted : Counted h h' k delta) (inside : k < h.arena.size) :
    h'.recordings = h.recordings + delta := by
  simp only [Hierarchy.recordings, counted.size, counted.recorded, Finset.sum_add_distrib,
    Finset.sum_ite_eq', Finset.mem_range, inside, if_true]

theorem total_eq (counted : Counted h h' k delta) : h'.total = h.total :=
  funext fun j => congrArg UInt64.toNat (counted.total j)

theorem pending_eq (counted : Counted h h' k delta) : h'.pending = h.pending :=
  funext fun j => congrArg UInt64.toNat (counted.pending j)

theorem drained_eq (counted : Counted h h' k delta) : h'.drained = h.drained :=
  funext counted.drained

theorem undrained (counted : Counted h h' k delta) (before : h.Solvent) (j : Nat) :
    h'.undrained j = h.undrained j + if j = k then delta else 0 := by
  have old := before.split j
  have new : h'.recorded j = h'.drained j + h'.undrained j :=
    Counter.recorded_split (counted.ordered j)
  rw [counted.recorded, counted.drained] at new
  omega

theorem solvent (counted : Counted h h' k delta) (inside : k < h.arena.size) (before : h.Solvent)
    (fits : h.recordings + delta < UInt64.size) : h'.Solvent where
  ordered := counted.ordered
  fits := by
    rw [counted.recordings inside]
    exact fits
  bounded n known := by
    rw [counted.size] at known
    rw [counted.sum_below, counted.sum_below, counted.total_eq, counted.pending_eq,
      counted.drained_eq]
    exact before.bounded n known

theorem conserved (counted : Counted h h' k delta) (before : h.Conserved) : h'.Conserved := by
  intro n known
  rw [counted.size] at known
  rw [counted.sum_below, counted.sum_below, counted.total_eq, counted.pending_eq,
    counted.drained_eq]
  exact before n known

theorem quiet (counted : Counted h h' k delta) (before : h.Quiet) : h'.Quiet := by
  intro j
  rw [counted.pending_eq]
  exact before j

end Counted

end Hierarchy

end Rollup
