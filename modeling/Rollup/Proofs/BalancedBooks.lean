import Mathlib
import Rollup.Proofs.AnyFlush
import Rollup.Proofs.FixedNodes
import Rollup.Proofs.Upkeep

/-!
In every state of order each node's total is its own count, what it inherited and the totals of its
children, as long as no two nodes ever share an id. A node that leaves the tree takes its total from
its parent's children and adds it to what the parent inherited; a gain that it passes up later is
added there too, so the equation survives.
-/
namespace Rollup

namespace Hierarchy

variable {cfg : Config} {h h' : Hierarchy cfg}

/-- No two nodes ever created share an id. -/
def Distinct (h : Hierarchy cfg) : Prop :=
  ∀ j k, j < h.arena.size → k < h.arena.size → (h.node j).id = (h.node k).id → j = k

instance : Decidable h.Distinct :=
  decidable_of_iff
    (∀ j, j < h.arena.size → ∀ k, k < h.arena.size → (h.node j).id = (h.node k).id → j = k)
    ⟨fun all j k hj hk => all j hj k hk, fun all j hj k hk => all j k hj hk⟩

theorem Distinct.live (distinct : h.Distinct) : h.LiveDistinct :=
  fun j k hj hk _ _ same => distinct j k hj hk same

theorem Distinct.of_grows (distinct : h'.Distinct) (grows : Grows h h') : h.Distinct := by
  intro j k hj hk same
  have id {i : Nat} (inside : i < h.arena.size) : (h'.node i).id = (h.node i).id :=
    congrArg Identity.id (grows.identity i inside)
  refine distinct j k (Nat.lt_of_lt_of_le hj grows.size) (Nat.lt_of_lt_of_le hk grows.size) ?_
  rw [id hj, id hk]
  exact same

theorem Distinct.chain (distinct : h.Distinct) (tracked : h.Tracked) {k : Nat}
    (inside : k < h.arena.size) : h.ChainDistinct k := by
  intro i first j second same
  refine distinct i j (chain_inside inside first) ?_ same
  rcases second with ⟨c, listed⟩ | member
  · exact tracked.inside listed
  · exact chain_inside inside member

theorem Balanced.start (cfg : Config) : (Hierarchy.new cfg).Balanced := by
  intro n inside _
  have root : n = 0 := Nat.lt_one_iff.mp inside
  have drained : (Hierarchy.new cfg).drained n = 0 := by
    rw [Hierarchy.drained, new_counter]
    exact Counter.amount_zero rfl
  have inherited : (Hierarchy.new cfg).inherited n = 0 := by
    subst root
    rfl
  rw [new_total, new_pending, drained, inherited, Finset.sum_eq_zero fun c _ => new_total cfg c]

theorem Balanced.attach (before : h.Balanced) {id : NodeId} {p : Nat} {name : String}
    (inside : p < h.arena.size) : (h.attach id p name).Balanced := by
  intro n known live
  have counts : SameCounts h (h.attach id p name) := attach_counts inside
  have books : SameBooks h (h.attach id p name) := attach_books inside
  have inherited : (h.attach id p name).inherited n = h.inherited n :=
    congrArg UInt64.toNat (counts.inherited n)
  have up {c : Nat} (old : c < h.arena.size) :
      ((h.attach id p name).node c).parent = (h.node c).parent := books.parent old
  -- the new node has no total to add anywhere
  have children : ∑ c ∈ (h.attach id p name).offspring n, h.total c =
      ∑ c ∈ h.offspring n, h.total c := by
    symm
    refine Finset.sum_subset (fun c member => ?_) fun c member absent => ?_
    · obtain ⟨old, alive, link⟩ := mem_offspring.mp member
      refine mem_offspring.mpr ⟨Nat.lt_of_lt_of_le old books.grown, ?_, (up old).trans link⟩
      exact (attach_removed inside c).trans alive
    · refine total_outside (Nat.le_of_not_lt fun old => absent ?_)
      obtain ⟨_, alive, link⟩ := mem_offspring.mp member
      exact mem_offspring.mpr ⟨old, (attach_removed inside c).symm.trans alive, (up old).symm.trans link⟩
  rw [books.total_eq, books.pending_eq, books.drained_eq, inherited, children]
  by_cases old : n < h.arena.size
  · exact before n old ((attach_removed inside n).symm.trans live)
  · have new := Nat.le_of_not_lt old
    have none : h.offspring n = ∅ := by
      apply Finset.filter_eq_empty_iff.mpr
      intro c member both
      have above : n < c := Arena.parent_before both.2
      rw [Finset.mem_range] at member
      omega
    have nothing : h.inherited n = 0 := by
      rw [Hierarchy.inherited, node_outside new]
      rfl
    rw [total_outside new, pending_outside new, drained_outside new, nothing, none]
    rfl

/-- What the node that left takes from its parent's children is what the parent inherits. -/
theorem Leaving.balanced {id : NodeId} {k p : Nat} (leaving : Leaving h id k p) (sound : h.Sound)
    (before : h.Balanced) : (h.left id k p).Balanced := by
  intro n known live
  have shaped := sound.shaped
  have books := leaving.books shaped
  have inherited := leaving.inherited shaped n
  rw [leaving.size shaped] at known
  rw [leaving.removed shaped] at live
  have other : n ≠ k := fun same => by
    rw [if_pos same] at live
    exact absurd live (by simp)
  rw [if_neg other] at live
  have equation := before n known live
  have children : (h.left id k p).offspring n = (h.offspring n).erase k := by
    ext c
    rw [Finset.mem_erase, mem_offspring, mem_offspring, leaving.size shaped, leaving.removed shaped,
      congrArg Identity.parent (leaving.identity shaped c)]
    by_cases same : c = k
    · simp [same]
    · simp [same]
  rw [books.total_eq, books.pending_eq, books.drained_eq, children]
  simp only [Hierarchy.inherited, inherited] at equation ⊢
  by_cases parent : n = p
  · subst parent
    have child : k ∈ h.offspring n :=
      mem_offspring.mpr ⟨leaving.inside, leaving.live shaped, leaving.up⟩
    have split := Finset.add_sum_erase (h.offspring n) h.total child
    have room := sound.solvent.gain_room known
    have fits : (h.node n).inherited.toNat + (h.node k).total.toNat < UInt64.size := by
      simp only [Hierarchy.total] at split equation room
      omega
    rw [if_pos rfl, word_add fits]
    simp only [Hierarchy.total] at split equation ⊢
    omega
  · have absent : k ∉ h.offspring n := fun member => by
      have link := (mem_offspring.mp member).2.2
      rw [leaving.up] at link
      exact parent (Option.some.inj link).symm
    rw [if_neg parent, Finset.erase_eq_of_notMem absent]
    exact equation

structure Additive (h : Hierarchy cfg) : Prop extends Sound h where
  balanced : h.Balanced

namespace Additive

variable {k : Nat}

theorem start (cfg : Config) : (Hierarchy.new cfg).Additive :=
  ⟨Sound.start cfg, Balanced.start cfg⟩

theorem of_counts (additive : h.Additive) (sound : h'.Sound) (shape : SameShape h h')
    (counts : SameCounts h h') : h'.Additive :=
  ⟨sound, additive.balanced.of_counts shape counts⟩

theorem attach (additive : h.Additive) {id : NodeId} {p : Nat} {name : String}
    (place : Vacancy h id p name) (next : UInt64) :
    Additive { h.attach id p name with nextId := next } := by
  refine ⟨additive.toSound.attach place next, ?_⟩
  exact (additive.balanced.attach place.inside).of_counts (.of_arena rfl rfl) (.of_arena rfl)

theorem count (additive : h.Additive) {delta : UInt64} (inside : k < h.arena.size)
    (fits : h.recordings + delta.toNat < UInt64.size) (cpu : Cpu) :
    (h.count k cpu delta).Additive := by
  have counted := additive.solvent.counted inside fits cpu
  refine ⟨additive.toSound.counted inside fits cpu, ?_⟩
  exact additive.balanced.transport counted.toSameShape counted.total_eq counted.pending_eq
    counted.drained_eq (funext fun j => congrArg UInt64.toNat (counted.inherited j))

theorem mark (additive : h.Additive) (distinct : h.Distinct) (inside : k < h.arena.size)
    (alive : h.isAlive k = true) (cpu : Cpu) : (h.mark k cpu).Additive := by
  have only := only_lists_mark h k cpu
  exact additive.of_counts
    (additive.toSound.marked inside alive (distinct.chain additive.tracked inside) cpu)
    only.toSameShape only.toSameCounts

theorem record (additive : h.Additive) (distinct : h.Distinct) {delta : UInt64}
    (inside : k < h.arena.size) (live : (h.node k).removed = false)
    (fits : h.recordings + delta.toNat < UInt64.size) (cpu : Cpu) :
    (h.record k cpu delta).Additive := by
  have counted := additive.solvent.counted inside fits cpu
  have same : (h.count k cpu delta).Distinct := by
    intro i j hi hj ids
    rw [counted.size] at hi hj
    rw [counted.id, counted.id] at ids
    exact distinct i j hi hj ids
  rw [record_of_live live]
  refine (additive.count inside fits cpu).mark same ?_ ?_ cpu
  · rw [counted.size]
    exact inside
  · exact alive_of_live ((counted.removed k).trans live)

theorem taken_holding (additive : h.Additive) {cs : List (Fin cfg.slots)} {ks holds : List Nat}
    (taken : Taken h h' cs ks) (held : ∀ k ∈ holds, h.isAlive k = true) :
    Additive { h' with holds := holds } :=
  additive.of_counts (additive.toSound.taken_holding taken held)
    ⟨taken.size, taken.index, taken.identity, taken.removed, taken.children⟩
    ⟨taken.counter, taken.total, taken.pending, taken.inherited⟩

theorem holding (additive : h.Additive) {holds : List Nat}
    (held : ∀ k ∈ holds, h.isAlive k = true) : Additive { h with holds := holds } :=
  additive.of_counts (additive.toSound.holding held) (.of_arena rfl rfl) (.of_arena rfl)

end Additive

theorem additive_taking : Taking (@Additive cfg) where
  filed additive := additive.tracked.filed
  take additive taken held := additive.taken_holding taken held

theorem additive_upkeep : Upkeep (@Additive cfg) Distinct where
  sound additive := additive.toSound
  attach next additive place := additive.attach place next
  record cpu additive distinct inside live fits := additive.record distinct inside live fits cpu
  flush additive flushed sound := ⟨sound, flushed.balanced additive.balanced⟩
  leave additive leaving flushed sound :=
    ⟨sound, flushed.balanced (leaving.balanced additive.toSound additive.balanced)⟩
  hold additive held := additive.holding held

theorem Additive.drained_word (additive : h.Additive) {n : Nat} (inside : n < h.arena.size) :
    (h.node n).own.toNat = h.drained n := by
  have split := additive.solvent.split n
  have le := Solvent.recorded_le inside
  have fits := additive.solvent.fits
  exact Counter.flushed_total_of_fits (by rw [← Hierarchy.drained]; omega)

theorem Additive.equation (additive : h.Additive) {n : Nat} (inside : n < h.arena.size)
    (live : (h.node n).removed = false) : (h.node n).total.toNat =
      (h.node n).own.toNat + (h.node n).inherited.toNat +
        ∑ c ∈ h.offspring n, (h.node c).total.toNat := by
  have equation := additive.balanced n inside live
  rw [additive.quiet n, Nat.add_zero, ← additive.drained_word inside] at equation
  exact equation

theorem Shaped.sum_children (shaped : h.Shaped) {n : Nat} (inside : n < h.arena.size)
    (f : Nat → Nat) :
    ((h.node n).children.values.map f).sum = ∑ c ∈ h.offspring n, f c := by
  have nodup : (h.node n).children.values.Nodup :=
    IdMap.values_nodup fun i j c first second =>
      ((shaped.downward inside).mp first).2.2.2.symm.trans ((shaped.downward inside).mp second).2.2.2
  have same : h.offspring n = (h.node n).children.values.toFinset := by
    ext c
    rw [List.mem_toFinset, IdMap.mem_values, mem_offspring]
    constructor
    · exact fun ⟨child, live, up⟩ => ⟨_, (shaped.downward inside).mpr ⟨child, live, up, rfl⟩⟩
    · rintro ⟨id, found⟩
      obtain ⟨child, live, up, _⟩ := (shaped.downward inside).mp found
      exact ⟨child, live, up⟩
  rw [same, List.sum_toFinset f nodup]

theorem Additive.checks (additive : h.Additive) : h.checkBalance = .ok () := by
  have none : (h.keys.find? fun k => !h.isBalanced k) = none := by
    refine List.find?_eq_none.mpr fun k member => ?_
    obtain ⟨inside, live⟩ := additive.shaped.key_of_mem member
    have equation := additive.equation inside live
    have room := (h.node k).total.toNat_lt
    have children : (h.childrenTotal k).toNat = ∑ c ∈ h.offspring k, (h.node c).total.toNat := by
      rw [← additive.shaped.sum_children inside fun c => (h.node c).total.toNat]
      refine words_sum (f := fun c => (h.node c).total) ?_
      rw [additive.shaped.sum_children inside fun c => (h.node c).total.toNat]
      exact Nat.lt_of_le_of_lt (by omega) room
    have size : UInt64.size = 2 ^ 64 := rfl
    have words : (h.node k).total = (h.node k).own + (h.node k).inherited + h.childrenTotal k := by
      refine UInt64.toNat_inj.mp ?_
      rw [word_add (by rw [word_add (by omega)]; omega), word_add (by omega), children]
      exact equation
    simp [isBalanced, ← words]
  simp only [checkBalance, none]

end Hierarchy

end Rollup
