import Mathlib
import Rollup.Proofs.Upkeep

/-!
Nothing recorded goes missing as long as only nodes of the tree are listed. `Intact` says that they
are and that the books are conserved; it holds at every moment, also within a flush. `Kept` adds that
nothing is on its way up and that whatever is not drained is listed; recording an event, adding a
node, flushing and taking a node out keep it. In a kept state totals are at most what was recorded,
and when all is drained, as after a flush, they are just that.
-/
namespace Rollup

namespace Hierarchy

variable {cfg : Config} {h h' : Hierarchy cfg}

theorem Shaped.parent_of_live (shaped : h.Shaped) {k : Nat} (live : (h.node k).removed = false) :
    h.parent? k = (h.node k).parent := by
  cases up : (h.node k).parent with
  | none => simp [parent?, up]
  | some p => exact parent_eq_some.mpr ⟨up, alive_of_live (shaped.upward live up)⟩

theorem Shaped.chain_live (shaped : h.Shaped) {k n : Nat} (live : (h.node k).removed = false)
    (member : n ∈ h.chain k) : (h.node n).removed = false :=
  chain_closed (fun {_ _} live up => shaped.upward live (link_of_parent up)) live member

theorem Shaped.chain_eq_lineage (shaped : h.Shaped) {k : Nat} (live : (h.node k).removed = false) :
    h.chain k = h.lineage k := by
  induction k using Nat.strongRecOn with
  | ind k ih =>
    have same := shaped.parent_of_live live
    cases up : (h.node k).parent with
    | none => rw [chain_of_no_parent (same.trans up), lineage_of_no_parent up]
    | some p =>
      have before : p < k := Arena.parent_before up
      rw [chain_of_parent (same.trans up), lineage_of_parent up, ih p before (shaped.upward live up)]

structure Intact (h : Hierarchy cfg) : Prop where
  shaped : h.Shaped
  tracked : h.Tracked
  solvent : h.Solvent
  conserved : h.Conserved
  live : ∀ {c k}, h.lists c k → (h.node k).removed = false

namespace Intact

variable {k : Nat}

theorem chain_distinct (intact : h.Intact) (inside : k < h.arena.size)
    (live : (h.node k).removed = false) : h.ChainDistinct k := by
  have known {j : Nat} (either : (∃ c, h.lists c j) ∨ j ∈ h.chain k) :
      j < h.arena.size ∧ (h.node j).removed = false := by
    rcases either with ⟨c, listed⟩ | member
    · exact ⟨intact.tracked.inside listed, intact.live listed⟩
    · exact ⟨chain_inside inside member, intact.shaped.chain_live live member⟩
  intro i first j second same
  obtain ⟨inside_i, live_i⟩ := known (Or.inr first)
  obtain ⟨inside_j, live_j⟩ := known second
  exact intact.shaped.same_of_id inside_i inside_j live_i live_j same

theorem enqueues (intact : h.Intact) (inside : k < h.arena.size)
    (live : (h.node k).removed = false) (cpu : Cpu) :
    Enqueued h (h.mark k cpu) (cfg.slot cpu) (h.chain k) :=
  mark_enqueues intact.tracked inside (alive_of_live live) (intact.chain_distinct inside live) cpu

theorem carry (intact : h.Intact) (shape : SameShape h h') (queues : h'.queues = h.queues)
    (queued : ∀ j, (h'.node j).queued = (h.node j).queued)
    (held : ∀ j ∈ h'.holds, h.isAlive j = true) (solvent : h'.Solvent)
    (conserved : h'.Conserved) : h'.Intact where
  shaped := intact.shaped.of_same shape
  tracked := intact.tracked.stay shape queues queued held
  solvent := solvent
  conserved := conserved
  live := by
    intro c j listed
    rw [lists, queues, shape.id] at listed
    rw [shape.removed]
    exact intact.live listed

theorem counted (intact : h.Intact) {delta : UInt64} (inside : k < h.arena.size)
    (fits : h.recordings + delta.toNat < UInt64.size) (cpu : Cpu) :
    (h.count k cpu delta).Intact := by
  have counted := intact.solvent.counted inside fits cpu
  exact intact.carry counted.toSameShape rfl counted.queued
    (fun _ member => alive_of_held member)
    (counted.solvent inside intact.solvent fits) (counted.conserved intact.conserved)

theorem marked (intact : h.Intact) (inside : k < h.arena.size)
    (live : (h.node k).removed = false) (cpu : Cpu) : (h.mark k cpu).Intact := by
  have marked := intact.enqueues inside live cpu
  have books := marked.toOnlyLists.books
  refine ⟨intact.shaped.of_same marked.toSameShape, ?_, books.solvent intact.solvent,
    books.conserved intact.conserved, ?_⟩
  · exact intact.tracked.mark inside (alive_of_live live) (intact.chain_distinct inside live) cpu
  · intro c j listed
    rw [marked.removed]
    rcases (marked.lists c j).mp listed with old | ⟨_, member⟩
    · exact intact.live old
    · exact intact.shaped.chain_live live member

end Intact

/-- Every event recorded is in the totals above it or on its way there. -/
structure Kept (h : Hierarchy cfg) : Prop extends Sound h where
  live : ∀ {c k}, h.lists c k → (h.node k).removed = false
  dirty : ∀ {k}, h.undrained k ≠ 0 → ∃ c, h.lists c k
  conserved : h.Conserved

def Clean (h : Hierarchy cfg) : Prop := ∀ k, h.undrained k = 0

namespace Kept

variable {k : Nat}

theorem total_le (kept : h.Kept) {n : Nat} (inside : n < h.arena.size) :
    h.total n ≤ h.sumBelow n h.recorded := by
  have conserved := kept.conserved n inside
  have split := kept.solvent.sum_split n
  omega

theorem total_eq (kept : h.Kept) (clean : h.Clean) {n : Nat} (inside : n < h.arena.size) :
    h.total n = h.sumBelow n h.recorded := by
  have conserved := kept.conserved n inside
  have split := kept.solvent.sum_split n
  rw [sum_below_zero kept.quiet] at conserved
  rw [sum_below_zero clean] at split
  omega

theorem start (cfg : Config) : (Hierarchy.new cfg).Kept where
  toSound := Sound.start cfg
  live := by
    intro c k listed
    have empty : (Hierarchy.new cfg).queues[c] = ∅ := by simp [Hierarchy.new]
    rw [lists, empty] at listed
    exact absurd listed (by simp)
  dirty := by
    intro k some
    have none : (Hierarchy.new cfg).undrained k = 0 := by
      rw [undrained, new_counter]
      exact Counter.amount_zero rfl
    exact absurd none some
  conserved := by
    intro n inside
    rw [new_total, sum_below_zero (new_pending cfg)]
    symm
    apply sum_below_zero
    intro k
    rw [drained, new_counter]
    exact Counter.amount_zero rfl

theorem attach (kept : h.Kept) {id : NodeId} {p : Nat} {name : String}
    (place : Vacancy h id p name) (next : UInt64) :
    Kept { h.attach id p name with nextId := next } := by
  have books := place.books next
  have lists {c : Fin cfg.slots} {k : Nat} :
      (h.attach id p name).lists c k ↔ h.lists c k := attach_lists kept.tracked.filed place.inside
  refine ⟨kept.toSound.attach place next, ?_, ?_, ?_⟩
  · intro c k listed
    exact (attach_removed place.inside k).trans (kept.live (lists.mp listed))
  · intro k some
    have before : h.undrained k ≠ 0 := by
      rw [← books.undrained_eq]
      exact some
    obtain ⟨c, listed⟩ := kept.dirty before
    exact ⟨c, lists.mpr listed⟩
  · exact books.conserved kept.conserved

theorem intact (kept : h.Kept) : h.Intact :=
  ⟨kept.shaped, kept.tracked, kept.solvent, kept.conserved, kept.live⟩

theorem linked (kept : h.Kept) (c : Fin cfg.slots) (k : Nat) (listed : h.lists c k) :
    h.parent? k = (h.node k).parent :=
  kept.shaped.parent_of_live (kept.live listed)

section
variable (kept : h.Kept) {delta : UInt64} (inside : k < h.arena.size)
  (live : (h.node k).removed = false) (fits : h.recordings + delta.toNat < UInt64.size) (cpu : Cpu)
include kept inside live fits

theorem record_enqueues : Enqueued (h.count k cpu delta) (h.record k cpu delta) (cfg.slot cpu)
    (h.lineage k) := by
  have counted := kept.solvent.counted inside fits cpu
  have between := kept.intact.counted inside fits cpu
  have live_after := (counted.removed k).trans live
  have whole : (h.count k cpu delta).chain k = h.lineage k := by
    rw [between.shaped.chain_eq_lineage live_after, counted.lineage]
  rw [record_of_live live, ← whole]
  exact between.enqueues (counted.size ▸ inside) live_after cpu

theorem record : (h.record k cpu delta).Kept := by
  have counted := kept.solvent.counted inside fits cpu
  have between := kept.intact.counted inside fits cpu
  have after := between.marked (counted.size ▸ inside) ((counted.removed k).trans live) cpu
  have marked := kept.record_enqueues inside live fits cpu
  have books := marked.toOnlyLists.books
  rw [← record_of_live live] at after
  refine ⟨⟨after.shaped, after.tracked, after.solvent, ?_⟩, after.live, ?_, after.conserved⟩
  · exact books.quiet (counted.quiet kept.quiet)
  · intro j some
    rw [books.undrained_eq, counted.undrained kept.solvent] at some
    by_cases same : j = k
    · subst same
      exact ⟨cfg.slot cpu, (marked.lists _ j).mpr (Or.inr ⟨rfl, self_mem_lineage h j⟩)⟩
    · rw [if_neg same] at some
      obtain ⟨c, listed⟩ := kept.dirty some
      exact ⟨c, (marked.lists c j).mpr (Or.inl ((h.lists_count k cpu delta c j).mpr listed))⟩

end

end Kept

theorem clean_of_flushed (dirty : ∀ {k}, h.undrained k ≠ 0 → ∃ c, h.lists c k)
    (flushed : Flushed h h') : h'.Clean := by
  intro k
  by_cases listed : ∃ c, h.lists c k
  · exact flushed.settled k listed
  · rw [flushed.untouched k listed]
    by_contra some
    exact listed (dirty some)

theorem kept_of_flushed (dirty : ∀ {k}, h.undrained k ≠ 0 → ∃ c, h.lists c k)
    (conserved : h.Conserved) (linked : ∀ c k, h.lists c k → h.parent? k = (h.node k).parent)
    (flushed : Flushed h h') (sound : h'.Sound) : h'.Kept where
  toSound := sound
  live := by
    intro c k listed
    rw [lists, flushed.queues] at listed
    exact absurd listed (by simp)
  dirty some := absurd (clean_of_flushed dirty flushed _) some
  conserved := flushed.conserved conserved linked

section
variable {id : NodeId} {k p : Nat} (kept : h.Kept) (leaving : Leaving h id k p)
include kept leaving

theorem Leaving.dirty {j : Nat} (some : (h.left id k p).undrained j ≠ 0) :
    ∃ c, (h.left id k p).lists c j := by
  rw [(leaving.books kept.shaped).undrained_eq] at some
  obtain ⟨c, listed⟩ := kept.dirty some
  exact ⟨c, (leaving.lists kept.shaped c j).mpr listed⟩

theorem Leaving.linked (c : Fin cfg.slots) (j : Nat) (listed : (h.left id k p).lists c j) :
    (h.left id k p).parent? j = ((h.left id k p).node j).parent := by
  have same : ((h.left id k p).node j).parent = (h.node j).parent :=
    congrArg Identity.parent (leaving.identity kept.shaped j)
  cases up : (h.node j).parent with
  | none => simp [parent?, same, up]
  | some q =>
    have live := kept.live ((leaving.lists kept.shaped c j).mp listed)
    have other : q ≠ k := fun at_k => leaving.no_child kept.shaped live (at_k ▸ up)
    have stays : ((h.left id k p).node q).removed = false := by
      rw [leaving.removed kept.shaped, if_neg other]
      exact kept.shaped.upward live up
    have link := same.trans up
    rw [link]
    exact parent_eq_some.mpr ⟨link, alive_of_live stays⟩

end

theorem kept_upkeep : Upkeep (@Kept cfg) fun _ => True where
  sound kept := kept.toSound
  attach next kept place := kept.attach place next
  record cpu kept _ inside live fits := kept.record inside live fits cpu
  flush kept flushed sound := kept_of_flushed kept.dirty kept.conserved kept.linked flushed sound
  leave kept leaving flushed sound :=
    kept_of_flushed (leaving.dirty kept) ((leaving.books kept.shaped).conserved kept.conserved)
      (leaving.linked kept) flushed sound
  hold := by
    intro h holds kept held
    have books : SameBooks h { h with holds := holds } := .of_arena rfl rfl
    exact ⟨kept.toSound.holding held, kept.live, kept.dirty, books.conserved kept.conserved⟩

theorem Kept.clean_after_flush (kept : h.Kept) : h.flush.1.Clean := by
  obtain ⟨after, sum, run, flushed, _⟩ := kept.toSound.flushes
  rw [run]
  exact clean_of_flushed kept.dirty flushed

theorem Kept.clean_after_removal (kept : h.Kept) {id : NodeId} (done : (h.remove id).2 = .ok ()) :
    (h.remove id).1.Clean := by
  rcases remove_cases kept.shaped id with ⟨fault, run⟩ | ⟨k, p, leaving, _, run⟩
  · rw [run] at done
    exact absurd done (by simp)
  · obtain ⟨after, sum, flush, flushed, _⟩ := (leaving.sound kept.toSound).flushes
    rw [run, flush]
    exact clean_of_flushed (leaving.dirty kept) flushed

end Hierarchy

end Rollup
