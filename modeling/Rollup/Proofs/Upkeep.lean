import Mathlib
import Rollup.Proofs.SoundOperations

/-!
Properties that operations keep. `Upkeep` lists what it takes: a property of sound states that
survives adding a node, recording an event, a flush, taking a node out, and changes of references.
Such a property then holds along with `Advanced`, which says in numbers what an operation, or several
in turn, did: what was recorded on each node, that no total fell and that no node disappeared.
-/
namespace Rollup

namespace Hierarchy

variable {cfg : Config} {h h' : Hierarchy cfg} {K D : Hierarchy cfg → Prop}

/-- A stretch of a run that keeps `K`, when `credit` says what it records on each node. -/
structure Advanced (K : Hierarchy cfg → Prop) (h h' : Hierarchy cfg) (credit : Nat → Nat) :
    Prop where
  kept : K h'
  recorded : ∀ k, h'.recorded k = h.recorded k + credit k
  rising : ∀ k, h.total k ≤ h'.total k
  grown : h.arena.size ≤ h'.arena.size

namespace Advanced

variable {credit : Nat → Nat}

theorem stay (kept : K h) : Advanced K h h fun _ => 0 :=
  ⟨kept, fun _ => rfl, fun _ => Nat.le_refl _, Nat.le_refl _⟩

theorem trans {h'' : Hierarchy cfg} {credit' : Nat → Nat} (first : Advanced K h h' credit)
    (second : Advanced K h' h'' credit') : Advanced K h h'' fun k => credit k + credit' k where
  kept := second.kept
  recorded k := by rw [second.recorded, first.recorded, Nat.add_assoc]
  rising k := Nat.le_trans (first.rising k) (second.rising k)
  grown := Nat.le_trans first.grown second.grown

theorem of_books (kept : K h') (books : SameBooks h h') : Advanced K h h' fun _ => 0 :=
  ⟨kept, congrFun books.recorded_eq, fun k => Nat.le_of_eq (congrFun books.total_eq k).symm,
    books.grown⟩

theorem of_flushed (kept : K h') (flushed : Flushed h h') : Advanced K h h' fun _ => 0 :=
  ⟨kept, flushed.recorded, flushed.rising, Nat.le_of_eq flushed.size.symm⟩

theorem recordings (advanced : Advanced K h h' credit) :
    h'.recordings = h.recordings + ∑ k ∈ Finset.range h'.arena.size, credit k := by
  have old : ∑ k ∈ Finset.range h'.arena.size, h.recorded k = h.recordings := by
    symm
    refine Finset.sum_subset (fun k member => ?_) fun k _ absent => ?_
    · have grown := advanced.grown
      rw [Finset.mem_range] at member ⊢
      omega
    · rw [Finset.mem_range] at absent
      exact recorded_outside (Nat.le_of_not_lt absent)
  simp only [Hierarchy.recordings, advanced.recorded, Finset.sum_add_distrib] at old ⊢
  rw [old]

end Advanced

/-- What keeps a property `K` of states; recording an event may need `D` as well. -/
structure Upkeep (K D : Hierarchy cfg → Prop) : Prop where
  sound : ∀ {h}, K h → h.Sound
  attach : ∀ {h : Hierarchy cfg} {id p name} (next : UInt64), K h → Vacancy h id p name →
    K { h.attach id p name with nextId := next }
  record : ∀ {h k} {delta : UInt64} (cpu : Cpu), K h → D h → k < h.arena.size →
    (h.node k).removed = false → h.recordings + delta.toNat < UInt64.size →
    K (h.record k cpu delta)
  flush : ∀ {h after}, K h → Flushed h after → after.Sound → K after
  leave : ∀ {h id k p after}, K h → Leaving h id k p → Flushed (h.left id k p) after →
    after.Sound → K after
  hold : ∀ {h} {holds : List Nat}, K h → (∀ k ∈ holds, h.isAlive k = true) →
    K { h with holds := holds }

namespace Upkeep

variable (upkeep : Upkeep K D) (kept : K h)
include upkeep kept

theorem attaches {id : NodeId} {p : Nat} {name : String} (place : Vacancy h id p name)
    (next : UInt64) : Advanced K h { h.attach id p name with nextId := next } fun _ => 0 :=
  .of_books (upkeep.attach next kept place) (place.books next)

theorem flushes : ∃ after sum, h.flush = (after, .ok sum) ∧ Flushed h after ∧
    Advanced K h after fun _ => 0 := by
  obtain ⟨after, sum, run, flushed, sound⟩ := (upkeep.sound kept).flushes
  exact ⟨after, sum, run, flushed, .of_flushed (upkeep.flush kept flushed sound) flushed⟩

theorem leaves {id : NodeId} {k p : Nat} (leaving : Leaving h id k p) :
    ∃ after sum, (h.left id k p).flush = (after, .ok sum) ∧ Flushed (h.left id k p) after ∧
      Advanced K h after fun _ => 0 := by
  have books := leaving.books (upkeep.sound kept).shaped
  obtain ⟨after, sum, run, flushed, sound⟩ := (leaving.sound (upkeep.sound kept)).flushes
  refine ⟨after, sum, run, flushed, ⟨upkeep.leave kept leaving flushed sound, ?_, ?_, ?_⟩⟩
  · intro j
    exact (flushed.recorded j).trans (congrFun books.recorded_eq j)
  · intro j
    exact Nat.le_trans (Nat.le_of_eq (congrFun books.total_eq j).symm) (flushed.rising j)
  · exact Nat.le_trans books.grown (Nat.le_of_eq flushed.size.symm)

theorem removes (id : NodeId) :
    Advanced K h (h.remove id).1 (fun _ => 0) ∧ (h.remove id).1.holds = h.holds := by
  have shaped := (upkeep.sound kept).shaped
  rcases remove_cases shaped id with ⟨fault, run⟩ | ⟨k, p, leaving, _, run⟩
  · rw [run]
    exact ⟨.stay kept, rfl⟩
  · obtain ⟨after, sum, flush, flushed, advanced⟩ := upkeep.leaves kept leaving
    rw [run, flush]
    exact ⟨advanced, flushed.holds.trans (leaving.holds shaped)⟩

theorem records (ready : D h) {k : Nat} {delta : UInt64} (inside : k < h.arena.size)
    (live : (h.node k).removed = false) (fits : h.recordings + delta.toNat < UInt64.size)
    (cpu : Cpu) : Advanced K h (h.record k cpu delta) (fun j => if j = k then delta.toNat else 0) ∧
      (h.record k cpu delta).holds = h.holds := by
  have counted := (upkeep.sound kept).solvent.counted inside fits cpu
  have only := only_lists_mark (h.count k cpu delta) k cpu
  have kept_after := upkeep.record cpu kept ready inside live fits
  rw [record_of_live live] at kept_after ⊢
  have books := only.books
  refine ⟨⟨kept_after, fun j => ?_, fun j => ?_, ?_⟩, only.holds⟩
  · rw [books.recorded_eq]
    exact counted.recorded j
  · rw [books.total_eq, counted.total_eq]
  · rw [only.size, counted.size]

theorem holds {holds : List Nat} (held : ∀ k ∈ holds, h.isAlive k = true) :
    Advanced K h { h with holds := holds } fun _ => 0 :=
  .of_books (upkeep.hold kept held) (.of_arena rfl rfl)

end Upkeep

end Hierarchy

end Rollup
