import Mathlib
import Rollup.Proofs.EveryStep

/-!
The books of a session in which nodes that are alive may share an id. Lists and flags may then
disagree, but no sum wraps around: as long as all events of a run fit a word, its books stay solvent
and no flush fails, whatever its steps do.
-/
namespace Rollup

namespace Hierarchy

variable {cfg : Config} {h h' : Hierarchy cfg} {n k : Nat}

/-- The tree is in order, entries stand under the ids of their nodes, and the books can take `n` more
    events. -/
structure Funded (n : Nat) (h : Hierarchy cfg) : Prop where
  shaped : h.Shaped
  filed : h.Filed
  solvent : h.Solvent
  room : h.recordings + n < UInt64.size

theorem Funded.start (cfg : Config) (fits : n < UInt64.size) : (Hierarchy.new cfg).Funded n where
  shaped := Shaped.start cfg
  filed := (Tracked.start cfg).filed
  solvent := (Sound.start cfg).solvent
  room := by
    rw [new_recordings]
    omega

theorem update_books {f : Status cfg.slots → Status cfg.slots}
    (counter : ∀ s, (f s).counter = s.counter) (total : ∀ s, (f s).total = s.total)
    (pending : ∀ s, (f s).pending = s.pending) : SameBooks h (h.update k f) where
  grown := Nat.le_of_eq (Arena.size_update h.arena k f).symm
  parent _ := congrArg Identity.parent (h.identity_update k f _)
  counter j := by
    rw [node_update]
    split
    · exact counter _
    · rfl
  total j := by
    rw [node_update]
    split
    · exact total _
    · rfl
  pending j := by
    rw [node_update]
    split
    · exact pending _
    · rfl

theorem Filed.update (filed : h.Filed) {f : Status cfg.slots → Status cfg.slots}
    (queued : ∀ s, (f s).queued = s.queued) : (h.update k f).Filed := by
  apply filed.carry
  case queues => rfl
  case grown => exact Nat.le_of_eq (Arena.size_update h.arena k f).symm
  case id =>
    intro j _
    exact congrArg Identity.id (h.identity_update k f j)
  case queued =>
    intro j
    rw [node_update]
    split
    · exact queued _
    · rfl

theorem Filed.attach (filed : h.Filed) {id : NodeId} {p : Nat} {name : String}
    (inside : p < h.arena.size) : (h.attach id p name).Filed := by
  apply filed.carry
  case queues => rfl
  case grown => exact (attach_books inside).grown
  case id =>
    intro k old
    exact congrArg Identity.id (attach_identity inside (Nat.ne_of_lt old))
  case queued => exact attach_queued inside

theorem Filed.apart (filed : h.Filed) {id : NodeId} {p : Nat} (leaving : Leaving h id k p) :
    (h.apart id k p).Filed := by
  apply filed.carry
  case queues => rfl
  case grown => exact Nat.le_of_eq size_apart.symm
  case id =>
    intro j _
    exact congrArg Identity.id (apart_identity leaving.inside leaving.before j)
  case queued => exact apart_queued leaving.inside leaving.before

theorem Solvent.drains (solvent : h.Solvent) (shape : SameShape h h')
    (counter : ∀ j, (h'.node j).counter =
      if j = k then (h.node k).counter.settled else (h.node j).counter)
    (total : h'.total = h.total) (pending : h'.pending = h.pending) :
    h'.Solvent ∧ h'.recordings = h.recordings := by
  have recorded (j : Nat) : h'.recorded j = h.recorded j := by
    simp only [Hierarchy.recorded, counter]
    split
    · rename_i same
      rw [same, Counter.recorded_settled]
    · rfl
  have drained (j : Nat) : h.drained j ≤ h'.drained j := by
    have split := solvent.split j
    simp only [Hierarchy.drained, Hierarchy.recorded, counter] at split ⊢
    split
    · rename_i same
      subst same
      rw [Counter.drained_settled]
      omega
    · exact Nat.le_refl _
  have recordings : h'.recordings = h.recordings := by
    simp only [Hierarchy.recordings, shape.size, recorded]
  refine ⟨⟨fun j => ?_, recordings ▸ solvent.fits, fun j known => ?_⟩, recordings⟩
  · rw [counter]
    split
    · exact Counter.settled_ordered _
    · exact solvent.ordered j
  · rw [shape.size] at known
    have before := solvent.bounded j known
    rw [total, pending, shape.sum_below, shape.sum_below]
    exact Nat.le_trans before (Finset.sum_le_sum fun m _ => drained m)

namespace Funded

theorem roomy (funded : h.Funded n) (recordings : h'.recordings = h.recordings) :
    h'.recordings + n < UInt64.size := by
  rw [recordings]
  exact funded.room

theorem stay (funded : h.Funded n) (shape : SameShape h h') (queues : h'.queues = h.queues)
    (queued : ∀ j, (h'.node j).queued = (h.node j).queued) (solvent : h'.Solvent)
    (recordings : h'.recordings = h.recordings) : h'.Funded n where
  shaped := funded.shaped.of_same shape
  filed := funded.filed.carry queues (Nat.le_of_eq shape.size.symm) (fun j _ => shape.id j) queued
  solvent := solvent
  room := funded.roomy recordings

theorem of_arena (funded : h.Funded n) (arena : h'.arena = h.arena) (index : h'.index = h.index)
    (queues : h'.queues = h.queues) : h'.Funded n := by
  have books : SameBooks h h' := .of_arena arena index
  have node (j : Nat) : h'.node j = h.node j := by rw [Hierarchy.node, Hierarchy.node, arena]
  exact funded.stay (.of_arena arena index) queues (fun j => congrArg (·.queued) (node j))
    (books.solvent funded.solvent) books.recordings

theorem only_lists (funded : h.Funded n) (only : OnlyLists h h') (filed : h'.Filed) :
    h'.Funded n where
  shaped := funded.shaped.of_same only.toSameShape
  filed := filed
  solvent := only.books.solvent funded.solvent
  room := funded.roomy only.books.recordings

theorem attach (funded : h.Funded n) {id : NodeId} {p : Nat} {name : String}
    (place : Vacancy h id p name) (next : UInt64) :
    Funded n { h.attach id p name with nextId := next } := by
  have books := place.books next
  have shaped := funded.shaped.attach place.inside place.live place.free place.vacant
  constructor
  case shaped => exact shaped.of_same (.of_arena rfl rfl)
  case filed =>
    have filed : (h.attach id p name).Filed := funded.filed.attach place.inside
    exact ⟨filed.keyed⟩
  case solvent => exact books.solvent funded.solvent
  case room => exact funded.roomy books.recordings

theorem apart (funded : h.Funded n) {id : NodeId} {p : Nat} (leaving : Leaving h id k p) :
    (h.apart id k p).Funded n := by
  have books : SameBooks h (h.apart id k p) := apart_books leaving.inside leaving.before
  constructor
  case shaped => exact funded.shaped.apart leaving.found leaving.up leaving.childless
  case filed => exact funded.filed.apart leaving
  case solvent => exact books.solvent funded.solvent
  case room => exact funded.roomy books.recordings

theorem inherit (funded : h.Funded n) (p : Nat) (total : UInt64) :
    Funded n (h.update p fun s => { s with inherited := s.inherited + total }) := by
  have books : SameBooks h (h.update p fun s => { s with inherited := s.inherited + total }) :=
    update_books (fun _ => rfl) (fun _ => rfl) fun _ => rfl
  exact ⟨funded.shaped.of_same (same_shape_update (fun _ => rfl) fun _ => rfl),
    funded.filed.update fun _ => rfl, books.solvent funded.solvent, funded.roomy books.recordings⟩

theorem count {delta : UInt64} (funded : h.Funded (n + delta.toNat)) (inside : k < h.arena.size)
    (cpu : Cpu) : (h.count k cpu delta).Funded n := by
  have room := funded.room
  have fits : h.recordings + delta.toNat < UInt64.size := by omega
  have counted := funded.solvent.counted inside fits cpu
  refine ⟨funded.shaped.of_same counted.toSameShape, funded.filed.update fun _ => rfl,
    counted.solvent inside funded.solvent fits, ?_⟩
  rw [counted.recordings inside]
  omega

theorem drain (funded : h.Funded n) (inside : k < h.arena.size) {own : UInt64}
    {counter : Counter cfg.slots} (run : (h.node k).counter.drain = .ok (own, counter)) :
    Funded n (h.update k fun s => { s with counter }) := by
  obtain ⟨_, rfl, _⟩ := Counter.drain_requires run
  have node (j : Nat) := h.node_update k
    (fun s => { s with counter := (h.node k).counter.settled }) j
  have shape : SameShape h (h.update k fun s => { s with counter := (h.node k).counter.settled }) :=
    same_shape_update (fun _ => rfl) (fun _ => rfl)
  have after := funded.solvent.drains (k := k) shape
    (fun j => by
      rw [node]
      by_cases same : k = j
      · subst same
        simp [inside]
      · simp [same, Ne.symm same])
    (funext fun j => by
      simp only [Hierarchy.total, node]
      split <;> rfl)
    (funext fun j => by
      simp only [Hierarchy.pending, node]
      split <;> rfl)
  exact ⟨funded.shaped.of_same shape, funded.filed.update fun _ => rfl, after.1,
    funded.roomy after.2⟩

end Funded

theorem funded_tending (n : Nat) : Tending (@Funded cfg n) fun _ => True where
  filed funded := funded.filed
  take funded taken _ :=
    (funded.only_lists taken.toOnlyLists (funded.filed.taken taken)).of_arena rfl rfl rfl
  ready _ _ := trivial
  mark cpu funded _ inside _ :=
    funded.only_lists (only_lists_mark _ _ cpu) (funded.filed.mark inside cpu)
  settle funded inside done := by
    obtain ⟨_, own_eq, settled⟩ := settle_ok inside done
    have credited := funded.solvent.credited inside own_eq settled
    exact funded.stay settled.toSameShape settled.queues settled.queued
      (credited.solvent inside funded.solvent) credited.recordings
  finish _ funded := funded.of_arena rfl rfl rfl

theorem funded_custody : Custody (fun n => @Funded cfg n) fun _ => True where
  shaped funded := funded.shaped
  tending n := funded_tending n
  spare m funded := by
    have room := funded.room
    exact ⟨funded.shaped, funded.filed, funded.solvent, by omega⟩
  attach next funded place _ := funded.attach place next
  apart funded leaving := funded.apart leaving
  leave funded leaving := by
    rw [leaving.bequeath_eq funded.shaped]
    exact (funded.apart leaving).inherit _ _
  count cpu funded inside := funded.count inside cpu
  drain funded inside run := funded.drain inside run

end Hierarchy

namespace Session

open Hierarchy

theorem run_funded (cfg : Config) (steps : List Step)
    (fits : (steps.map Step.events).sum < UInt64.size) :
    ((start cfg).run steps).hierarchy.Funded 0 := by
  have begins : Healthy (@Funded cfg (0 + (steps.map Step.events).sum)) (start cfg) :=
    ⟨.start cfg (by omega), Referenced.start cfg⟩
  exact (run_keeps funded_custody begins fun _ _ _ => trivial).kept

end Session

end Rollup
