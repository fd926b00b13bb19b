import Mathlib
import Rollup.Session

/-!
Who refers to what. A session's hierarchy holds one reference for each handle and each node kept
under a name, so what a name stands for is alive as long as the name stands. Taking a name anew
gives back what it stood for before.
-/
namespace Rollup

namespace Session

variable {cfg : Config} {s : Session cfg}

section
variable {α : Type} {name : String} {entries : List (String × α)}

theorem without_of_lookup_none (none : entries.lookup name = none) :
    without name entries = entries := by
  rw [List.lookup_eq_none_iff] at none
  apply List.filter_eq_self.mpr
  intro e member
  have differ := none e member
  simp only [bne_iff_ne] at differ
  simpa using Ne.symm differ

theorem without_perm (nodup : (entries.map Prod.fst).Nodup) {a : α}
    (found : entries.lookup name = some a) : entries.Perm ((name, a) :: without name entries) := by
  induction entries with
  | nil => simp at found
  | cons e rest ih =>
    obtain ⟨other, b⟩ := e
    obtain ⟨fresh, tail⟩ := List.nodup_cons.mp nodup
    by_cases same : name = other
    · subst same
      simp only [List.lookup_cons, beq_self_eq_true, Option.some.injEq] at found
      have absent : rest.lookup name = none := by
        rw [List.lookup_eq_none_iff]
        intro e member
        have differ : name ≠ e.1 := fun same => fresh (List.mem_map.mpr ⟨e, member, same.symm⟩)
        simpa using differ
      have kept : without name ((name, b) :: rest) = rest := by
        have rest_kept := without_of_lookup_none absent
        simp only [without] at rest_kept ⊢
        rw [List.filter_cons_of_neg (by simp), rest_kept]
      rw [kept, found]
    · have differ : (name == other) = false := by simpa using same
      simp only [List.lookup_cons, differ] at found
      have kept : without name ((other, b) :: rest) = (other, b) :: without name rest := by
        unfold without
        rw [List.filter_cons_of_pos (by simpa using Ne.symm same)]
      rw [kept]
      exact ((ih tail found).cons _).trans (List.Perm.swap _ _ _)

theorem names_without (nodup : (entries.map Prod.fst).Nodup) :
    ((without name entries).map Prod.fst).Nodup :=
  nodup.sublist (List.filter_sublist.map Prod.fst)

theorem names_renewed (nodup : (entries.map Prod.fst).Nodup) (a : α) :
    (((name, a) :: without name entries).map Prod.fst).Nodup := by
  refine List.nodup_cons.mpr ⟨fun member => ?_, names_without nodup⟩
  obtain ⟨e, kept, same⟩ := List.mem_map.mp member
  simp only [without, List.mem_filter, decide_eq_true_eq] at kept
  exact kept.2 same

end

theorem mem_of_lookup {α : Type} {name : String} {entries : List (String × α)} {a : α}
    (found : entries.lookup name = some a) : (name, a) ∈ entries := by
  obtain ⟨before, after, parted, _⟩ := List.lookup_eq_some_iff.mp found
  rw [parted]
  simp

theorem erase_perm {holds others : List Nat} {k : Nat} (perm : holds.Perm (k :: others)) :
    (holds.erase k).Perm others := by
  have erased := perm.erase k
  rwa [List.erase_cons_head] at erased

section
variable {α : Type} {name : String} {entries : List (String × α)} {holds others : List Nat}
  {h : Hierarchy cfg}

theorem dropped_perm (key : String × α → Nat) (nodup : (entries.map Prod.fst).Nodup)
    (perm : holds.Perm (entries.map key ++ others)) {a : α}
    (found : entries.lookup name = some a) :
    (holds.erase (key (name, a))).Perm ((without name entries).map key ++ others) :=
  erase_perm (perm.trans (((without_perm nodup found).map key).append_right _))

theorem renewed_perm (name : String) (key : String × α → Nat) (nodup : (entries.map Prod.fst).Nodup)
    (perm : holds.Perm (entries.map key ++ others)) {k : Nat} (held : h.holds = k :: holds) :
    (released h ((entries.lookup name).map fun a => key (name, a))).holds.Perm
      (k :: ((without name entries).map key ++ others)) := by
  cases found : entries.lookup name with
  | none =>
    simp only [Option.map_none, released, held, without_of_lookup_none found]
    exact perm.cons k
  | some a =>
    simp only [Option.map_some, released, Hierarchy.release, held]
    refine erase_perm (((perm.trans ?_).cons k).trans (List.Perm.swap _ _ _))
    exact ((without_perm nodup found).map key).append_right _

theorem mem_without {key : String × α → Nat} {k : Nat}
    (member : k ∈ (without name entries).map key) : k ∈ entries.map key :=
  (List.filter_sublist.map key).subset member

theorem size_released (h : Hierarchy cfg) (old : Option Nat) :
    (released h old).arena.size = h.arena.size := by
  cases old <;> rfl

end

def references (s : Session cfg) : List Nat :=
  s.handles.map (fun e => e.2.key) ++ s.held.map Prod.snd

structure Referenced (s : Session cfg) : Prop where
  holds : s.hierarchy.holds.Perm s.references
  handles : (s.handles.map Prod.fst).Nodup
  held : (s.held.map Prod.fst).Nodup
  inside : ∀ k ∈ s.references, k < s.hierarchy.arena.size

namespace Referenced

theorem start (cfg : Config) : (Session.start cfg).Referenced :=
  ⟨List.Perm.refl _, List.nodup_nil, List.nodup_nil, by simp [references, Session.start]⟩

theorem handle_mem {name : String} {handle : Handle}
    (found : s.handles.lookup name = some handle) : handle.key ∈ s.references :=
  List.mem_append_left _ (List.mem_map.mpr ⟨(name, handle), mem_of_lookup found, rfl⟩)

theorem held_mem {name : String} {k : Nat} (found : s.held.lookup name = some k) :
    k ∈ s.references :=
  List.mem_append_right _ (List.mem_map.mpr ⟨(name, k), mem_of_lookup found, rfl⟩)

theorem alive (referenced : s.Referenced) {k : Nat} (member : k ∈ s.references) :
    s.hierarchy.isAlive k = true := by
  have held := referenced.holds.mem_iff.mpr member
  simp [Hierarchy.isAlive, held]

theorem of_holds (referenced : s.Referenced) {h : Hierarchy cfg}
    (holds : h.holds.Perm s.hierarchy.holds) (grown : s.hierarchy.arena.size ≤ h.arena.size) :
    (s.withHierarchy h).Referenced :=
  ⟨holds.trans referenced.holds, referenced.handles, referenced.held,
    fun k member => Nat.lt_of_lt_of_le (referenced.inside k member) grown⟩

section
variable {k : Nat} (referenced : s.Referenced)
include referenced

theorem keep_handle (inside : k < s.hierarchy.arena.size) (name : String) :
    (s.keepHandle (s.hierarchy.hold k) name ⟨k⟩).Referenced := by
  have perm := renewed_perm (h := s.hierarchy.hold k) name (fun e => e.2.key)
    referenced.handles referenced.holds rfl
  refine ⟨perm, names_renewed referenced.handles _, referenced.held, fun j member => ?_⟩
  have size : (s.keepHandle (s.hierarchy.hold k) name ⟨k⟩).hierarchy.arena.size =
      s.hierarchy.arena.size := size_released _ _
  rw [size]
  rcases List.mem_cons.mp member with rfl | old
  · exact inside
  · cases List.mem_append.mp old with
    | inl kept => exact referenced.inside j (List.mem_append_left _ (mem_without kept))
    | inr kept => exact referenced.inside j (List.mem_append_right _ kept)

theorem keep_held (inside : k < s.hierarchy.arena.size) (name : String) :
    (s.keepHeld (s.hierarchy.hold k) name k).Referenced := by
  have perm := renewed_perm (h := s.hierarchy.hold k) name Prod.snd referenced.held
    (referenced.holds.trans List.perm_append_comm) rfl
  have same : ((s.held.lookup name).map fun j => j) = s.held.lookup name := by simp
  refine ⟨?_, referenced.handles, names_renewed referenced.held _, fun j member => ?_⟩
  · rw [same] at perm
    have swap : ((k :: (without name s.held).map Prod.snd) ++
        s.handles.map fun e => e.2.key).Perm _ := List.perm_append_comm
    exact perm.trans swap
  · have size : (s.keepHeld (s.hierarchy.hold k) name k).hierarchy.arena.size =
        s.hierarchy.arena.size := size_released _ _
    rw [size]
    cases List.mem_append.mp member with
    | inl kept => exact referenced.inside j (List.mem_append_left _ kept)
    | inr kept =>
      rcases List.mem_cons.mp kept with rfl | old
      · exact inside
      · exact referenced.inside j (List.mem_append_right _ (mem_without old))

theorem drop_handle (name : String) : (s.dropHandle name).1.Referenced := by
  unfold dropHandle
  cases found : s.handles.lookup name with
  | none => exact referenced
  | some handle =>
    have perm := dropped_perm (fun e => e.2.key) referenced.handles referenced.holds found
    refine ⟨perm, names_without referenced.handles, referenced.held, fun j member => ?_⟩
    cases List.mem_append.mp member with
    | inl kept => exact referenced.inside j (List.mem_append_left _ (mem_without kept))
    | inr kept => exact referenced.inside j (List.mem_append_right _ kept)

theorem drop_held (name : String) : (s.dropHeld name).1.Referenced := by
  unfold dropHeld
  cases found : s.held.lookup name with
  | none => exact referenced
  | some k =>
    have perm := dropped_perm Prod.snd referenced.held
      (referenced.holds.trans List.perm_append_comm) found
    refine ⟨perm.trans List.perm_append_comm, referenced.handles,
      names_without referenced.held, fun j member => ?_⟩
    cases List.mem_append.mp member with
    | inl kept => exact referenced.inside j (List.mem_append_left _ kept)
    | inr kept => exact referenced.inside j (List.mem_append_right _ (mem_without kept))

end

end Referenced

end Session

end Rollup
