import Mathlib
import Rollup.Proofs.SoundOperations
import Rollup.Session

/-!
The search for a free id. It tries one id after another from `nextId` on, over the last id and on
from zero, as long as the index has them (`Search`). Of one more consecutive ids than the index has
entries one is free, so the search ends, and giving it more tries changes nothing. A node created
under the id found takes no other's place.
-/
namespace Rollup

namespace Hierarchy

variable {cfg : Config} {h : Hierarchy cfg} {index : IdMap Nat} {next id : UInt64} {met : List UInt64}

/-- A search that begins with the id `next`: the ids it meets that the index has, first to last, and
    the free one after them. -/
inductive Search (index : IdMap Nat) : UInt64 → List UInt64 → UInt64 → Prop where
  | free {next : UInt64} (absent : index.contains (⟨next⟩ : NodeId) = false) :
      Search index next [] next
  | taken {next : UInt64} {met : List UInt64} {id : UInt64}
      (held : index.contains (⟨next⟩ : NodeId) = true) (later : Search index (next + 1) met id) :
      Search index next (next :: met) id

theorem id_further_on (next : UInt64) (i : Nat) :
    next + 1 + UInt64.ofNat i = next + UInt64.ofNat (i + 1) := by
  rw [UInt64.add_assoc, UInt64.add_comm 1, ← UInt64.ofNat_one, ← UInt64.ofNat_add]

theorem free_within (index : IdMap Nat) (next : UInt64) (room : index.size < UInt64.size) :
    ∃ i ≤ index.size, index.contains (⟨next + UInt64.ofNat i⟩ : NodeId) = false := by
  by_contra none
  let id (i : Nat) : NodeId := ⟨next + UInt64.ofNat i⟩
  have distinct : ((List.range (index.size + 1)).map id).Nodup := by
    refine List.Nodup.map_on ?_ List.nodup_range
    intro i first j second same
    have low : i < UInt64.size := by have := List.mem_range.mp first; omega
    have high : j < UInt64.size := by have := List.mem_range.mp second; omega
    have words : UInt64.ofNat i = UInt64.ofNat j := by
      simpa [id] using same
    have numbers := congrArg UInt64.toNat words
    rwa [UInt64.toNat_ofNat_of_lt' low, UInt64.toNat_ofNat_of_lt' high] at numbers
  have among : (List.range (index.size + 1)).map id ⊆ index.keys := by
    intro i member
    obtain ⟨n, tried, rfl⟩ := List.mem_map.mp member
    have held : index.contains (id n) = true := by
      by_contra absent
      exact none ⟨n, Nat.le_of_lt_succ (List.mem_range.mp tried), Bool.eq_false_iff.mpr absent⟩
    rwa [Std.ExtTreeMap.mem_keys, ← Std.ExtTreeMap.contains_iff_mem]
  have few := (distinct.subperm among).length_le
  rw [List.length_map, List.length_range, Std.ExtTreeMap.length_keys] at few
  omega

theorem search_reaches {i : Nat}
    (absent : index.contains (⟨next + UInt64.ofNat i⟩ : NodeId) = false) :
    ∃ met id, Search index next met id ∧ met.length ≤ i := by
  induction i generalizing next with
  | zero => exact ⟨[], next, .free (by simpa using absent), Nat.le_refl 0⟩
  | succ i ih =>
    cases held : index.contains (⟨next⟩ : NodeId) with
    | false => exact ⟨[], next, .free held, Nat.zero_le _⟩
    | true =>
      rw [← id_further_on] at absent
      obtain ⟨met, id, later, few⟩ := ih absent
      exact ⟨next :: met, id, .taken held later, Nat.succ_le_succ few⟩

theorem search_ends (index : IdMap Nat) (next : UInt64) (room : index.size < UInt64.size) :
    ∃ met id, Search index next met id ∧ met.length ≤ index.size := by
  obtain ⟨i, near, absent⟩ := free_within index next room
  obtain ⟨met, id, search, few⟩ := search_reaches absent
  exact ⟨met, id, search, Nat.le_trans few near⟩

namespace Search

variable (search : Search index next met id)
include search

theorem absent : index.contains (⟨id⟩ : NodeId) = false := by
  induction search with
  | free absent => exact absent
  | taken _ _ ih => exact ih

theorem held : ∀ i ∈ met, index.contains (⟨i⟩ : NodeId) = true := by
  induction search with
  | free _ => simp
  | taken held _ ih =>
    intro i member
    rcases List.mem_cons.mp member with rfl | later
    · exact held
    · exact ih i later

theorem tried : met ++ [id] = (List.range (met.length + 1)).map fun i => next + UInt64.ofNat i := by
  induction search with
  | free _ => simp
  | @taken next met id _ _ ih =>
    rw [List.cons_append, ih, List.length_cons, List.range_succ_eq_map (n := met.length + 1),
      List.map_cons, List.map_map]
    refine congrArg₂ List.cons (UInt64.add_zero next).symm (List.map_congr_left fun i _ => ?_)
    exact id_further_on next i

theorem free_from {tries : Nat} (enough : met.length ≤ tries) :
    freeFrom index tries next = some id := by
  induction search generalizing tries with
  | free absent => cases tries <;> simp [freeFrom, absent]
  | taken held _ ih =>
    cases tries with
    | zero => simp at enough
    | succ tries =>
      rw [freeFrom, if_pos held]
      exact ih (Nat.le_of_succ_le_succ enough)

end Search

theorem free_id_found (room : h.index.size < UInt64.size) : ∃ id, h.freeId = some id := by
  obtain ⟨_, id, search, few⟩ := search_ends h.index h.nextId room
  exact ⟨id, search.free_from few⟩

theorem free_id_next (absent : h.index[(⟨h.nextId⟩ : NodeId)]? = none) :
    h.freeId = some h.nextId :=
  (Search.free (index_lacks.mpr absent)).free_from (Nat.zero_le _)

structure Joined (h h' : Hierarchy cfg) (id : NodeId) (p : Nat) : Prop where
  entry : h'.index[id]? = some h.arena.size
  named : (h'.node h.arena.size).id = id
  kept : ∀ (i : NodeId) k, h.index[i]? = some k → h'.index[i]? = some k
  size : h'.index.size = h.index.size + 1
  nodes : ∀ k < h.arena.size, h'.node k = if k = p then
    { h.node p with children := (h.node p).children.insert id h.arena.size } else h.node k

theorem attach_joins {id : NodeId} (free : h.index[id]? = none) (p : Nat) (name : String) :
    Joined h (h.attach id p name) id p where
  entry := by rw [index_attach, if_pos rfl]
  named := by
    refine (congrArg Identity.id (Arena.identity_update _ p _ h.arena.size)).trans ?_
    rw [Arena.node_push, if_pos rfl]
    rfl
  kept i k found := by
    rw [index_attach, if_neg, found]
    rintro rfl
    rw [free] at found
    exact absurd found (by simp)
  size := by
    have absent : id ∉ h.index := by
      rw [Std.ExtTreeMap.mem_iff_isSome_getElem?, free]
      simp
    exact (Std.ExtTreeMap.size_insert).trans (if_neg absent)
  nodes k old := by
    by_cases inside : p < h.arena.size
    · rw [node_attach inside, if_neg (Nat.ne_of_lt old)]
    · have other : p ≠ k := by omega
      simp only [node, attach, Arena.node_update, Arena.node_push, other, false_and, if_false,
        Ne.symm other, Nat.ne_of_lt old]

/-- Whatever ids the index has and wherever a search begins, it ends after at most one try more than
    there are entries. It has tried ids that are taken and then a free one, the search after it begins
    behind that one, and creating a node under any parent that has no child of its name uses it and
    puts no node in another's place. -/
theorem created_under_free_id (h : Hierarchy cfg) (room : h.index.size < UInt64.size) :
    ∃ met id, Search h.index h.nextId met id ∧ (met ++ [id]).length ≤ h.index.size + 1 ∧
      (met ++ [id] = (List.range (met.length + 1)).map fun i => h.nextId + UInt64.ofNat i) ∧
      (∀ i ∈ met, h.index.contains (⟨i⟩ : NodeId) = true) ∧
      h.index.contains (⟨id⟩ : NodeId) = false ∧
      (∀ tries, met.length ≤ tries → freeFrom h.index tries h.nextId = some id) ∧
      ∀ parent p name, h.index[parent]? = some p → h.childNamed p name = none →
        ∃ h', h.create parent name = (h', .ok ⟨id⟩) ∧
          h'.nextId.toNat = (id.toNat + 1) % UInt64.size ∧ Joined h h' ⟨id⟩ p := by
  obtain ⟨met, id, search, few⟩ := search_ends h.index h.nextId room
  refine ⟨met, id, search, by simpa using few, search.tried, search.held, search.absent,
    fun _ enough => search.free_from enough, fun parent p name found vacant => ?_⟩
  have free : h.freeId = some id := search.free_from few
  have joined := attach_joins (index_lacks.mp search.absent) p name
  refine ⟨{ h.attach ⟨id⟩ p name with nextId := id + 1 }, ?_, ?_, joined.entry, joined.named,
    joined.kept, joined.size, joined.nodes⟩
  · simp only [create, vacantParent, found, vacant, free]
  · exact UInt64.toNat_add id 1

end Hierarchy

namespace Session

open Hierarchy

def ringSteps : List Step :=
  [.createWithId ⟨UInt64.ofNat (UInt64.size - 1)⟩ NodeId.root "last",
    .createWithId ⟨0⟩ NodeId.root "first", .createWithId ⟨2⟩ NodeId.root "second"]

theorem free_id_beyond_the_last :
    let h := ((start ⟨1⟩).run ringSteps).hierarchy
    h.nextId = UInt64.ofNat (UInt64.size - 1) ∧
      ∃ met, Search h.index h.nextId met 3 ∧ met.length ≤ 4 ∧
        ∃ h', h.create ⟨0⟩ "next" = (h', .ok ⟨3⟩) ∧ h'.nextId.toNat = 4 ∧
          h'.index[NodeId.root]? = some rootKey := by
  intro h
  obtain ⟨met, id, search, few, _, _, _, finds, creates⟩ := created_under_free_id h (by decide +kernel)
  have four : met.length ≤ 4 := by
    have size : h.index.size = 4 := by decide +kernel
    rw [List.length_append, size] at few
    exact Nat.le_of_succ_le_succ few
  obtain rfl : 3 = id := Option.some.inj ((by decide +kernel : _ = _).trans (finds 4 four))
  obtain ⟨h', run, next, joined⟩ := creates ⟨0⟩ 2 "next" (by decide +kernel) (by decide +kernel)
  exact ⟨by decide +kernel, met, search, four, h', run, next, joined.kept _ _ (by decide +kernel)⟩

end Session

end Rollup
