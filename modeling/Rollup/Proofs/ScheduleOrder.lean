import Mathlib
import Rollup.Hierarchy.Flush

/-!
The order of a flush. A schedule is valid when its ranks are in strictly descending order and are
those of the nodes that wait. Adding a node keeps it valid, and the node that is due next ranks
above all that wait after it.
-/
namespace Rollup

namespace Rank

theorem is_after_iff {a b : Rank} : a.isAfter b = true ↔
    a.depth < b.depth ∨ a.depth = b.depth ∧ a.id.val.toNat < b.id.val.toNat := by
  simp [isAfter, UInt64.lt_iff_toNat_lt]

theorem is_after_trans {a b c : Rank} (first : a.isAfter b = true) (second : b.isAfter c = true) :
    a.isAfter c = true := by
  rw [is_after_iff] at *
  omega

theorem is_after_irrefl (a : Rank) : a.isAfter a = false := by
  rw [← Bool.not_eq_true, is_after_iff]
  omega

theorem is_after_asymm {a b : Rank} (after : a.isAfter b = true) : ¬ b.isAfter a = true := by
  rw [is_after_iff] at *
  omega

theorem nodup_of_falling {ranks : List Rank}
    (falling : ranks.Pairwise fun a b => b.isAfter a = true) : ranks.Nodup := by
  refine falling.imp fun {a b} after same => ?_
  rw [same, is_after_irrefl] at after
  exact absurd after (by simp)

theorem is_after_of_not {a b : Rank} (apart : a.id ≠ b.id) (not_after : ¬ a.isAfter b = true) :
    b.isAfter a = true := by
  have differ : a.id.val.toNat ≠ b.id.val.toNat := fun same =>
    apart (congrArg NodeId.mk (UInt64.toNat_inj.mp same))
  rw [is_after_iff] at *
  omega

end Rank

namespace Schedule

theorem mem_place {r x : Rank} {ranks : List Rank} : x ∈ place r ranks ↔ x = r ∨ x ∈ ranks := by
  induction ranks with
  | nil => simp [place]
  | cons first rest ih =>
    unfold place
    split
    · rw [List.mem_cons, ih, List.mem_cons, or_left_comm]
    · simp

theorem place_sorted {r : Rank} {ranks : List Rank}
    (sorted : ranks.Pairwise fun a b => b.isAfter a = true) (apart : ∀ x ∈ ranks, r.id ≠ x.id) :
    (place r ranks).Pairwise fun a b => b.isAfter a = true := by
  induction ranks with
  | nil => simp [place]
  | cons first rest ih =>
    obtain ⟨head, tail⟩ := List.pairwise_cons.mp sorted
    unfold place
    split
    · rename_i later
      refine List.pairwise_cons.mpr ⟨fun x member => ?_, ih tail fun x member => ?_⟩
      · rcases mem_place.mp member with rfl | old
        · exact later
        · exact head x old
      · exact apart x (by simp [member])
    · rename_i earlier
      have above : first.isAfter r = true := Rank.is_after_of_not (apart first (by simp)) earlier
      refine List.pairwise_cons.mpr ⟨fun x member => ?_, sorted⟩
      rcases List.mem_cons.mp member with rfl | old
      · exact above
      · exact Rank.is_after_trans (head x old) above

/-- The schedule's ranks are those of its nodes, highest first. -/
structure Valid (rank : Nat → Rank) (s : Schedule) : Prop where
  keyed : ∀ {id k}, s.nodes[id]? = some k → (rank k).id = id
  sorted : s.order.Pairwise fun a b => b.isAfter a = true
  ranked : ∀ r, r ∈ s.order ↔ ∃ k, s.nodes[r.id]? = some k ∧ rank k = r

section
variable {rank : Nat → Rank} {s rest : Schedule} {k : Nat}

theorem mem_waiting : k ∈ s.waiting ↔ ∃ id : NodeId, s.nodes[id]? = some k := IdMap.mem_values

theorem entry_of_erase {nodes : IdMap Nat} {i id : NodeId} {j : Nat} :
    (nodes.erase i)[id]? = some j ↔ i ≠ id ∧ nodes[id]? = some j := by
  by_cases same : i = id
  · simp [same]
  · simp [same, Std.ExtTreeMap.getElem?_erase]

theorem Valid.mem_waiting (valid : s.Valid rank) :
    k ∈ s.waiting ↔ s.nodes[(rank k).id]? = some k := by
  rw [Schedule.mem_waiting]
  constructor
  · rintro ⟨id, found⟩
    rw [valid.keyed found]
    exact found
  · intro found
    exact ⟨_, found⟩

theorem valid_empty (rank : Nat → Rank) : empty.Valid rank where
  keyed found := absurd found (by simp [empty])
  sorted := List.Pairwise.nil
  ranked r := by simp [empty]

theorem waiting_empty : empty.waiting = [] := by
  rw [List.eq_nil_iff_forall_not_mem]
  intro k member
  obtain ⟨id, found⟩ := mem_waiting.mp member
  exact absurd found (by simp [empty])

theorem waiting_of_push {r : Rank} {j : Nat} (member : j ∈ (s.push r k).waiting) :
    j ∈ s.waiting ∨ j = k := by
  unfold push at member
  split at member
  · exact Or.inl member
  · obtain ⟨id, found⟩ := mem_waiting.mp member
    rw [Std.ExtTreeMap.getElem?_insert] at found
    split at found
    · exact Or.inr (Option.some.inj found).symm
    · exact Or.inl (mem_waiting.mpr ⟨id, found⟩)

theorem waiting_of_push_all {ks : List Nat} {j : Nat}
    (member : j ∈ (ks.foldl (fun s k => s.push (rank k) k) s).waiting) : j ∈ s.waiting ∨ j ∈ ks := by
  induction ks generalizing s with
  | nil => exact Or.inl member
  | cons k ks ih =>
    rcases ih member with pushed | later
    · rcases waiting_of_push pushed with old | rfl
      · exact Or.inl old
      · exact Or.inr (by simp)
    · exact Or.inr (by simp [later])

theorem waits_of_push {r : Rank} {j : Nat} (member : j ∈ s.waiting) :
    j ∈ (s.push r k).waiting := by
  unfold push
  split
  · exact member
  · rename_i absent
    obtain ⟨id, found⟩ := mem_waiting.mp member
    have other : r.id ≠ id := by
      rintro rfl
      exact absent (by simp [Std.ExtTreeMap.contains_eq_isSome_getElem?, found])
    refine mem_waiting.mpr ⟨id, ?_⟩
    rw [Std.ExtTreeMap.getElem?_insert]
    simp only [Std.LawfulEqCmp.compare_eq_iff_eq]
    rw [if_neg other]
    exact found

theorem pop_from_waits {nodes : IdMap Nat} {order : List Rank}
    (due : popFrom nodes order = some (k, rest)) :
    k ∈ nodes.values ∧ ∀ j ∈ rest.waiting, j ∈ nodes.values := by
  induction order with
  | nil => exact absurd due (by simp [popFrom])
  | cons r order ih =>
    unfold popFrom at due
    split at due
    · rename_i i found
      obtain ⟨rfl, rfl⟩ := Prod.mk.inj (Option.some.inj due)
      refine ⟨IdMap.mem_values.mpr ⟨_, found⟩, fun j member => ?_⟩
      obtain ⟨id, entry⟩ := mem_waiting.mp member
      exact IdMap.mem_values.mpr ⟨id, (entry_of_erase.mp entry).2⟩
    · exact ih due

theorem pop_waits (due : s.pop = some (k, rest)) :
    k ∈ s.waiting ∧ ∀ j ∈ rest.waiting, j ∈ s.waiting :=
  pop_from_waits due

/-- What waits, and how it ranks, is all there is to a schedule. -/
theorem Valid.ext {t : Schedule} (first : s.Valid rank) (second : t.Valid rank)
    (same : ∀ k, k ∈ s.waiting ↔ k ∈ t.waiting) : s = t := by
  have nodes : s.nodes = t.nodes := by
    refine Std.ExtTreeMap.ext_getElem? fun id => Option.ext fun k => ?_
    have entry {u : Schedule} (valid : u.Valid rank) :
        u.nodes[id]? = some k ↔ k ∈ u.waiting ∧ (rank k).id = id := by
      constructor
      · intro found
        exact ⟨Schedule.mem_waiting.mpr ⟨id, found⟩, valid.keyed found⟩
      · rintro ⟨member, rfl⟩
        exact valid.mem_waiting.mp member
    rw [entry first, entry second, same]
  have order : s.order = t.order := by
    refine List.Perm.eq_of_pairwise (fun a b _ _ down up => ?_) first.sorted second.sorted ?_
    · exact absurd down (Rank.is_after_asymm up)
    · rw [List.perm_ext_iff_of_nodup (Rank.nodup_of_falling first.sorted)
        (Rank.nodup_of_falling second.sorted)]
      intro r
      rw [first.ranked, second.ranked, nodes]
  obtain ⟨_, _⟩ := s
  obtain ⟨_, _⟩ := t
  simp_all

theorem push_of_waiting (valid : s.Valid rank) (member : k ∈ s.waiting) :
    s.push (rank k) k = s := by
  have found := valid.mem_waiting.mp member
  have known : s.nodes.contains (rank k).id = true := by
    rw [Std.ExtTreeMap.contains_eq_isSome_getElem?, found]
    rfl
  simp [push, known]

theorem push_valid (valid : s.Valid rank) (k : Nat) : (s.push (rank k) k).Valid rank := by
  unfold push
  split
  · exact valid
  · rename_i absent
    have free : s.nodes[(rank k).id]? = none := by simpa using absent
    have apart (x : Rank) (member : x ∈ s.order) : (rank k).id ≠ x.id := by
      intro same
      obtain ⟨j, found, _⟩ := (valid.ranked x).mp member
      rw [← same, free] at found
      exact absurd found (by simp)
    constructor
    case keyed =>
      intro id j found
      rw [Std.ExtTreeMap.getElem?_insert] at found
      split at found
      · rename_i same
        rw [← Option.some.inj found]
        simpa using same
      · exact valid.keyed found
    case sorted => exact place_sorted valid.sorted apart
    case ranked =>
      intro r
      rw [mem_place]
      constructor
      · rintro (rfl | old)
        · exact ⟨k, by simp, rfl⟩
        · obtain ⟨j, found, rank_eq⟩ := (valid.ranked r).mp old
          refine ⟨j, ?_, rank_eq⟩
          rw [Std.ExtTreeMap.getElem?_insert]
          simp only [Std.LawfulEqCmp.compare_eq_iff_eq]
          rw [if_neg (apart r old)]
          exact found
      · rintro ⟨j, found, rfl⟩
        rw [Std.ExtTreeMap.getElem?_insert] at found
        split at found
        · rw [Option.some.inj found]
          exact Or.inl rfl
        · exact Or.inr ((valid.ranked _).mpr ⟨j, found, rfl⟩)

theorem waiting_push (valid : s.Valid rank)
    (apart : ∀ j ∈ s.waiting, (rank j).id = (rank k).id → j = k) (j : Nat) :
    j ∈ (s.push (rank k) k).waiting ↔ j ∈ s.waiting ∨ j = k := by
  by_cases member : k ∈ s.waiting
  · rw [push_of_waiting valid member]
    exact ⟨Or.inl, fun either => either.elim (fun old => old) fun same => same ▸ member⟩
  · have free : s.nodes[(rank k).id]? = none := by
      rw [Option.eq_none_iff_forall_not_mem]
      intro i found
      have waits := Schedule.mem_waiting.mpr ⟨_, found⟩
      exact member (apart i waits (valid.keyed found) ▸ waits)
    have absent : s.nodes.contains (rank k).id = false := by
      rw [Std.ExtTreeMap.contains_eq_isSome_getElem?, free]
      rfl
    have after : (s.push (rank k) k).nodes = s.nodes.insert (rank k).id k := by
      simp [push, absent]
    have valid_after := push_valid valid k
    rw [valid_after.mem_waiting, valid.mem_waiting, after, Std.ExtTreeMap.getElem?_insert]
    simp only [Std.LawfulEqCmp.compare_eq_iff_eq]
    constructor
    · intro found
      split at found
      · exact Or.inr (Option.some.inj found).symm
      · exact Or.inl found
    · rintro (old | rfl)
      · have differ : (rank k).id ≠ (rank j).id := by
          intro same
          rw [← same, free] at old
          exact absurd old (by simp)
        rw [if_neg differ]
        exact old
      · simp

theorem push_all {ks : List Nat} (valid : s.Valid rank)
    (apart : ∀ i ∈ ks, ∀ j, j ∈ s.waiting ∨ j ∈ ks → (rank j).id = (rank i).id → j = i) :
    (ks.foldl (fun s k => s.push (rank k) k) s).Valid rank ∧
      ∀ j, j ∈ (ks.foldl (fun s k => s.push (rank k) k) s).waiting ↔ j ∈ s.waiting ∨ j ∈ ks := by
  induction ks generalizing s with
  | nil => exact ⟨valid, by simp⟩
  | cons k ks ih =>
    have waits := waiting_push valid fun j member => apart k (by simp) j (Or.inl member)
    have later := ih (s := s.push (rank k) k) (push_valid valid k) fun i member j known =>
      apart i (by simp [member]) j (by
        cases known with
        | inl waiting =>
          rcases (waits j).mp waiting with old | rfl
          · exact Or.inl old
          · exact Or.inr (by simp)
        | inr rest => exact Or.inr (by simp [rest]))
    refine ⟨later.1, fun j => ?_⟩
    rw [List.foldl_cons, later.2, waits, List.mem_cons, or_assoc]

theorem push_all_valid {ks : List Nat} (valid : s.Valid rank) :
    (ks.foldl (fun s k => s.push (rank k) k) s).Valid rank := by
  induction ks generalizing s with
  | nil => exact valid
  | cons k ks ih => exact ih (push_valid valid k)

theorem waits_of_push_all {ks : List Nat} (valid : s.Valid rank) (member : k ∈ s.waiting ∨ k ∈ ks)
    (alone : ∀ j, j ∈ s.waiting ∨ j ∈ ks → (rank j).id = (rank k).id → j = k) :
    k ∈ (ks.foldl (fun s k => s.push (rank k) k) s).waiting := by
  induction ks generalizing s with
  | nil => exact member.resolve_right (by simp)
  | cons i ks ih =>
    refine ih (push_valid valid i) ?_ fun j known same => ?_
    · rcases member with waits | listed
      · exact Or.inl (waits_of_push waits)
      · rcases List.mem_cons.mp listed with rfl | later
        · exact Or.inl ((waiting_push valid (fun j waits => alone j (Or.inl waits)) k).mpr (Or.inr rfl))
        · exact Or.inr later
    · rcases known with waits | later
      · rcases waiting_of_push waits with old | rfl
        · exact alone j (Or.inl old) same
        · exact alone j (Or.inr (by simp)) same
      · exact alone j (Or.inr (by simp [later])) same

theorem pop_none (valid : s.Valid rank) (last : s.pop = none) : s.waiting = [] := by
  rw [List.eq_nil_iff_forall_not_mem]
  intro k member
  have found := valid.mem_waiting.mp member
  have ranked : rank k ∈ s.order := (valid.ranked _).mpr ⟨k, found, rfl⟩
  cases order : s.order with
  | nil =>
    rw [order] at ranked
    exact absurd ranked (by simp)
  | cons r ranks =>
    obtain ⟨j, due, _⟩ := (valid.ranked r).mp (by simp [order])
    simp [pop, popFrom, order, due] at last

structure Popped (rank : Nat → Rank) (s : Schedule) (k : Nat) (rest : Schedule) : Prop where
  valid : rest.Valid rank
  waited : k ∈ s.waiting
  rest_waiting : ∀ j, j ∈ rest.waiting ↔ j ∈ s.waiting ∧ j ≠ k
  highest : ∀ j ∈ rest.waiting, (rank j).isAfter (rank k) = true

theorem Valid.without_first {ranks : List Rank} {nodes : IdMap Nat}
    (valid : (Schedule.mk (rank k :: ranks) nodes).Valid rank)
    (found : nodes[(rank k).id]? = some k) :
    (Schedule.mk ranks (nodes.erase (rank k).id)).Valid rank := by
  obtain ⟨head, tail⟩ := List.pairwise_cons.mp valid.sorted
  constructor
  case keyed =>
    intro id j entry
    exact valid.keyed (entry_of_erase.mp entry).2
  case sorted => exact tail
  case ranked =>
    intro x
    constructor
    · intro member
      obtain ⟨j, entry, rank_j⟩ := (valid.ranked x).mp (List.mem_cons_of_mem _ member)
      refine ⟨j, entry_of_erase.mpr ⟨fun same => ?_, entry⟩, rank_j⟩
      -- then the node would come after itself
      obtain rfl : k = j := Option.some.inj (found.symm.trans (same ▸ entry))
      have strict := head x member
      rw [← rank_j, Rank.is_after_irrefl] at strict
      exact absurd strict (by simp)
    · rintro ⟨j, entry, rfl⟩
      obtain ⟨differ, old⟩ := entry_of_erase.mp entry
      cases List.mem_cons.mp ((valid.ranked (rank j)).mpr ⟨j, old, rfl⟩) with
      | inl same => exact absurd (congrArg Rank.id same).symm differ
      | inr later => exact later

theorem pop_some (valid : s.Valid rank) (due : s.pop = some (k, rest)) :
    Popped rank s k rest := by
  obtain ⟨order, nodes⟩ := s
  cases order with
  | nil => simp [pop, popFrom] at due
  | cons r ranks =>
    obtain ⟨i, found, rank_eq⟩ := (valid.ranked r).mp List.mem_cons_self
    simp only [pop, popFrom, found, Option.some.injEq, Prod.mk.injEq] at due
    obtain ⟨rfl, rfl⟩ := due
    obtain rfl : rank i = r := rank_eq
    have after := valid.without_first found
    constructor
    case valid => exact after
    case waited => exact valid.mem_waiting.mpr found
    case rest_waiting =>
      intro j
      rw [after.mem_waiting, valid.mem_waiting, entry_of_erase, and_comm]
      refine and_congr_right fun entry => not_congr ⟨fun same => ?_, fun same => same ▸ rfl⟩
      exact Option.some.inj ((same ▸ entry).symm.trans found)
    case highest =>
      intro j member
      have ranked := (after.ranked (rank j)).mpr ⟨j, after.mem_waiting.mp member, rfl⟩
      exact (List.pairwise_cons.mp valid.sorted).1 _ ranked

end

end Schedule

end Rollup
