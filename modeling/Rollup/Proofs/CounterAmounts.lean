import Mathlib
import Rollup.Counter

/-!
What a counter holds, as unbounded numbers. The words of a slot wrap around; as long as what was
recorded fits a word, sums of words are the sums meant here, a drain succeeds and yields what was
recorded since the drain before it.
-/
namespace Rollup

theorem word_add {a b : UInt64} (fits : a.toNat + b.toNat < UInt64.size) :
    (a + b).toNat = a.toNat + b.toNat := by
  rw [UInt64.toNat_add]
  exact Nat.mod_eq_of_lt fits

theorem word_of_nat {n : Nat} (fits : n < UInt64.size) : (UInt64.ofNat n).toNat = n :=
  UInt64.toNat_ofNat_of_lt fits

theorem words_sum {α : Type} {f : α → UInt64} {xs : List α}
    (fits : (xs.map fun x => (f x).toNat).sum < UInt64.size) :
    (xs.foldr (fun x total => f x + total) 0).toNat = (xs.map fun x => (f x).toNat).sum := by
  induction xs with
  | nil => rfl
  | cons x rest ih =>
    simp only [List.map_cons, List.sum_cons] at fits
    have tail := ih (by omega)
    simp only [List.foldr_cons, List.map_cons, List.sum_cons]
    rw [word_add (by omega), tail]

namespace Slot

def waiting (s : Slot) : Nat := s.state.toNat - s.flushed.toNat

theorem difference_of_ordered {s : Slot} (ordered : s.flushed ≤ s.state) :
    (s.state - s.flushed).toNat = s.waiting :=
  UInt64.toNat_sub_of_le _ _ ordered

theorem unflushed_of_ordered {s : Slot} (ordered : s.flushed ≤ s.state) :
    s.unflushed.toNat = s.waiting := by
  simp only [unflushed, ordered, if_true]
  exact difference_of_ordered ordered

theorem split_of_ordered {s : Slot} (ordered : s.flushed ≤ s.state) :
    s.state.toNat = s.flushed.toNat + s.waiting := by
  have le := UInt64.le_iff_toNat_le.mp ordered
  unfold waiting
  omega

end Slot

namespace Counter

variable {n : Nat}

def amount (f : Slot → Nat) (c : Counter n) : Nat := (c.slots.toList.map f).sum

def recorded : Counter n → Nat := amount fun s => s.state.toNat

def drained : Counter n → Nat := amount fun s => s.flushed.toNat

def waiting : Counter n → Nat := amount Slot.waiting

/-- No mark is ahead of what was recorded. -/
def Ordered (c : Counter n) : Prop := ∀ s ∈ c.slots.toList, s.flushed ≤ s.state

theorem slot_mem (c : Counter n) (i : Fin n) : c.slots[i] ∈ c.slots.toList := by
  simp

theorem slot_amount_le (f : Slot → Nat) (c : Counter n) (i : Fin n) :
    f c.slots[i] ≤ c.amount f :=
  List.single_le_sum (by simp) _ (List.mem_map_of_mem (c.slot_mem i))

theorem recorded_split {c : Counter n} (ordered : c.Ordered) :
    c.recorded = c.drained + c.waiting := by
  simp only [recorded, drained, waiting, amount, ← List.sum_map_add]
  congr 1
  exact List.map_congr_left fun s member => Slot.split_of_ordered (ordered s member)

theorem sum_of_fits {c : Counter n} (fits : c.recorded < UInt64.size) :
    c.sum.toNat = c.recorded :=
  words_sum fits

theorem flushed_total_of_fits {c : Counter n} (fits : c.drained < UInt64.size) :
    c.flushedTotal.toNat = c.drained :=
  words_sum fits

theorem unflushed_of_fits {c : Counter n} (ordered : c.Ordered)
    (fits : c.waiting < UInt64.size) : c.unflushed.toNat = c.waiting := by
  have same : (c.slots.toList.map fun s => s.unflushed.toNat) = c.slots.toList.map Slot.waiting :=
    List.map_congr_left fun s member => Slot.unflushed_of_ordered (ordered s member)
  refine (words_sum (f := Slot.unflushed) ?_).trans (congrArg List.sum same)
  rw [same]
  exact fits

theorem scan_ok {slots : List Slot} (ordered : ∀ s ∈ slots, s.flushed ≤ s.state)
    (i : Nat) (acc : UInt64)
    (fits : acc.toNat + (slots.map Slot.waiting).sum < UInt64.size) :
    ∃ own, scan slots i acc = .ok own ∧ own.toNat = acc.toNat + (slots.map Slot.waiting).sum := by
  induction slots generalizing i acc with
  | nil => exact ⟨acc, rfl, by simp⟩
  | cons s rest ih =>
    have first : s.flushed ≤ s.state := ordered s (by simp)
    have difference := Slot.difference_of_ordered first
    simp only [List.map_cons, List.sum_cons] at fits ⊢
    have sum : (acc + (s.state - s.flushed)).toNat = acc.toNat + s.waiting := by
      rw [word_add (by omega), difference]
    have behind : ¬ s.state < s.flushed := UInt64.not_lt.mpr first
    have room : ¬ UInt64.size ≤ acc.toNat + (s.state - s.flushed).toNat := by omega
    obtain ⟨own, run, value⟩ := ih (fun t member => ordered t (by simp [member])) (i + 1)
      (acc + (s.state - s.flushed)) (by omega)
    refine ⟨own, ?_, by omega⟩
    simp only [scan, behind, room, if_false]
    exact run

theorem scan_requires {slots : List Slot} {i : Nat} {acc own : UInt64}
    (run : scan slots i acc = .ok own) :
    (∀ s ∈ slots, s.flushed ≤ s.state) ∧
      own.toNat = acc.toNat + (slots.map Slot.waiting).sum := by
  induction slots generalizing i acc with
  | nil =>
    simp only [scan, Except.ok.injEq] at run
    subst run
    exact ⟨by simp, by simp⟩
  | cons s rest ih =>
    unfold scan at run
    split at run
    · exact absurd run (by simp)
    · rename_i first
      split at run
      · exact absurd run (by simp)
      · rename_i room
        have ordered := UInt64.not_lt.mp first
        have difference := Slot.difference_of_ordered ordered
        obtain ⟨others, value⟩ := ih run
        have sum : (acc + (s.state - s.flushed)).toNat = acc.toNat + s.waiting := by
          rw [word_add (by omega), difference]
        simp only [List.mem_cons, forall_eq_or_imp, List.map_cons, List.sum_cons]
        exact ⟨⟨ordered, others⟩, by omega⟩

theorem drain_ok {c : Counter n} (ordered : c.Ordered) (fits : c.waiting < UInt64.size) :
    ∃ own, c.drain = .ok (own, c.settled) ∧ own.toNat = c.waiting := by
  obtain ⟨own, run, value⟩ := scan_ok ordered 0 0 (by simpa [waiting, amount] using fits)
  refine ⟨own, ?_, by simpa [waiting, amount] using value⟩
  simp only [drain, run]

/-- A drain that succeeds finds every slot in order and yields what waits there. -/
theorem drain_requires {c after : Counter n} {own : UInt64} (run : c.drain = .ok (own, after)) :
    c.Ordered ∧ after = c.settled ∧ own.toNat = c.waiting := by
  unfold drain at run
  split at run
  · exact absurd run (by simp)
  · rename_i delta found
    simp only [Except.ok.injEq, Prod.mk.injEq] at run
    obtain ⟨ordered, value⟩ := scan_requires found
    refine ⟨ordered, run.2.symm, ?_⟩
    rw [← run.1, value]
    simp [waiting, amount]

theorem settled_slots (c : Counter n) :
    c.settled.slots.toList = c.slots.toList.map fun s => { s with flushed := s.state } :=
  Vector.toList_map

theorem settled_ordered (c : Counter n) : c.settled.Ordered := by
  intro s member
  rw [settled_slots, List.mem_map] at member
  obtain ⟨t, _, rfl⟩ := member
  exact UInt64.le_refl _

theorem recorded_settled (c : Counter n) : c.settled.recorded = c.recorded := by
  simp [recorded, amount, settled_slots, Function.comp_def]

theorem drained_settled (c : Counter n) : c.settled.drained = c.recorded := by
  simp [recorded, drained, amount, settled_slots, Function.comp_def]

theorem waiting_settled (c : Counter n) : c.settled.waiting = 0 := by
  simp [waiting, amount, settled_slots, Function.comp_def, Slot.waiting]

theorem flushed_total_settled {c : Counter n} (ordered : c.Ordered) :
    c.settled.flushedTotal = c.flushedTotal + c.unflushed := by
  simp only [flushedTotal, unflushed, settled_slots, List.foldr_map]
  unfold Ordered at ordered
  generalize c.slots.toList = slots at ordered
  induction slots with
  | nil => rfl
  | cons s rest ih =>
    obtain ⟨first, others⟩ := List.forall_mem_cons.mp ordered
    have split : s.state = s.flushed + s.unflushed := by
      simp only [Slot.unflushed, first, if_true]
      rw [UInt64.add_comm, UInt64.sub_add_cancel]
    simp only [List.foldr_cons]
    rw [ih others, split]
    grind

theorem unflushed_settled (c : Counter n) : c.settled.unflushed = 0 := by
  refine UInt64.toNat_inj.mp ?_
  have none := waiting_settled c
  rw [unflushed_of_fits (settled_ordered c) (by rw [none]; decide), none]
  rfl

theorem amount_add (f : Slot → Nat) (c : Counter n) (i : Fin n) (delta : UInt64) :
    (c.add i delta).amount f + f c.slots[i] =
      c.amount f + f { c.slots[i] with state := c.slots[i].state + delta } := by
  have inside : i.val < c.slots.toList.length := by simp
  have parted := List.getElem_cons_drop inside
  have whole := List.take_append_drop i.val c.slots.toList
  have changed : (c.add i delta).slots.toList =
      c.slots.toList.take i.val ++
        { c.slots[i] with state := c.slots[i].state + delta } :: c.slots.toList.drop (i.val + 1) := by
    simp only [add, Vector.toList_set]
    rw [List.set_eq_take_append_cons_drop]
    simp
  have old : c.slots.toList =
      c.slots.toList.take i.val ++ c.slots[i] :: c.slots.toList.drop (i.val + 1) := by
    conv => lhs; rw [← whole, ← parted]
    simp
  unfold amount
  rw [changed]
  conv => rhs; rw [old]
  simp only [List.map_append, List.map_cons, List.sum_append, List.sum_cons]
  omega

theorem slot_add (c : Counter n) (i j : Fin n) (delta : UInt64) :
    (c.add i delta).slots[j] =
      if i = j then { c.slots[j] with state := c.slots[j].state + delta } else c.slots[j] := by
  by_cases same : i = j
  · subst same
    simp [add]
  · have apart : i.val ≠ j.val := fun h => same (Fin.ext h)
    simp [add, same, apart]

section
variable {c : Counter n} {i : Fin n} {delta : UInt64}

theorem slot_state_add (fits : c.recorded + delta.toNat < UInt64.size) :
    (c.slots[i].state + delta).toNat = c.slots[i].state.toNat + delta.toNat := by
  have le := c.slot_amount_le (fun s => s.state.toNat) i
  unfold recorded at fits
  exact word_add (by omega)

theorem recorded_add (fits : c.recorded + delta.toNat < UInt64.size) :
    (c.add i delta).recorded = c.recorded + delta.toNat := by
  have change := c.amount_add (fun s => s.state.toNat) i delta
  have state := slot_state_add (i := i) fits
  unfold recorded
  simp only at change
  omega

theorem drained_add : (c.add i delta).drained = c.drained := by
  have change := c.amount_add (fun s => s.flushed.toNat) i delta
  unfold drained
  simp only at change
  omega

theorem ordered_add (ordered : c.Ordered) (fits : c.recorded + delta.toNat < UInt64.size) :
    (c.add i delta).Ordered := by
  intro s member
  obtain ⟨j, inside, rfl⟩ := List.getElem_of_mem member
  have bound : j < n := by simpa using inside
  have found := c.slot_add i ⟨j, bound⟩ delta
  have old := ordered _ (c.slot_mem ⟨j, bound⟩)
  simp only [getElem_slot, Vector.getElem_toList] at found old ⊢
  rw [found]
  split
  · rename_i same
    subst same
    have state := slot_state_add (i := ⟨j, bound⟩) fits
    rw [UInt64.le_iff_toNat_le] at old
    simp only [getElem_slot] at state
    refine UInt64.le_iff_toNat_le.mpr ?_
    change c.slots[j].flushed.toNat ≤ (c.slots[j].state + delta).toNat
    omega
  · exact old

end

theorem amount_zero {f : Slot → Nat} (none : f ⟨0, 0⟩ = 0) : (zero n).amount f = 0 := by
  simp [amount, zero, Vector.toList_replicate, none]

theorem zero_ordered : (zero n).Ordered := by
  intro s member
  simp only [zero, Vector.toList_replicate] at member
  rw [List.eq_of_mem_replicate member]
  exact UInt64.le_refl _

end Counter

end Rollup
