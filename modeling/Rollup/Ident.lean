import Std.Data.ExtTreeMap
import Rollup.Text.Decimal

/-!
Names of nodes and of CPUs. Node ids are 64-bit words ordered by value, and a map keyed by them
lists its entries in that order. A CPU number of any size picks one of a fixed number of slots, and
arrays with a place for each slot are read at one.
-/
namespace Rollup

structure NodeId where
  val : UInt64
  deriving DecidableEq, Repr, Inhabited

namespace NodeId

def root : NodeId := ⟨1⟩

def isRoot (i : NodeId) : Bool := i = root

def text (i : NodeId) : String := Decimal.text i.val.toNat

instance : Ord NodeId := ⟨fun a b => compare a.val b.val⟩

instance : Std.TransOrd NodeId where
  eq_swap {a b} := Std.OrientedOrd.eq_swap (α := UInt64) (a := a.val) (b := b.val)
  isLE_trans {a b c} :=
    Std.TransOrd.isLE_trans (α := UInt64) (a := a.val) (b := b.val) (c := c.val)

instance : Std.LawfulEqOrd NodeId where
  eq_of_compare {a b} same := by
    cases a; cases b
    exact congrArg NodeId.mk (Std.LawfulEqOrd.eq_of_compare (α := UInt64) same)

end NodeId

abbrev IdMap (α : Type) := Std.ExtTreeMap NodeId α

namespace IdMap

variable {α : Type}

theorem values_eq_map (m : IdMap α) : m.values = m.toList.map Prod.snd := by
  obtain ⟨⟨m⟩⟩ := m
  induction m using Quotient.ind with
  | _ m =>
    change m.inner.values = (Std.DTreeMap.Internal.Impl.Const.toList m.inner).map Prod.snd
    rw [Std.DTreeMap.Internal.Impl.values_eq_map_snd,
      Std.DTreeMap.Internal.Impl.Const.toList_eq_toListModel_map]
    simp

theorem mem_values {m : IdMap α} {a : α} : a ∈ m.values ↔ ∃ id : NodeId, m[id]? = some a := by
  rw [values_eq_map, List.mem_map]
  constructor
  · rintro ⟨⟨id, b⟩, member, rfl⟩
    exact ⟨id, Std.ExtTreeMap.mem_toList_iff_getElem?_eq_some.mp member⟩
  · rintro ⟨id, found⟩
    exact ⟨(id, a), Std.ExtTreeMap.mem_toList_iff_getElem?_eq_some.mpr found, rfl⟩

theorem pairs_nodup (m : IdMap α) : m.toList.Nodup :=
  m.distinct_keys_toList.imp fun differ same => differ (by simp [same])

theorem values_nodup {m : IdMap α}
    (single : ∀ (i j : NodeId) (a : α), m[i]? = some a → m[j]? = some a → i = j) :
    m.values.Nodup := by
  rw [values_eq_map, List.Nodup, List.pairwise_map]
  refine m.pairs_nodup.imp_of_mem ?_
  rintro ⟨i, a⟩ ⟨j, b⟩ first second differ same
  obtain rfl : a = b := same
  have left := Std.ExtTreeMap.mem_toList_iff_getElem?_eq_some.mp first
  have right := Std.ExtTreeMap.mem_toList_iff_getElem?_eq_some.mp second
  exact differ (by rw [single i j a left right])

end IdMap

structure Cpu where
  val : UInt32
  deriving DecidableEq, Repr, Inhabited

namespace Cpu

def text (c : Cpu) : String := "CPU:" ++ Decimal.text c.val.toNat

/-- CPUs beyond the last slot fold back onto the first ones. -/
def slot (c : Cpu) {n : Nat} (positive : 0 < n) : Fin n :=
  ⟨c.val.toNat % n, Nat.mod_lt _ positive⟩

def slot? (c : Cpu) (n : Nat) : Option Nat :=
  if n = 0 then none else some (c.val.toNat % n)

theorem slot_of_positive (c : Cpu) {n : Nat} (positive : 0 < n) :
    c.slot? n = some (c.slot positive).val := by
  simp [slot?, slot, Nat.ne_of_gt positive]

end Cpu

/-- A slot is within every array with a place for each slot, so that no bound is left to prove. -/
instance instGetElemSlot {α : Type} {n : Nat} : GetElem (Vector α n) (Fin n) α fun _ _ => True where
  getElem xs i _ := xs.get i

@[simp]
theorem getElem_slot {α : Type} {n : Nat} (xs : Vector α n) (i : Fin n) :
    xs[i] = getElem xs i.val i.isLt := rfl

end Rollup
