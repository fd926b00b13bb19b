import Rollup.Hierarchy.Queue
import Rollup.Hierarchy.Shape

/-!
Flushing: folding queued events into totals, children before parents.

A flush takes every update list and schedules the nodes found, of several with one id the first.
It then settles the waiting node of greatest depth, and among these the one of greatest id, until
none waits. Settling a node drains its counter, takes what its children passed up, adds both to
its total, passes the sum on to its parent and schedules the parent. A removed node's share goes
into what its parent has inherited as well, since the parent no longer lists it as a child.

If a counter cannot be drained, its node keeps its counts and is queued again together with all
that still waits, and the flush fails. What was passed up stays pending in the parents.
-/
namespace Rollup

/-- How many nodes were settled, each of them once and so no more than there are, and how many
    events were drained from their counters. -/
structure Summary where
  nodes : Nat
  delta : UInt64
  deriving DecidableEq, Repr

namespace Summary

def zero : Summary := ⟨0, 0⟩

def isEmpty (s : Summary) : Bool := s.nodes = 0

end Summary

def saturatingAdd (a b : UInt64) : UInt64 :=
  if a.toNat + b.toNat < UInt64.size then a + b else UInt64.ofNat (UInt64.size - 1)

structure Rank where
  depth : Nat
  id : NodeId
  deriving DecidableEq, Repr

def Rank.isAfter (a b : Rank) : Bool :=
  a.depth < b.depth || (a.depth = b.depth && a.id.val < b.id.val)

/-- The nodes that a flush has yet to settle: their ranks in the order in which they are due, and
    the keys of the nodes themselves by id. -/
structure Schedule where
  order : List Rank
  nodes : IdMap Nat

namespace Schedule

def empty : Schedule := ⟨[], ∅⟩

def place (r : Rank) : List Rank → List Rank
  | [] => [r]
  | first :: rest => if r.isAfter first then first :: place r rest else r :: first :: rest

def push (s : Schedule) (r : Rank) (k : Nat) : Schedule :=
  if s.nodes.contains r.id then s else ⟨place r s.order, s.nodes.insert r.id k⟩

def popFrom (nodes : IdMap Nat) : List Rank → Option (Nat × Schedule)
  | [] => none
  | r :: rest =>
    match nodes[r.id]? with
    | some k => some (k, ⟨rest, nodes.erase r.id⟩)
    | none => popFrom nodes rest

def pop (s : Schedule) : Option (Nat × Schedule) := popFrom s.nodes s.order

def waiting (s : Schedule) : List Nat := s.nodes.values

/-- One for every entry and what its node weighs. -/
def load (w : Nat → Nat) : List (NodeId × Nat) → Nat
  | [] => 0
  | e :: rest => w e.2 + 1 + load w rest

def weight (w : Nat → Nat) (s : Schedule) : Nat := load w s.nodes.toList

theorem load_perm (w : Nat → Nat) {xs ys : List (NodeId × Nat)} (perm : xs.Perm ys) :
    load w xs = load w ys := by
  induction perm with
  | nil => rfl
  | cons e _ ih => simp only [load, ih]
  | swap a b rest =>
    simp only [load]
    omega
  | trans _ _ first second => exact first.trans second

theorem perm_insert {nodes : IdMap Nat} {i : NodeId} {k : Nat} (absent : nodes[i]? = none) :
    (nodes.insert i k).toList.Perm ((i, k) :: nodes.toList) := by
  rw [List.perm_ext_iff_of_nodup (IdMap.pairs_nodup _)]
  · intro e
    obtain ⟨j, v⟩ := e
    rw [Std.ExtTreeMap.mem_toList_iff_getElem?_eq_some, List.mem_cons,
      Std.ExtTreeMap.mem_toList_iff_getElem?_eq_some, Std.ExtTreeMap.getElem?_insert]
    by_cases same : i = j
    · subst same
      simp [absent, eq_comm]
    · simp [same, Ne.symm same]
  · refine List.nodup_cons.mpr ⟨?_, nodes.pairs_nodup⟩
    rw [Std.ExtTreeMap.mem_toList_iff_getElem?_eq_some, absent]
    simp

theorem perm_erase {nodes : IdMap Nat} {i : NodeId} {k : Nat} (present : nodes[i]? = some k) :
    nodes.toList.Perm ((i, k) :: (nodes.erase i).toList) := by
  rw [List.perm_ext_iff_of_nodup (IdMap.pairs_nodup _)]
  · intro e
    obtain ⟨j, v⟩ := e
    rw [Std.ExtTreeMap.mem_toList_iff_getElem?_eq_some, List.mem_cons,
      Std.ExtTreeMap.mem_toList_iff_getElem?_eq_some, Std.ExtTreeMap.getElem?_erase]
    by_cases same : i = j
    · subst same
      simp [present, eq_comm]
    · simp [same, Ne.symm same]
  · refine List.nodup_cons.mpr ⟨?_, IdMap.pairs_nodup _⟩
    rw [Std.ExtTreeMap.mem_toList_iff_getElem?_eq_some, Std.ExtTreeMap.getElem?_erase]
    simp

theorem weight_push_le (w : Nat → Nat) (s : Schedule) (r : Rank) (k : Nat) :
    (s.push r k).weight w ≤ s.weight w + w k + 1 := by
  simp only [push]
  split
  · omega
  · rename_i absent
    have none : s.nodes[r.id]? = none := by simpa using absent
    simp only [weight, load_perm w (perm_insert (k := k) none), load]
    omega

theorem weight_pop_from (w : Nat → Nat) {nodes : IdMap Nat} {order : List Rank} {k : Nat}
    {rest : Schedule} (h : popFrom nodes order = some (k, rest)) :
    rest.weight w + w k + 1 = (Schedule.mk order nodes).weight w := by
  induction order with
  | nil => simp [popFrom] at h
  | cons r order ih =>
    simp only [popFrom] at h
    split at h
    · rename_i found present
      simp only [Option.some.injEq, Prod.mk.injEq] at h
      simp only [weight, load_perm w (perm_erase present), load, ← h.1, ← h.2]
      omega
    · exact ih h

theorem weight_pop (w : Nat → Nat) {s rest : Schedule} {k : Nat} (h : s.pop = some (k, rest)) :
    rest.weight w + w k + 1 = s.weight w :=
  weight_pop_from w h

end Schedule

namespace Hierarchy

variable {cfg : Config}

def rank (h : Hierarchy cfg) (k : Nat) : Rank := ⟨(h.node k).depth, (h.node k).id⟩

def schedule (h : Hierarchy cfg) (s : Schedule) (k : Nat) : Schedule := s.push (h.rank k) k

def fold (h : Hierarchy cfg) (k : Nat) (counter : Counter cfg.slots) (gain : UInt64) :
    Hierarchy cfg :=
  h.update k fun s => { s with counter, pending := 0, total := s.total + gain }

def passUp (h : Hierarchy cfg) (k p : Nat) (gain : UInt64) : Hierarchy cfg :=
  let inherited := if (h.node k).removed then gain else 0
  h.update p fun s => { s with pending := s.pending + gain, inherited := s.inherited + inherited }

def settle (h : Hierarchy cfg) (s : Schedule) (k : Nat) :
    Except Counter.Fault (UInt64 × Hierarchy cfg × Schedule) :=
  match (h.node k).counter.drain with
  | .error fault => .error fault
  | .ok (own, counter) =>
    let gain := saturatingAdd own (h.node k).pending
    let folded := h.fold k counter gain
    if gain = 0 then .ok (own, folded, s)
    else match folded.parent? k with
      | none => .ok (own, folded, s)
      | some p => .ok (own, folded.passUp k p gain, h.schedule s p)

theorem weight_settle {h h' : Hierarchy cfg} {s s' : Schedule} {k : Nat} {own : UInt64}
    (done : h.settle s k = .ok (own, h', s')) : s'.weight id < s.weight id + k + 1 := by
  simp only [settle] at done
  split at done
  · simp at done
  · split at done
    · simp only [Except.ok.injEq, Prod.mk.injEq] at done
      rw [← done.2.2]
      omega
    · split at done
      · simp only [Except.ok.injEq, Prod.mk.injEq] at done
        rw [← done.2.2]
        omega
      · rename_i p up
        simp only [Except.ok.injEq, Prod.mk.injEq] at done
        have before := parent_before up
        have pushed := Schedule.weight_push_le id s (h.rank p) p
        rw [← done.2.2]
        simp only [schedule, id_eq] at pushed ⊢
        omega

def settleAll (h : Hierarchy cfg) (s : Schedule) (sum : Summary) :
    Hierarchy cfg × Except Counter.Fault Summary :=
  match _due : s.pop with
  | none => (h, .ok sum)
  | some (k, rest) =>
    match _done : h.settle rest k with
    | .error fault => ((k :: rest.waiting).foldl .requeue h, .error fault)
    | .ok (own, h, rest) => h.settleAll rest ⟨sum.nodes + 1, saturatingAdd sum.delta own⟩
termination_by s.weight id
decreasing_by
  have popped := Schedule.weight_pop id _due
  have settled := weight_settle _done
  simp only [id_eq] at popped
  omega

/-- Folds everything queued. What the flush takes off the lists stays alive until it ends. -/
def flush (h : Hierarchy cfg) : Hierarchy cfg × Except NodeFault Summary :=
  let (taken, drained) := h.drainAll
  let s := taken.foldl drained.schedule Schedule.empty
  if s.nodes.isEmpty then (drained, .ok .zero)
  else match { drained with holds := s.waiting ++ h.holds }.settleAll s .zero with
    | (after, .ok sum) => ({ after with holds := h.holds, flushes := h.flushes + 1 }, .ok sum)
    | (after, .error fault) =>
      ({ after with holds := h.holds }, .error (.inconsistent (.counter fault)))

def bequeath (h : Hierarchy cfg) (k : Nat) : Hierarchy cfg :=
  match h.parent? k with
  | some p => h.update p fun s => { s with inherited := s.inherited + (h.node k).total }
  | none => h

/-- Takes a node out of the tree, leaves its total to its parent, and flushes. A flush that fails
    then keeps its nodes queued and does not undo the removal. -/
def remove (h : Hierarchy cfg) (id : NodeId) : Hierarchy cfg × Except NodeFault Unit :=
  match h.detach id with
  | (h, .error fault) => (h, .error fault)
  | (h, .ok k) => ((h.bequeath k).flush.1, .ok ())

end Hierarchy

end Rollup
