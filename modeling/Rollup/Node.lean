import Rollup.Counter
import Rollup.Text.Quoted

/-!
Nodes and the arena that keeps them. A node has an identity, fixed when it is created, and a
status that changes. The arena numbers nodes in the order of creation and never drops one. That
number is the node's key: it always means the same node, also after the node's id has been given
to another.

`Arena.node_update` says what an update does to every node, and `Arena.identity_update` that no
update changes an identity. Links lead to earlier nodes, one level up, which makes walks towards
the root end.
-/
namespace Rollup

/-- A depth is less than the number of nodes (`Arena.depth_le`): a word of 32 bits holds it as long
    as there are no more than `2 ^ 32` of them. -/
structure Identity where
  id : NodeId
  name : String
  depth : Nat
  parent : Option Nat
  deriving DecidableEq, Repr

/-- The part of a node that changes. `total` is the count of the node and all below it as of the
    last flush; `pending` holds what children have passed up and `total` does not yet include;
    `inherited` holds the totals of removed children. A slot's queued flag is set while the node
    is on that slot's update list. -/
structure Status (n : Nat) where
  children : IdMap Nat
  counter : Counter n
  total : UInt64
  pending : UInt64
  inherited : UInt64
  queued : Vector Bool n
  removed : Bool

def Status.fresh (n : Nat) : Status n where
  children := ∅
  counter := .zero n
  total := 0
  pending := 0
  inherited := 0
  queued := Vector.replicate n false
  removed := false

structure Node (n : Nat) extends Identity, Status n

namespace Node

variable {n : Nat}

def blank (n : Nat) : Node n where
  toIdentity := ⟨⟨0⟩, "", 0, none⟩
  toStatus := Status.fresh n

def isTop (x : Node n) : Bool := x.parent.isNone

def own (x : Node n) : UInt64 := x.counter.flushedTotal

def describe (x : Node n) : String :=
  "StatsNode \x7b id: NodeId(" ++ x.id.text ++ "), name: " ++ Text.quoted x.name ++
    ", depth: " ++ Decimal.text x.depth ++ ", total: " ++ Decimal.text x.total.toNat ++
    ", removed: " ++ (if x.removed then "true" else "false") ++ ", .. \x7d"

end Node

def nodeAt {n : Nat} (nodes : Array (Node n)) (k : Nat) : Node n :=
  nodes[k]?.getD (Node.blank n)

structure Arena (n : Nat) where
  nodes : Array (Node n)
  ascends : ∀ k p, (nodeAt nodes k).parent = some p →
    p < k ∧ (nodeAt nodes k).depth = (nodeAt nodes p).depth + 1
  grounded : ∀ k, (nodeAt nodes k).parent = none → (nodeAt nodes k).depth = 0

namespace Arena

variable {n : Nat}

def node (a : Arena n) (k : Nat) : Node n := nodeAt a.nodes k

def size (a : Arena n) : Nat := a.nodes.size

theorem parent_before {a : Arena n} {k p : Nat} (link : (a.node k).parent = some p) : p < k :=
  (a.ascends k p link).1

theorem parent_above {a : Arena n} {k p : Nat} (link : (a.node k).parent = some p) :
    (a.node k).depth = (a.node p).depth + 1 :=
  (a.ascends k p link).2

theorem depth_le (a : Arena n) (k : Nat) : (a.node k).depth ≤ k := by
  induction k using Nat.strongRecOn with
  | ind k ih =>
    cases link : (a.node k).parent with
    | none =>
      have ground : (a.node k).depth = 0 := a.grounded k link
      omega
    | some p =>
      have before := parent_before link
      have above := parent_above link
      have lower := ih p before
      omega

def changeAt (nodes : Array (Node n)) (k : Nat) (f : Status n → Status n) :
    Array (Node n) :=
  nodes.modify k fun x => { x with toStatus := f x.toStatus }

theorem node_at_change (nodes : Array (Node n)) (k : Nat) (f : Status n → Status n)
    (j : Nat) :
    nodeAt (changeAt nodes k f) j =
      if k = j ∧ k < nodes.size then
        { nodeAt nodes j with toStatus := f (nodeAt nodes j).toStatus }
      else nodeAt nodes j := by
  simp only [nodeAt, changeAt, Array.getElem?_modify]
  by_cases same : k = j
  · subst same
    by_cases inside : k < nodes.size
    · simp [inside]
    · simp [inside]
  · simp [same]

theorem identity_at_change (nodes : Array (Node n)) (k : Nat) (f : Status n → Status n)
    (j : Nat) : (nodeAt (changeAt nodes k f) j).toIdentity = (nodeAt nodes j).toIdentity := by
  rw [node_at_change]
  split <;> rfl

/-- Changes the status of one node; a key that names no node changes nothing. -/
def update (a : Arena n) (k : Nat) (f : Status n → Status n) : Arena n where
  nodes := changeAt a.nodes k f
  ascends := by
    intro j p link
    rw [identity_at_change] at link
    rw [identity_at_change, identity_at_change]
    exact a.ascends j p link
  grounded := by
    intro j top
    rw [identity_at_change] at top ⊢
    exact a.grounded j top

theorem size_update (a : Arena n) (k : Nat) (f : Status n → Status n) :
    (a.update k f).size = a.size := by
  simp [update, size, changeAt]

theorem node_update (a : Arena n) (k : Nat) (f : Status n → Status n) (j : Nat) :
    (a.update k f).node j =
      if k = j ∧ k < a.size then { a.node j with toStatus := f (a.node j).toStatus }
      else a.node j :=
  node_at_change a.nodes k f j

theorem identity_update (a : Arena n) (k : Nat) (f : Status n → Status n) (j : Nat) :
    ((a.update k f).node j).toIdentity = (a.node j).toIdentity :=
  identity_at_change a.nodes k f j

def link (a : Arena n) (parent : Option Nat) : Option Nat :=
  parent.filter (· < a.size)

def newborn (a : Arena n) (id : NodeId) (name : String) (parent : Option Nat) : Node n where
  toIdentity :=
    { id, name, parent := a.link parent
      depth := match a.link parent with
        | some p => (a.node p).depth + 1
        | none => 0 }
  toStatus := Status.fresh n

theorem node_at_push (nodes : Array (Node n)) (x : Node n) (j : Nat) :
    nodeAt (nodes.push x) j = if j = nodes.size then x else nodeAt nodes j := by
  simp only [nodeAt, Array.getElem?_push]
  split <;> rfl

theorem link_inside {a : Arena n} {parent : Option Nat} {p : Nat}
    (h : a.link parent = some p) : p < a.size := by
  simp only [link, Option.filter_eq_some_iff, decide_eq_true_eq] at h
  exact h.2

def push (a : Arena n) (id : NodeId) (name : String) (parent : Option Nat) : Arena n where
  nodes := a.nodes.push (a.newborn id name parent)
  ascends := by
    intro k p h
    rw [node_at_push] at h
    split at h
    · rename_i last
      have inside := link_inside (a := a) h
      have before : p ≠ a.nodes.size := Nat.ne_of_lt inside
      simp only [node_at_push, last, if_true, before, if_false]
      refine ⟨inside, ?_⟩
      simp only [newborn] at h ⊢
      rw [h]
      rfl
    · rename_i old
      have up := a.ascends k p h
      have inside : p < a.nodes.size := by
        by_cases known : k < a.nodes.size
        · omega
        · simp only [nodeAt, Array.getElem?_eq_none (Nat.le_of_not_lt known)] at h
          exact absurd h (by simp [Node.blank])
      simp only [node_at_push, old, if_false, Nat.ne_of_lt inside]
      exact up
  grounded := by
    intro k top
    rw [node_at_push] at top ⊢
    split at top
    · rename_i last
      simp only [newborn] at top
      simp only [if_pos last, newborn, top]
    · rename_i old
      simp only [if_neg old]
      exact a.grounded k top

theorem size_push (a : Arena n) (id : NodeId) (name : String) (parent : Option Nat) :
    (a.push id name parent).size = a.size + 1 := by
  simp [push, size]

theorem node_push (a : Arena n) (id : NodeId) (name : String) (parent : Option Nat)
    (j : Nat) :
    (a.push id name parent).node j = if j = a.size then a.newborn id name parent else a.node j :=
  node_at_push a.nodes _ j

def empty (n : Nat) : Arena n where
  nodes := #[]
  ascends := by
    intro k p h
    exact absurd h (by simp [nodeAt, Node.blank])
  grounded := by
    intro k _
    simp [nodeAt, Node.blank]

end Arena

end Rollup
