import Rollup.Config
import Rollup.Fault
import Rollup.Node

/-!
The state of a hierarchy: every node ever created, the index of the nodes that are in the tree,
the update list of each slot, and the references that outsiders hold to nodes.

A removed node lives on while an outsider or an update list refers to it. A node's link to its
parent does not keep the parent alive, so links are followed through `parent?`, which ends at the
first node that is gone. `chain` is a node followed by the ancestors that this walk reaches.
-/
namespace Rollup

structure Hierarchy (cfg : Config) where
  arena : Arena cfg.slots
  index : IdMap Nat
  nextId : UInt64
  /-- Per slot, the nodes with events that no flush has folded, by id. -/
  queues : Vector (IdMap Nat) cfg.slots
  /-- Flushes that found something to do and finished, counted without the bound `2 ^ 64` that a
      word has. -/
  flushes : Nat
  /-- One entry for each reference that an outsider holds. -/
  holds : List Nat

namespace Hierarchy

variable {cfg : Config}

def rootKey : Nat := 0

def rootName : String := "root"

def new (cfg : Config) : Hierarchy cfg where
  arena := (Arena.empty cfg.slots).push NodeId.root rootName none
  index := (∅ : IdMap Nat).insert NodeId.root rootKey
  nextId := NodeId.root.val + 1
  queues := Vector.replicate cfg.slots ∅
  flushes := 0
  holds := []

def node (h : Hierarchy cfg) (k : Nat) : Node cfg.slots := h.arena.node k

def update (h : Hierarchy cfg) (k : Nat) (f : Status cfg.slots → Status cfg.slots) :
    Hierarchy cfg :=
  { h with arena := h.arena.update k f }

def find (h : Hierarchy cfg) (id : NodeId) : Except NodeFault Nat :=
  match h.index[id]? with
  | some k => .ok k
  | none => .error (.notFound id)

def keys (h : Hierarchy cfg) : List Nat := h.index.values

def hold (h : Hierarchy cfg) (k : Nat) : Hierarchy cfg := { h with holds := k :: h.holds }

def release (h : Hierarchy cfg) (k : Nat) : Hierarchy cfg := { h with holds := h.holds.erase k }

def isListed (h : Hierarchy cfg) (k : Nat) : Bool :=
  h.queues.toList.any fun queue => queue[(h.node k).id]? == some k

/-- A node in the tree is alive, and a removed one as long as something refers to it. -/
def isAlive (h : Hierarchy cfg) (k : Nat) : Bool :=
  !(h.node k).removed || h.holds.contains k || h.isListed k

def parent? (h : Hierarchy cfg) (k : Nat) : Option Nat := (h.node k).parent.filter h.isAlive

theorem link_of_parent {h : Hierarchy cfg} {k p : Nat} (up : h.parent? k = some p) :
    (h.node k).parent = some p :=
  (Option.filter_eq_some_iff.mp up).1

theorem parent_before {h : Hierarchy cfg} {k p : Nat} (up : h.parent? k = some p) : p < k :=
  Arena.parent_before (link_of_parent up)

theorem parent_above {h : Hierarchy cfg} {k p : Nat} (up : h.parent? k = some p) :
    (h.node k).depth = (h.node p).depth + 1 :=
  Arena.parent_above (link_of_parent up)

def chain (h : Hierarchy cfg) (k : Nat) : List Nat :=
  k :: match _up : h.parent? k with
    | some p => h.chain p
    | none => []
termination_by k
decreasing_by exact parent_before _up

theorem node_update (h : Hierarchy cfg) (k : Nat) (f : Status cfg.slots → Status cfg.slots)
    (j : Nat) :
    (h.update k f).node j =
      if k = j ∧ k < h.arena.size then { h.node j with toStatus := f (h.node j).toStatus }
      else h.node j :=
  Arena.node_update h.arena k f j

theorem identity_update (h : Hierarchy cfg) (k : Nat) (f : Status cfg.slots → Status cfg.slots)
    (j : Nat) : ((h.update k f).node j).toIdentity = (h.node j).toIdentity :=
  Arena.identity_update h.arena k f j

theorem chain_of_parent {h : Hierarchy cfg} {k p : Nat} (up : h.parent? k = some p) :
    h.chain k = k :: h.chain p := by
  rw [chain]
  split
  · rename_i q other
    rw [up] at other
    rw [Option.some.inj other]
  · rename_i gone
    rw [up] at gone
    exact absurd gone (by simp)

theorem chain_of_no_parent {h : Hierarchy cfg} {k : Nat} (up : h.parent? k = none) :
    h.chain k = [k] := by
  rw [chain]
  split
  · rename_i q other
    rw [up] at other
    exact absurd other (by simp)
  · rfl

end Hierarchy

end Rollup
