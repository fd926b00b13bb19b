import Rollup.Hierarchy.Report

/-!
Handles record events on the node they were taken from, without looking up its id. A handle keeps
its node alive but not in the tree: once the node is removed, what it records is dropped.
-/
namespace Rollup

structure Handle where
  key : Nat
  deriving DecidableEq, Repr

namespace Handle

variable {cfg : Config}

def describe (h : Hierarchy cfg) (handle : Handle) : String :=
  "NodeHandle(NodeId(" ++ (h.node handle.key).id.text ++ "))"

def ofId (h : Hierarchy cfg) (id : NodeId) : Hierarchy cfg × Except NodeFault Handle :=
  match h.find id with
  | .ok k => (h.hold k, .ok ⟨k⟩)
  | .error fault => (h, .error fault)

def share (h : Hierarchy cfg) (handle : Handle) : Hierarchy cfg := h.hold handle.key

def add (h : Hierarchy cfg) (handle : Handle) (cpu : Cpu) (delta : UInt64) : Hierarchy cfg :=
  h.record handle.key cpu delta

def increment (h : Hierarchy cfg) (handle : Handle) (cpu : Cpu) : Hierarchy cfg :=
  handle.add h cpu 1

def giveUp (h : Hierarchy cfg) (handle : Handle) : Hierarchy cfg := h.release handle.key

end Handle

end Rollup
