import Rollup.Handle

/-!
Simulated actors. Every actor records one event on its node, from the CPU it happens to run on.
All nodes are resolved before the first actor starts, so an unknown node stops all of them.
-/
namespace Rollup

namespace Actors

variable {cfg : Config}

def resolve (h : Hierarchy cfg) : List NodeId → Except NodeFault (List Handle)
  | [] => .ok []
  | id :: ids =>
    match h.find id with
    | .error fault => .error fault
    | .ok k =>
      match resolve h ids with
      | .error fault => .error fault
      | .ok handles => .ok (⟨k⟩ :: handles)

def work (h : Hierarchy cfg) (actors : List (Handle × Cpu)) : Hierarchy cfg :=
  actors.foldl (fun h (handle, cpu) => handle.increment h cpu) h

def enrol (handles : List Handle) (perNode : Nat) : List Handle :=
  handles.flatMap fun handle => List.replicate perNode handle

/-- Attaches actors and lets them work, the `i`-th of them on the CPU that `placement` names;
    the answer is how many there were. -/
def attach (h : Hierarchy cfg) (ids : List NodeId) (perNode : Nat) (placement : Nat → Cpu) :
    Hierarchy cfg × Except NodeFault Nat :=
  match resolve h ids with
  | .error fault => (h, .error fault)
  | .ok handles =>
    let actors := enrol handles perNode
    (work h (actors.zipIdx.map fun (handle, i) => (handle, placement i)), .ok actors.length)

def failure (fault : NodeFault) : String := "Failed to attach actors: " ++ fault.message

end Actors

end Rollup
