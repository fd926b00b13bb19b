import Rollup.Hierarchy.Flush

/-!
Writers racing a flusher, over a tree that stays as it is.

A writer makes an update in two steps: it counts the events on a node, and some time later it marks
the node. It marks what it has counted before it counts again, but any number of writers may have
counted and not yet marked. One flusher flushes again and again. It takes the lists in the order of
their slots, schedules one by one the nodes found on a list before it takes the next, and then
settles one scheduled node at a time. Every step is atomic, and after any step any other may follow.

Nobody removes a node meanwhile, so nothing here depends on who refers to it; as in `flush`, what is
scheduled is referred to until the flush ends.
-/
namespace Rollup

/-- Events that a writer counts on a node and marks it for. -/
structure Update where
  writer : Nat
  key : Nat
  cpu : Cpu
  delta : UInt64
  marked : Bool
  deriving DecidableEq, Repr

inductive Flusher (cfg : Config) where
  | idle
  /-- Nodes taken but not yet scheduled, lists not yet taken, and nodes scheduled. -/
  | gathering (taken : List Nat) (ahead : List (Fin cfg.slots)) (found : Schedule)
  /-- Nodes still to settle, what has been settled, and the references from before. -/
  | settling (due : Schedule) (sum : Summary) (holds : List Nat)

namespace Flusher

variable {cfg : Config}

def isIdle : Flusher cfg → Bool
  | .idle => true
  | _ => false

def taken : Flusher cfg → List Nat
  | .gathering taken _ _ => taken
  | _ => []

def ahead : Flusher cfg → List (Fin cfg.slots)
  | .gathering _ ahead _ => ahead
  | _ => []

def scheduled : Flusher cfg → Schedule
  | .idle => .empty
  | .gathering _ _ found => found
  | .settling due _ _ => due

def borrowed : Flusher cfg → List Nat
  | .settling _ _ holds => holds
  | _ => []

def claimed (f : Flusher cfg) : List Nat := f.taken ++ f.scheduled.waiting

end Flusher

structure Race (cfg : Config) where
  hierarchy : Hierarchy cfg
  updates : List Update
  flusher : Flusher cfg
  results : List (Except NodeFault Summary)

inductive Move where
  | count (writer key : Nat) (cpu : Cpu) (delta : UInt64)
  | mark (writer : Nat)
  | flush
  deriving DecidableEq, Repr

namespace Race

variable {cfg : Config}

def start (h : Hierarchy cfg) : Race cfg := ⟨h, [], .idle, []⟩

def unfinished (r : Race cfg) (writer : Nat) : Option (Update × Nat) :=
  r.updates.zipIdx.find? fun e => e.1.writer = writer && !e.1.marked

def count (r : Race cfg) (writer key : Nat) (cpu : Cpu) (delta : UInt64) : Race cfg :=
  if key ∈ r.hierarchy.keys ∧ r.unfinished writer = none then
    { r with
      hierarchy := r.hierarchy.count key cpu delta
      updates := r.updates ++ [⟨writer, key, cpu, delta, false⟩] }
  else r

def mark (r : Race cfg) (writer : Nat) : Race cfg :=
  match r.unfinished writer with
  | none => r
  | some (u, i) =>
    { r with
      hierarchy := r.hierarchy.mark u.key u.cpu
      updates := r.updates.set i { u with marked := true } }

def ended (r : Race cfg) (h : Hierarchy cfg) (result : Except NodeFault Summary) : Race cfg :=
  { r with hierarchy := h, flusher := .idle, results := r.results ++ [result] }

def settled (r : Race cfg) (holds : List Nat) :
    Hierarchy cfg × Except Counter.Fault Summary → Race cfg
  | (h, .ok sum) => r.ended { h with holds, flushes := h.flushes + 1 } (.ok sum)
  | (h, .error fault) => r.ended { h with holds } (.error (.inconsistent (.counter fault)))

def flush (r : Race cfg) : Race cfg :=
  match r.flusher with
  | .idle => { r with flusher := .gathering [] (List.finRange cfg.slots) .empty }
  | .gathering (k :: ks) ahead found =>
    { r with flusher := .gathering ks ahead (r.hierarchy.schedule found k) }
  | .gathering [] (c :: cs) found =>
    { r with
      hierarchy := (r.hierarchy.takeQueue c).2
      flusher := .gathering (r.hierarchy.takeQueue c).1 cs found }
  | .gathering [] [] found =>
    if found.nodes.isEmpty then r.ended r.hierarchy (.ok .zero)
    else
      { r with
        hierarchy := { r.hierarchy with holds := found.waiting ++ r.hierarchy.holds }
        flusher := .settling found .zero r.hierarchy.holds }
  | .settling due sum holds =>
    match due.pop with
    | none => r.settled holds (r.hierarchy, .ok sum)
    | some (k, rest) =>
      match r.hierarchy.settle rest k with
      | .error fault =>
        r.settled holds ((k :: rest.waiting).foldl .requeue r.hierarchy, .error fault)
      | .ok (own, h, rest) =>
        { r with
          hierarchy := h
          flusher := .settling rest ⟨sum.nodes + 1, saturatingAdd sum.delta own⟩ holds }

def step (r : Race cfg) : Move → Race cfg
  | .count writer key cpu delta => r.count writer key cpu delta
  | .mark writer => r.mark writer
  | .flush => r.flush

def run (r : Race cfg) (moves : List Move) : Race cfg := moves.foldl step r

end Race

end Rollup
