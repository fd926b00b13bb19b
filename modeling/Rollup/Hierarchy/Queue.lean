import Rollup.Hierarchy.State

/-!
Recording events and queueing nodes for a flush. Each slot has an update list. Marking a node
puts it and its living ancestors on the list of one slot and stops at the first that is already
queued there. An update counts first and marks second.

A drain takes the lists one slot at a time. A list is taken whole when the drain reaches it, and
the flags of all its nodes are cleared then, before any of them is yielded.
-/
namespace Rollup

namespace Hierarchy

variable {cfg : Config}

def isQueuedOn (h : Hierarchy cfg) (k : Nat) (c : Fin cfg.slots) : Bool := (h.node k).queued[c]

def setQueued (h : Hierarchy cfg) (c : Fin cfg.slots) (queued : Bool) (k : Nat) :
    Hierarchy cfg :=
  h.update k fun s => { s with queued := s.queued.set c queued }

/-- Puts one node on a list; a node of the same id that was there gives way. -/
def enqueue (h : Hierarchy cfg) (c : Fin cfg.slots) (k : Nat) : Hierarchy cfg :=
  { h.setQueued c true k with queues := h.queues.set c (h.queues[c].insert (h.node k).id k) }

def enqueueUntilQueued (h : Hierarchy cfg) (c : Fin cfg.slots) : List Nat → Hierarchy cfg
  | [] => h
  | k :: ks => if h.isQueuedOn k c then h else (h.enqueue c k).enqueueUntilQueued c ks

def mark (h : Hierarchy cfg) (k : Nat) (cpu : Cpu) : Hierarchy cfg :=
  h.enqueueUntilQueued (cfg.slot cpu) (h.chain k)

def requeue (h : Hierarchy cfg) (k : Nat) : Hierarchy cfg := h.mark k ⟨0⟩

def count (h : Hierarchy cfg) (k : Nat) (cpu : Cpu) (delta : UInt64) : Hierarchy cfg :=
  h.update k fun s => { s with counter := s.counter.add (cfg.slot cpu) delta }

def record (h : Hierarchy cfg) (k : Nat) (cpu : Cpu) (delta : UInt64) : Hierarchy cfg :=
  if (h.node k).removed then h else (h.count k cpu delta).mark k cpu

def add (h : Hierarchy cfg) (id : NodeId) (cpu : Cpu) (delta : UInt64) :
    Hierarchy cfg × Except NodeFault Unit :=
  match h.find id with
  | .ok k => (h.record k cpu delta, .ok ())
  | .error fault => (h, .error fault)

def pendingCount (h : Hierarchy cfg) : Nat :=
  h.queues.toList.foldr (fun queue count => queue.size + count) 0

def isQueued (h : Hierarchy cfg) (id : NodeId) : Bool :=
  h.queues.toList.any fun queue => queue.contains id

def takeQueue (h : Hierarchy cfg) (c : Fin cfg.slots) : List Nat × Hierarchy cfg :=
  let taken := h.queues[c].values
  let emptied := { h with queues := h.queues.set c ∅ }
  (taken, taken.foldl (fun h k => h.setQueued c false k) emptied)

def takeQueues (h : Hierarchy cfg) : List (Fin cfg.slots) → List Nat × Hierarchy cfg
  | [] => ([], h)
  | c :: cs =>
    let (taken, h) := h.takeQueue c
    let (rest, h) := h.takeQueues cs
    (taken ++ rest, h)

def drainAll (h : Hierarchy cfg) : List Nat × Hierarchy cfg :=
  h.takeQueues (List.finRange cfg.slots)

end Hierarchy

/-- A drain under way: the nodes taken but not yet yielded, which it keeps alive, and the slots
    whose lists it has not reached. -/
structure Drain (cfg : Config) where
  taken : List Nat
  ahead : List (Fin cfg.slots)

namespace Drain

variable {cfg : Config}

def start (cfg : Config) : Drain cfg := ⟨[], List.finRange cfg.slots⟩

def reach (h : Hierarchy cfg) : List (Fin cfg.slots) → Option Nat × Drain cfg × Hierarchy cfg
  | [] => (none, ⟨[], []⟩, h)
  | c :: cs =>
    match h.takeQueue c with
    | ([], h) => reach h cs
    | (k :: ks, h) => (some k, ⟨ks, cs⟩, { h with holds := ks ++ h.holds })

def next (d : Drain cfg) (h : Hierarchy cfg) : Option Nat × Drain cfg × Hierarchy cfg :=
  match d.taken with
  | k :: ks => (some k, { d with taken := ks }, h.release k)
  | [] => reach h d.ahead

def take (d : Drain cfg) (h : Hierarchy cfg) :
    (count : Nat) → List Nat × Drain cfg × Hierarchy cfg
  | 0 => ([], d, h)
  | count + 1 =>
    match d.next h with
    | (none, d, h) => ([], d, h)
    | (some k, d, h) =>
      let (rest, d, h) := d.take h count
      (k :: rest, d, h)

/-- Ends a drain; what it took and did not yield is lost. -/
def stop (d : Drain cfg) (h : Hierarchy cfg) : Hierarchy cfg := d.taken.foldl .release h

def rest (d : Drain cfg) (h : Hierarchy cfg) : List Nat × Hierarchy cfg :=
  let (later, h) := (d.stop h).takeQueues d.ahead
  (d.taken ++ later, h)

end Drain

end Rollup
