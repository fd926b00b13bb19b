import Rollup.Ident

/-!
Per-CPU event counters. Each slot holds two words: the events recorded on it so far, and a mark
up to which they have been drained. Recording moves the first word, draining moves the mark up
to it, and what lies between is not yet drained. A drain checks every slot before it moves any
mark, so it takes everything or leaves the counter as it was.
-/
namespace Rollup

structure Slot where
  state : UInt64
  flushed : UInt64
  deriving DecidableEq, Repr, Inhabited

def Slot.unflushed (s : Slot) : UInt64 :=
  if s.flushed ≤ s.state then s.state - s.flushed else 0

structure Counter (n : Nat) where
  slots : Vector Slot n
  deriving DecidableEq, Repr

namespace Counter

variable {n : Nat}

inductive Fault where
  | behind (slot : Nat) (state flushed : UInt64)
  | overflow (slot : Nat)
  deriving DecidableEq, Repr

def Fault.message : Fault → String
  | .behind slot state flushed =>
    "cpu " ++ Decimal.text slot ++ ": counter state " ++ Decimal.text state.toNat ++
      " is behind flushed mark " ++ Decimal.text flushed.toNat
  | .overflow slot => "cpu " ++ Decimal.text slot ++ ": drained delta overflows u64"

def zero (n : Nat) : Counter n := ⟨Vector.replicate n ⟨0, 0⟩⟩

instance : Inhabited (Counter n) := ⟨zero n⟩

def add (c : Counter n) (i : Fin n) (delta : UInt64) : Counter n :=
  ⟨c.slots.set i { c.slots[i] with state := c.slots[i].state + delta }⟩

/-- The sum of what the slots hold undrained, from slot `i` on, added to what came before. -/
def scan : List Slot → Nat → UInt64 → Except Fault UInt64
  | [], _, acc => .ok acc
  | s :: rest, i, acc =>
    if s.state < s.flushed then .error (.behind i s.state s.flushed)
    else if UInt64.size ≤ acc.toNat + (s.state - s.flushed).toNat then .error (.overflow i)
    else scan rest (i + 1) (acc + (s.state - s.flushed))

def settled (c : Counter n) : Counter n := ⟨c.slots.map fun s => { s with flushed := s.state }⟩

def drain (c : Counter n) : Except Fault (UInt64 × Counter n) :=
  match scan c.slots.toList 0 0 with
  | .error fault => .error fault
  | .ok delta => .ok (delta, c.settled)

def sum (c : Counter n) : UInt64 := c.slots.toList.foldr (fun s total => s.state + total) 0

def flushedTotal (c : Counter n) : UInt64 :=
  c.slots.toList.foldr (fun s total => s.flushed + total) 0

def unflushed (c : Counter n) : UInt64 :=
  c.slots.toList.foldr (fun s total => s.unflushed + total) 0

def describe (c : Counter n) : String :=
  "PerCpuCounter \x7b nr_cpus: " ++ Decimal.text n ++ ", sum: " ++ Decimal.text c.sum.toNat ++
    ", unflushed: " ++ Decimal.text c.unflushed.toNat ++ " \x7d"

end Counter

end Rollup
