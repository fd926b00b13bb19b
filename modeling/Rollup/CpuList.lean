import Rollup.Ident
import Rollup.Text.Blank
import Rollup.Text.Split

/-!
Lists of CPUs such as `0-3,8,10-11`: numbers and ranges between commas, with blanks around the
whole list only. The fault is that of the first bad item.
-/
namespace Rollup

namespace CpuList

inductive NumberFault where
  | empty
  | invalidDigit
  | tooLarge
  deriving DecidableEq, Repr

def NumberFault.message : NumberFault → String
  | .empty => "cannot parse integer from empty string"
  | .invalidDigit => "invalid digit found in string"
  | .tooLarge => "number too large to fit in target type"

inductive Fault where
  | badId (item : String) (fault : NumberFault)
  | badRange (item : String) (fault : NumberFault)
  | reversed (item : String)
  deriving DecidableEq, Repr

def Fault.message : Fault → String
  | .badId item fault => "bad CPU id '" ++ item ++ "': " ++ fault.message
  | .badRange item fault => "bad CPU range '" ++ item ++ "': " ++ fault.message
  | .reversed item => "reversed CPU range '" ++ item ++ "'"

/-- Digits after a value read so far; the fault is that of the first character that brings one. -/
def readDigits (value : Nat) : List Char → Except NumberFault Nat
  | [] => .ok value
  | c :: rest =>
    if !c.isDigit then .error .invalidDigit
    else
      let next := 10 * value + Decimal.digitValue c
      if next < UInt32.size then readDigits next rest else .error .tooLarge

def readNumber : List Char → Except NumberFault Nat
  | [] => .error .empty
  | ['+'] => .error .invalidDigit
  | '+' :: digits => readDigits 0 digits
  | digits => readDigits 0 digits

def range (first last : Nat) : List Cpu :=
  (List.range' first (last + 1 - first)).map fun n => ⟨UInt32.ofNat n⟩

def readRange (item first last : List Char) : Except Fault (List Cpu) :=
  match readNumber first with
  | .error fault => .error (.badRange (String.ofList item) fault)
  | .ok first =>
    match readNumber last with
    | .error fault => .error (.badRange (String.ofList item) fault)
    | .ok last =>
      if first ≤ last then .ok (range first last) else .error (.reversed (String.ofList item))

def readItem (item : List Char) : Except Fault (List Cpu) :=
  match Text.cut '-' item with
  | some (first, last) => readRange item first last
  | none =>
    match readNumber item with
    | .ok n => .ok [⟨UInt32.ofNat n⟩]
    | .error fault => .error (.badId (String.ofList item) fault)

def readItems : List (List Char) → Except Fault (List Cpu)
  | [] => .ok []
  | item :: items =>
    match readItem item with
    | .error fault => .error fault
    | .ok cpus =>
      match readItems items with
      | .error fault => .error fault
      | .ok more => .ok (cpus ++ more)

def parse (list : String) : Except Fault (List Cpu) :=
  readItems (Text.split ',' (Text.trim list.toList))

def slotsFor (cpus : List Cpu) : Nat := cpus.foldl (fun n cpu => max n (cpu.val.toNat + 1)) 1

/-- The slots for a machine with this list of CPUs, or where none can be read for the CPUs that the
    process may use. -/
def slotsOf (list : Option String) (usable : Option Nat) : Nat :=
  match list.map parse with
  | some (.ok cpus) => slotsFor cpus
  | _ => usable.getD 1

def usableField : String := "Cpus_allowed_list:"

def usable? (status : String) : Option Nat :=
  (Text.split '\n' status.toList).findSome? fun line =>
    match (Text.after? usableField.toList line).map fun list => parse (String.ofList list) with
    | some (.ok cpus) => some cpus.length
    | _ => none

end CpuList

end Rollup
