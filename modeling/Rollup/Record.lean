import Rollup.Ident
import Rollup.Text.Split

/-!
Dump records: a node's id and its total, written on one line with a fixed word before each
number. A line is read with at most one line end, and the words and digits must match exactly.
-/
namespace Rollup

structure Record where
  id : NodeId
  counter : UInt64
  deriving DecidableEq, Repr, Inhabited

namespace Record

def idField : String := "id: "

def counterField : String := ", counter: "

inductive LineFault where
  | missingId
  | missingCounter
  | invalidId
  | invalidCounter
  deriving DecidableEq, Repr

def LineFault.message : LineFault → String
  | .missingId => "missing `id: ` prefix"
  | .missingCounter => "missing `, counter: ` field"
  | .invalidId => "identifier is not an unsigned integer"
  | .invalidCounter => "counter is not an unsigned integer"

def chars (r : Record) : List Char :=
  idField.toList ++ Decimal.digits r.id.val.toNat ++
    (counterField.toList ++ Decimal.digits r.counter.toNat)

def text (r : Record) : String := String.ofList r.chars

def readFields (id counter : List Char) : Except LineFault Record :=
  match Decimal.word? id with
  | none => .error .invalidId
  | some i =>
    match Decimal.word? counter with
    | none => .error .invalidCounter
    | some n => .ok ⟨⟨i⟩, n⟩

def readLine (line : List Char) : Except LineFault Record :=
  match Text.after? idField.toList line with
  | none => .error .missingId
  | some rest =>
    match Text.cutAt counterField.toList rest with
    | none => .error .missingCounter
    | some (id, counter) => readFields id counter

/-- One newline may end the line, and one carriage return may stand before it. -/
def withoutLineEnd (line : List Char) : List Char :=
  Text.dropEnd '\r' (Text.dropEnd '\n' line)

def parse (line : String) : Except LineFault Record :=
  readLine (withoutLineEnd line.toList)

end Record

end Rollup
