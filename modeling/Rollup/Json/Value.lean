import Rollup.Json.Text

/-!
JSON values. Numbers and strings are kept as they are written, and decoded only where they are
used: a value that nobody looks at need not stand for anything.
-/
namespace Rollup

inductive Json where
  | null
  | bool (b : Bool)
  | number (lexeme : List Char)
  /-- The text between the quotes, escapes and all. -/
  | string (lexeme : List Char)
  | array (items : List Json)
  | object (members : List (List Char × Json))
  deriving Repr

namespace Json

def ofNat (n : Nat) : Json := .number (Decimal.digits n)

def ofWord (w : UInt64) : Json := ofNat w.toNat

def ofString (s : String) : Json := .string (escape s.toList)

def ofFields (fields : List (String × Json)) : Json :=
  .object (fields.map fun (key, value) => (key.toList, value))

def string? : Json → Option String
  | .string lexeme => (unescape lexeme).map String.ofList
  | _ => none

def word? : Json → Option UInt64
  | .number lexeme => Decimal.word? lexeme
  | _ => none

def fields? : List (List Char × Json) → Option (List (String × Json))
  | [] => some []
  | (key, value) :: rest => do
    let key ← unescape key
    let rest ← fields? rest
    return (String.ofList key, value) :: rest

/-- The value of a field that occurs exactly once. -/
def field? (fields : List (String × Json)) (name : String) : Option Json :=
  match fields.filter fun field => field.1 = name with
  | [field] => some field.2
  | _ => none

end Json

end Rollup
