import Rollup.Json.Token

/-!
Reading a value from its tokens, one at a time, with a stack of the arrays and objects that are
still open. What may come next depends on the state alone.
-/
namespace Rollup.Json

/-- An open array or object; what it holds so far stands last first. -/
inductive Frame where
  | array (done : List Json)
  | object (done : List (List Char × Json)) (key : List Char)

inductive Reading where
  | value (stack : List Frame)
  | firstItem (stack : List Frame)
  | firstKey (stack : List Frame)
  | nextKey (done : List (List Char × Json)) (stack : List Frame)
  | colon (done : List (List Char × Json)) (key : List Char) (stack : List Frame)
  | after (v : Json) (stack : List Frame)

namespace Reading

def enter (stack : List Frame) : Token → Option Reading
  | .openArray => some (.firstItem stack)
  | .openObject => some (.firstKey stack)
  | .null => some (.after .null stack)
  | .bool b => some (.after (.bool b) stack)
  | .number lexeme => some (.after (.number lexeme) stack)
  | .string lexeme => some (.after (.string lexeme) stack)
  | _ => none

def step : Reading → Token → Option Reading
  | .value stack, t => enter stack t
  | .firstItem stack, .closeArray => some (.after (.array []) stack)
  | .firstItem stack, t => enter (.array [] :: stack) t
  | .firstKey stack, .closeObject => some (.after (.object []) stack)
  | .firstKey stack, .string key => some (.colon [] key stack)
  | .nextKey done stack, .string key => some (.colon done key stack)
  | .colon done key stack, .colon => some (.value (.object done key :: stack))
  | .after v (.array done :: stack), .comma => some (.value (.array (v :: done) :: stack))
  | .after v (.array done :: stack), .closeArray =>
    some (.after (.array (v :: done).reverse) stack)
  | .after v (.object done key :: stack), .comma => some (.nextKey ((key, v) :: done) stack)
  | .after v (.object done key :: stack), .closeObject =>
    some (.after (.object ((key, v) :: done).reverse) stack)
  | _, _ => none

def run (r : Reading) : List Token → Option Reading
  | [] => some r
  | t :: rest =>
    match r.step t with
    | some r => r.run rest
    | none => none

def finish : Reading → Option Json
  | .after v [] => some v
  | _ => none

end Reading

def ofTokens (ts : List Token) : Option Json := ((Reading.value []).run ts).bind Reading.finish

def parse (text : String) : Option Json := (lex text.toList).bind ofTokens

end Rollup.Json
