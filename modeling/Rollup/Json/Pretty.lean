import Rollup.Json.Token

/-!
JSON text for people: every item and member on a line of its own, two spaces deeper than what
holds it. Empty arrays and objects stay on their line.
-/
namespace Rollup.Json

def lineAt (depth : Nat) : List Char := '\n' :: List.replicate (2 * depth) ' '

mutual

def prettyChars (depth : Nat) : Json → List Char
  | .array (item :: items) =>
    Token.openArray.chars ++ lineAt (depth + 1) ++ prettyChars (depth + 1) item ++
      prettyItems (depth + 1) items ++ lineAt depth ++ Token.closeArray.chars
  | .object ((key, value) :: members) =>
    Token.openObject.chars ++ lineAt (depth + 1) ++ (Token.string key).chars ++ [':', ' '] ++
      prettyChars (depth + 1) value ++ prettyMembers (depth + 1) members ++ lineAt depth ++
      Token.closeObject.chars
  | .array [] => ['[', ']']
  | .object [] => ['\x7b', '\x7d']
  | .null => Token.null.chars
  | .bool b => (Token.bool b).chars
  | .number lexeme => (Token.number lexeme).chars
  | .string lexeme => (Token.string lexeme).chars

def prettyItems (depth : Nat) : List Json → List Char
  | [] => []
  | item :: items => ',' :: lineAt depth ++ prettyChars depth item ++ prettyItems depth items

def prettyMembers (depth : Nat) : List (List Char × Json) → List Char
  | [] => []
  | (key, value) :: members =>
    ',' :: lineAt depth ++ (Token.string key).chars ++ [':', ' '] ++ prettyChars depth value ++
      prettyMembers depth members

end

def pretty (v : Json) : String := String.ofList (prettyChars 0 v)

end Rollup.Json
