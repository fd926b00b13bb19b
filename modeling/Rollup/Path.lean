import Rollup.Fault
import Rollup.Text.Quoted
import Rollup.Text.Split

/-!
Paths such as `/a/b`. Reading a path for look-up takes its non-empty components; a path to be
created is checked first and parted at its last slash.
-/
namespace Rollup

inductive PathReason where
  | notAbsolute
  | endsInSlash
  | emptyComponent
  | isRoot
  | noParent
  | notNodePath
  | beforeParent
  | repeated
  deriving DecidableEq, Repr

def PathReason.message : PathReason → String
  | .notAbsolute => "path must be absolute"
  | .endsInSlash => "path must not end with '/'"
  | .emptyComponent => "path has an empty component"
  | .isRoot => "the root cannot be created"
  | .noParent => "parent does not exist"
  | .notNodePath => "not an absolute node path"
  | .beforeParent => "listed before its parent"
  | .repeated => "listed twice"

inductive PathFault where
  | invalid (path : String) (reason : PathReason)
  | node (fault : NodeFault)
  deriving DecidableEq, Repr

def PathFault.message : PathFault → String
  | .invalid path reason => "Invalid node path " ++ Text.quoted path ++ ": " ++ reason.message
  | .node fault => fault.message

namespace Path

def components (path : String) : List String :=
  ((Text.split '/' path.toList).filter fun piece => !piece.isEmpty).map String.ofList

def ofNames (names : List String) : String :=
  String.ofList ('/' :: Text.join ['/'] (names.map String.toList))

def hasEmptyComponent : List Char → Bool
  | '/' :: '/' :: _ => true
  | _ :: rest => hasEmptyComponent rest
  | [] => false

/-- Parts `/a/b/c` into `/a/b` and `c`, and `/c` into `/` and `c`. -/
def parts (path : String) : Except PathReason (String × String) :=
  let text := path.toList
  if text.head? ≠ some '/' then .error .notAbsolute
  else if 1 < text.length ∧ text.getLast? = some '/' then .error .endsInSlash
  else if hasEmptyComponent text then .error .emptyComponent
  else match Text.cutLast '/' text with
    | none => .error .isRoot
    | some (_, []) => .error .isRoot
    | some ([], name) => .ok ("/", String.ofList name)
    | some (parent, name) => .ok (String.ofList parent, String.ofList name)

end Path

end Rollup
