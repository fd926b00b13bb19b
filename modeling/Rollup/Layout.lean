import Rollup.Files
import Rollup.Hierarchy.Shape
import Rollup.Json.Reader

/-!
Layouts: the paths of the nodes to create, parents before their children. The root is in every
hierarchy and in no layout. The check on a layout looks at its text alone; building it can still
fail on names or paths that the check lets through, and keeps the nodes made before.
-/
namespace Rollup

structure Layout where
  nodes : List String
  deriving DecidableEq, Repr

namespace Layout

inductive Fault where
  | empty
  | path (fault : PathFault)
  | malformed
  | unreadable (cause : FileFault)
  deriving DecidableEq, Repr

def Fault.message : Fault → String
  | .empty => "Layout defines no nodes"
  | .path fault => fault.message
  | .malformed => "not the JSON of a layout"
  | .unreadable cause => cause.message

def reference : Layout where
  nodes := ["/test", "/test/child1", "/test/child2", "/test/child1/child1_1",
    "/test/child1/child1_2", "/test/child2/child2_1", "/test/child2/child2_2"]

def parentText (path : String) : Option String :=
  (Text.cutLast '/' path.toList).map fun (before, _) => String.ofList before

/-- The entry that must come before this one; `/` is there from the start. -/
def requiredParent (path : String) : Option String :=
  match Text.cutLast '/' path.toList with
  | none => none
  | some (_, []) => none
  | some ([], _) => some "/"
  | some (before, _) => some (String.ofList before)

def checkAfter (seen : List String) : List String → Except PathFault Unit
  | [] => .ok ()
  | path :: rest =>
    match requiredParent path with
    | none => .error (.invalid path .notNodePath)
    | some parent =>
      if parent ≠ "/" ∧ parent ∉ seen then .error (.invalid path .beforeParent)
      else if path ∈ seen then .error (.invalid path .repeated)
      else checkAfter (path :: seen) rest

def validate (l : Layout) : Except Fault Unit :=
  if l.nodes = [] then .error .empty
  else match checkAfter [] l.nodes with
    | .ok () => .ok ()
    | .error fault => .error (.path fault)

/-- Entries that are no other entry's text before its last slash, in layout order. -/
def leaves (l : Layout) : List String :=
  let parents := l.nodes.filterMap parentText
  l.nodes.filter fun path => path ∉ parents

def createAll {cfg : Config} (h : Hierarchy cfg) :
    List String → Hierarchy cfg × Except PathFault (List NodeId)
  | [] => (h, .ok [])
  | path :: rest =>
    match h.createPath path with
    | (h, .error fault) => (h, .error fault)
    | (h, .ok id) =>
      match createAll h rest with
      | (h, .error fault) => (h, .error fault)
      | (h, .ok ids) => (h, .ok (id :: ids))

def build {cfg : Config} (l : Layout) (h : Hierarchy cfg) :
    Hierarchy cfg × Except Fault (List NodeId) :=
  match l.validate with
  | .error fault => (h, .error fault)
  | .ok () =>
    match createAll h l.nodes with
    | (h, .error fault) => (h, .error (.path fault))
    | (h, .ok ids) => (h, .ok ids)

def toJson (l : Layout) : Json := .ofFields [("nodes", .array (l.nodes.map Json.ofString))]

def text (l : Layout) : String := l.toJson.compact

def strings? : List Json → Option (List String)
  | [] => some []
  | v :: vs => do
    let s ← v.string?
    let rest ← strings? vs
    return s :: rest

def ofNodes? : Json → Option Layout
  | .array items => (strings? items).map Layout.mk
  | _ => none

/-- An object whose field `nodes` occurs once, or an array of its value alone. -/
def ofJson? : Json → Option Layout
  | .array [nodes] => ofNodes? nodes
  | .object members => do
    let fields ← Json.fields? members
    ofNodes? (← Json.field? fields "nodes")
  | _ => none

def ofText (text : String) : Except Fault Layout :=
  match (Json.parse text).bind ofJson? with
  | none => .error .malformed
  | some l =>
    match l.validate with
    | .ok () => .ok l
    | .error fault => .error fault

def ofBytes (bytes : ByteArray) : Except Fault Layout :=
  match String.fromUTF8? bytes with
  | some text => ofText text
  | none => .error (.unreadable .notText)

end Layout

end Rollup
