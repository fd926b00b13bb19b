import Rollup.Hierarchy.Flush
import Rollup.Record

/-!
Reading a hierarchy. Reads show totals as of the last flush and never flush themselves; only
`flushAndDump` does. The balance check asks of every node in the tree that its total is its own
count, what it inherited, and the totals of its children.
-/
namespace Rollup

structure NodeView where
  id : NodeId
  name : String
  path : String
  depth : Nat
  parent : Option NodeId
  children : List NodeId
  isTop : Bool
  total : UInt64
  own : UInt64
  inherited : UInt64
  recorded : UInt64
  unflushed : UInt64
  removed : Bool
  description : String
  deriving DecidableEq, Repr

namespace NodeView

def record (v : NodeView) : Record := ⟨v.id, v.total⟩

end NodeView

namespace Hierarchy

variable {cfg : Config}

def view (h : Hierarchy cfg) (k : Nat) : NodeView :=
  let x := h.node k
  { id := x.id
    name := x.name
    path := h.pathOf k
    depth := x.depth
    parent := (h.parent? k).map fun p => (h.node p).id
    children := h.childIds k
    isTop := x.isTop
    total := x.total
    own := x.own
    inherited := x.inherited
    recorded := x.counter.sum
    unflushed := x.counter.unflushed
    removed := x.removed
    description := x.describe }

def snapshot (h : Hierarchy cfg) : List NodeView := h.keys.map h.view

def read (h : Hierarchy cfg) (id : NodeId) : Except NodeFault Record :=
  match h.find id with
  | .ok k => .ok ⟨id, (h.node k).total⟩
  | .error fault => .error fault

def dump (h : Hierarchy cfg) (id : NodeId) : Except NodeFault String :=
  match h.read id with
  | .ok record => .ok (record.text ++ "\n")
  | .error fault => .error fault

def flushAndDump (h : Hierarchy cfg) (id : NodeId) : Hierarchy cfg × Except NodeFault String :=
  if h.index.contains id then
    match h.flush with
    | (h, .ok _) => (h, h.dump id)
    | (h, .error fault) => (h, .error fault)
  else (h, .error (.notFound id))

def childrenTotal (h : Hierarchy cfg) (k : Nat) : UInt64 :=
  (h.node k).children.values.foldr (fun c total => (h.node c).total + total) 0

def isBalanced (h : Hierarchy cfg) (k : Nat) : Bool :=
  (h.node k).total = (h.node k).own + (h.node k).inherited + h.childrenTotal k

def checkBalance (h : Hierarchy cfg) : Except NodeFault Unit :=
  match h.keys.find? fun k => !h.isBalanced k with
  | none => .ok ()
  | some k =>
    let x := h.node k
    .error (.inconsistent (.unbalanced x.id x.total x.own x.inherited (h.childrenTotal k)))

end Hierarchy

end Rollup
