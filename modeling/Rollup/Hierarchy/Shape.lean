import Rollup.Hierarchy.State
import Rollup.Path

/-!
The shape of the tree: creating nodes, taking them out, and finding them by path.

A new node's id is either chosen by the caller or the first free one from `nextId` on, which wraps
around; when every id there is names a node, no node is made. Names are unique among siblings. Only
a childless node that is not the root can be taken out; it keeps its counts and its link to its
parent.
-/
namespace Rollup.Hierarchy

variable {cfg : Config}

def childNamed (h : Hierarchy cfg) (k : Nat) (name : String) : Option Nat :=
  (h.node k).children.values.find? fun c => (h.node c).name = name

def descend (h : Hierarchy cfg) (k : Nat) : List String → Option Nat
  | [] => some k
  | name :: names =>
    match h.childNamed k name with
    | some c => h.descend c names
    | none => none

def lookup (h : Hierarchy cfg) (path : String) : Option Nat :=
  h.descend rootKey (Path.components path)

def lookupId (h : Hierarchy cfg) (path : String) : Option NodeId :=
  (h.lookup path).map fun k => (h.node k).id

/-- The names of a node and its living ancestors, without those that never had a parent. -/
def pathOf (h : Hierarchy cfg) (k : Nat) : String :=
  if (h.node k).isTop then "/"
  else Path.ofNames (((h.chain k).filter fun a => !(h.node a).isTop).reverse.map
    fun a => (h.node a).name)

def vacantParent (h : Hierarchy cfg) (parent : NodeId) (name : String) : Except NodeFault Nat :=
  match h.index[parent]? with
  | none => .error (.notFound parent)
  | some p =>
    match h.childNamed p name with
    | some c => .error (.alreadyExists (h.node c).id)
    | none => .ok p

def freeFrom (index : IdMap Nat) : (tries : Nat) → (next : UInt64) → Option UInt64
  | 0, next => if index.contains ⟨next⟩ then none else some next
  | tries + 1, next => if index.contains ⟨next⟩ then freeFrom index tries (next + 1) else some next

/-- An index of `n` ids leaves one of any `n + 1` consecutive ids free, unless it holds them all. -/
def freeId (h : Hierarchy cfg) : Option UInt64 := freeFrom h.index h.index.size h.nextId

def attach (h : Hierarchy cfg) (id : NodeId) (p : Nat) (name : String) : Hierarchy cfg :=
  let k := h.arena.size
  { h with
    arena := (h.arena.push id name (some p)).update p fun s =>
      { s with children := s.children.insert id k }
    index := h.index.insert id k }

def create (h : Hierarchy cfg) (parent : NodeId) (name : String) :
    Hierarchy cfg × Except NodeFault NodeId :=
  match h.vacantParent parent name with
  | .error fault => (h, .error fault)
  | .ok p =>
    match h.freeId with
    | none => (h, .error (.alreadyExists ⟨h.nextId⟩))
    | some id => ({ h.attach ⟨id⟩ p name with nextId := id + 1 }, .ok ⟨id⟩)

def idAfter (id : NodeId) : UInt64 :=
  if id.val = UInt64.ofNat (UInt64.size - 1) then id.val else id.val + 1

/-- Creates a node with an id of the caller's choice; later searches begin after it. -/
def createWithId (h : Hierarchy cfg) (id parent : NodeId) (name : String) :
    Hierarchy cfg × Except NodeFault NodeId :=
  if h.index.contains id then (h, .error (.alreadyExists id))
  else match h.vacantParent parent name with
    | .error fault => (h, .error fault)
    | .ok p => ({ h.attach id p name with nextId := max h.nextId (idAfter id) }, .ok id)

def createPath (h : Hierarchy cfg) (path : String) :
    Hierarchy cfg × Except PathFault NodeId :=
  match Path.parts path with
  | .error reason => (h, .error (.invalid path reason))
  | .ok (parentPath, name) =>
    match h.lookup parentPath with
    | none => (h, .error (.invalid path .noParent))
    | some p =>
      match h.create (h.node p).id name with
      | (h, .ok id) => (h, .ok id)
      | (h, .error fault) => (h, .error (.node fault))

def detach (h : Hierarchy cfg) (id : NodeId) : Hierarchy cfg × Except NodeFault Nat :=
  match h.index[id]? with
  | none => (h, .error (.notFound id))
  | some k =>
    if (h.node k).isTop then (h, .error .rootKept)
    else if 0 < (h.node k).children.size then
      (h, .error (.hasChildren id (h.node k).children.size))
    else
      let outside : Hierarchy cfg := { h with index := h.index.erase id }
      let apart := match h.parent? k with
        | some p => outside.update p fun s => { s with children := s.children.erase id }
        | none => outside
      (apart.update k fun s => { s with removed := true }, .ok k)

def ancestorIds (h : Hierarchy cfg) (id : NodeId) : Except NodeFault (List NodeId) :=
  match h.find id with
  | .ok k => .ok ((h.chain k).map fun a => (h.node a).id)
  | .error fault => .error fault

def childIds (h : Hierarchy cfg) (k : Nat) : List NodeId :=
  (h.node k).children.values.map fun c => (h.node c).id

end Rollup.Hierarchy
