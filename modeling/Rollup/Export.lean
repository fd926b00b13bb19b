import Rollup.Hierarchy.Report
import Rollup.Json.Pretty

/-!
Snapshots as JSON documents: the number of CPUs asked for, the flushes so far, and every node of
the tree by increasing id. A document ends with one line end. Writing it can fail at the document,
at the line end, or when the output is closed.
-/
namespace Rollup

def NodeView.toJson (v : NodeView) : Json :=
  .ofFields
    [("id", .ofWord v.id.val),
      ("counter", .ofWord v.total),
      ("name", .ofString v.name),
      ("path", .ofString v.path),
      ("depth", .ofNat v.depth),
      ("parent", match v.parent with
        | some parent => .ofWord parent.val
        | none => .null),
      ("own", .ofWord v.own),
      ("children", .array (v.children.map fun child => .ofWord child.val))]

namespace Export

inductive Fault where
  | document (cause : String)
  | lineEnd (cause : String)
  | closing (cause : String)
  deriving DecidableEq, Repr

def Fault.message : Fault → String
  | .document cause => cause
  | .lineEnd cause => cause
  | .closing cause => "Failed to write snapshot: " ++ cause

structure Sink where
  limit : Option Nat
  refusal : String
  closing : Option String
  deriving DecidableEq, Repr

def Sink.unlimited : Sink := ⟨none, "", none⟩

/-- What is written gathers in a block of this many bytes before it goes out. -/
def blockSize : Nat := 8192

/-- An output that lets nothing out: it fails as soon as a block is full, or else when closed. -/
def Sink.blocked (cause : String) : Sink := ⟨some blockSize, cause, some cause⟩

def Sink.fits (s : Sink) (bytes : Nat) : Bool :=
  match s.limit with
  | some limit => bytes ≤ limit
  | none => true

variable {cfg : Config}

def document (h : Hierarchy cfg) : Json :=
  .ofFields
    [("nr_cpus", .ofNat cfg.cpus),
      ("flushes", .ofNat h.flushes),
      ("nodes", .array (h.snapshot.map NodeView.toJson))]

def text (h : Hierarchy cfg) : String := (document h).pretty ++ "\n"

def writeBody (body : String) (sink : Sink) : Except Fault String :=
  if !sink.fits body.utf8ByteSize then .error (.document sink.refusal)
  else if !sink.fits (body.utf8ByteSize + 1) then .error (.lineEnd sink.refusal)
  else match sink.closing with
    | some cause => .error (.closing cause)
    | none => .ok (body ++ "\n")

def write (h : Hierarchy cfg) (sink : Sink) : Except Fault String :=
  writeBody (document h).pretty sink

end Export

end Rollup
