import Rollup.Actors
import Rollup.Arguments
import Rollup.CpuList
import Rollup.Export
import Rollup.Layout
import Rollup.Worker

/-!
One run of the program: build a layout, attach actors to its leaves, flush, dump every node, and
check and export on request. Dump lines go to the output, all else to the error output. The exit
status tells a bad layout or command line from any other failure.
-/
namespace Rollup

namespace Program

def version : String := "0.1.0"

inductive Status where
  | success
  | failure
  | usage
  deriving DecidableEq, Repr

def Status.code : Status → UInt8
  | .success => 0
  | .failure => 1
  | .usage => 2

/-- A document to be written once all else is done, and what to say after that. -/
structure Document where
  path : String
  body : String
  notice : String
  deriving DecidableEq, Repr

inductive Unsaved where
  | notCreated (fault : FileFault)
  | notWritten (fault : Export.Fault)
  deriving DecidableEq, Repr

structure Report where
  status : Status
  out : String
  err : String
  document : Option Document
  deriving DecidableEq, Repr

namespace Report

def begin : Report := ⟨.success, "", "", none⟩

def print (r : Report) (text : String) : Report := { r with out := r.out ++ text }

def note (r : Report) (quiet : Bool) (line : String) : Report :=
  if quiet then r else { r with err := r.err ++ line ++ "\n" }

def fail (r : Report) (status : Status) (cause : String) : Report :=
  { r with status, err := r.err ++ "error: " ++ cause ++ "\n" }

def conclude (r : Report) (document : Document) (outcome : Except Unsaved Unit) : Report :=
  match outcome with
  | .ok () => { r with err := r.err ++ document.notice }
  | .error (.notCreated fault) =>
    r.fail .failure ("Failed to create " ++ document.path ++ ": " ++ fault.message)
  | .error (.notWritten fault) =>
    r.fail .failure ("Failed to export " ++ document.path ++ ": " ++ fault.message)

end Report

structure Surroundings where
  file : Except FileFault ByteArray
  cpus : Nat
  placement : Nat → Cpu

def loadLayout (args : Arguments) (around : Surroundings) : Except String Layout :=
  match args.layout with
  | none => .ok Layout.reference
  | some path =>
    let outcome := match around.file with
      | .ok bytes => Layout.ofBytes bytes
      | .error cause => .error (.unreadable cause)
    match outcome with
    | .ok layout => .ok layout
    | .error fault => .error ("Failed to load layout " ++ path ++ ": " ++ fault.message)

def config (args : Arguments) (around : Surroundings) : Config :=
  match args.cpus with
  | some cpus => .clamped cpus.toNat
  | none => .clamped around.cpus

variable {cfg : Config}

def header (args : Arguments) (cfg : Config) (nodes leaves : Nat) (r : Report) : Report :=
  let r := r.note args.quiet ("rstat v" ++ version)
  let r := r.note args.quiet ("cpus: " ++ Decimal.text cfg.cpus)
  let r := r.note args.quiet
    ("nodes: " ++ Decimal.text nodes ++ " (" ++ Decimal.text leaves ++ " leaves)")
  match args.interval with
  | none => r
  | some interval =>
    r.note args.quiet ("background flush: every " ++ Decimal.text interval.toNat ++ "ms")

def dumpAll (h : Hierarchy cfg) : List NodeId → Except NodeFault String
  | [] => .ok ""
  | id :: ids =>
    match h.dump id with
    | .error fault => .error fault
    | .ok line =>
      match dumpAll h ids with
      | .error fault => .error fault
      | .ok lines => .ok (line ++ lines)

def checkLeaves (h : Hierarchy cfg) (perLeaf : UInt32) : List NodeId → Except String Unit
  | [] => .ok ()
  | leaf :: leaves =>
    match h.read leaf with
    | .error fault => .error fault.message
    | .ok record =>
      if record.counter.toNat = perLeaf.toNat then checkLeaves h perLeaf leaves
      else .error ("node " ++ leaf.text ++ " counted " ++ Decimal.text record.counter.toNat ++
        " events, expected " ++ Decimal.text perLeaf.toNat)

def check (h : Hierarchy cfg) (perLeaf : UInt32) (leaves : List NodeId) : Except String Unit :=
  match checkLeaves h perLeaf leaves with
  | .error cause => .error cause
  | .ok () =>
    match h.checkBalance with
    | .ok () => .ok ()
    | .error fault => .error ("Additivity check failed: " ++ fault.message)

def export? (args : Arguments) (h : Hierarchy cfg) (r : Report) : Report :=
  match args.exportPath with
  | none => r
  | some path =>
    { r with
      document := some
        { path
          body := (Export.document h).pretty
          notice := if args.quiet then "" else "saved: " ++ path ++ "\n" } }

def present (args : Arguments) (h : Hierarchy cfg) (ids leaves : List NodeId) (r : Report) :
    Report :=
  match dumpAll h (NodeId.root :: ids) with
  | .error fault => r.fail .failure fault.message
  | .ok lines =>
    let r := r.print lines
    if args.check then
      match check h args.perLeaf leaves with
      | .error cause => r.fail .failure cause
      | .ok () => export? args h (r.note args.quiet "check: ok")
    else export? args h r

def count (args : Arguments) (h : Hierarchy cfg) (leaves : List NodeId) (placement : Nat → Cpu) :
    Except String (Hierarchy cfg) :=
  match Actors.attach h leaves args.perLeaf.toNat placement with
  | (_, .error fault) => .error (Actors.failure fault)
  | (h, .ok _) =>
    match Worker.flushSync h .spawned 0 with
    | (_, _, .error fault) => .error ("Final flush failed: " ++ fault.message)
    | (h, _, .ok _) => .ok h

def runLayout (args : Arguments) (around : Surroundings) (layout : Layout) : Report :=
  let cfg := config args around
  match layout.build (Hierarchy.new cfg) with
  | (_, .error fault) => Report.begin.fail .usage ("Failed to build layout: " ++ fault.message)
  | (h, .ok ids) =>
    let leaves := layout.leaves.filterMap h.lookupId
    let r := header args cfg (ids.length + 1) leaves.length .begin
    match count args h leaves around.placement with
    | .error cause => r.fail .failure cause
    | .ok h => present args h ids leaves r

/-- A run up to the writing of its document. -/
def run (args : Arguments) (around : Surroundings) : Report :=
  match loadLayout args around with
  | .error cause => Report.begin.fail .usage cause
  | .ok layout => runLayout args around layout

def sinkOf : Device → Export.Sink
  | .full => .blocked FileFault.full.message
  | .sink => .unlimited
  | .output => .unlimited
  | .errors => .unlimited

/-- The report after a device was given the document, and what it took where that shows. -/
def saveOn (output : Output) (device : Device) (r : Report) (document : Document) : Report :=
  match Export.writeBody document.body (sinkOf device) with
  | .error fault => r.conclude document (.error (.notWritten fault))
  | .ok text =>
    match device with
    | .output => Report.conclude { r with out := output.after r.out text } document (.ok ())
    | .errors => Report.conclude { r with err := r.err ++ text } document (.ok ())
    | _ => r.conclude document (.ok ())

def save (files : Files) (r : Report) (document : Document) : Files × Report :=
  match files.target document.path with
  | .error fault => (files, r.conclude document (.error (.notCreated fault)))
  | .ok (.file place) =>
    (files.put place (document.body ++ "\n").toUTF8, r.conclude document (.ok ()))
  | .ok (.device device) => (files, saveOn files.output device r document)

def runAmong (args : Arguments) (files : Files) (cpus : Nat) (placement : Nat → Cpu) :
    Files × Report :=
  let r := run args ⟨files.read (args.layout.getD ""), cpus, placement⟩
  match r.document with
  | none => (files, r)
  | some document => save files r document

end Program

end Rollup
