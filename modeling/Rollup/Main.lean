import Rollup.Program

/-!
The program as a command. All that happens here is reading the layout file and the number of CPUs,
printing what a run reports, and writing its document.
-/
namespace Rollup.Command

def usage : String :=
  "Aggregate per-CPU event counts up a hierarchy of groups\n\n" ++
  "Usage: rstat [OPTIONS]\n\n" ++
  "Options:\n" ++
  "  -l, --layout <FILE>           JSON file with the node paths to create\n" ++
  "  -n, --per-leaf <PER_LEAF>     Actors attached to every leaf [default: 3]\n" ++
  "      --cpus <CPUS>             Per-CPU slots [default: possible CPUs of the machine]\n" ++
  "      --flush-interval-ms <MS>  Flush in the background [default: 0]\n" ++
  "      --export <FILE>           Export a JSON snapshot of every node\n" ++
  "      --check                   Verify leaf counts and additivity\n" ++
  "  -q, --quiet                   Suppress non-essential output\n" ++
  "  -h, --help                    Print help\n"

def faultOf (e : IO.Error) : FileFault :=
  match e with
  | .noFileOrDirectory .. => .missing
  | .permissionDenied .. => .denied
  | .inappropriateType _ 20 _ => .notDirectory
  | .inappropriateType .. => .isDirectory
  | .resourceExhausted _ 28 _ => .full
  | .invalidArgument _ 36 _ => .nameTooLong
  | other => .other (toString other)

def readText (path : String) : IO (Option String) := do
  try
    return some (← IO.FS.readFile path)
  catch _ => return none

def possibleCpus : IO Nat := do
  let list ← readText "/sys/devices/system/cpu/possible"
  let status ← readText "/proc/self/status"
  return CpuList.slotsOf list (status.bind CpuList.usable?)

def readLayout (path : Option String) : IO (Except FileFault ByteArray) := do
  match path with
  | none => return .ok ByteArray.empty
  | some path =>
    try
      return .ok (← IO.FS.readBinFile path)
    catch e => return .error (faultOf e)

def fill (file : IO.FS.Handle) (document : Program.Document) :
    IO (Except Program.Unsaved Unit) := do
  try
    file.putStr (document.body ++ "\n")
    file.flush
    return .ok ()
  catch e =>
    match Export.writeBody document.body (.blocked (faultOf e).message) with
    | .error fault => return .error (.notWritten fault)
    | .ok _ => return .ok ()

def create (path : String) : IO (Except FileFault IO.FS.Handle) := do
  try
    return .ok (← IO.FS.Handle.mk path .write)
  catch e => return .error (faultOf e)

def save (document : Program.Document) : IO (Except Program.Unsaved Unit) := do
  match ← create document.path with
  | .error fault => return .error (.notCreated fault)
  | .ok file => fill file document

def runWith (arguments : Arguments) : IO UInt32 := do
  let around : Program.Surroundings :=
    { file := ← readLayout arguments.layout
      cpus := ← possibleCpus
      placement := fun i => ⟨UInt32.ofNat i⟩ }
  let report := Program.run arguments around
  IO.print report.out
  (← IO.getStdout).flush
  IO.eprint report.err
  match report.document with
  | none => return report.status.code.toUInt32
  | some document =>
    let last := Program.Report.conclude { report with err := "" } document (← save document)
    IO.eprint last.err
    return last.status.code.toUInt32

end Rollup.Command

open Rollup in
def main (args : List String) : IO UInt32 := do
  match Arguments.read args with
  | .ok arguments => Command.runWith arguments
  | .error .help =>
    IO.print Command.usage
    return 0
  | .error .usage =>
    IO.eprint Command.usage
    return 2
