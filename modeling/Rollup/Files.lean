import Rollup.Path

/-!
The files that a run sees: directories, regular files and devices below one root. A path is
followed name by name, each name in the directory to which those before it lead; `..` leads one
level back, and at the root stays there.

Reading follows a path to its end. Creating follows it up to its last name, which need not be
there yet, and takes no path that ends in a slash. It empties what is there, and so may take from a
run what it has printed (`Output.after`). What is written to a file is found by the next read at any
path that leads there, and no other file changes: `entry_put`.
-/
namespace Rollup

inductive FileFault where
  | missing
  | denied
  | notDirectory
  | isDirectory
  | full
  | nameTooLong
  | notText
  | other (cause : String)
  deriving DecidableEq, Repr

def FileFault.message : FileFault → String
  | .missing => "No such file or directory (os error 2)"
  | .denied => "Permission denied (os error 13)"
  | .notDirectory => "Not a directory (os error 20)"
  | .isDirectory => "Is a directory (os error 21)"
  | .full => "No space left on device (os error 28)"
  | .nameTooLong => "File name too long (os error 36)"
  | .notText => "stream did not contain valid UTF-8"
  | .other cause => cause

/-- What is written to a device is not kept among the files. A `sink` takes everything and `full`
    nothing; `output` and `errors` are the two outputs of the run, under whatever name. -/
inductive Device where
  | sink
  | full
  | output
  | errors
  deriving DecidableEq, Repr

/-- The output of a run is a stream, such as a pipe or a terminal, which keeps all that is printed,
    or else a file, which is emptied when it is created again. The error output is a stream. -/
inductive Output where
  | stream
  | file (before : ByteArray)

namespace Output

def after (output : Output) (printed document : String) : String :=
  match output with
  | .stream => printed ++ document
  | .file _ => document

end Output

inductive Entry where
  | directory
  | file (content : ByteArray)
  | device (device : Device)

/-- The names from an entry back to the root, which has none. -/
abbrev Location := List String

structure Files where
  entries : List (Location × Entry)
  here : Location
  output : Output := .stream

namespace Files

def nameLimit : Nat := 255

def pathLimit : Nat := 4095

def entry (fs : Files) (place : Location) : Option Entry :=
  if place = [] then some .directory else fs.entries.lookup place

def put (fs : Files) (place : Location) (content : ByteArray) : Files :=
  { fs with entries := (place, .file content) :: fs.entries }

theorem entry_put (fs : Files) {place : Location} (content : ByteArray) (inside : place ≠ [])
    (other : Location) :
    (fs.put place content).entry other =
      if other = place then some (.file content) else fs.entry other := by
  by_cases same : other = place
  · subst same
    simp [put, entry, inside]
  · have differs : (other == place) = false := by simpa using same
    simp [put, entry, same, List.lookup_cons, differs]

def isDirectory (fs : Files) (place : Location) : Bool :=
  match fs.entry place with
  | some .directory => true
  | _ => false

def step (fs : Files) (place : Location) (name : String) : Except FileFault Location :=
  if !fs.isDirectory place then .error .notDirectory
  else if name = "." then .ok place
  else if name = ".." then .ok place.tail
  else if nameLimit < name.utf8ByteSize then .error .nameTooLong
  else match fs.entry (name :: place) with
    | some _ => .ok (name :: place)
    | none => .error .missing

def walk (fs : Files) (place : Location) : List String → Except FileFault Location
  | [] => .ok place
  | name :: rest =>
    match fs.step place name with
    | .error fault => .error fault
    | .ok next => fs.walk next rest

def startOf (fs : Files) (path : String) : Location :=
  if path.toList.head? = some '/' then [] else fs.here

def endsInSlash (path : String) : Bool := path.toList.getLast? = some '/'

def checkSize (path : String) : Except FileFault Unit :=
  if path = "" then .error .missing
  else if pathLimit < path.utf8ByteSize then .error .nameTooLong
  else .ok ()

def held (fs : Files) : Device → ByteArray
  | .output =>
    match fs.output with
    | .stream => .empty
    | .file before => before
  | _ => .empty

def read (fs : Files) (path : String) : Except FileFault ByteArray :=
  match checkSize path with
  | .error fault => .error fault
  | .ok () =>
    match fs.walk (fs.startOf path) (Path.components path) with
    | .error fault => .error fault
    | .ok place =>
      match fs.entry place with
      | none => .error .missing
      | some .directory => .error .isDirectory
      | some (.file content) => if endsInSlash path then .error .notDirectory else .ok content
      | some (.device device) =>
        if endsInSlash path then .error .notDirectory else .ok (fs.held device)

inductive Target where
  | file (place : Location)
  | device (device : Device)
  deriving DecidableEq, Repr

def targetIn (fs : Files) (place : Location) (name : String) : Except FileFault Target :=
  if nameLimit < name.utf8ByteSize then .error .nameTooLong
  else match fs.entry (name :: place) with
    | some .directory => .error .isDirectory
    | some (.device device) => .ok (.device device)
    | some (.file _) => .ok (.file (name :: place))
    | none => .ok (.file (name :: place))

def target (fs : Files) (path : String) : Except FileFault Target :=
  match checkSize path with
  | .error fault => .error fault
  | .ok () =>
    let names := Path.components path
    match names.getLast? with
    | none => .error .isDirectory
    | some last =>
      match fs.walk (fs.startOf path) names.dropLast with
      | .error fault => .error fault
      | .ok place =>
        if !fs.isDirectory place then .error .notDirectory
        else if last = "." ∨ last = ".." ∨ endsInSlash path then .error .isDirectory
        else fs.targetIn place last

end Files

end Rollup
