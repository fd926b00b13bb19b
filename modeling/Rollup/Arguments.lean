import Rollup.Text.Decimal
import Rollup.Text.Split

/-!
Command line arguments. Options are read from left to right. A value stands in the next argument
or is attached: `--name=value`, `-nvalue` or `-n=value`. Short flags may share one dash. Nothing
may be given twice, and there are no positional arguments. A request for help counts as soon as
it is reached, unless something before it was wrong.
-/
namespace Rollup

structure Arguments where
  layout : Option String
  perLeaf : UInt32
  cpus : Option UInt32
  flushIntervalMs : UInt64
  exportPath : Option String
  check : Bool
  quiet : Bool
  deriving DecidableEq, Repr

namespace Arguments

/-- The interval of background flushes, where zero turns them off. -/
def interval (a : Arguments) : Option UInt64 :=
  if a.flushIntervalMs = 0 then none else some a.flushIntervalMs

inductive Rejection where
  | help
  | usage
  deriving DecidableEq, Repr

inductive Setting where
  | layout
  | perLeaf
  | cpus
  | flushInterval
  | exportPath
  deriving DecidableEq, Repr

inductive Flag where
  | check
  | quiet
  | help
  deriving DecidableEq, Repr

inductive Name where
  | setting (s : Setting)
  | flag (f : Flag)
  deriving DecidableEq, Repr

def ofLong (name : String) : Option Name :=
  match name with
  | "layout" => some (.setting .layout)
  | "per-leaf" => some (.setting .perLeaf)
  | "cpus" => some (.setting .cpus)
  | "flush-interval-ms" => some (.setting .flushInterval)
  | "export" => some (.setting .exportPath)
  | "check" => some (.flag .check)
  | "quiet" => some (.flag .quiet)
  | "help" => some (.flag .help)
  | _ => none

def ofShort (c : Char) : Option Name :=
  match c with
  | 'l' => some (.setting .layout)
  | 'n' => some (.setting .perLeaf)
  | 'q' => some (.flag .quiet)
  | 'h' => some (.flag .help)
  | _ => none

structure Given where
  layout : Option String
  perLeaf : Option UInt32
  cpus : Option UInt32
  flushInterval : Option UInt64
  exportPath : Option String
  check : Bool
  quiet : Bool

namespace Given

def nothing : Given := ⟨none, none, none, none, none, false, false⟩

def toArguments (g : Given) : Arguments where
  layout := g.layout
  perLeaf := g.perLeaf.getD 3
  cpus := g.cpus
  flushIntervalMs := g.flushInterval.getD 0
  exportPath := g.exportPath
  check := g.check
  quiet := g.quiet

end Given

def unsigned? : List Char → Option Nat
  | '+' :: digits => Decimal.nat? digits
  | digits => Decimal.nat? digits

def signed? : List Char → Option Int
  | '-' :: digits => (Decimal.nat? digits).map fun n => -(n : Int)
  | text => (unsigned? text).map Int.ofNat

/-- A whole number from `least` on that fits 32 bits. -/
def word32? (least : Int) (text : List Char) : Option UInt32 :=
  match signed? text with
  | some n => if least ≤ n ∧ n < UInt32.size then some (UInt32.ofNat n.toNat) else none
  | none => none

def word64? (text : List Char) : Option UInt64 :=
  match unsigned? text with
  | some n => if n < UInt64.size then some (UInt64.ofNat n) else none
  | none => none

def file? (text : List Char) : Option String :=
  if text = [] then none else some (String.ofList text)

def fill {α : Type} (place value : Option α) (put : α → Given) : Except Rejection Given :=
  match place, value with
  | none, some v => .ok (put v)
  | _, _ => .error .usage

def set (g : Given) (s : Setting) (value : List Char) : Except Rejection Given :=
  match s with
  | .layout => fill g.layout (file? value) fun v => { g with layout := some v }
  | .perLeaf => fill g.perLeaf (word32? 0 value) fun v => { g with perLeaf := some v }
  | .cpus => fill g.cpus (word32? 1 value) fun v => { g with cpus := some v }
  | .flushInterval => fill g.flushInterval (word64? value) fun v =>
    { g with flushInterval := some v }
  | .exportPath => fill g.exportPath (file? value) fun v => { g with exportPath := some v }

def raise (g : Given) (f : Flag) : Except Rejection Given :=
  match f with
  | .help => .error .help
  | .check => if g.check then .error .usage else .ok { g with check := true }
  | .quiet => if g.quiet then .error .usage else .ok { g with quiet := true }

def attached : List Char → List Char
  | '=' :: value => value
  | value => value

def readCluster (g : Given) : List Char → Except Rejection (Given × Option Setting)
  | [] => .ok (g, none)
  | c :: rest =>
    match ofShort c with
    | none => .error .usage
    | some (.flag f) =>
      match raise g f with
      | .ok g => readCluster g rest
      | .error rejection => .error rejection
    | some (.setting s) =>
      if rest = [] then .ok (g, some s)
      else match set g s (attached rest) with
        | .ok g => .ok (g, none)
        | .error rejection => .error rejection

def readLong (g : Given) (text : List Char) : Except Rejection (Given × Option Setting) :=
  match Text.cut '=' text with
  | some (name, value) =>
    match ofLong (String.ofList name) with
    | some (.setting s) =>
      match set g s value with
      | .ok g => .ok (g, none)
      | .error rejection => .error rejection
    | _ => .error .usage
  | none =>
    match ofLong (String.ofList text) with
    | some (.setting s) => .ok (g, some s)
    | some (.flag f) =>
      match raise g f with
      | .ok g => .ok (g, none)
      | .error rejection => .error rejection
    | none => .error .usage

def readOption (g : Given) : List Char → Except Rejection (Given × Option Setting)
  | '-' :: '-' :: text => readLong g text
  | ['-'] => .error .usage
  | '-' :: letters => readCluster g letters
  | _ => .error .usage

def isValue : List Char → Bool
  | ['-'] => true
  | '-' :: _ => false
  | _ => true

def readAll (g : Given) : List (List Char) → Except Rejection Given
  | [] => .ok g
  | ['-', '-'] :: rest => if rest = [] then .ok g else .error .usage
  | arg :: rest =>
    match readOption g arg with
    | .error rejection => .error rejection
    | .ok (g, none) => readAll g rest
    | .ok (g, some s) =>
      match rest with
      | [] => .error .usage
      | value :: rest =>
        if isValue value then
          match set g s value with
          | .ok g => readAll g rest
          | .error rejection => .error rejection
        else .error .usage

def read (args : List String) : Except Rejection Arguments :=
  match readAll .nothing (args.map String.toList) with
  | .ok g => .ok g.toArguments
  | .error rejection => .error rejection

def ofCommandLine (argv : List String) : Except Rejection Arguments := read argv.tail

end Arguments

end Rollup
