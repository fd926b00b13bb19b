import Rollup.Hierarchy.Flush

/-!
The background flusher. Callers leave messages in an inbox of fixed capacity, and the worker takes
them in the order of their arrival and flushes once for each. A request that finds the inbox full
is dropped, since the messages before it flush later than it came. A caller that wants an answer
waits for room and then for the reply. Once the inbox is closed and empty, the worker flushes a
last time and stops.

Every function here is one step of a caller or of the worker; `flushSync` and `shutdown` run the
steps of a caller who has the worker to himself.
-/
namespace Rollup

inductive Message where
  | request
  | sync (caller : Nat)
  deriving DecidableEq, Repr

structure Worker where
  inbox : List Message
  accepting : Bool
  stopped : Bool
  /-- Flushes that the worker has run, finished or failed, counted without the bound `2 ^ 64` that
      a word has. -/
  flushes : Nat
  replies : List (Nat × Except NodeFault Summary)

namespace Worker

variable {cfg : Config}

/-- Messages beyond this many wait outside or are dropped. -/
def capacity : Nat := 4

def spawned : Worker := ⟨[], true, false, 0, []⟩

def hasRoom (w : Worker) : Bool := w.inbox.length < capacity

def request (w : Worker) : Worker :=
  if w.accepting && w.hasRoom then { w with inbox := w.inbox ++ [.request] } else w

def submit (w : Worker) (caller : Nat) : Option Worker :=
  if w.accepting && w.hasRoom then some { w with inbox := w.inbox ++ [.sync caller] } else none

def close (w : Worker) : Worker := { w with accepting := false }

def reply (w : Worker) (m : Message) (result : Except NodeFault Summary) : Worker :=
  match m with
  | .request => w
  | .sync caller => { w with replies := (caller, result) :: w.replies }

def serve (h : Hierarchy cfg) (w : Worker) (m : Message) : Hierarchy cfg × Worker :=
  let (h, result) := h.flush
  (h, { w with flushes := w.flushes + 1 }.reply m result)

def receive (h : Hierarchy cfg) (w : Worker) : Option (Hierarchy cfg × Worker) :=
  match w.inbox with
  | [] => none
  | m :: rest => if w.stopped then none else some (serve h { w with inbox := rest } m)

def tick (h : Hierarchy cfg) (w : Worker) : Option (Hierarchy cfg × Worker) :=
  if w.stopped then none else some (h.flush.1, { w with flushes := w.flushes + 1 })

def finish (h : Hierarchy cfg) (w : Worker) : Option (Hierarchy cfg × Worker) :=
  if w.accepting || !w.inbox.isEmpty || w.stopped then none
  else some (h.flush.1, { w with flushes := w.flushes + 1, stopped := true })

def serveAll (h : Hierarchy cfg) (w : Worker) : List Message → Hierarchy cfg × Worker
  | [] => (h, w)
  | m :: rest =>
    let (h, w) := serve h w m
    serveAll h w rest

def catchUp (h : Hierarchy cfg) (w : Worker) : Hierarchy cfg × Worker :=
  serveAll h { w with inbox := [] } w.inbox

def requestTimes (w : Worker) : (times : Nat) → Worker
  | 0 => w
  | times + 1 => w.request.requestTimes times

/-- Leaves a message, after the worker has made room for it where it must, and waits for the
    reply. -/
def flushSync (h : Hierarchy cfg) (w : Worker) (caller : Nat) :
    Hierarchy cfg × Worker × Except NodeFault Summary :=
  let (h, w) := if w.hasRoom then (h, w) else (receive h w).getD (h, w)
  match w.submit caller with
  | none => (h, w, .error (.inconsistent .workerStopped))
  | some w =>
    let (h, w) := catchUp h w
    match w.replies.lookup caller with
    | some result => (h, w, result)
    | none => (h, w, .error (.inconsistent .workerStopped))

def shutdown (h : Hierarchy cfg) (w : Worker) : Hierarchy cfg × Nat :=
  let (h, w) := catchUp h w.close
  let (h, w) := (finish h w).getD (h, w)
  (h, w.flushes)

end Worker

end Rollup
