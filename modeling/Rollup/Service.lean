import Rollup.Race
import Rollup.Worker

/-!
The flush worker among its callers, while writers go on recording.

Callers ask for flushes, call for an answer and wait for it, and close the inbox. A call that finds
no room waits for some, and as long as one waits nobody can close the inbox. The worker takes a
message, or its interval passes, or it starts its last flush; it then flushes as the flusher of a
race does, one step at a time. Every step is atomic, and after any step any other may follow, so the
inbox may fill up or close while a flush is under way.
-/
namespace Rollup

inductive Occasion where
  | message (m : Message)
  | tick
  | last
  deriving DecidableEq, Repr

def Worker.flushed (w : Worker) (result : Except NodeFault Summary) : Occasion → Worker
  | .message m => { w with flushes := w.flushes + 1 }.reply m result
  | .tick => { w with flushes := w.flushes + 1 }
  | .last => { w with flushes := w.flushes + 1, stopped := true }

structure Service (cfg : Config) where
  race : Race cfg
  worker : Worker
  /-- Calls for an answer so far. A call goes by the number of those before it. -/
  calls : Nat
  waiting : List Nat
  serving : Option Occasion
  accepted : List Message
  served : List Occasion

inductive Turn where
  | count (writer key : Nat) (cpu : Cpu) (delta : UInt64)
  | mark (writer : Nat)
  | request
  | call
  | enter (call : Nat)
  | close
  | receive
  | tick
  | last
  | flush
  deriving DecidableEq, Repr

namespace Service

variable {cfg : Config}

def start (h : Hierarchy cfg) : Service cfg := ⟨.start h, .spawned, 0, [], none, [], []⟩

def occasions (s : Service cfg) : List Occasion := s.served ++ s.serving.toList

def begun (s : Service cfg) : Nat := s.occasions.length

def repliesTo (s : Service cfg) (call : Nat) : List (Except NodeFault Summary) :=
  (s.worker.replies.filter fun e => e.1 = call).map Prod.snd

def withInbox (s : Service cfg) (w : Worker) : Service cfg :=
  { s with worker := w, accepted := s.accepted ++ w.inbox.drop s.worker.inbox.length }

def request (s : Service cfg) : Service cfg := s.withInbox s.worker.request

def call (s : Service cfg) : Service cfg :=
  if s.worker.accepting then { s with calls := s.calls + 1, waiting := s.waiting ++ [s.calls] }
  else s

def enter (s : Service cfg) (call : Nat) : Service cfg :=
  if call ∈ s.waiting then
    match s.worker.submit call with
    | some w => { s.withInbox w with waiting := s.waiting.erase call }
    | none => s
  else s

/-- A call that waits still has hold of the worker. -/
def close (s : Service cfg) : Service cfg :=
  if s.waiting = [] then { s with worker := s.worker.close } else s

def begin (s : Service cfg) (o : Occasion) : Service cfg :=
  { s with race := s.race.flush, serving := some o }

def isFree (s : Service cfg) : Bool := s.serving.isNone && !s.worker.stopped

def receive (s : Service cfg) : Service cfg :=
  match s.worker.inbox with
  | [] => s
  | m :: rest =>
    if s.isFree then { s with worker := { s.worker with inbox := rest } }.begin (.message m) else s

def tick (s : Service cfg) : Service cfg := if s.isFree then s.begin .tick else s

def last (s : Service cfg) : Service cfg :=
  if s.isFree && !s.worker.accepting && s.worker.inbox.isEmpty then s.begin .last else s

def done (s : Service cfg) (r : Race cfg) (result : Except NodeFault Summary) (o : Occasion) :
    Service cfg :=
  { s with race := r, worker := s.worker.flushed result o, serving := none,
           served := s.served ++ [o] }

def flush (s : Service cfg) : Service cfg :=
  match s.serving with
  | none => s
  | some o =>
    let r := s.race.flush
    match r.flusher, r.results.getLast? with
    | .idle, some result => s.done r result o
    | _, _ => { s with race := r }

def step (s : Service cfg) : Turn → Service cfg
  | .count writer key cpu delta => { s with race := s.race.count writer key cpu delta }
  | .mark writer => { s with race := s.race.mark writer }
  | .request => s.request
  | .call => s.call
  | .enter call => s.enter call
  | .close => s.close
  | .receive => s.receive
  | .tick => s.tick
  | .last => s.last
  | .flush => s.flush

def run (s : Service cfg) (turns : List Turn) : Service cfg := turns.foldl step s

end Service

end Rollup
