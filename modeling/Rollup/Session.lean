import Rollup.Actors
import Rollup.Export
import Rollup.Layout
import Rollup.Worker

/-!
Sessions: one hierarchy, the handles and nodes that its user keeps under names, and at most one
background worker. A session goes on by steps, and every step has an answer. What is kept under a
name is referred to until the name is dropped or used anew.
-/
namespace Rollup

structure Session (cfg : Config) where
  hierarchy : Hierarchy cfg
  handles : List (String × Handle)
  held : List (String × Nat)
  worker : Option Worker
  here : Cpu

inductive Step where
  | create (parent : NodeId) (name : String)
  | createWithId (id parent : NodeId) (name : String)
  | createPath (path : String)
  | build (layout : Layout)
  | remove (id : NodeId)
  | detach (id : NodeId)
  | lookup (path : String)
  | pathOf (id : NodeId)
  | ancestors (id : NodeId)
  | children (id : NodeId)
  | contains (id : NodeId)
  | info (id : NodeId)
  | sizes
  | add (id : NodeId) (cpu : Cpu) (delta : UInt64)
  | incrementHere (id : NodeId)
  | actors (ids : List NodeId) (perNode : Nat)
  | takeHandle (id : NodeId) (name : String)
  | shareHandle (name copy : String)
  | handleAdd (name : String) (cpu : Cpu) (delta : UInt64)
  | handleIncrementHere (name : String)
  | dropHandle (name : String)
  | hold (id : NodeId) (name : String)
  | heldCount (name : String) (cpu : Cpu) (delta : UInt64)
  | heldMark (name : String) (cpu : Cpu)
  | heldRequeue (name : String)
  | heldDrain (name : String)
  | heldInfo (name : String)
  | dropHeld (name : String)
  | flush
  | flushCount
  | read (id : NodeId)
  | dump (id : NodeId)
  | flushDump (id : NodeId)
  | check
  | snapshot
  | exportTo (sink : Export.Sink)
  | pending
  | queued (id : NodeId)
  | drain
  | drainTake (count : Nat)
  | drainAround (name : String) (count : Nat) (cpu : Cpu)
  | spawnWorker
  | requestSync (requests : Nat)
  | requestShutdown (requests : Nat)
  | dropWorker

structure Sizes where
  nodes : Nat
  configured : Nat
  slots : Nat
  root : NodeId
  deriving DecidableEq, Repr

inductive Answer where
  | done
  | id (id : NodeId)
  | ids (ids : List NodeId)
  | found (id : Option NodeId)
  | text (text : String)
  | truth (b : Bool)
  | number (n : Nat)
  | view (view : NodeView)
  | sizes (sizes : Sizes)
  | handle (id : NodeId) (text : String)
  | summary (summary : Summary)
  | record (record : Record)
  | snapshot (views : List NodeView)
  | document (nodes : Nat) (text : String)
  | pending (entries : Nat)
  | yielded (count left : Nat)
  /-- How many entries came before a mark, all of them, and how many stayed queued. -/
  | around (first : Nat) (ids : List NodeId) (left : Nat)
  | nodeFault (fault : NodeFault)
  | actorFault (fault : NodeFault)
  | pathFault (fault : PathFault)
  | layoutFault (fault : Layout.Fault)
  | exportFault (fault : Export.Fault)
  | unknownName

namespace Answer

def ofResult {α : Type} (value : α → Answer) : Except NodeFault α → Answer
  | .ok a => value a
  | .error fault => .nodeFault fault

end Answer

namespace Session

variable {cfg : Config}

def start (cfg : Config) : Session cfg := ⟨Hierarchy.new cfg, [], [], none, ⟨0⟩⟩

def withHierarchy (s : Session cfg) (h : Hierarchy cfg) : Session cfg := { s with hierarchy := h }

def without {α : Type} (name : String) (entries : List (String × α)) : List (String × α) :=
  entries.filter fun e => e.1 ≠ name

def released (h : Hierarchy cfg) : Option Nat → Hierarchy cfg
  | some k => h.release k
  | none => h

def keepHandle (s : Session cfg) (h : Hierarchy cfg) (name : String) (handle : Handle) :
    Session cfg :=
  { s with
    hierarchy := released h ((s.handles.lookup name).map Handle.key)
    handles := (name, handle) :: without name s.handles }

def dropHandle (s : Session cfg) (name : String) : Session cfg × Answer :=
  match s.handles.lookup name with
  | none => (s, .truth false)
  | some handle =>
    ({ s with hierarchy := handle.giveUp s.hierarchy, handles := without name s.handles },
      .truth true)

def keepHeld (s : Session cfg) (h : Hierarchy cfg) (name : String) (k : Nat) : Session cfg :=
  { s with
    hierarchy := released h (s.held.lookup name)
    held := (name, k) :: without name s.held }

def dropHeld (s : Session cfg) (name : String) : Session cfg × Answer :=
  match s.held.lookup name with
  | none => (s, .truth false)
  | some k =>
    ({ s with hierarchy := s.hierarchy.release k, held := without name s.held }, .truth true)

def onHeld (s : Session cfg) (name : String) (act : Nat → Hierarchy cfg × Answer) :
    Session cfg × Answer :=
  match s.held.lookup name with
  | none => (s, .unknownName)
  | some k =>
    let (h, answer) := act k
    (s.withHierarchy h, answer)

def onHandle (s : Session cfg) (name : String) (act : Handle → Hierarchy cfg) :
    Session cfg × Answer :=
  match s.handles.lookup name with
  | none => (s, .unknownName)
  | some handle => (s.withHierarchy (act handle), .done)

def drainCounter (h : Hierarchy cfg) (k : Nat) : Hierarchy cfg × Answer :=
  match (h.node k).counter.drain with
  | .error fault => (h, .nodeFault (.inconsistent (.counter fault)))
  | .ok (own, counter) => (h.update k fun s => { s with counter }, .number own.toNat)

def sortedIds (h : Hierarchy cfg) (ks : List Nat) : List NodeId :=
  (ks.map fun k => (h.node k).id).mergeSort fun a b => a.val ≤ b.val

def drainTake (h : Hierarchy cfg) (count : Nat) : Hierarchy cfg × Answer :=
  let (taken, d, h) := (Drain.start cfg).take h count
  let h := d.stop h
  (h, .yielded taken.length h.pendingCount)

def drainAround (h : Hierarchy cfg) (count k : Nat) (cpu : Cpu) : Hierarchy cfg × Answer :=
  let (first, d, h) := (Drain.start cfg).take h count
  let (rest, h) := d.rest (h.mark k cpu)
  (h, .around first.length (sortedIds h (first ++ rest)) h.pendingCount)

def dropWorker (s : Session cfg) : Session cfg :=
  match s.worker with
  | none => s
  | some w => { s with hierarchy := (Worker.shutdown s.hierarchy w).1, worker := none }

def requestSync (s : Session cfg) (requests : Nat) : Session cfg × Answer :=
  match s.worker with
  | none => (s, .unknownName)
  | some w =>
    let (h, w, result) := Worker.flushSync s.hierarchy (w.requestTimes requests) w.replies.length
    ({ s with hierarchy := h, worker := some w }, .ofResult .summary result)

def requestShutdown (s : Session cfg) (requests : Nat) : Session cfg × Answer :=
  match s.worker with
  | none => (s, .unknownName)
  | some w =>
    let (h, flushes) := Worker.shutdown s.hierarchy (w.requestTimes requests)
    ({ s with hierarchy := h, worker := none }, .number flushes)

def change {α : Type} (s : Session cfg) (value : α → Answer)
    (outcome : Hierarchy cfg × Except NodeFault α) : Session cfg × Answer :=
  (s.withHierarchy outcome.1, .ofResult value outcome.2)

def sizes (h : Hierarchy cfg) : Sizes := ⟨h.index.size, cfg.cpus, cfg.slots, NodeId.root⟩

def step (s : Session cfg) : Step → Session cfg × Answer
  | .create parent name => s.change .id (s.hierarchy.create parent name)
  | .createWithId id parent name => s.change .id (s.hierarchy.createWithId id parent name)
  | .createPath path =>
    match s.hierarchy.createPath path with
    | (h, .ok id) => (s.withHierarchy h, .id id)
    | (h, .error fault) => (s.withHierarchy h, .pathFault fault)
  | .build layout =>
    match layout.build s.hierarchy with
    | (h, .ok ids) => (s.withHierarchy h, .ids ids)
    | (h, .error fault) => (s.withHierarchy h, .layoutFault fault)
  | .remove id => s.change (fun _ => .done) (s.hierarchy.remove id)
  | .detach id => s.change (fun k => .id (s.hierarchy.node k).id) (s.hierarchy.detach id)
  | .lookup path => (s, .found (s.hierarchy.lookupId path))
  | .pathOf id => (s, .ofResult (fun k => .text (s.hierarchy.pathOf k)) (s.hierarchy.find id))
  | .ancestors id => (s, .ofResult .ids (s.hierarchy.ancestorIds id))
  | .children id =>
    (s, .ofResult (fun k => .ids (s.hierarchy.childIds k)) (s.hierarchy.find id))
  | .contains id => (s, .truth (s.hierarchy.index.contains id))
  | .info id => (s, .ofResult (fun k => .view (s.hierarchy.view k)) (s.hierarchy.find id))
  | .sizes => (s, .sizes (sizes s.hierarchy))
  | .add id cpu delta => s.change (fun _ => .done) (s.hierarchy.add id cpu delta)
  | .incrementHere id => s.change (fun _ => .done) (s.hierarchy.add id s.here 1)
  | .actors ids perNode =>
    match Actors.attach s.hierarchy ids perNode fun _ => s.here with
    | (h, .ok attached) => (s.withHierarchy h, .number attached)
    | (h, .error fault) => (s.withHierarchy h, .actorFault fault)
  | .takeHandle id name =>
    match Handle.ofId s.hierarchy id with
    | (h, .ok handle) => (s.keepHandle h name handle, .handle id (handle.describe h))
    | (h, .error fault) => (s.withHierarchy h, .nodeFault fault)
  | .shareHandle name copy =>
    match s.handles.lookup name with
    | none => (s, .unknownName)
    | some handle => (s.keepHandle (handle.share s.hierarchy) copy handle, .done)
  | .handleAdd name cpu delta => s.onHandle name fun handle => handle.add s.hierarchy cpu delta
  | .handleIncrementHere name =>
    s.onHandle name fun handle => handle.increment s.hierarchy s.here
  | .dropHandle name => s.dropHandle name
  | .hold id name =>
    match s.hierarchy.find id with
    | .ok k => (s.keepHeld (s.hierarchy.hold k) name k, .done)
    | .error fault => (s, .nodeFault fault)
  | .heldCount name cpu delta => s.onHeld name fun k => (s.hierarchy.count k cpu delta, .done)
  | .heldMark name cpu => s.onHeld name fun k => (s.hierarchy.mark k cpu, .done)
  | .heldRequeue name => s.onHeld name fun k => (s.hierarchy.requeue k, .done)
  | .heldDrain name => s.onHeld name fun k => drainCounter s.hierarchy k
  | .heldInfo name => s.onHeld name fun k => (s.hierarchy, .view (s.hierarchy.view k))
  | .dropHeld name => s.dropHeld name
  | .flush => s.change .summary s.hierarchy.flush
  | .flushCount => (s, .number s.hierarchy.flushes)
  | .read id => (s, .ofResult .record (s.hierarchy.read id))
  | .dump id => (s, .ofResult .text (s.hierarchy.dump id))
  | .flushDump id => s.change .text (s.hierarchy.flushAndDump id)
  | .check => (s, .ofResult (fun _ => .done) s.hierarchy.checkBalance)
  | .snapshot => (s, .snapshot s.hierarchy.snapshot)
  | .exportTo sink =>
    match Export.write s.hierarchy sink with
    | .ok text => (s, .document s.hierarchy.snapshot.length text)
    | .error fault => (s, .exportFault fault)
  | .pending => (s, .pending s.hierarchy.pendingCount)
  | .queued id => (s, .truth (s.hierarchy.isQueued id))
  | .drain =>
    let (taken, h) := s.hierarchy.drainAll
    (s.withHierarchy h, .ids (sortedIds h taken))
  | .drainTake count =>
    let (h, answer) := drainTake s.hierarchy count
    (s.withHierarchy h, answer)
  | .drainAround name count cpu => s.onHeld name fun k => drainAround s.hierarchy count k cpu
  | .spawnWorker => ({ s.dropWorker with worker := some .spawned }, .done)
  | .requestSync requests => s.requestSync requests
  | .requestShutdown requests => s.requestShutdown requests
  | .dropWorker => (s.dropWorker, .truth s.worker.isSome)

def run (s : Session cfg) (steps : List Step) : Session cfg :=
  steps.foldl (fun s t => (s.step t).1) s

end Session

end Rollup
