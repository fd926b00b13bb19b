import Mathlib
import Rollup.Proofs.WordSums

/-!
The additions of words that a step of a session makes, outside its flushes and in them. A step may
flush in a removal or through the worker as well; `flushStarts` lists the states from which its
flushes start. While the events of the step and those before it fit a word, all these additions fit
(`additions_fit`), and every slot, total, pending or inherited count that the step changes becomes
the sum of one of them, but for pending counts that are passed on and cleared (`step_writes`).
-/
namespace Rollup

namespace Hierarchy

variable {cfg : Config}

theorem after_flushes_add (h : Hierarchy cfg) (first second : Nat) :
    h.afterFlushes (first + second) = (h.afterFlushes first).afterFlushes second := by
  induction first generalizing h with
  | zero => rw [Nat.zero_add, afterFlushes]
  | succ first ih =>
    rw [Nat.succ_add]
    exact ih h.flush.1

end Hierarchy

namespace Worker

variable {cfg : Config} {h h' h'' : Hierarchy cfg} {w w' w'' : Worker}

open Hierarchy

structure Advance (h : Hierarchy cfg) (w : Worker) (h' : Hierarchy cfg) (w' : Worker) : Prop where
  counted : w.flushes ≤ w'.flushes
  flushed : h' = h.afterFlushes (w'.flushes - w.flushes)

namespace Advance

theorem stay (h : Hierarchy cfg) (counted : w'.flushes = w.flushes) : Advance h w h w' := by
  refine ⟨Nat.le_of_eq counted.symm, ?_⟩
  rw [counted, Nat.sub_self]
  rfl

theorem once (counted : w'.flushes = w.flushes + 1) : Advance h w h.flush.1 w' := by
  refine ⟨by omega, ?_⟩
  rw [counted, Nat.add_sub_cancel_left]
  rfl

theorem trans (first : Advance h w h' w') (second : Advance h' w' h'' w'') :
    Advance h w h'' w'' := by
  have before := first.counted
  have after := second.counted
  refine ⟨Nat.le_trans before after, ?_⟩
  have split : w''.flushes - w.flushes = w'.flushes - w.flushes + (w''.flushes - w'.flushes) := by
    omega
  rw [split, after_flushes_add, ← first.flushed]
  exact second.flushed

end Advance

theorem serve_advances (h : Hierarchy cfg) (w : Worker) (m : Message) :
    Advance h w (serve h w m).1 (serve h w m).2 := by
  apply Advance.once
  cases m <;> rfl

theorem serve_all_advances (h : Hierarchy cfg) (w : Worker) (ms : List Message) :
    Advance h w (serveAll h w ms).1 (serveAll h w ms).2 := by
  induction ms generalizing h w with
  | nil => exact .stay h rfl
  | cons m ms ih => exact (serve_advances h w m).trans (ih _ _)

theorem catch_up_advances (h : Hierarchy cfg) (w : Worker) :
    Advance h w (catchUp h w).1 (catchUp h w).2 := by
  have emptied : Advance h w h { w with inbox := [] } := .stay h rfl
  exact emptied.trans (serve_all_advances h _ w.inbox)

theorem finish_advances (h : Hierarchy cfg) (w : Worker) :
    Advance h w ((finish h w).getD (h, w)).1 ((finish h w).getD (h, w)).2 := by
  unfold finish
  split
  · exact .stay h rfl
  · exact .once rfl

theorem receive_advances (h : Hierarchy cfg) (w : Worker) :
    Advance h w ((receive h w).getD (h, w)).1 ((receive h w).getD (h, w)).2 := by
  unfold receive
  split
  · exact .stay h rfl
  · rename_i m rest _
    split
    · exact .stay h rfl
    · have taken : Advance h w h { w with inbox := rest } := .stay h rfl
      exact taken.trans (serve_advances h _ m)

theorem shutdown_series (h : Hierarchy cfg) (w : Worker) :
    w.flushes ≤ (shutdown h w).2 ∧
      (shutdown h w).1 = h.afterFlushes ((shutdown h w).2 - w.flushes) := by
  have closed : Advance h w h w.close := .stay h rfl
  have stopped := (closed.trans (catch_up_advances h w.close)).trans (finish_advances _ _)
  exact ⟨stopped.counted, stopped.flushed⟩

theorem serve_all_append (h : Hierarchy cfg) (w : Worker) (ms : List Message) (m : Message) :
    serveAll h w (ms ++ [m]) = serve (serveAll h w ms).1 (serveAll h w ms).2 m := by
  induction ms generalizing h w with
  | nil => rfl
  | cons first ms ih => exact ih _ _

theorem flush_sync_series (h : Hierarchy cfg) (w : Worker) (caller : Nat) :
    Advance h w (flushSync h w caller).1 (flushSync h w caller).2.1 ∧
      ((flushSync h w caller).2.2 = .error (.inconsistent .workerStopped) ∨
        ∃ m, m < (flushSync h w caller).2.1.flushes - w.flushes ∧
          (flushSync h w caller).2.2 = (h.afterFlushes m).flush.2) := by
  obtain ⟨g, left, room, made⟩ : ∃ g left, Advance h w g left ∧
      (if w.hasRoom then (h, w) else (receive h w).getD (h, w)) = (g, left) := by
    split
    · exact ⟨h, w, .stay h rfl, rfl⟩
    · exact ⟨_, _, receive_advances h w, rfl⟩
  simp only [flushSync, made]
  by_cases admitted : (left.accepting && left.hasRoom) = true
  · simp only [submit, admitted, if_true, catchUp, serve_all_append]
    have emptied : Advance g left g { left with inbox := [] } := .stay g rfl
    have earlier := room.trans (emptied.trans (serve_all_advances g _ left.inbox))
    have last := serve_advances (serveAll g { left with inbox := [] } left.inbox).1
      (serveAll g { left with inbox := [] } left.inbox).2 (.sync caller)
    have whole := earlier.trans last
    generalize serveAll g { left with inbox := [] } left.inbox = served at earlier last whole ⊢
    simp only [serve, reply, List.lookup_cons_self] at whole ⊢
    refine ⟨whole, Or.inr ⟨served.2.flushes - w.flushes, ?_, ?_⟩⟩
    · have counted := earlier.counted
      omega
    · rw [← earlier.flushed]
  · simp only [submit, admitted]
    exact ⟨room, Or.inl rfl⟩

end Worker

namespace Session

variable {cfg : Config} {s : Session cfg} {n : Nat}

open Hierarchy

/-- The events that a step brings; actors bring none unless the nodes they are for are all found. -/
def brings (s : Session cfg) : Step → Nat
  | .actors ids perNode =>
    match Actors.resolve s.hierarchy ids with
    | .ok _ => ids.length * perNode
    | .error _ => 0
  | t => t.delta

def workerStarts (s : Session cfg) (counted : Worker → Nat) : List (Hierarchy cfg) :=
  match s.worker with
  | none => []
  | some w => s.hierarchy.flushSeries (counted w - w.flushes)

def flushStarts (s : Session cfg) : Step → List (Hierarchy cfg)
  | .flush => [s.hierarchy]
  | .flushDump id => if s.hierarchy.index.contains id then [s.hierarchy] else []
  | .remove id =>
    match s.hierarchy.detach id with
    | (h, .ok k) => [h.bequeath k]
    | (_, .error _) => []
  | .requestSync requests => s.workerStarts fun w =>
    (Worker.flushSync s.hierarchy (w.requestTimes requests) w.replies.length).2.1.flushes
  | .requestShutdown requests => s.workerStarts fun w =>
    (Worker.shutdown s.hierarchy (w.requestTimes requests)).2
  | .spawnWorker | .dropWorker => s.workerStarts fun w => (Worker.shutdown s.hierarchy w).2
  | _ => []

def ownSums (s : Session cfg) : Step → List Addition
  | .add id cpu delta =>
    (s.hierarchy.index[id]?).elim [] fun k => s.hierarchy.recordSums k cpu delta
  | .incrementHere id =>
    (s.hierarchy.index[id]?).elim [] fun k => s.hierarchy.recordSums k s.here 1
  | .handleAdd name cpu delta =>
    (s.handles.lookup name).elim [] fun handle => s.hierarchy.recordSums handle.key cpu delta
  | .handleIncrementHere name =>
    (s.handles.lookup name).elim [] fun handle => s.hierarchy.recordSums handle.key s.here 1
  | .heldCount name cpu delta =>
    (s.held.lookup name).elim [] fun k => s.hierarchy.countSums k cpu delta
  | .actors ids perNode =>
    match Actors.resolve s.hierarchy ids with
    | .ok handles =>
      s.hierarchy.workSums
        ((Actors.enrol handles perNode).zipIdx.map fun (handle, _) => (handle, s.here))
    | .error _ => []
  | .remove id =>
    match s.hierarchy.detach id with
    | (h, .ok k) => h.bequestSums k
    | (_, .error _) => []
  | _ => []

def additions (s : Session cfg) (t : Step) : List Addition :=
  s.ownSums t ++ (s.flushStarts t).flatMap Hierarchy.flushSums

theorem request_times_flushes (w : Worker) (times : Nat) :
    (w.requestTimes times).flushes = w.flushes := by
  induction times generalizing w with
  | zero => rfl
  | succ times ih =>
    have same : w.request.flushes = w.flushes := by
      unfold Worker.request
      split <;> rfl
    exact (ih w.request).trans same

theorem starts_endowed (endowed : s.hierarchy.Endowed n) (t : Step) :
    ∀ g ∈ s.flushStarts t, g.Endowed n := by
  have works (counted : Worker → Nat) : ∀ g ∈ s.workerStarts counted, g.Endowed n := by
    unfold workerStarts
    split
    · simp
    · exact (endowed.series _).1
  intro g member
  cases t
  case flush =>
    obtain rfl := List.mem_singleton.mp member
    exact endowed
  case flushDump id =>
    simp only [flushStarts] at member
    split at member
    · obtain rfl := List.mem_singleton.mp member
      exact endowed
    · exact absurd member (by simp)
  case remove id =>
    rcases detach_cases endowed.shaped id with ⟨fault, run⟩ | ⟨k, p, run, found, up, childless⟩
    · simp [flushStarts, run] at member
    · simp only [flushStarts, run] at member
      obtain rfl := List.mem_singleton.mp member
      exact endowed_custody.leave endowed ⟨found, up, childless⟩
  case requestSync | requestShutdown | spawnWorker | dropWorker => exact works _ g member
  all_goals exact absurd member (by simp [flushStarts])

theorem found_fit {α : Type} {found : Option α} {sums : α → List Addition}
    (each : ∀ x, found = some x → ∀ a ∈ sums x, a.Fits) : ∀ a ∈ found.elim [] sums, a.Fits := by
  cases found with
  | none => simp
  | some x => exact each x rfl

theorem own_sums_fit {t : Step} (healthy : Healthy (Endowed (n + s.brings t)) s) :
    ∀ a ∈ s.ownSums t, a.Fits := by
  have endowed := healthy.kept
  have indexed {id : NodeId} {k : Nat} (found : s.hierarchy.index[id]? = some k) :
      k < s.hierarchy.arena.size := (endowed.shaped.indexed found).1
  have handled {name : String} {handle : Handle} (found : s.handles.lookup name = some handle) :
      handle.key < s.hierarchy.arena.size :=
    healthy.referenced.inside _ (Referenced.handle_mem found)
  cases t
  case add id cpu delta => exact found_fit fun k found => endowed.record_fits cpu (indexed found)
  case incrementHere id =>
    have budget : s.hierarchy.Endowed (n + (1 : UInt64).toNat) := endowed
    exact found_fit fun k found => budget.record_fits s.here (indexed found)
  case handleAdd name cpu delta =>
    exact found_fit fun handle found => endowed.record_fits cpu (handled found)
  case handleIncrementHere name =>
    have budget : s.hierarchy.Endowed (n + (1 : UInt64).toNat) := endowed
    exact found_fit fun handle found => budget.record_fits s.here (handled found)
  case heldCount name cpu delta =>
    exact found_fit fun k found =>
      endowed.count_fits cpu (healthy.referenced.inside k (Referenced.held_mem found))
  case actors ids perNode =>
    cases run : Actors.resolve s.hierarchy ids with
    | error fault => simp [ownSums, run]
    | ok handles =>
      obtain ⟨length, inside⟩ := actors_inside endowed.shaped run perNode fun _ => s.here
      simp only [brings, run] at endowed
      simp only [ownSums, run]
      rw [← length] at endowed
      exact endowed.work_fits inside
  case remove id =>
    rcases detach_cases endowed.shaped id with ⟨fault, run⟩ | ⟨k, p, run, found, up, childless⟩
    · simp [ownSums, run]
    · simp only [ownSums, run]
      exact endowed.bequest_fits ⟨found, up, childless⟩
  all_goals simp [ownSums]

theorem additions_fit {t : Step} (healthy : Healthy (Endowed (n + s.brings t)) s) :
    ∀ a ∈ s.additions t, a.Fits := by
  intro a member
  rcases List.mem_append.mp member with own | flushed
  · exact own_sums_fit healthy a own
  · obtain ⟨g, start, listed⟩ := List.mem_flatMap.mp flushed
    exact (starts_endowed healthy.kept t g start).flush_fits a listed

theorem quiet_counts (shaped : s.hierarchy.Shaped) (referenced : s.Referenced) {t : Step}
    (quiet : t.isQuiet = true) : SameCounts s.hierarchy (s.step t).1.hierarchy := by
  have hosting : Hosting fun h => h.Shaped ∧ SameCounts s.hierarchy h := by
    constructor
    case shaped => exact fun kept => kept.1
    case attach =>
      intro h id p name next kept place _
      have shaped := kept.1.attach place.inside place.live place.free place.vacant
      have counts : SameCounts h (h.attach id p name) := attach_counts place.inside
      exact ⟨shaped.of_same (.of_arena rfl rfl), kept.2.trans (counts.trans (.of_arena rfl))⟩
    case hold =>
      intro h holds kept _
      exact ⟨kept.1.of_same (.of_arena rfl rfl), kept.2.trans (.of_arena rfl)⟩
  have start : SameCounts s.hierarchy s.hierarchy := .of_arena rfl
  exact (quiet_step hosting ⟨⟨shaped, start⟩, referenced⟩ quiet).kept.2

theorem part_counts {h : Hierarchy cfg} (endowed : h.Endowed n) (count : Nat) :
    SameCounts h (drainTake h count).1 := by
  have taking : Taking (@Endowed cfg n) := (endowed_tending n).toTaking
  exact (((Draining.start endowed).take taking count).stop taking).toSameCounts

theorem around_counts {h : Hierarchy cfg} {k : Nat} (endowed : h.Endowed n)
    (inside : k < h.arena.size) (held : k ∈ h.holds) (count : Nat) (cpu : Cpu) :
    SameCounts h (drainAround h count k cpu).1 := by
  have tending : Tending (@Endowed cfg n) fun _ => True := endowed_tending n
  have taken := (Draining.start endowed).take tending.toTaking count
  have alive := taken.held held
  have marked := tending.mark cpu taken.kept trivial (taken.size ▸ inside) alive
  exact ((taken.mark alive marked).rest tending.toTaking).toSameCounts

theorem add_writes (h : Hierarchy cfg) (id : NodeId) (cpu : Cpu) (delta : UInt64) :
    Writes ((h.index[id]?).elim [] fun k => h.recordSums k cpu delta) h (h.add id cpu delta).1 := by
  unfold Hierarchy.add find
  cases h.index[id]? with
  | none => exact .of_counts (.of_arena rfl)
  | some k => exact record_writes cpu h k delta

theorem on_handle_writes {name : String} {act : Handle → Hierarchy cfg}
    {sums : Handle → List Addition}
    (acts : ∀ handle, Writes (sums handle) s.hierarchy (act handle)) :
    Writes ((s.handles.lookup name).elim [] sums) s.hierarchy
      (s.onHandle name act).1.hierarchy := by
  unfold onHandle
  cases s.handles.lookup name with
  | none => exact .of_counts (.of_arena rfl)
  | some handle => exact acts handle

theorem on_held_writes {name : String} {act : Nat → Hierarchy cfg × Answer} {sums : List Addition}
    (acts : ∀ k, s.held.lookup name = some k → Writes sums s.hierarchy (act k).1) :
    Writes sums s.hierarchy (s.onHeld name act).1.hierarchy := by
  unfold onHeld
  cases found : s.held.lookup name with
  | none => exact .of_counts (.of_arena rfl)
  | some k => exact acts k found

theorem drain_counter_writes (h : Hierarchy cfg) (k : Nat) (sums : List Addition) :
    Writes sums h (drainCounter h k).1 := by
  unfold drainCounter
  split
  · exact .of_counts (.of_arena rfl)
  · rename_i own counter run
    obtain ⟨_, rfl, _⟩ := Counter.drain_requires run
    constructor
    case state =>
      intro j i
      rw [node_update]
      split
      · rename_i at_k
        obtain ⟨rfl, _⟩ := at_k
        exact Or.inl (Counter.slot_state_settled _ i)
      · exact .stays _ _
    all_goals
      intro j
      rw [node_update]
      split <;> exact .stays _ _

theorem worker_writes (endowed : s.hierarchy.Endowed n) {counted : Worker → Nat}
    {h : Hierarchy cfg} (idle : s.worker = none → h = s.hierarchy)
    (works : ∀ w, s.worker = some w → h = s.hierarchy.afterFlushes (counted w - w.flushes)) :
    Writes ((s.workerStarts counted).flatMap flushSums) s.hierarchy h := by
  unfold workerStarts
  cases found : s.worker with
  | none =>
    rw [idle found]
    exact .of_counts (.of_arena rfl)
  | some w =>
    rw [works w found]
    exact endowed.series_writes _

theorem worker_dropped_writes (endowed : s.hierarchy.Endowed n) :
    Writes ((s.flushStarts .dropWorker).flatMap flushSums) s.hierarchy s.dropWorker.hierarchy := by
  apply worker_writes endowed
  · intro none
    simp only [dropWorker, none]
  · intro w found
    simp only [dropWorker, found]
    exact (Worker.shutdown_series s.hierarchy w).2

theorem step_writes {t : Step} (healthy : Healthy (Endowed (n + s.brings t)) s) :
    Writes (s.additions t) s.hierarchy (s.step t).1.hierarchy := by
  have endowed := healthy.kept
  have idle (sums : List Addition) : Writes sums s.hierarchy s.hierarchy :=
    .of_counts (.of_arena rfl)
  have own {h : Hierarchy cfg} (writes : Writes (s.ownSums t) s.hierarchy h) :
      Writes (s.additions t) s.hierarchy h :=
    writes.mono fun a member => List.mem_append_left _ member
  have flushed {h : Hierarchy cfg}
      (writes : Writes ((s.flushStarts t).flatMap flushSums) s.hierarchy h) :
      Writes (s.additions t) s.hierarchy h :=
    writes.mono fun a member => List.mem_append_right _ member
  cases t
  case add id cpu delta => exact own (add_writes s.hierarchy id cpu delta)
  case incrementHere id => exact own (add_writes s.hierarchy id s.here 1)
  case handleAdd name cpu delta =>
    exact own (on_handle_writes fun handle => record_writes cpu s.hierarchy handle.key delta)
  case handleIncrementHere name =>
    exact own (on_handle_writes fun handle => record_writes s.here s.hierarchy handle.key 1)
  case heldCount name cpu delta =>
    refine own (on_held_writes fun k found => ?_)
    simp only [ownSums, found]
    exact count_writes cpu s.hierarchy k delta
  case actors ids perNode =>
    apply own
    simp only [step, Actors.attach, ownSums]
    cases run : Actors.resolve s.hierarchy ids with
    | error fault => exact idle _
    | ok handles => exact work_writes s.hierarchy _
  case remove id =>
    rcases detach_cases endowed.shaped id with ⟨fault, run⟩ | ⟨k, p, run, found, up, childless⟩
    · simp only [step, change, withHierarchy, remove, run]
      exact idle _
    · have leaving : Leaving s.hierarchy id k p := ⟨found, up, childless⟩
      have apart : Writes [] s.hierarchy (s.hierarchy.apart id k p) :=
        .of_counts (apart_counts leaving.inside leaving.before)
      have left := apart.trans (bequeath_writes (s.hierarchy.apart id k p) k)
      have filed := (endowed_custody.leave endowed leaving).filed
      have whole := left.trans (flush_writes filed)
      simp only [additions, ownSums, flushStarts, step, change, withHierarchy, remove, run,
        List.flatMap_cons, List.flatMap_nil, List.append_nil]
      exact whole
  case detach id =>
    rcases detach_cases endowed.shaped id with ⟨fault, run⟩ | ⟨k, p, run, found, up, childless⟩
    · simp only [step, change, withHierarchy, run]
      exact idle _
    · have leaving : Leaving s.hierarchy id k p := ⟨found, up, childless⟩
      simp only [step, change, withHierarchy, run]
      exact .of_counts (apart_counts leaving.inside leaving.before)
  case flush =>
    apply flushed
    simp only [flushStarts, List.flatMap_cons, List.flatMap_nil, List.append_nil]
    exact flush_writes endowed.filed
  case flushDump id =>
    apply flushed
    simp only [flushStarts, step, change, withHierarchy, flush_and_dump_fst]
    split
    · simp only [List.flatMap_cons, List.flatMap_nil, List.append_nil]
      exact flush_writes endowed.filed
    · exact idle _
  case heldMark name cpu =>
    exact on_held_writes fun k _ => .of_counts (only_lists_mark s.hierarchy k cpu).toSameCounts
  case heldRequeue name =>
    exact on_held_writes fun k _ => .of_counts (only_lists_mark s.hierarchy k ⟨0⟩).toSameCounts
  case heldDrain name => exact on_held_writes fun k _ => drain_counter_writes s.hierarchy k _
  case drain => exact .of_counts (only_lists_take_queues s.hierarchy _).toSameCounts
  case drainTake count => exact .of_counts (part_counts endowed count)
  case drainAround name count cpu =>
    refine on_held_writes fun k found => ?_
    have member := Referenced.held_mem found
    have inside := healthy.referenced.inside k member
    have held := healthy.referenced.holds.mem_iff.mpr member
    exact .of_counts (around_counts endowed inside held count cpu)
  case spawnWorker => exact flushed (worker_dropped_writes endowed)
  case dropWorker => exact flushed (worker_dropped_writes endowed)
  case requestSync requests =>
    apply flushed
    apply worker_writes endowed
    · intro none
      simp only [step, requestSync, none]
    · intro w found
      obtain ⟨advance, _⟩ := Worker.flush_sync_series s.hierarchy (w.requestTimes requests)
        w.replies.length
      have after := advance.flushed
      rw [request_times_flushes] at after
      simp only [step, requestSync, found]
      exact after
  case requestShutdown requests =>
    apply flushed
    apply worker_writes endowed
    · intro none
      simp only [step, requestShutdown, none]
    · intro w found
      have after := (Worker.shutdown_series s.hierarchy (w.requestTimes requests)).2
      rw [request_times_flushes] at after
      simp only [step, requestShutdown, found]
      exact after
  all_goals exact .of_counts (quiet_counts endowed.shaped healthy.referenced rfl)

end Session

end Rollup
