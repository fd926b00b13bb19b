import Mathlib
import Rollup.Proofs.RacingWriters
import Rollup.Proofs.ServiceOrder

/-!
The flush worker when nobody new comes. Left alone it ends the flush under way, and from one flush
to the next it does in its steps what `receive`, `tick` and `finish` do at once; so what `flushSync`
and `shutdown` do is what a caller sees who has the worker to himself. And wherever a run has come
to, the worker and the callers that wait can bring it to an end: every call has its answer, and the
worker has stopped if the inbox is closed.
-/
namespace Rollup

namespace Race

variable {cfg : Config}

theorem results_le (r : Race cfg) (n : Nat) :
    r.results.length ≤ (r.run (List.replicate n .flush)).results.length := by
  induction n generalizing r with
  | zero => exact Nat.le_refl _
  | succ n ih =>
    refine Nat.le_trans ?_ (ih r.flush)
    rcases r.flush_result with ⟨_, same⟩ | ⟨_, _, result, more⟩
    · rw [same]
    · simp [more]

theorem results_lt {r : Race cfg} {n : Nat} (busy : r.flusher.isIdle = false)
    (idle : (r.run (List.replicate n .flush)).flusher = .idle) :
    r.results.length < (r.run (List.replicate n .flush)).results.length := by
  induction n generalizing r with
  | zero => exact absurd busy (by rw [show r.flusher = .idle from idle]; simp [Flusher.isIdle])
  | succ n ih =>
    rcases r.flush_result with ⟨still, same⟩ | ⟨_, _, result, more⟩
    · have later := ih still idle
      rw [same] at later
      exact later
    · have later := r.flush.results_le n
      rw [more, List.length_append] at later
      exact later

theorem no_step {r : Race cfg} {n : Nat} (rest : r.flusher = .idle)
    (idle : (r.run (List.replicate n .flush)).flusher = .idle)
    (none : (r.run (List.replicate n .flush)).results.length ≤ r.results.length) : n = 0 := by
  cases n with
  | zero => rfl
  | succ n =>
    rcases r.flush_result with ⟨busy, same⟩ | ⟨busy, _⟩
    · have more := results_lt (n := n) busy idle
      rw [same] at more
      exact absurd none (Nat.not_le_of_lt more)
    · exact absurd busy (by simp [rest, Flusher.isIdle])

end Race

def Turn.isServing : Turn → Bool
  | .enter _ | .receive | .last | .flush => true
  | _ => false

namespace Service

variable {cfg : Config} {s s' s'' : Service cfg}

theorem run_append (s : Service cfg) (first second : List Turn) :
    s.run (first ++ second) = (s.run first).run second := by
  simp only [run, List.foldl_append]

def Leads (s s' : Service cfg) : Prop :=
  ∃ turns : List Turn, (∀ t ∈ turns, t.isServing = true) ∧ s.run turns = s'

namespace Leads

theorem refl (s : Service cfg) : Leads s s := ⟨[], by simp, rfl⟩

theorem first {t : Turn} (serving : t.isServing = true) (later : Leads (s.step t) s') :
    Leads s s' := by
  obtain ⟨turns, all, run_eq⟩ := later
  exact ⟨t :: turns, List.forall_mem_cons.mpr ⟨serving, all⟩, run_eq⟩

theorem trans (before : Leads s s') (after : Leads s' s'') : Leads s s'' := by
  obtain ⟨turns, all, run_eq⟩ := before
  obtain ⟨turns', all', run_eq'⟩ := after
  refine ⟨turns ++ turns', fun t member => ?_, ?_⟩
  · cases List.mem_append.mp member with
    | inl early => exact all t early
    | inr late => exact all' t late
  · rw [run_append, run_eq, run_eq']

theorem orderly (leads : Leads s s') (orderly : Orderly s) : Orderly s' := by
  obtain ⟨turns, _, run_eq⟩ := leads
  exact run_eq ▸ orderly.run turns

end Leads

theorem updates_step {t : Turn} (serving : t.isServing = true) (s : Service cfg) :
    (s.step t).race.updates = s.race.updates := by
  cases t with
  | enter call =>
    change (s.enter call).race.updates = s.race.updates
    unfold enter withInbox
    split
    · split <;> rfl
    · rfl
  | receive =>
    change s.receive.race.updates = s.race.updates
    unfold receive
    split
    · rfl
    · split
      · exact Race.flush_updates s.race
      · rfl
  | last =>
    change s.last.race.updates = s.race.updates
    unfold last
    split
    · exact Race.flush_updates s.race
    · rfl
  | flush =>
    change s.flush.race.updates = s.race.updates
    unfold flush
    split
    · rfl
    · simp only
      split <;> exact Race.flush_updates s.race
  | count | mark | request | call | close | tick => exact absurd serving (by simp [Turn.isServing])

theorem updates_run {turns : List Turn} (serving : ∀ t ∈ turns, t.isServing = true)
    (s : Service cfg) : (s.run turns).race.updates = s.race.updates := by
  induction turns generalizing s with
  | nil => rfl
  | cons t rest ih =>
    have later := ih (fun u member => serving u (List.mem_cons_of_mem t member)) (s.step t)
    exact later.trans (updates_step (serving t List.mem_cons_self) s)

theorem flush_on {o : Occasion} (serving : s.serving = some o)
    (busy : s.race.flush.flusher.isIdle = false) : s.flush = { s with race := s.race.flush } := by
  unfold flush
  simp only [serving]
  split
  · rename_i idle _
    exact absurd busy (by simp [idle, Flusher.isIdle])
  · rw [← serving]

theorem flush_done {o : Occasion} {result : Except NodeFault Summary}
    (serving : s.serving = some o) (idle : s.race.flush.flusher = .idle)
    (results : s.race.flush.results = s.race.results ++ [result]) :
    s.flush = s.done s.race.flush result o := by
  unfold flush
  simp only [serving, idle, results, List.getLast?_concat]

theorem flush_ends {o : Occasion} {n : Nat} (serving : s.serving = some o)
    (busy : s.race.flusher.isIdle = false)
    (idle : (s.race.run (List.replicate n .flush)).flusher = .idle) :
    ∃ m ≤ n, ∃ result, (s.race.run (List.replicate m .flush)).flusher = .idle ∧
      (s.race.run (List.replicate m .flush)).results = s.race.results ++ [result] ∧
      Leads s (s.done (s.race.run (List.replicate m .flush)) result o) := by
  induction n generalizing s with
  | zero => exact absurd busy (by rw [show s.race.flusher = .idle from idle]; simp [Flusher.isIdle])
  | succ n ih =>
    rcases s.race.flush_result with ⟨still, same⟩ | ⟨_, rest, result, results⟩
    · obtain ⟨m, le, result, rest, results, leads⟩ :=
        ih (s := { s with race := s.race.flush }) serving still idle
      refine ⟨m + 1, Nat.succ_le_succ le, result, rest, results.trans (by rw [same]), ?_⟩
      refine Leads.first (t := .flush) rfl ?_
      rw [show s.step .flush = _ from flush_on serving still]
      exact leads
    · refine ⟨1, Nat.succ_le_succ (Nat.zero_le n), result, rest, results, ?_⟩
      refine Leads.first (t := .flush) rfl ?_
      rw [show s.step .flush = _ from flush_done serving rest results]
      exact Leads.refl _

theorem begin_ends (idle : s.race.flusher = .idle) (o : Occasion) :
    Leads (s.begin o) ((s.begin o).done
      (s.race.ended s.race.hierarchy.flush.1 s.race.hierarchy.flush.2)
      s.race.hierarchy.flush.2 o) := by
  obtain ⟨n, reached⟩ := Race.flushes_alone idle
  cases n with
  | zero =>
    have same := congrArg (fun r => r.results.length) reached
    exact absurd same (by simp [Race.run, Race.ended])
  | succ n =>
    obtain ⟨busy, same⟩ := Race.flush_starts (r := s.race) (by rw [idle]; rfl)
    change s.race.flush.run (List.replicate n .flush) = _ at reached
    obtain ⟨m, le, result, rest, results, leads⟩ :=
      flush_ends (s := s.begin o) (n := n) rfl busy (congrArg Race.flusher reached)
    rw [show (s.begin o).race = s.race.flush from rfl] at rest results leads
    -- it is the rest that the whole flush comes to, since a second one would leave a second result
    obtain ⟨k, rfl⟩ := Nat.exists_eq_add_of_le le
    rw [List.replicate_add, Race.run_append] at reached
    have stays : k = 0 := by
      apply Race.no_step rest
      · rw [reached]
        rfl
      · rw [reached, results, same]
        simp [Race.ended]
    subst stays
    change s.race.flush.run (List.replicate m .flush) = _ at reached
    rw [reached] at results leads
    rw [same] at results
    have given := List.append_cancel_left results
    simp only [List.cons.injEq, and_true] at given
    rw [← given] at leads
    exact leads

/-- Between two flushes, over this hierarchy, with the worker in this state and these calls. -/
structure Between (s : Service cfg) (h : Hierarchy cfg) (w : Worker) (waiting : List Nat) :
    Prop where
  serving : s.serving = none
  idle : s.race.flusher = .idle
  hierarchy : s.race.hierarchy = h
  worker : s.worker = w
  waiting : s.waiting = waiting

namespace Between

variable {h h' : Hierarchy cfg} {w w' : Worker} {waiting : List Nat}

theorem flushes (between : Between s h w waiting) (o : Occasion) :
    ∃ s', Leads (s.begin o) s' ∧ Between s' h.flush.1 (w.flushed h.flush.2 o) waiting := by
  obtain ⟨_, idle, rfl, rfl, rfl⟩ := between
  exact ⟨_, begin_ends idle o, rfl, rfl, rfl, rfl, rfl⟩

theorem free (between : Between s h w waiting) : s.isFree = !w.stopped := by
  simp [isFree, between.serving, between.worker]

theorem receives {m : Message} {rest : List Message}
    (between : Between s h { w with inbox := m :: rest } waiting) (going : w.stopped = false) :
    ∃ s', Leads s.receive s' ∧
      Between s' (Worker.serve h { w with inbox := rest } m).1
        (Worker.serve h { w with inbox := rest } m).2 waiting := by
  have free := between.free
  have taken : s.receive =
      ({ s with worker := { w with inbox := rest } } : Service cfg).begin (.message m) := by
    simp [receive, between.worker, free, going]
  have taking : Between { s with worker := { w with inbox := rest } } h
      { w with inbox := rest } waiting :=
    ⟨between.serving, between.idle, between.hierarchy, rfl, between.waiting⟩
  rw [taken]
  exact taking.flushes (.message m)

theorem receive_alone (between : Between s h w waiting)
    (next : Worker.receive h w = some (h', w')) :
    ∃ s', Leads s.receive s' ∧ Between s' h' w' waiting := by
  unfold Worker.receive at next
  cases inbox : w.inbox with
  | nil => exact absurd next (by simp [inbox])
  | cons m rest =>
    have whole : w = { w with inbox := m :: rest } := by rw [← inbox]
    rw [whole] at between
    simp only [inbox] at next
    split at next
    case isTrue => exact absurd next (by simp)
    case isFalse going =>
      have served := between.receives (by simpa using going)
      rw [Option.some.inj next] at served
      exact served

theorem tick_alone (between : Between s h w waiting) (next : Worker.tick h w = some (h', w')) :
    ∃ s', Leads s.tick s' ∧ Between s' h' w' waiting := by
  unfold Worker.tick at next
  split at next
  case isTrue => exact absurd next (by simp)
  case isFalse going =>
    have begun : s.tick = s.begin .tick := by simp [tick, between.free, going]
    simp only [Option.some.injEq, Prod.mk.injEq] at next
    rw [begun, ← next.1, ← next.2]
    exact between.flushes .tick

theorem finish_alone (between : Between s h w waiting) (next : Worker.finish h w = some (h', w')) :
    ∃ s', Leads s.last s' ∧ Between s' h' w' waiting := by
  unfold Worker.finish at next
  split at next
  case isTrue => exact absurd next (by simp)
  case isFalse ready =>
    simp only [Option.some.injEq, Prod.mk.injEq] at next
    simp only [Bool.not_eq_true, Bool.or_eq_false_iff, Bool.not_eq_false'] at ready
    have begun : s.last = s.begin .last := by
      simp [last, between.free, between.worker, ready]
    rw [begun, ← next.1, ← next.2]
    exact between.flushes .last

theorem serves_all (ms : List Message) (between : Between s h { w with inbox := ms } waiting)
    (going : w.stopped = false) :
    ∃ s', Leads s s' ∧ Between s' (Worker.serveAll h { w with inbox := [] } ms).1
      (Worker.serveAll h { w with inbox := [] } ms).2 waiting := by
  induction ms generalizing s h w with
  | nil => exact ⟨s, Leads.refl s, between⟩
  | cons m rest ih =>
    obtain ⟨s', leads, after⟩ := between.receives going
    have served : (Worker.serve h { w with inbox := rest } m).2 =
        { w.flushed h.flush.2 (.message m) with inbox := rest } := by
      cases m <;> rfl
    have cleared : (Worker.serve h { w with inbox := [] } m).2 =
        { w.flushed h.flush.2 (.message m) with inbox := [] } := by
      cases m <;> rfl
    have still : (w.flushed h.flush.2 (.message m)).stopped = false := by simp [going]
    rw [served] at after
    obtain ⟨s'', later, done⟩ := ih after still
    rw [← cleared] at done
    exact ⟨s'', (Leads.first (t := .receive) rfl leads).trans later, done⟩

theorem catch_up_alone (between : Between s h w waiting) (going : w.stopped = false) :
    ∃ s', Leads s s' ∧ Between s' (Worker.catchUp h w).1 (Worker.catchUp h w).2 waiting :=
  serves_all w.inbox between going

theorem serve_all_same (h : Hierarchy cfg) (w : Worker) (ms : List Message) :
    (Worker.serveAll h w ms).2.inbox = w.inbox ∧
      (Worker.serveAll h w ms).2.accepting = w.accepting ∧
      (Worker.serveAll h w ms).2.stopped = w.stopped := by
  induction ms generalizing h w with
  | nil => exact ⟨rfl, rfl, rfl⟩
  | cons m rest ih =>
    obtain ⟨inbox, accepting, stopped⟩ := ih h.flush.1 (w.flushed h.flush.2 (.message m))
    simp only [Worker.flushed_inbox, Worker.flushed_accepting, Worker.flushed_stopped,
      reduceCtorEq, decide_false, Bool.or_false] at inbox accepting stopped
    exact ⟨inbox, accepting, stopped⟩

theorem finish_of_empty (h : Hierarchy cfg) (closed : w.accepting = false)
    (empty : w.inbox = []) (going : w.stopped = false) :
    Worker.finish h w = some (h.flush.1, w.flushed h.flush.2 .last) := by
  unfold Worker.finish
  rw [if_neg (by simp [closed, empty, going])]
  rfl

theorem shutdown_alone (between : Between s h w []) (going : w.stopped = false) :
    ∃ s', Leads s.close s' ∧ s'.race.hierarchy = (Worker.shutdown h w).1 ∧
      s'.worker.flushes = (Worker.shutdown h w).2 ∧ s'.worker.stopped = true := by
  have closed : Between s.close h w.close [] := by
    rw [close, if_pos between.waiting]
    exact ⟨between.serving, between.idle, between.hierarchy,
      congrArg Worker.close between.worker, between.waiting⟩
  obtain ⟨s', leads, emptied⟩ := closed.catch_up_alone going
  obtain ⟨inbox, accepting, stopped⟩ :=
    serve_all_same h { w.close with inbox := [] } w.close.inbox
  change (Worker.catchUp h w.close).2.inbox = [] at inbox
  change (Worker.catchUp h w.close).2.accepting = false at accepting
  change (Worker.catchUp h w.close).2.stopped = w.stopped at stopped
  unfold Worker.shutdown
  cases caught : Worker.catchUp h w.close with
  | mk h' w' =>
    rw [caught] at emptied inbox accepting stopped
    have last := finish_of_empty h' accepting inbox (stopped.trans going)
    obtain ⟨s'', later, done⟩ := emptied.finish_alone last
    simp only [last, Option.getD_some]
    refine ⟨s'', leads.trans (Leads.first (t := .last) rfl later), done.hierarchy, ?_, ?_⟩
    · rw [done.worker]
    · simp [done.worker]

theorem call_alone {call : Nat} (between : Between s h w [call]) (room : w.hasRoom = true)
    (accepting : w.accepting = true) (going : w.stopped = false) :
    ∃ s', Leads s s' ∧
      Between s' (Worker.flushSync h w call).1 (Worker.flushSync h w call).2.1 [] := by
  have submitted : w.submit call = some { w with inbox := w.inbox ++ [.sync call] } := by
    simp [Worker.submit, room, accepting]
  have entered : Between (s.enter call) h { w with inbox := w.inbox ++ [.sync call] } [] := by
    rw [enter, if_pos (by simp [between.waiting]), between.worker, submitted]
    exact ⟨between.serving, between.idle, between.hierarchy, rfl, by simp [between.waiting]⟩
  obtain ⟨s', leads, served⟩ := entered.catch_up_alone going
  refine ⟨s', Leads.first (t := .enter call) rfl leads, ?_⟩
  unfold Worker.flushSync
  simp only [room, if_true, submitted]
  cases caught : Worker.catchUp h { w with inbox := w.inbox ++ [.sync call] } with
  | mk h' w' =>
    rw [caught] at served
    simp only
    split <;> exact served

theorem flush_sync_alone (between : Between s h w []) (room : w.inbox.length ≤ Worker.capacity)
    (accepting : w.accepting = true) (going : w.stopped = false) :
    ∃ s', Leads s.call s' ∧
      Between s' (Worker.flushSync h w s.calls).1 (Worker.flushSync h w s.calls).2.1 [] := by
  have waits : Between s.call h w [s.calls] := by
    rw [call, if_pos (by simp [between.worker, accepting])]
    exact ⟨between.serving, between.idle, between.hierarchy, between.worker,
      by simp [between.waiting]⟩
  by_cases ready : w.hasRoom = true
  · exact waits.call_alone ready accepting going
  · cases inbox : w.inbox with
    | nil => exact absurd ready (by simp [Worker.hasRoom, inbox, Worker.capacity])
    | cons m rest =>
      have next : Worker.receive h w = some (Worker.serve h { w with inbox := rest } m) := by
        simp [Worker.receive, inbox, going]
      have made : (Worker.serve h { w with inbox := rest } m).2.hasRoom = true := by
        rw [inbox, List.length_cons] at room
        have shorter : rest.length < Worker.capacity := room
        cases m <;> simp [Worker.serve, Worker.reply, Worker.hasRoom, shorter]
      have same : Worker.flushSync h w s.calls =
          Worker.flushSync (Worker.serve h { w with inbox := rest } m).1
            (Worker.serve h { w with inbox := rest } m).2 s.calls := by
        unfold Worker.flushSync
        rw [if_neg ready, next, Option.getD_some, if_pos made]
      obtain ⟨s', leads, served⟩ := waits.receive_alone next
      rw [same]
      obtain ⟨s'', later, done⟩ := served.call_alone made
        (by cases m <;> exact accepting) (by cases m <;> exact going)
      exact ⟨s'', (Leads.first (t := .receive) rfl leads).trans later, done⟩

end Between

/-- What stays when nobody new comes. -/
structure Undisturbed (s s' : Service cfg) : Prop where
  leads : Leads s s'
  calls : s'.calls = s.calls
  accepting : s'.worker.accepting = s.worker.accepting

namespace Undisturbed

theorem refl (s : Service cfg) : Undisturbed s s := ⟨Leads.refl s, rfl, rfl⟩

theorem trans (first : Undisturbed s s') (second : Undisturbed s' s'') : Undisturbed s s'' :=
  ⟨first.leads.trans second.leads, second.calls.trans first.calls,
    second.accepting.trans first.accepting⟩

end Undisturbed

theorem flush_through {o : Occasion} (orderly : Orderly s) (serving : s.serving = some o) :
    ∃ r result, Undisturbed s (s.done r result o) := by
  have busy : s.race.flusher.isIdle = false := by simp [orderly.busy, serving]
  obtain ⟨r, ⟨n, reached⟩, idle⟩ := Race.comes_to_rest s.race
  rw [← reached] at idle
  obtain ⟨m, _, result, _, _, leads⟩ := flush_ends serving busy idle
  exact ⟨_, result, leads, rfl, Worker.flushed_accepting _ _ _⟩

theorem begin_through {t : Turn} {w : Worker} {o : Occasion} (orderly : Orderly s)
    (serving : t.isServing = true)
    (next : s.step t = ({ s with worker := w } : Service cfg).begin o)
    (accepting : w.accepting = s.worker.accepting) :
    ∃ r result, Undisturbed s ((({ s with worker := w } : Service cfg).begin o).done r result o) := by
  have after := orderly.turned (s.step_turned t)
  have leads := Leads.first serving (Leads.refl (s.step t))
  rw [next] at after leads
  obtain ⟨r, result, through⟩ := flush_through after rfl
  exact ⟨r, result, .trans ⟨leads, rfl, accepting⟩ through⟩

theorem receive_through {m : Message} {rest : List Message} (orderly : Orderly s)
    (free : s.isFree = true) (inbox : s.worker.inbox = m :: rest) :
    ∃ s', Undisturbed s s' ∧ s'.waiting = s.waiting ∧ s'.worker.inbox = rest ∧
      s'.serving = none := by
  have taken : s.step .receive =
      ({ s with worker := { s.worker with inbox := rest } } : Service cfg).begin (.message m) := by
    simp [step, receive, inbox, free]
  obtain ⟨r, result, through⟩ := begin_through orderly rfl taken rfl
  exact ⟨_, through, rfl, Worker.flushed_inbox _ _ _, rfl⟩

theorem last_through (orderly : Orderly s) (free : s.isFree = true)
    (closed : s.worker.accepting = false) (empty : s.worker.inbox = []) :
    ∃ s', Undisturbed s s' ∧ s'.waiting = s.waiting ∧ s'.worker.inbox = [] ∧
      s'.serving = none ∧ s'.worker.stopped = true := by
  have begun : s.step .last = ({ s with worker := s.worker } : Service cfg).begin .last := by
    simp [step, last, free, closed, empty]
  obtain ⟨r, result, through⟩ := begin_through orderly rfl begun rfl
  exact ⟨_, through, rfl, (Worker.flushed_inbox _ _ _).trans empty, rfl, by simp [done]⟩

/-- From between two flushes everything comes to an end: each message that is taken is one less to
    take, and each call that enters one less to wait. -/
theorem rests_from_between (orderly : Orderly s) (idle : s.serving = none) :
    ∃ s', Undisturbed s s' ∧ s'.waiting = [] ∧ s'.worker.inbox = [] ∧ s'.serving = none ∧
      (s.worker.accepting = false → s'.worker.stopped = true) := by
  induction left : 2 * s.waiting.length + s.worker.inbox.length using Nat.strongRecOn
    generalizing s with
  | ind left_now ih =>
    cases going : s.worker.stopped with
    | true =>
      obtain ⟨_, waiting, inbox, serving⟩ := orderly.at_rest going
      exact ⟨s, .refl s, waiting, inbox, serving, fun _ => going⟩
    | false =>
      have free : s.isFree = true := free_iff.mpr ⟨idle, going⟩
      cases inbox : s.worker.inbox with
      | cons m rest =>
        obtain ⟨s', first, waiting, fewer, serving⟩ := receive_through orderly free inbox
        have less : 2 * s'.waiting.length + s'.worker.inbox.length < left_now := by
          rw [waiting, fewer, ← left, inbox, List.length_cons]
          omega
        obtain ⟨s'', later, rest⟩ := ih _ less (first.leads.orderly orderly) serving rfl
        rw [first.accepting] at rest
        exact ⟨s'', first.trans later, rest⟩
      | nil =>
        cases waiting : s.waiting with
        | cons call others =>
          have accepting : s.worker.accepting = true := by
            cases closed : s.worker.accepting with
            | true => rfl
            | false => exact absurd (orderly.closed closed) (by simp [waiting])
          have entered : s.enter call = { s with
              worker := { s.worker with inbox := [.sync call] }
              accepted := s.accepted ++ [.sync call]
              waiting := others } := by
            simp [enter, withInbox, Worker.submit, Worker.hasRoom, Worker.capacity, waiting, inbox,
              accepting]
          have after := orderly.turned (s.enter_turned call)
          have first : Leads s (s.enter call) :=
            Leads.first (t := .enter call) rfl (Leads.refl _)
          rw [entered] at after first
          have less : 2 * others.length + 1 < left_now := by
            rw [← left, waiting, inbox]
            simp
            omega
          obtain ⟨s'', later, rest⟩ := ih _ less after idle rfl
          exact ⟨s'', .trans ⟨first, rfl, rfl⟩ later, rest⟩
        | nil =>
          cases accepting : s.worker.accepting with
          | true => exact ⟨s, .refl s, waiting, inbox, idle, fun closed => absurd closed (by simp)⟩
          | false =>
            obtain ⟨s', last, same, empty, serving, stopped⟩ :=
              last_through orderly free accepting inbox
            exact ⟨s', last, same.trans waiting, empty, serving, fun _ => stopped⟩

theorem comes_to_rest (orderly : Orderly s) :
    ∃ s', Undisturbed s s' ∧ s'.waiting = [] ∧ s'.worker.inbox = [] ∧ s'.serving = none ∧
      (s.worker.accepting = false → s'.worker.stopped = true) := by
  cases serving : s.serving with
  | none => exact rests_from_between orderly serving
  | some o =>
    obtain ⟨r, result, first⟩ := flush_through orderly serving
    obtain ⟨s', later, rest⟩ := rests_from_between (first.leads.orderly orderly) rfl
    rw [first.accepting] at rest
    exact ⟨s', first.trans later, rest⟩

end Service

end Rollup
