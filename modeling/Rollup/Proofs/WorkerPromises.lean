import Mathlib
import Rollup.Proofs.LoneWorker
import Rollup.Proofs.OwedEvents
import Rollup.Proofs.RecordedTotals

/-!
What callers of the flush worker can rely on, whatever the order in which callers, writers and the
worker make their steps. `Reached` follows a run from one state on: once a flush has begun since, it
owes all that was recorded by then, and once one has ended all of that is in the totals
(`CaughtUp`). A call is answered by a flush of its own, a request is followed by one, also if there
was no room for it, and the last flush begins after everything else; so each of them is caught up
with.
-/
namespace Rollup

namespace Service

variable {cfg : Config} {tree : Hierarchy cfg} {b s s' : Service cfg}

/-- A flush that began after the state `b` has ended. What was recorded on each node by then, the
    events from before the worker was there (`earlier`) and those marked since, is in the totals. -/
structure CaughtUp (earlier : Nat → Nat) (b s : Service cfg) : Prop where
  flushed : b.begun < s.served.length
  included : ∀ n ∈ s.race.hierarchy.keys,
    s.race.hierarchy.sumBelow n (fun k => earlier k + b.race.markedOn k) ≤
      (s.race.hierarchy.node n).total.toNat
  exact : s.serving = none → ∃ folded : Nat → Nat,
    (∀ k, earlier k + b.race.markedOn k ≤ folded k ∧ folded k ≤ earlier k + s.race.countedOn k) ∧
    ∀ n ∈ s.race.hierarchy.keys,
      (s.race.hierarchy.node n).total.toNat = s.race.hierarchy.sumBelow n folded
  queued : s.serving = none → ∀ c k, s.race.hierarchy.lists c k → Race.MarkedSince b.race s.race k
  empty : s.serving = none → (∀ i, s.race.Marked i → b.race.Marked i) →
    s.race.hierarchy.pendingCount = 0

/-- What becomes of a call that is made in the state `b`. -/
structure Answered (earlier : Nat → Nat) (b s : Service cfg) : Prop where
  once : (s.repliesTo b.calls).length ≤ 1
  stopped : s.worker.stopped = true → (s.repliesTo b.calls).length = 1
  own : ∀ result ∈ s.repliesTo b.calls, (∃ sum, result = .ok sum) ∧
    ∃ j, b.begun ≤ j ∧ s.served[j]? = some (Occasion.message (.sync b.calls)) ∧
      s.race.results[j]? = some result
  caughtUp : s.repliesTo b.calls ≠ [] → CaughtUp earlier b s

structure Attended (tree : Hierarchy cfg) (s : Service cfg) : Prop extends Orderly s where
  tallied : Race.Tallied tree s.race
  fine : ∀ result ∈ s.race.results, ∃ sum, result = .ok sum

theorem race_turned (turned : Turned s s') : Race.Moved s.race s'.race := by
  cases turned with
  | writes m writing => exact s.race.step_moved m
  | stays | requests | calls | enters | closes => exact .stays
  | begins | goesOn | ends => exact .flushes

theorem served_le_begun (s : Service cfg) : s.served.length ≤ s.begun := by
  simp [begun, occasions]

theorem given_le_run (s : Service cfg) (turns : List Turn) :
    s.race.given ≤ (s.run turns).race.given := by
  induction turns generalizing s with
  | nil => exact Nat.le_refl _
  | cons t rest ih => exact Nat.le_trans (race_turned (s.step_turned t)).given_le (ih (s.step t))

theorem fine_step {r r' : Race cfg} (tallied : Race.Tallied tree r)
    (fine : ∀ result ∈ r.results, ∃ sum, result = .ok sum) (moved : Race.Moved r r') :
    ∀ result ∈ r'.results, ∃ sum, result = .ok sum := by
  cases moved with
  | stays | counts | marks => exact fine
  | flushes =>
    obtain ⟨_, _, _, same | ⟨sum, more⟩⟩ := Race.flush_step tallied.flushing
    · rw [same]
      exact fine
    · intro result member
      rw [more] at member
      cases List.mem_append.mp member with
      | inl old => exact fine result old
      | inr new => exact ⟨sum, List.mem_singleton.mp new⟩

namespace Attended

theorem rested (attended : Attended tree s) (idle : s.serving = none) :
    s.race.flusher = .idle := by
  apply Flusher.idle_of_is_idle
  rw [attended.busy, idle]
  rfl

theorem turned (attended : Attended tree s) (turned : Turned s s')
    (fits : tree.recordings + s'.race.given < UInt64.size) : Attended tree s' where
  toOrderly := attended.toOrderly.turned turned
  tallied := attended.tallied.step (race_turned turned) fits
  fine := fine_step attended.tallied attended.fine (race_turned turned)

theorem start {h : Hierarchy cfg} (kept : h.Kept) : Attended h (Service.start h) where
  toOrderly := .start h
  tallied := .start kept
  fine result member := absurd member (by simp [Service.start, Race.start])

end Attended

structure Reached (tree : Hierarchy cfg) (b s : Service cfg) : Prop where
  attended : Attended tree s
  later : Later b s
  since : Race.Since b.race s.race
  owed : b.begun < s.begun → Race.Owed tree b.race s.race
  included : b.begun < s.served.length → ∀ n, n < s.race.hierarchy.arena.size →
    tree.sumBelow n (fun k => tree.recorded k + b.race.markedOn k) ≤ s.race.hierarchy.total n

namespace Reached

theorem start (attended : Attended tree s) : Reached tree s s where
  attended := attended
  later := .refl s
  since := .refl s.race
  owed began := absurd began (Nat.lt_irrefl _)
  included ended := absurd ended (Nat.not_lt_of_le s.served_le_begun)

variable (reached : Reached tree b s)
include reached

theorem still_included {r : Race cfg} (moved : Race.Moved s.race r)
    (fits : tree.recordings + r.given < UInt64.size) (ended : b.begun < s.served.length) (n : Nat)
    (inside : n < r.hierarchy.arena.size) :
    tree.sumBelow n (fun k => tree.recorded k + b.race.markedOn k) ≤ r.hierarchy.total n := by
  have tallied := reached.attended.tallied
  rw [(tallied.step_shape moved fits).size] at inside
  exact Nat.le_trans (reached.included ended n inside) (tallied.rising moved fits n)

theorem moves (attended : Attended tree s') (later : Later b s')
    (moved : Race.Moved s.race s'.race) (fits : tree.recordings + s'.race.given < UInt64.size)
    (begun : s'.begun = s.begun) (served : s'.served = s.served) : Reached tree b s' := by
  constructor
  case attended => exact attended
  case later => exact later
  case since => exact reached.since.step moved
  case owed =>
    intro began
    rw [begun] at began
    exact (reached.owed began).step reached.attended.tallied moved fits
  case included =>
    rw [served]
    exact reached.still_included moved fits

theorem begins {o : Occasion} {rest : List Message} (attended : Attended tree
      ({ s with worker := { s.worker with inbox := rest } }.begin o))
    (later : Later b ({ s with worker := { s.worker with inbox := rest } }.begin o))
    (fits : tree.recordings + s.race.flush.given < UInt64.size) (idle : s.serving = none) :
    Reached tree b ({ s with worker := { s.worker with inbox := rest } }.begin o) := by
  have rested := reached.attended.rested idle
  exact ⟨attended, later, reached.since.step .flushes,
    fun _ => Race.Owed.begins reached.attended.tallied rested reached.since,
    reached.still_included .flushes fits⟩

theorem ends {o : Occasion} {result : Except NodeFault Summary}
    (attended : Attended tree (s.done s.race.flush result o))
    (later : Later b (s.done s.race.flush result o))
    (fits : tree.recordings + s.race.flush.given < UInt64.size)
    (serving : s.serving = some o) (idle : s.race.flush.flusher = .idle) :
    Reached tree b (s.done s.race.flush result o) := by
  have owed : b.begun < s.begun → Race.Owed tree b.race s.race.flush := fun began =>
    (reached.owed began).step reached.attended.tallied .flushes fits
  have begun : (s.done s.race.flush result o).begun = s.begun := by
    simp [Service.begun, occasions, done, serving]
  have served : (s.done s.race.flush result o).served.length = s.begun := by
    simp [Service.begun, occasions, done, serving]
  refine ⟨attended, later, reached.since.step .flushes, fun began => owed (begun ▸ began), ?_⟩
  intro ended n inside
  rw [served] at ended
  rw [(attended.tallied.total_eq idle inside), attended.tallied.shape.sum_below]
  exact Finset.sum_le_sum fun k _ => (owed ended).settled idle k

theorem turned (turned : Turned s s') (fits : tree.recordings + s'.race.given < UInt64.size) :
    Reached tree b s' := by
  have attended := reached.attended.turned turned fits
  have later := reached.later.trans (.of_turned turned)
  have moved := race_turned turned
  cases turned with
  | stays => exact reached
  | writes | requests | calls | enters | closes | goesOn =>
    exact reached.moves attended later moved fits rfl rfl
  | begins o rest free first final => exact reached.begins attended later fits (free_iff.mp free).1
  | ends o result serving idle results => exact reached.ends attended later fits serving idle

theorem run (turns : List Turn) (fits : tree.recordings + (s.run turns).race.given < UInt64.size) :
    Reached tree b (s.run turns) := by
  induction turns generalizing s with
  | nil => exact reached
  | cons t rest ih =>
    have le := (s.step t).given_le_run rest
    have room : tree.recordings + (s.step t).race.given < UInt64.size :=
      Nat.lt_of_le_of_lt (Nat.add_le_add_left le _) fits
    exact ih (reached.turned (s.step_turned t) room) fits

theorem caught_up (flushed : b.begun < s.served.length) : CaughtUp tree.recorded b s := by
  have tallied := reached.attended.tallied
  have began : b.begun < s.begun := Nat.lt_of_lt_of_le flushed s.served_le_begun
  have owed := reached.owed began
  have key_inside {n : Nat} (member : n ∈ s.race.hierarchy.keys) :
      n < s.race.hierarchy.arena.size := (tallied.flushing.shaped.key_of_mem member).1
  have rested := reached.attended.rested
  have queued (idle : s.serving = none) {c : Fin cfg.slots} {k : Nat}
      (listed : s.race.hierarchy.lists c k) : Race.MarkedSince b.race s.race k :=
    owed.late_listed (rested idle) listed
  constructor
  case flushed => exact flushed
  case included =>
    intro n member
    rw [tallied.shape.sum_below]
    exact reached.included flushed n (key_inside member)
  case exact =>
    intro idle
    refine ⟨s.race.hierarchy.drained, fun k => ⟨owed.settled (rested idle) k, ?_⟩, ?_⟩
    · have split := tallied.flushing.solvent.split k
      have recorded := tallied.recorded k
      omega
    · intro n member
      exact tallied.total_eq (rested idle) (key_inside member)
  case queued => exact fun idle c k listed => queued idle listed
  case empty =>
    intro idle none_since
    refine tallied.flushing.tracked.filed.pending_count_zero.mpr fun k some => ?_
    obtain ⟨c, listed⟩ := some
    obtain ⟨i, u, found, marked, fresh, _⟩ := queued idle listed
    exact fresh (none_since i ⟨u, found, marked⟩)

theorem answered (orderly : Orderly b) (made : b.calls < s.calls) :
    Answered tree.recorded b s := by
  have now := reached.attended.toOrderly
  have new : Occasion.message (.sync b.calls) ∉ b.occasions := by
    intro old
    have accepted : Message.sync b.calls ∈ b.accepted := by
      rw [orderly.fifo]
      exact List.mem_append_left _ (List.mem_filterMap.mpr ⟨_, old, rfl⟩)
    have some := List.count_pos_iff.mpr accepted
    have none := orderly.numbered b.calls
    rw [if_neg (Nat.lt_irrefl _)] at none
    omega
  have timely {j : Nat} (found : s.served[j]? = some (Occasion.message (.sync b.calls))) :
      b.begun ≤ j := reached.later.begun_le found new
  constructor
  case once => exact now.replies_le b.calls
  case stopped =>
    intro stopped
    obtain ⟨_, waiting, empty, idle⟩ := now.at_rest stopped
    exact now.replied made waiting empty idle
  case own =>
    intro result member
    obtain ⟨j, found, given⟩ := now.mem_replies.mp member
    exact ⟨reached.attended.fine result (List.mem_of_getElem? given), j, timely found, found, given⟩
  case caughtUp =>
    intro some
    obtain ⟨result, member⟩ := List.exists_mem_of_ne_nil _ some
    obtain ⟨j, found, _⟩ := now.mem_replies.mp member
    have inside := (List.getElem?_eq_some_iff.mp found).1
    exact reached.caught_up (Nat.lt_of_le_of_lt (timely found) inside)

omit reached in
theorem inbox_of_request (accepting : b.worker.accepting = true) :
    0 < b.request.worker.inbox.length := by
  unfold request withInbox Worker.request
  cases room : b.worker.hasRoom with
  | true => simp [accepting]
  | false =>
    have full : ¬ b.worker.inbox.length < Worker.capacity := by
      simpa [Worker.hasRoom] using room
    simp only [accepting, Bool.true_and, Bool.false_eq_true, if_false]
    exact Nat.lt_of_lt_of_le (by decide) (Nat.le_of_not_lt full)

theorem requested (orderly : Orderly b) (accepting : b.worker.accepting = true)
    (later : Later b.request s) (empty : s.worker.inbox = []) (idle : s.serving = none) :
    CaughtUp tree.recorded b s := by
  have some := inbox_of_request accepting
  have before := (orderly.turned b.request_turned).fifo
  have now := reached.attended.fifo
  refine reached.caught_up (reached.later.flushed_since idle fun same => ?_)
  have le := later.accepted.length_le
  have all : s.occasions = b.request.occasions := by
    rw [Service.occasions, idle, same, Option.toList_none, List.append_nil]
    rfl
  rw [before, now, empty, all, List.length_append, List.length_append, List.length_nil] at le
  omega

theorem finished (before : Occasion.last ∉ b.occasions) (stopped : s.worker.stopped = true) :
    CaughtUp tree.recorded b s := by
  have now := reached.attended.toOrderly
  obtain ⟨_, _, _, idle⟩ := now.at_rest stopped
  have count := now.stopped
  simp only [stopped, if_true] at count
  have served : .last ∈ s.served := List.count_pos_iff.mp (by omega)
  exact reached.caught_up (reached.later.flushed_since idle fun same => before (same ▸ served))

end Reached

def onTree (cfg : Config) (steps : List Step) : Service cfg :=
  start ((Session.start cfg).run steps).hierarchy

theorem attended_on_tree {steps : List Step} (plain : ∀ t ∈ steps, t.isPlain = true)
    {turns : List Turn}
    (fits : Step.deltas steps + ((onTree cfg steps).run turns).race.given < UInt64.size) :
    Attended ((Session.start cfg).run steps).hierarchy ((onTree cfg steps).run turns) ∧
      ((Session.start cfg).run steps).hierarchy.recordings ≤ Step.deltas steps ∧
      ((Session.start cfg).run steps).hierarchy.recorded = (Session.start cfg).accrued steps := by
  have none : (Session.start cfg).hierarchy.recordings = 0 := Hierarchy.new_recordings cfg
  obtain ⟨built, le⟩ := Session.run_advances (Session.healthy_start cfg) plain (by omega)
  have recordings : ((Session.start cfg).run steps).hierarchy.recordings ≤ Step.deltas steps := by
    omega
  have room := Nat.lt_of_le_of_lt (Nat.add_le_add_right recordings _) fits
  exact ⟨((Reached.start (.start built.advanced.kept)).run turns room).attended, recordings,
    funext fun k => Session.recorded_from_start built⟩

theorem reached_on_tree {steps : List Step} (plain : ∀ t ∈ steps, t.isPlain = true)
    {before after : List Turn}
    (fits : Step.deltas steps +
      ((onTree cfg steps).run (before ++ after)).race.given < UInt64.size) :
    Orderly ((onTree cfg steps).run before) ∧
      Reached ((Session.start cfg).run steps).hierarchy ((onTree cfg steps).run before)
        ((onTree cfg steps).run (before ++ after)) := by
  rw [run_append] at fits ⊢
  have le := ((onTree cfg steps).run before).given_le_run after
  have early : Step.deltas steps + ((onTree cfg steps).run before).race.given < UInt64.size :=
    Nat.lt_of_le_of_lt (Nat.add_le_add_left le _) fits
  obtain ⟨attended, recordings, _⟩ := attended_on_tree plain early
  exact ⟨attended.toOrderly, (Reached.start attended).run after
    (Nat.lt_of_le_of_lt (Nat.add_le_add_right recordings _) fits)⟩

/-- Whatever callers, writers and the worker do in whatever order, over any tree: the inbox stays
    within its capacity and is served in its order. A call gets one answer, from a flush of its own
    that began after it, and what was recorded before it is in the totals by then. So is what was
    recorded before a request, whether there was room for it or not, once the inbox is empty and no
    flush under way. When the worker has stopped it has flushed once for each message, once for each
    tick and once more; so is then what was recorded before the inbox was closed or the last flush
    began, and nothing is on a list but what was marked later. And the worker and the calls that
    wait can always get there. -/
theorem worker_keeps_promises (cfg : Config) (steps : List Step)
    (plain : ∀ t ∈ steps, t.isPlain = true) (turns : List Turn)
    (fits : Step.deltas steps + ((onTree cfg steps).run turns).race.given < UInt64.size) :
    let earlier := (Session.start cfg).accrued steps
    let spawned := onTree cfg steps
    let s := spawned.run turns
    s.worker.inbox.length ≤ Worker.capacity ∧
    s.accepted = s.occasions.filterMap Occasion.message? ++ s.worker.inbox ∧
    (∀ before after, turns = before ++ .call :: after →
      (spawned.run before).worker.accepting = true → Answered earlier (spawned.run before) s) ∧
    (∀ before after, turns = before ++ .request :: after →
      (spawned.run before).worker.accepting = true → s.worker.inbox = [] → s.serving = none →
      CaughtUp earlier (spawned.run before) s) ∧
    (s.worker.stopped = true →
      s.worker.inbox = [] ∧ s.serving = none ∧
      s.worker.flushes = s.accepted.length + s.served.count .tick + 1 ∧
      ∀ before after, turns = before ++ after →
        (spawned.run before).worker.accepting = true ∨
          Occasion.last ∉ (spawned.run before).occasions →
        CaughtUp earlier (spawned.run before) s) ∧
    ∃ later : List Turn, (∀ t ∈ later, t.isServing = true) ∧
      (s.run later).race.updates = s.race.updates ∧
      (∀ call < s.calls, ((s.run later).repliesTo call).length = 1) ∧
      (s.worker.accepting = false → (s.run later).worker.stopped = true) := by
  intro earlier spawned s
  obtain ⟨attended, _, recorded⟩ := attended_on_tree plain fits
  have orderly : Orderly s := attended.toOrderly
  have known : ((Session.start cfg).run steps).hierarchy.recorded = earlier := recorded
  rw [← known]
  refine ⟨orderly.room, orderly.fifo, ?_, ?_, ?_, ?_⟩
  · intro before after parted accepting
    subst parted
    obtain ⟨early, reached⟩ := reached_on_tree plain fits
    have later := Later.run ((spawned.run before).step .call) after
    have made : ((spawned.run before).step .call).calls = (spawned.run before).calls + 1 := by
      simp [step, call, accepting]
    have le := later.calls
    rw [made] at le
    refine reached.answered early ?_
    rw [run_append]
    exact le
  · intro before after parted accepting empty idle
    subst parted
    obtain ⟨early, reached⟩ := reached_on_tree plain fits
    have later := Later.run ((spawned.run before).step .request) after
    refine reached.requested early accepting ?_ empty idle
    rw [run_append]
    exact later
  · intro stopped
    obtain ⟨_, _, empty, idle⟩ := orderly.at_rest stopped
    refine ⟨empty, idle, orderly.flushes_of_stopped stopped, ?_⟩
    intro before after parted either
    subst parted
    obtain ⟨early, reached⟩ := reached_on_tree plain fits
    refine reached.finished (either.elim (fun accepting begun => ?_) id) stopped
    exact absurd ((early.final begun).1.symm.trans accepting) (by simp)
  · obtain ⟨rest, ⟨⟨later, serving, run_eq⟩, calls, _⟩, waiting, empty, idle, stops⟩ :=
      comes_to_rest orderly
    have after := orderly.run later
    rw [run_eq] at after
    refine ⟨later, serving, updates_run serving _, fun call made => ?_, ?_⟩
    · rw [run_eq]
      exact after.replied (calls.symm ▸ made) waiting empty idle
    · rw [run_eq]
      exact stops

def jobSteps : List Step := [.create NodeId.root "job", .add ⟨2⟩ ⟨0⟩ 3]

def crowdingTurns : List Turn :=
  [.count 1 1 ⟨0⟩ 5, .mark 1, .call, .enter 0, .request, .request, .request]

def flushTurns : List Turn := List.replicate 10 .flush

/-- A second call waits for room, and a writer comes while the first is being served. -/
def crowdedTurns : List Turn :=
  [.call, .enter 1, .receive, .flush, .flush, .enter 1, .count 2 0 ⟨1⟩ 7, .mark 2] ++ flushTurns ++
    .tick :: flushTurns ++ (List.replicate 4 (.receive :: flushTurns)).flatten ++
    .close :: .last :: flushTurns

def crowded : Service ⟨2⟩ :=
  (onTree ⟨2⟩ jobSteps).run (crowdingTurns ++ .request :: crowdedTurns)

theorem promises_kept_in_a_crowd :
    crowded.worker.stopped = true ∧ crowded.worker.flushes = 7 ∧
      (crowded.repliesTo 1).length = 1 ∧
      CaughtUp ((Session.start ⟨2⟩).accrued jobSteps) ((onTree ⟨2⟩ jobSteps).run crowdingTurns)
        crowded := by
  obtain ⟨_, _, called, requested, ended, _⟩ := worker_keeps_promises ⟨2⟩ jobSteps (by decide)
    (crowdingTurns ++ .request :: crowdedTurns) (by decide +kernel)
  rw [← crowded] at called requested ended
  have stopped : crowded.worker.stopped = true := by decide +kernel
  obtain ⟨empty, idle, flushes, _⟩ := ended stopped
  refine ⟨stopped, flushes.trans (by decide +kernel), ?_, ?_⟩
  · have answered := called (crowdingTurns ++ [.request]) crowdedTurns.tail rfl (by decide +kernel)
    exact answered.stopped stopped
  · exact requested crowdingTurns crowdedTurns rfl (by decide +kernel) empty idle

end Service

end Rollup
