import Mathlib
import Rollup.Service

/-!
The order that the flush worker keeps. `Turned` is all that a step can do, and `Orderly` what holds
after each: the inbox is within its capacity, every message that it took is served in its turn or
still to be served, every call is waiting or has left one message, a message with a caller has one
answer once its flush has ended, and the last flush comes when nothing else can come any more.
`Later` compares two states of a run: the history of flushes only grows, so what has not begun in
the earlier one begins after it.
-/
namespace Rollup

@[simp]
def Occasion.message? : Occasion → Option Message
  | .message m => some m
  | .tick => none
  | .last => none

@[simp]
def Occasion.answer (result : Except NodeFault Summary) :
    Occasion → Option (Nat × Except NodeFault Summary)
  | .message (.sync call) => some (call, result)
  | .message .request => none
  | .tick => none
  | .last => none

namespace Worker

variable (w : Worker) (result : Except NodeFault Summary) (o : Occasion)

@[simp]
theorem flushed_inbox : (w.flushed result o).inbox = w.inbox := by
  cases o with
  | message m => cases m <;> rfl
  | tick => rfl
  | last => rfl

@[simp]
theorem flushed_accepting : (w.flushed result o).accepting = w.accepting := by
  cases o with
  | message m => cases m <;> rfl
  | tick => rfl
  | last => rfl

@[simp]
theorem flushed_flushes : (w.flushed result o).flushes = w.flushes + 1 := by
  cases o with
  | message m => cases m <;> rfl
  | tick => rfl
  | last => rfl

@[simp]
theorem flushed_replies : (w.flushed result o).replies = (o.answer result).toList ++ w.replies := by
  cases o with
  | message m => cases m <;> rfl
  | tick => rfl
  | last => rfl

@[simp]
theorem flushed_stopped : (w.flushed result o).stopped = (w.stopped || o = .last) := by
  cases o with
  | message m => cases m <;> simp [flushed, reply]
  | tick => simp [flushed]
  | last => simp [flushed]

end Worker

namespace Race

variable {cfg : Config}

theorem flush_result (r : Race cfg) :
    r.flush.flusher.isIdle = false ∧ r.flush.results = r.results ∨
      r.flusher.isIdle = false ∧ r.flush.flusher = .idle ∧
        ∃ result, r.flush.results = r.results ++ [result] := by
  have ended (r : Race cfg) (holds : List Nat)
      (outcome : Hierarchy cfg × Except Counter.Fault Summary) :
      (r.settled holds outcome).flusher = .idle ∧
        ∃ result, (r.settled holds outcome).results = r.results ++ [result] := by
    obtain ⟨h, result⟩ := outcome
    cases result with
    | ok sum => exact ⟨rfl, _, rfl⟩
    | error fault => exact ⟨rfl, _, rfl⟩
  obtain ⟨h, updates, f, results⟩ := r
  unfold flush
  match f with
  | .idle => exact Or.inl ⟨rfl, rfl⟩
  | .gathering (k :: ks) ahead found => exact Or.inl ⟨rfl, rfl⟩
  | .gathering [] (c :: cs) found => exact Or.inl ⟨rfl, rfl⟩
  | .gathering [] [] found =>
    simp only
    split
    · exact Or.inr ⟨rfl, rfl, _, rfl⟩
    · exact Or.inl ⟨rfl, rfl⟩
  | .settling due sum holds =>
    simp only
    split
    · exact Or.inr ⟨rfl, ended _ _ _⟩
    · split
      · exact Or.inr ⟨rfl, ended _ _ _⟩
      · exact Or.inl ⟨rfl, rfl⟩

theorem flush_starts {r : Race cfg} (rested : r.flusher.isIdle = true) :
    r.flush.flusher.isIdle = false ∧ r.flush.results = r.results := by
  refine r.flush_result.resolve_right fun ends => ?_
  exact absurd rested (by simp [ends.1])

end Race

namespace Service

variable {cfg : Config} {b s s' : Service cfg}

inductive Turned (s : Service cfg) : Service cfg → Prop
  | stays : Turned s s
  | writes (m : Move) (writing : m ≠ .flush) : Turned s { s with race := s.race.step m }
  | requests (accepting : s.worker.accepting = true)
      (room : s.worker.inbox.length < Worker.capacity) :
      Turned s { s with
        worker := { s.worker with inbox := s.worker.inbox ++ [.request] }
        accepted := s.accepted ++ [.request] }
  | calls (accepting : s.worker.accepting = true) :
      Turned s { s with calls := s.calls + 1, waiting := s.waiting ++ [s.calls] }
  | enters (call : Nat) (waits : call ∈ s.waiting) (accepting : s.worker.accepting = true)
      (room : s.worker.inbox.length < Worker.capacity) :
      Turned s { s with
        worker := { s.worker with inbox := s.worker.inbox ++ [.sync call] }
        accepted := s.accepted ++ [.sync call]
        waiting := s.waiting.erase call }
  | closes (none : s.waiting = []) : Turned s { s with worker := s.worker.close }
  | begins (o : Occasion) (rest : List Message) (free : s.isFree = true)
      (first : s.worker.inbox = o.message?.toList ++ rest)
      (final : o = .last → s.worker.accepting = false ∧ rest = []) :
      Turned s ({ s with worker := { s.worker with inbox := rest } }.begin o)
  | goesOn (o : Occasion) (serving : s.serving = some o)
      (busy : s.race.flush.flusher.isIdle = false)
      (results : s.race.flush.results = s.race.results) : Turned s { s with race := s.race.flush }
  | ends (o : Occasion) (result : Except NodeFault Summary) (serving : s.serving = some o)
      (idle : s.race.flush.flusher = .idle)
      (results : s.race.flush.results = s.race.results ++ [result]) :
      Turned s (s.done s.race.flush result o)

theorem request_turned (s : Service cfg) : Turned s s.request := by
  unfold request withInbox Worker.request
  cases ready : s.worker.accepting && s.worker.hasRoom with
  | true =>
    simp only [Worker.hasRoom, Bool.and_eq_true, decide_eq_true_eq] at ready
    simp only [if_true, List.drop_left]
    exact .requests ready.1 ready.2
  | false =>
    simp only [Bool.false_eq_true, if_false, List.drop_length, List.append_nil]
    exact .stays

theorem call_turned (s : Service cfg) : Turned s s.call := by
  unfold call
  split
  case isTrue accepting => exact .calls accepting
  case isFalse => exact .stays

theorem enter_turned (s : Service cfg) (call : Nat) : Turned s (s.enter call) := by
  unfold enter withInbox Worker.submit
  split
  case isFalse => exact .stays
  case isTrue waits =>
    cases ready : s.worker.accepting && s.worker.hasRoom with
    | true =>
      simp only [Worker.hasRoom, Bool.and_eq_true, decide_eq_true_eq] at ready
      simp only [if_true, List.drop_left]
      exact .enters call waits ready.1 ready.2
    | false =>
      simp only [Bool.false_eq_true, if_false]
      exact .stays

theorem close_turned (s : Service cfg) : Turned s s.close := by
  unfold close
  split
  case isTrue none => exact .closes none
  case isFalse => exact .stays

theorem receive_turned (s : Service cfg) : Turned s s.receive := by
  unfold receive
  split
  case h_1 => exact .stays
  case h_2 m rest inbox =>
    split
    case isTrue free => exact .begins (.message m) rest free inbox (by simp)
    case isFalse => exact .stays

theorem tick_turned (s : Service cfg) : Turned s s.tick := by
  unfold tick
  split
  case isTrue free => exact .begins .tick s.worker.inbox free rfl (by simp)
  case isFalse => exact .stays

theorem last_turned (s : Service cfg) : Turned s s.last := by
  unfold last
  split
  case isTrue ready =>
    simp only [Bool.and_eq_true, Bool.not_eq_true', List.isEmpty_iff] at ready
    exact .begins .last s.worker.inbox ready.1.1 rfl fun _ => ⟨ready.1.2, ready.2⟩
  case isFalse => exact .stays

theorem flush_turned (s : Service cfg) : Turned s s.flush := by
  unfold flush
  cases serving : s.serving with
  | none => exact .stays
  | some o =>
    rcases s.race.flush_result with ⟨busy, results⟩ | ⟨_, idle, result, results⟩
    · simp only
      split
      · rename_i idle _
        exact absurd busy (by simp [idle, Flusher.isIdle])
      · rw [← serving]
        exact .goesOn o serving busy results
    · simp only [idle, results, List.getLast?_concat]
      exact .ends o result serving idle results

theorem step_turned (s : Service cfg) (t : Turn) : Turned s (s.step t) := by
  cases t with
  | count writer key cpu delta => exact .writes (.count writer key cpu delta) (by simp)
  | mark writer => exact .writes (.mark writer) (by simp)
  | request => exact s.request_turned
  | call => exact s.call_turned
  | enter call => exact s.enter_turned call
  | close => exact s.close_turned
  | receive => exact s.receive_turned
  | tick => exact s.tick_turned
  | last => exact s.last_turned
  | flush => exact s.flush_turned

/-- The answers of these flushes with these results, oldest first. -/
def answers : List Occasion → List (Except NodeFault Summary) →
    List (Nat × Except NodeFault Summary)
  | o :: served, result :: results => (o.answer result).toList ++ answers served results
  | _, _ => []

structure Orderly (s : Service cfg) : Prop where
  room : s.worker.inbox.length ≤ Worker.capacity
  fifo : s.accepted = s.occasions.filterMap Occasion.message? ++ s.worker.inbox
  busy : s.race.flusher.isIdle = s.serving.isNone
  flushes : s.worker.flushes = s.served.length
  results : s.race.results.length = s.served.length
  replies : s.worker.replies = (answers s.served s.race.results).reverse
  numbered : ∀ call, s.waiting.count call + s.accepted.count (.sync call) =
    if call < s.calls then 1 else 0
  closed : s.worker.accepting = false → s.waiting = []
  final : .last ∈ s.occasions → s.worker.accepting = false ∧ s.worker.inbox = []
  stopped : s.served.count .last = if s.worker.stopped then 1 else 0
  resting : s.worker.stopped = true → s.serving = none

theorem Orderly.start (h : Hierarchy cfg) : Orderly (start h) where
  room := Nat.zero_le _
  fifo := rfl
  busy := rfl
  flushes := rfl
  results := rfl
  replies := rfl
  numbered call := rfl
  closed open_ := absurd open_ (by simp [Service.start, Worker.spawned])
  final last := absurd last (by simp [occasions, Service.start])
  stopped := rfl
  resting stopped := absurd stopped (by simp [Service.start, Worker.spawned])

section
variable {served : List Occasion} {results : List (Except NodeFault Summary)} {call : Nat}

theorem answers_append (same : served.length = results.length) (o : Occasion)
    (result : Except NodeFault Summary) :
    answers (served ++ [o]) (results ++ [result]) =
      answers served results ++ (o.answer result).toList := by
  induction served generalizing results with
  | nil =>
    obtain rfl : results = [] := List.length_eq_zero_iff.mp same.symm
    simp [answers]
  | cons first rest ih =>
    cases results with
    | nil => exact absurd same (by simp)
    | cons result' others =>
      simp only [List.cons_append, answers, ih (Nat.succ.inj same), List.append_assoc]

theorem answer_eq_some {o : Occasion} {result given : Except NodeFault Summary} :
    o.answer result = some (call, given) ↔ o = .message (.sync call) ∧ result = given := by
  cases o with
  | message m => cases m <;> simp
  | tick => simp
  | last => simp

theorem mem_answers {given : Except NodeFault Summary} :
    (call, given) ∈ answers served results ↔
      ∃ j : Nat, served[j]? = some (Occasion.message (.sync call)) ∧ results[j]? = some given := by
  induction served generalizing results with
  | nil => simp [answers]
  | cons o rest ih =>
    cases results with
    | nil => simp [answers]
    | cons result others =>
      simp only [answers, List.mem_append, Option.mem_toList, answer_eq_some, ih]
      constructor
      · rintro (⟨rfl, rfl⟩ | ⟨j, later⟩)
        · exact ⟨0, rfl, rfl⟩
        · exact ⟨j + 1, later⟩
      · rintro ⟨j, found, given_eq⟩
        cases j with
        | zero => exact Or.inl ⟨Option.some.inj found, Option.some.inj given_eq⟩
        | succ j => exact Or.inr ⟨j, found, given_eq⟩

theorem count_answers (same : served.length = results.length) :
    (answers served results).countP (fun e => e.1 = call) =
      served.count (.message (.sync call)) := by
  induction served generalizing results with
  | nil => rfl
  | cons o rest ih =>
    cases results with
    | nil => exact absurd same (by simp)
    | cons result others =>
      have one : (o.answer result).toList.countP (fun e => e.1 = call) =
          if o = .message (.sync call) then 1 else 0 := by
        cases o with
        | message m => cases m <;> simp [List.countP_singleton]
        | tick => simp
        | last => simp
      simp only [answers, List.countP_append, one, ih (Nat.succ.inj same), List.count_cons,
        beq_iff_eq, Nat.add_comm]

theorem count_messages (served : List Occasion) (m : Message) :
    (served.filterMap Occasion.message?).count m = served.count (.message m) := by
  induction served with
  | nil => rfl
  | cons o rest ih =>
    cases o with
    | message n => simp [List.count_cons, ih]
    | tick => simp [List.filterMap_cons, ih]
    | last => simp [List.filterMap_cons, ih]

end

theorem free_iff : s.isFree = true ↔ s.serving = none ∧ s.worker.stopped = false := by
  simp [isFree]

namespace Orderly

variable (orderly : Orderly s)
include orderly

theorem admits (m : Message) (room : s.worker.inbox.length < Worker.capacity)
    (accepting : s.worker.accepting = true) (waiting : List Nat)
    (numbered : ∀ call, waiting.count call + (s.accepted ++ [m]).count (.sync call) =
      if call < s.calls then 1 else 0) :
    Orderly { s with
      worker := { s.worker with inbox := s.worker.inbox ++ [m] }
      accepted := s.accepted ++ [m]
      waiting := waiting } where
  room := by simpa using room
  fifo := by
    have before := orderly.fifo
    simp only [occasions, before, List.append_assoc]
  busy := orderly.busy
  flushes := orderly.flushes
  results := orderly.results
  replies := orderly.replies
  numbered := numbered
  closed none := absurd none (by simp [accepting])
  final last := absurd (orderly.final last).1 (by simp [accepting])
  stopped := orderly.stopped
  resting := orderly.resting

theorem requests (room : s.worker.inbox.length < Worker.capacity)
    (accepting : s.worker.accepting = true) :
    Orderly { s with
      worker := { s.worker with inbox := s.worker.inbox ++ [.request] }
      accepted := s.accepted ++ [.request] } := by
  apply orderly.admits .request room accepting s.waiting
  intro call
  have before := orderly.numbered call
  simpa using before

theorem calls (accepting : s.worker.accepting = true) :
    Orderly { s with calls := s.calls + 1, waiting := s.waiting ++ [s.calls] } :=
  { orderly with
    numbered := by
      intro call
      have before := orderly.numbered call
      simp only [List.count_append, List.count_singleton, beq_iff_eq]
      by_cases new : s.calls = call
      · subst new
        simp only [Nat.lt_irrefl, if_false] at before
        simp only [Nat.lt_succ_self, if_true]
        omega
      · rw [if_neg new]
        split at before <;> split <;> omega
    closed := fun none => absurd none (by simp [accepting]) }

theorem enters {call : Nat} (waits : call ∈ s.waiting)
    (room : s.worker.inbox.length < Worker.capacity) (accepting : s.worker.accepting = true) :
    Orderly { s with
      worker := { s.worker with inbox := s.worker.inbox ++ [.sync call] }
      accepted := s.accepted ++ [.sync call]
      waiting := s.waiting.erase call } := by
  apply orderly.admits (.sync call) room accepting (s.waiting.erase call)
  intro other
  have before := orderly.numbered other
  have some : 0 < s.waiting.count call := List.count_pos_iff.mpr waits
  simp only [List.count_append, List.count_singleton, List.count_erase, beq_iff_eq,
    Message.sync.injEq]
  by_cases same : call = other
  · subst same
    simp only [if_true]
    omega
  · simp only [same, if_false]
    omega

theorem closes (none : s.waiting = []) : Orderly { s with worker := s.worker.close } :=
  { orderly with
    closed := fun _ => none
    final := fun last => ⟨rfl, (orderly.final last).2⟩ }

/-- Before it has stopped the worker has not begun its last flush, unless that is under way. -/
theorem last_not_served (going : s.worker.stopped = false) : .last ∉ s.served := by
  have count := orderly.stopped
  rw [going] at count
  exact List.count_eq_zero.mp count

theorem begins {o : Occasion} {rest : List Message} (free : s.isFree = true)
    (first : s.worker.inbox = o.message?.toList ++ rest)
    (final : o = .last → s.worker.accepting = false ∧ rest = []) :
    Orderly ({ s with worker := { s.worker with inbox := rest } }.begin o) := by
  obtain ⟨idle, going⟩ := free_iff.mp free
  have occasions : s.occasions = s.served := by simp [Service.occasions, idle]
  have rested : s.race.flusher.isIdle = true := by simp [orderly.busy, idle]
  obtain ⟨busy, results⟩ := Race.flush_starts rested
  constructor
  case room =>
    have before := orderly.room
    rw [first, List.length_append] at before
    exact Nat.le_trans (Nat.le_add_left _ _) before
  case fifo =>
    have before := orderly.fifo
    rw [occasions, first] at before
    simp only [begin, Service.occasions, before, List.filterMap_append, Option.toList_some,
      List.append_assoc]
    cases o <;> rfl
  case busy => exact busy
  case flushes => exact orderly.flushes
  case results => exact (congrArg List.length results).trans orderly.results
  case replies =>
    simp only [begin, results]
    exact orderly.replies
  case numbered => exact orderly.numbered
  case closed => exact orderly.closed
  case final =>
    intro last
    rcases List.mem_append.mp last with served | now
    · exact absurd served (orderly.last_not_served going)
    · have same : .last = o := by simpa [begin] using now
      exact final same.symm
  case stopped => exact orderly.stopped
  case resting => exact fun stopped => absurd stopped (by simp [begin, going])

theorem goesOn {o : Occasion} (serving : s.serving = some o)
    (busy : s.race.flush.flusher.isIdle = false)
    (results : s.race.flush.results = s.race.results) :
    Orderly { s with race := s.race.flush } :=
  { orderly with
    busy := by rw [busy, serving]; rfl
    results := (congrArg List.length results).trans orderly.results
    replies := by simpa only [results] using orderly.replies }

theorem ends {o : Occasion} {result : Except NodeFault Summary} (serving : s.serving = some o)
    (idle : s.race.flush.flusher = .idle)
    (results : s.race.flush.results = s.race.results ++ [result]) :
    Orderly (s.done s.race.flush result o) := by
  have going : s.worker.stopped = false := by
    cases stopped : s.worker.stopped with
    | false => rfl
    | true => exact absurd (orderly.resting stopped) (by simp [serving])
  have occasions : (s.done s.race.flush result o).occasions = s.occasions := by
    simp [done, Service.occasions, serving]
  constructor
  case room => simpa [done] using orderly.room
  case fifo =>
    rw [occasions]
    simpa [done] using orderly.fifo
  case busy => simp [done, idle, Flusher.isIdle]
  case flushes => simp [done, orderly.flushes]
  case results => simp [done, results, orderly.results]
  case replies =>
    simp only [done, Worker.flushed_replies, results, answers_append orderly.results.symm,
      List.reverse_append, orderly.replies]
    cases o.answer result <;> rfl
  case numbered => exact orderly.numbered
  case closed => simpa [done] using orderly.closed
  case final =>
    rw [occasions]
    simpa [done] using orderly.final
  case stopped =>
    have before := List.count_eq_zero.mpr (orderly.last_not_served going)
    simp [done, going, before, List.count_singleton]
  case resting => exact fun _ => rfl

omit orderly in
theorem writer_flusher (r : Race cfg) {m : Move} (writing : m ≠ .flush) :
    (r.step m).flusher = r.flusher ∧ (r.step m).results = r.results := by
  cases m with
  | count writer key cpu delta =>
    simp only [Race.step, Race.count]
    split <;> exact ⟨rfl, rfl⟩
  | mark writer =>
    simp only [Race.step, Race.mark]
    split <;> exact ⟨rfl, rfl⟩
  | flush => exact absurd rfl writing

theorem turned (turned : Turned s s') : Orderly s' := by
  cases turned with
  | stays => exact orderly
  | writes m writing =>
    obtain ⟨flusher, results⟩ := writer_flusher s.race writing
    exact { orderly with
      busy := by simpa only [flusher] using orderly.busy
      results := by simpa only [results] using orderly.results
      replies := by simpa only [results] using orderly.replies }
  | requests accepting room => exact orderly.requests room accepting
  | calls accepting => exact orderly.calls accepting
  | enters call waits accepting room => exact orderly.enters waits room accepting
  | closes none => exact orderly.closes none
  | begins o rest free first final => exact orderly.begins free first final
  | goesOn o serving busy results => exact orderly.goesOn serving busy results
  | ends o result serving idle results => exact orderly.ends serving idle results

theorem run (turns : List Turn) : Orderly (s.run turns) := by
  induction turns generalizing s with
  | nil => exact orderly
  | cons t rest ih => exact ih (orderly.turned (s.step_turned t))

theorem mem_replies {call : Nat} {result : Except NodeFault Summary} :
    result ∈ s.repliesTo call ↔
      ∃ j : Nat, s.served[j]? = some (Occasion.message (.sync call)) ∧
        s.race.results[j]? = some result := by
  rw [← mem_answers]
  simp [repliesTo, orderly.replies]

theorem count_replies (call : Nat) :
    (s.repliesTo call).length = s.served.count (.message (.sync call)) := by
  rw [repliesTo, orderly.replies, List.length_map, List.filter_reverse, List.length_reverse,
    ← List.countP_eq_length_filter, count_answers orderly.results.symm]

theorem count_accepted (call : Nat) :
    s.accepted.count (.sync call) = s.served.count (.message (.sync call)) +
      s.serving.toList.count (.message (.sync call)) + s.worker.inbox.count (.sync call) := by
  rw [orderly.fifo, List.count_append, count_messages, occasions, List.count_append]

theorem replies_le (call : Nat) : (s.repliesTo call).length ≤ 1 := by
  have accepted := orderly.count_accepted call
  have numbered := orderly.numbered call
  rw [orderly.count_replies]
  split at numbered <;> omega

theorem replied {call : Nat} (made : call < s.calls) (waiting : s.waiting = [])
    (empty : s.worker.inbox = []) (idle : s.serving = none) :
    (s.repliesTo call).length = 1 := by
  have accepted := orderly.count_accepted call
  have numbered := orderly.numbered call
  rw [if_pos made, waiting] at numbered
  rw [empty, idle] at accepted
  simp only [Option.toList_none, List.count_nil] at accepted numbered
  rw [orderly.count_replies]
  omega

theorem at_rest (stopped : s.worker.stopped = true) :
    s.worker.accepting = false ∧ s.waiting = [] ∧ s.worker.inbox = [] ∧ s.serving = none := by
  have count := orderly.stopped
  simp only [stopped, if_true] at count
  have served : .last ∈ s.served := List.count_pos_iff.mp (by omega)
  obtain ⟨closed, empty⟩ := orderly.final (List.mem_append_left _ served)
  exact ⟨closed, orderly.closed closed, empty, orderly.resting stopped⟩

omit orderly in
theorem length_occasions (served : List Occasion) :
    served.length = (served.filterMap Occasion.message?).length + served.count .tick +
      served.count .last := by
  induction served with
  | nil => rfl
  | cons o rest ih =>
    cases o with
    | message m =>
      simp [ih]
      omega
    | tick =>
      simp [List.filterMap_cons, ih]
      omega
    | last =>
      simp [List.filterMap_cons, ih]
      omega

/-- One flush for each message, one for each tick, and the last one. -/
theorem flushes_of_stopped (stopped : s.worker.stopped = true) :
    s.worker.flushes = s.accepted.length + s.served.count .tick + 1 := by
  obtain ⟨_, _, empty, idle⟩ := orderly.at_rest stopped
  have count := orderly.stopped
  have all := length_occasions s.served
  simp only [stopped, if_true] at count
  rw [orderly.flushes, orderly.fifo, empty, occasions, idle, Option.toList_none, List.append_nil,
    List.append_nil]
  omega

end Orderly

/-- What has been made, accepted or begun stays so, in its order. -/
structure Later (b s : Service cfg) : Prop where
  occasions : b.occasions <+: s.occasions
  accepted : b.accepted <+: s.accepted
  calls : b.calls ≤ s.calls

namespace Later

theorem refl (s : Service cfg) : Later s s :=
  ⟨List.prefix_refl _, List.prefix_refl _, Nat.le_refl _⟩

theorem trans {s'' : Service cfg} (first : Later s s') (second : Later s' s'') : Later s s'' :=
  ⟨first.occasions.trans second.occasions, first.accepted.trans second.accepted,
    Nat.le_trans first.calls second.calls⟩

theorem of_turned (turned : Turned s s') : Later s s' := by
  cases turned with
  | stays => exact refl s
  | writes m writing => exact ⟨List.prefix_refl _, List.prefix_refl _, Nat.le_refl _⟩
  | requests accepting room =>
    exact ⟨List.prefix_refl _, List.prefix_append _ _, Nat.le_refl _⟩
  | calls accepting => exact ⟨List.prefix_refl _, List.prefix_refl _, Nat.le_succ _⟩
  | enters call waits accepting room =>
    exact ⟨List.prefix_refl _, List.prefix_append _ _, Nat.le_refl _⟩
  | closes none => exact ⟨List.prefix_refl _, List.prefix_refl _, Nat.le_refl _⟩
  | begins o rest free first final =>
    have idle := (free_iff.mp free).1
    refine ⟨?_, List.prefix_refl _, Nat.le_refl _⟩
    simp [Service.occasions, begin, idle]
  | goesOn o serving busy results =>
    exact ⟨List.prefix_refl _, List.prefix_refl _, Nat.le_refl _⟩
  | ends o result serving idle results =>
    refine ⟨?_, List.prefix_refl _, Nat.le_refl _⟩
    simp [Service.occasions, done, serving]

theorem run (s : Service cfg) (turns : List Turn) : Later s (s.run turns) := by
  induction turns generalizing s with
  | nil => exact refl s
  | cons t rest ih => exact (of_turned (s.step_turned t)).trans (ih (s.step t))

variable (later : Later b s)
include later

theorem begun_le {j : Nat} {o : Occasion} (found : s.served[j]? = some o)
    (new : o ∉ b.occasions) : b.begun ≤ j := by
  by_contra early
  have inside : j < b.occasions.length := Nat.lt_of_not_le early
  have same : s.occasions[j]? = some o := by
    rw [Service.occasions, List.getElem?_append_left (List.getElem?_eq_some_iff.mp found).1]
    exact found
  have before := List.prefix_iff_getElem?.mp later.occasions j inside
  rw [same] at before
  exact new (Option.some.inj before ▸ List.getElem_mem inside)

theorem flushed_since (idle : s.serving = none) (other : s.served ≠ b.occasions) :
    b.begun < s.served.length := by
  have occasions : b.occasions <+: s.served := by
    have grown := later.occasions
    simpa [Service.occasions, idle] using grown
  by_contra early
  exact other (occasions.eq_of_length_le (Nat.le_of_not_lt early)).symm

end Later

end Service

end Rollup
