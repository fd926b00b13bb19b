import Mathlib
import Rollup.Race
import Rollup.Proofs.KeptBooks

/-!
A flush that others may interrupt between any two of its steps. `Flushing` is what it can rely on
after each of them: what it has taken is in the tree and includes the parents of all that it
includes, and only what it has taken has anything pending. Whatever else is marked or counted
meanwhile touches none of this.

`FlushStep` says what one step of the flusher may do. It settles at most one node, and every other
node that was on a list, or taken and not settled, still is.
-/
namespace Rollup

namespace Hierarchy

variable {cfg : Config} {h h' : Hierarchy cfg} {f f' : Flusher cfg}

/-- A flush between two of its steps. -/
structure Flushing (h : Hierarchy cfg) (f : Flusher cfg) : Prop extends Intact h where
  valid : f.scheduled.Valid h.rank
  inside : ∀ k ∈ f.claimed, k < h.arena.size
  claimed_live : ∀ k ∈ f.claimed, (h.node k).removed = false
  closed : ∀ k ∈ f.claimed, ∀ p, (h.node k).parent = some p → p ∈ f.claimed
  quiet : ∀ k, h.pending k ≠ 0 → k ∈ f.claimed
  borrowed : ∀ k ∈ f.borrowed, k ∈ h.holds

def Awaits (h : Hierarchy cfg) (f : Flusher cfg) (slots : List (Fin cfg.slots)) (k : Nat) : Prop :=
  (∃ c ∈ slots, h.lists c k) ∨ k ∈ f.claimed

theorem Awaits.counted {slots : List (Fin cfg.slots)} {j : Nat} (awaits : h.Awaits f slots j)
    (k : Nat) (cpu : Cpu) (delta : UInt64) : (h.count k cpu delta).Awaits f slots j :=
  awaits.imp_left fun ⟨c, member, listed⟩ => ⟨c, member, (h.lists_count k cpu delta c j).mpr listed⟩

theorem Awaits.enqueued {slots : List (Fin cfg.slots)} {j : Nat} {d : Fin cfg.slots}
    {ks : List Nat} (awaits : h.Awaits f slots j) (queued : Enqueued h h' d ks) :
    h'.Awaits f slots j :=
  awaits.imp_left fun ⟨c, member, listed⟩ => ⟨c, member, (queued.lists c j).mpr (Or.inl listed)⟩

theorem mem_claimed {k : Nat} : k ∈ f.claimed ↔ k ∈ f.taken ∨ k ∈ f.scheduled.waiting :=
  List.mem_append

theorem not_claimed_idle (k : Nat) : k ∉ (Flusher.idle : Flusher cfg).claimed := by
  rw [mem_claimed]
  simp [Flusher.taken, Flusher.scheduled, Schedule.waiting_empty]

namespace Flushing

variable {k : Nat}

theorem start (intact : h.Intact) (quiet : h.Quiet) : h.Flushing .idle where
  toIntact := intact
  valid := Schedule.valid_empty h.rank
  inside k member := absurd member (not_claimed_idle k)
  claimed_live k member := absurd member (not_claimed_idle k)
  closed k member := absurd member (not_claimed_idle k)
  quiet k some := absurd (quiet k) some
  borrowed k member := absurd member (by simp [Flusher.borrowed])

theorem quiet_of_unclaimed (flushing : h.Flushing f) (none : ∀ k, k ∉ f.claimed) : h.Quiet := by
  intro k
  by_contra some
  exact none k (flushing.quiet k some)

theorem carry (flushing : h.Flushing f) (intact : h'.Intact) (shape : SameShape h h')
    (pending : h'.pending = h.pending) (valid : f'.scheduled.Valid h.rank)
    (claimed : ∀ j, j ∈ f'.claimed ↔ j ∈ f.claimed) (borrowed : ∀ j ∈ f'.borrowed, j ∈ h'.holds) :
    h'.Flushing f' where
  toIntact := intact
  valid := by
    rw [shape.rank]
    exact valid
  inside j member := by
    rw [shape.size]
    exact flushing.inside j ((claimed j).mp member)
  claimed_live j member := by
    rw [shape.removed]
    exact flushing.claimed_live j ((claimed j).mp member)
  closed j member p up := by
    rw [shape.parent] at up
    exact (claimed p).mpr (flushing.closed j ((claimed j).mp member) p up)
  quiet j some := by
    rw [pending] at some
    exact (claimed j).mpr (flushing.quiet j some)
  borrowed := borrowed

theorem counted (flushing : h.Flushing f) {delta : UInt64} (inside : k < h.arena.size)
    (fits : h.recordings + delta.toNat < UInt64.size) (cpu : Cpu) :
    (h.count k cpu delta).Flushing f := by
  have counted := flushing.solvent.counted inside fits cpu
  exact flushing.carry (flushing.toIntact.counted inside fits cpu) counted.toSameShape
    counted.pending_eq flushing.valid (fun _ => Iff.rfl) flushing.borrowed

theorem marked (flushing : h.Flushing f) (inside : k < h.arena.size)
    (live : (h.node k).removed = false) (cpu : Cpu) : (h.mark k cpu).Flushing f := by
  have marked := flushing.toIntact.enqueues inside live cpu
  refine flushing.carry (flushing.toIntact.marked inside live cpu) marked.toSameShape
    marked.toOnlyLists.books.pending_eq flushing.valid (fun _ => Iff.rfl) fun j member => ?_
  rw [marked.holds]
  exact flushing.borrowed j member

end Flushing

/-- One step of the flusher, which settles these nodes. -/
structure FlushStep (h : Hierarchy cfg) (f : Flusher cfg) (h' : Hierarchy cfg) (f' : Flusher cfg)
    (done : List Nat) : Prop where
  flushing : h'.Flushing f'
  shape : SameShape h h'
  recorded : ∀ j, h'.recorded j = h.recorded j
  drained : ∀ j, h'.drained j = if j ∈ done then h.recorded j else h.drained j
  rising : ∀ j, h.total j ≤ h'.total j
  leftover : ∀ c j, h'.lists c j → h.lists c j ∧ (c ∈ f'.ahead ∨ c ∉ f.ahead)
  awaited : ∀ j, j ∉ done → h.Awaits f (List.finRange cfg.slots) j →
    h'.Awaits f' (List.finRange cfg.slots) j
  promised : ∀ j, j ∉ done → h.Awaits f f.ahead j → h'.Awaits f' f'.ahead j

theorem FlushStep.of_kept (flushing : h'.Flushing f') (shape : SameShape h h')
    (counts : SameCounts h h') (queues : h'.queues = h.queues)
    (claimed : ∀ j, j ∈ f.claimed → j ∈ f'.claimed) (ahead : ∀ c ∈ f.ahead, c ∈ f'.ahead) :
    FlushStep h f h' f' [] := by
  have lists (c : Fin cfg.slots) (j : Nat) : h'.lists c j ↔ h.lists c j := by
    rw [Hierarchy.lists, Hierarchy.lists, queues, shape.id]
  have books : SameBooks h h' := .of_counts shape counts
  refine ⟨flushing, shape, fun j => congrFun books.recorded_eq j,
    fun j => congrFun books.drained_eq j, fun j => Nat.le_of_eq (congrFun books.total_eq j).symm,
    ?_, ?_, ?_⟩
  · intro c j listed
    by_cases member : c ∈ f.ahead
    · exact ⟨(lists c j).mp listed, Or.inl (ahead c member)⟩
    · exact ⟨(lists c j).mp listed, Or.inr member⟩
  · rintro j - (⟨c, member, listed⟩ | member)
    · exact Or.inl ⟨c, member, (lists c j).mpr listed⟩
    · exact Or.inr (claimed j member)
  · rintro j - (⟨c, member, listed⟩ | member)
    · exact Or.inl ⟨c, ahead c member, (lists c j).mpr listed⟩
    · exact Or.inr (claimed j member)

section
variable {found due : Schedule} {ahead cs : List (Fin cfg.slots)} {ks : List Nat}
  {c : Fin cfg.slots} {k : Nat} {sum : Summary} {holds : List Nat}

theorem Intact.refer (intact : h.Intact) (holds : List Nat) (flushes : Nat)
    (held : ∀ j ∈ holds, h.isAlive j = true) :
    Intact { h with holds := holds, flushes := flushes } := by
  have books : SameBooks h { h with holds := holds, flushes := flushes } := .of_arena rfl rfl
  exact intact.carry (.of_arena rfl rfl) rfl (fun _ => rfl) held
    (books.solvent intact.solvent) (books.conserved intact.conserved)

theorem flushing_begins (flushing : h.Flushing .idle) :
    FlushStep h .idle h (.gathering [] (List.finRange cfg.slots) .empty) [] := by
  have after : h.Flushing (.gathering [] (List.finRange cfg.slots) .empty) :=
    flushing.carry flushing.toIntact (.refl h) rfl flushing.valid (fun _ => Iff.rfl)
      flushing.borrowed
  exact .of_kept after (.refl h) (.of_arena rfl) rfl (fun _ member => member)
    fun _ member => absurd member (by simp [Flusher.ahead])

theorem flushing_schedules (flushing : h.Flushing (.gathering (k :: ks) ahead found)) :
    FlushStep h (.gathering (k :: ks) ahead found) h
      (.gathering ks ahead (h.schedule found k)) [] := by
  have known {j : Nat} (member : j ∈ k :: ks ∨ j ∈ found.waiting) :
      j < h.arena.size ∧ (h.node j).removed = false := by
    have claimed := mem_claimed (f := .gathering (k :: ks) ahead found).mpr member
    exact ⟨flushing.inside j claimed, flushing.claimed_live j claimed⟩
  have waits (j : Nat) : j ∈ (h.schedule found k).waiting ↔ j ∈ found.waiting ∨ j = k := by
    refine Schedule.waiting_push flushing.valid (fun i member same => ?_) j
    obtain ⟨inside_i, live_i⟩ := known (Or.inr member)
    obtain ⟨inside_k, live_k⟩ := known (Or.inl List.mem_cons_self)
    exact flushing.shaped.same_of_id inside_i inside_k live_i live_k same
  have claimed (j : Nat) : j ∈ (Flusher.gathering ks ahead (h.schedule found k)).claimed ↔
      j ∈ (Flusher.gathering (k :: ks) ahead found).claimed := by
    rw [mem_claimed, mem_claimed]
    simp only [Flusher.taken, Flusher.scheduled, waits, List.mem_cons]
    constructor
    · rintro (later | waits | first)
      · exact Or.inl (Or.inr later)
      · exact Or.inr waits
      · exact Or.inl (Or.inl first)
    · rintro ((first | later) | waits)
      · exact Or.inr (Or.inr first)
      · exact Or.inl later
      · exact Or.inr (Or.inl waits)
  have after : h.Flushing (.gathering ks ahead (h.schedule found k)) :=
    flushing.carry flushing.toIntact (.refl h) rfl
      (Schedule.push_valid flushing.valid k) claimed flushing.borrowed
  exact .of_kept after (.refl h) (.of_arena rfl) rfl
    (fun j member => (claimed j).mpr member) fun _ member => member

theorem claimed_of_take (tracked : h.Tracked) (j : Nat) :
    j ∈ (Flusher.gathering (h.takeQueue c).1 cs found).claimed ↔
      h.lists c j ∨ j ∈ (Flusher.gathering [] (c :: cs) found).claimed := by
  rw [mem_claimed, mem_claimed]
  simp [Flusher.taken, Flusher.scheduled, (take_queue tracked.filed c).1.yields]

theorem Flushing.takes (flushing : h.Flushing (.gathering [] (c :: cs) found)) :
    (h.takeQueue c).2.Flushing (.gathering (h.takeQueue c).1 cs found) := by
  have taken := (take_queue flushing.tracked.filed c).1
  have books := taken.toOnlyLists.books
  have claimed (j : Nat) : j ∈ (Flusher.gathering (h.takeQueue c).1 cs found).claimed ↔
      h.lists c j ∨ j ∈ (Flusher.gathering [] (c :: cs) found).claimed :=
    claimed_of_take flushing.tracked j
  constructor
  case toIntact =>
    refine ⟨flushing.shaped.of_same taken.toSameShape, flushing.tracked.taken taken,
      books.solvent flushing.solvent, books.conserved flushing.conserved, fun {d j} listed => ?_⟩
    rw [taken.removed]
    exact flushing.live ((taken.lists d j).mp listed).1
  case valid =>
    rw [taken.rank]
    exact flushing.valid
  case inside =>
    intro j member
    rw [taken.size]
    cases (claimed j).mp member with
    | inl listed => exact flushing.tracked.inside listed
    | inr old => exact flushing.inside j old
  case claimed_live =>
    intro j member
    rw [taken.removed]
    cases (claimed j).mp member with
    | inl listed => exact flushing.live listed
    | inr old => exact flushing.claimed_live j old
  case closed =>
    intro j member p up
    rw [taken.parent] at up
    cases (claimed j).mp member with
    | inl listed =>
      have link := (flushing.shaped.parent_of_live (flushing.live listed)).trans up
      exact (claimed p).mpr (Or.inl (flushing.tracked.closed listed link))
    | inr old => exact (claimed p).mpr (Or.inr (flushing.closed j old p up))
  case quiet =>
    intro j some
    rw [books.pending_eq] at some
    exact (claimed j).mpr (Or.inr (flushing.quiet j some))
  case borrowed =>
    intro j member
    exact absurd member (by simp [Flusher.borrowed])

theorem flushing_takes (flushing : h.Flushing (.gathering [] (c :: cs) found)) :
    FlushStep h (.gathering [] (c :: cs) found) (h.takeQueue c).2
      (.gathering (h.takeQueue c).1 cs found) [] := by
  have taken := (take_queue flushing.tracked.filed c).1
  have books := taken.toOnlyLists.books
  have claimed (j : Nat) : j ∈ (Flusher.gathering (h.takeQueue c).1 cs found).claimed ↔
      h.lists c j ∨ j ∈ (Flusher.gathering [] (c :: cs) found).claimed :=
    claimed_of_take flushing.tracked j
  have moves {slots slots' : List (Fin cfg.slots)} (known : ∀ d ∈ slots, d = c ∨ d ∈ slots')
      (j : Nat) (awaits : h.Awaits (.gathering [] (c :: cs) found) slots j) :
      (h.takeQueue c).2.Awaits (.gathering (h.takeQueue c).1 cs found) slots' j := by
    rcases awaits with ⟨d, member, listed⟩ | member
    · by_cases here : h.lists c j
      · exact Or.inr ((claimed j).mpr (Or.inl here))
      · have other : d ≠ c := fun same => here (same ▸ listed)
        exact Or.inl ⟨d, (known d member).resolve_left other,
          (taken.lists d j).mpr ⟨listed, by simpa using other⟩⟩
    · exact Or.inr ((claimed j).mpr (Or.inr member))
  constructor
  case flushing => exact flushing.takes
  case shape => exact taken.toSameShape
  case recorded => exact fun j => congrFun books.recorded_eq j
  case drained => exact fun j => congrFun books.drained_eq j
  case rising => exact fun j => Nat.le_of_eq (congrFun books.total_eq j).symm
  case leftover =>
    intro d j listed
    obtain ⟨before, other⟩ := (taken.lists d j).mp listed
    refine ⟨before, ?_⟩
    by_cases later : d ∈ cs
    · exact Or.inl later
    · exact Or.inr fun member => (List.mem_cons.mp member).elim (by simpa using other) later
  case awaited =>
    intro j _
    exact moves (fun d _ => Or.inr (List.mem_finRange d)) j
  case promised =>
    intro j _
    exact moves (fun d member => List.mem_cons.mp member) j

theorem flushing_finds_nothing (flushing : h.Flushing (.gathering [] [] found))
    (none : found.waiting = []) : FlushStep h (.gathering [] [] found) h .idle [] := by
  have claimed (j : Nat) : j ∉ (Flusher.gathering [] [] found : Flusher cfg).claimed := by
    rw [mem_claimed]
    simp [Flusher.taken, Flusher.scheduled, none]
  have after : h.Flushing .idle := .start flushing.toIntact (flushing.quiet_of_unclaimed claimed)
  exact .of_kept after (.refl h) (.of_arena rfl) rfl
    (fun j member => absurd member (claimed j)) fun _ member => member

theorem flushing_goes_on (flushing : h.Flushing (.gathering [] [] found)) :
    FlushStep h (.gathering [] [] found) { h with holds := found.waiting ++ h.holds }
      (.settling found sum h.holds) [] := by
  have intact := flushing.toIntact.refer (found.waiting ++ h.holds) h.flushes fun j member => by
    cases List.mem_append.mp member with
    | inl waits => exact alive_of_live (flushing.claimed_live j (mem_claimed.mpr (Or.inr waits)))
    | inr held => exact alive_of_held held
  have after : Flushing { h with holds := found.waiting ++ h.holds }
      (.settling found sum h.holds) :=
    flushing.carry intact (.of_arena rfl rfl) rfl flushing.valid (fun _ => Iff.rfl)
      fun j member => List.mem_append_right _ member
  exact .of_kept after (.of_arena rfl rfl) (.of_arena rfl) rfl (fun _ member => member)
    fun _ member => member

theorem flushing_ends (flushing : h.Flushing (.settling due sum holds)) (last : due.pop = none)
    (flushes : Nat) :
    FlushStep h (.settling due sum holds) { h with holds := holds, flushes := flushes } .idle
      [] := by
  have none : due.waiting = [] := Schedule.pop_none flushing.valid last
  have claimed (j : Nat) : j ∉ (Flusher.settling due sum holds : Flusher cfg).claimed := by
    rw [mem_claimed]
    simp [Flusher.taken, Flusher.scheduled, none]
  have intact := flushing.toIntact.refer holds flushes fun j member =>
    alive_of_held (flushing.borrowed j member)
  have after : Flushing { h with holds := holds, flushes := flushes } .idle :=
    .start intact (flushing.quiet_of_unclaimed claimed)
  exact .of_kept after (.of_arena rfl rfl) (.of_arena rfl) rfl
    (fun j member => absurd member (claimed j)) fun _ member => member

theorem claimed_settling (j : Nat) :
    j ∈ (Flusher.settling due sum holds : Flusher cfg).claimed ↔ j ∈ due.waiting := by
  rw [mem_claimed]
  simp [Flusher.taken, Flusher.scheduled]

theorem Flushing.linked (flushing : h.Flushing (.settling due sum holds)) {j : Nat}
    (waits : j ∈ due.waiting) : h.parent? j = (h.node j).parent :=
  flushing.shaped.parent_of_live (flushing.claimed_live j ((claimed_settling j).mpr waits))

theorem Flushing.underway (flushing : h.Flushing (.settling due sum holds)) :
    Underway h h due where
  shape := SameShape.refl h
  queues := rfl
  holds := rfl
  nextId := rfl
  flushes := rfl
  queued _ := rfl
  valid := flushing.valid
  inside j waits := flushing.inside j ((claimed_settling j).mpr waits)
  closed j waits p up := by
    rw [flushing.linked waits] at up
    exact (claimed_settling p).mp (flushing.closed j ((claimed_settling j).mpr waits) p up)

section
variable {s : Schedule} {own : UInt64} {after : Hierarchy cfg} {sum' : Summary}

theorem Flushing.settles (flushing : h.Flushing (.settling due sum holds))
    (round : Round h h due k own after s) (credited : Credited h after k) :
    after.Flushing (.settling s sum' holds) := by
  have under := flushing.underway
  have waits := round.popped.waited
  have inside := under.inside k waits
  have next := round.popped.rest_waiting
  have claimed (j : Nat) : j ∈ (Flusher.settling s sum' holds : Flusher cfg).claimed ↔
      j ∈ due.waiting ∧ j ≠ k := (claimed_settling j).trans (next j)
  constructor
  case toIntact =>
    refine flushing.toIntact.carry credited.toSameShape round.settled.queues round.settled.queued
      (fun j member => ?_) (credited.solvent inside flushing.solvent)
      (credited.conserved inside (flushing.linked waits) flushing.conserved)
    rw [round.settled.holds] at member
    exact alive_of_held member
  case valid => exact round.after.valid
  case inside =>
    intro j member
    exact round.after.inside j ((claimed_settling j).mp member)
  case claimed_live =>
    intro j member
    rw [credited.removed]
    exact flushing.claimed_live j ((claimed_settling j).mpr ((claimed j).mp member).1)
  case closed =>
    intro j member p up
    have waited := ((claimed j).mp member).1
    rw [credited.parent, ← flushing.linked waited] at up
    refine (claimed p).mpr ⟨under.closed j waited p up, fun same => ?_⟩
    exact round.due j waited (same ▸ up)
  case quiet =>
    intro j some
    rw [credited.pending] at some
    split at some
    · exact absurd rfl some
    · rename_i other
      refine (claimed j).mpr ⟨?_, other⟩
      split at some
      · rename_i link
        exact under.closed k waits j link
      · exact (claimed_settling j).mp (flushing.quiet j some)
  case borrowed =>
    intro j member
    rw [round.settled.holds]
    exact flushing.borrowed j member

end

theorem flushing_settles {rest : Schedule}
    (flushing : h.Flushing (.settling due sum holds)) (pop : due.pop = some (k, rest)) :
    ∃ own after s, h.settle rest k = .ok (own, after, s) ∧ ∀ sum',
      FlushStep h (.settling due sum holds) after (.settling s sum' holds) [k] := by
  have under := flushing.underway
  have inside := under.inside k (Schedule.pop_some flushing.valid pop).waited
  obtain ⟨own, after, s, done⟩ := flushing.solvent.settles inside rest
  have round := under.round pop done
  have credited := flushing.solvent.credited inside round.own_eq round.settled
  have lists (c : Fin cfg.slots) (j : Nat) : after.lists c j ↔ h.lists c j := by
    rw [Hierarchy.lists, Hierarchy.lists, round.settled.queues, credited.id]
  have still {sum' : Summary} {slots : List (Fin cfg.slots)} {j : Nat} (other : j ∉ [k])
      (awaits : h.Awaits (.settling due sum holds) slots j) :
      after.Awaits (.settling s sum' holds) slots j := by
    rcases awaits with ⟨c, member, listed⟩ | member
    · exact Or.inl ⟨c, member, (lists c j).mpr listed⟩
    · exact Or.inr ((claimed_settling j).mpr ((round.popped.rest_waiting j).mpr
        ⟨(claimed_settling j).mp member, by simpa using other⟩))
  refine ⟨own, after, s, done, fun sum' => ?_⟩
  constructor
  case flushing => exact flushing.settles round credited
  case shape => exact credited.toSameShape
  case recorded => exact credited.recorded
  case drained =>
    intro j
    rw [credited.drained]
    by_cases same : j = k
    · subst same
      simp [flushing.solvent.split j]
    · simp [same]
  case rising =>
    intro j
    rw [credited.total]
    split
    · rename_i same
      rw [same]
      omega
    · exact Nat.le_refl _
  case leftover =>
    intro c j listed
    exact ⟨(lists c j).mp listed, Or.inr (by simp [Flusher.ahead])⟩
  case awaited => exact fun _ => still
  case promised => exact fun _ => still

end

end Hierarchy

namespace Race

variable {cfg : Config}

/-- Whatever the flusher's next step is, it is such a step, and no flush fails. -/
theorem flush_step {r : Race cfg} (flushing : r.hierarchy.Flushing r.flusher) :
    ∃ done, Hierarchy.FlushStep r.hierarchy r.flusher r.flush.hierarchy r.flush.flusher done ∧
      r.flush.updates = r.updates ∧
      (r.flush.results = r.results ∨ ∃ sum, r.flush.results = r.results ++ [.ok sum]) := by
  obtain ⟨h, updates, f, results⟩ := r
  simp only at flushing
  match f with
  | .idle => exact ⟨[], Hierarchy.flushing_begins flushing, rfl, Or.inl rfl⟩
  | .gathering (k :: ks) ahead found =>
    exact ⟨[], Hierarchy.flushing_schedules flushing, rfl, Or.inl rfl⟩
  | .gathering [] (c :: cs) found =>
    exact ⟨[], Hierarchy.flushing_takes flushing, rfl, Or.inl rfl⟩
  | .gathering [] [] found =>
    by_cases none : found.nodes.isEmpty = true
    · have next : flush ⟨h, updates, .gathering [] [] found, results⟩ =
          ⟨h, updates, .idle, results ++ [.ok .zero]⟩ := if_pos none
      rw [next]
      have waiting := Hierarchy.waiting_nil_iff.mp none
      exact ⟨[], Hierarchy.flushing_finds_nothing flushing waiting, rfl, Or.inr ⟨_, rfl⟩⟩
    · have next : flush ⟨h, updates, .gathering [] [] found, results⟩ =
          ⟨{ h with holds := found.waiting ++ h.holds }, updates,
            .settling found .zero h.holds, results⟩ := if_neg none
      rw [next]
      exact ⟨[], Hierarchy.flushing_goes_on flushing, rfl, Or.inl rfl⟩
  | .settling due sum holds =>
    cases pop : due.pop with
    | none =>
      have next : flush ⟨h, updates, .settling due sum holds, results⟩ =
          ⟨{ h with holds, flushes := h.flushes + 1 }, updates, .idle, results ++ [.ok sum]⟩ := by
        simp only [flush, pop, settled, ended]
      rw [next]
      exact ⟨[], Hierarchy.flushing_ends flushing pop _, rfl, Or.inr ⟨_, rfl⟩⟩
    | some due_next =>
      obtain ⟨k, rest⟩ := due_next
      obtain ⟨own, after, s, run, step⟩ := Hierarchy.flushing_settles flushing pop
      have next : flush ⟨h, updates, .settling due sum holds, results⟩ =
          ⟨after, updates, .settling s ⟨sum.nodes + 1, saturatingAdd sum.delta own⟩ holds,
            results⟩ := by
        simp only [flush, pop, run]
      rw [next]
      exact ⟨[k], step _, rfl, Or.inl rfl⟩

end Race

end Rollup
