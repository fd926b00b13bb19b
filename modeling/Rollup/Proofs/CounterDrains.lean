import Mathlib
import Rollup.Session
import Rollup.Proofs.CounterAmounts
import Rollup.Proofs.TreeShape

/-!
Drains of one counter, whatever its slots hold, and runs in which a counter is added to and drained at
will.

A drain takes everything or nothing. It stops at the first slot that blocks it, one whose mark is ahead
or with which what has been found no longer fits a word (`drain_stops`), and by then no mark has moved.

In a run, a drain that succeeds moves every mark up by what it takes from the slot, and nothing else
moves a mark. So the marks add up to what the drains have yielded (`Used.yielded_run`), also where the
slots have wrapped around in between.
-/
namespace Rollup

namespace Counter

variable {n : Nat} {c : Counter n}

def attempt (c : Counter n) : Counter n × Except NodeFault UInt64 :=
  match c.drain with
  | .ok (delta, after) => (after, .ok delta)
  | .error fault => (c, .error (.inconsistent (.counter fault)))

/-- A drain cannot pass this slot: its mark is ahead, or what the slots up to it hold undrained does
    not fit a word. -/
def Blocks (c : Counter n) (i : Fin n) : Prop :=
  c.slots[i].state < c.slots[i].flushed ∨ UInt64.size ≤ ∑ j ∈ Finset.Iic i, c.slots[j].waiting

instance decidableBlocks (c : Counter n) (i : Fin n) : Decidable (c.Blocks i) :=
  inferInstanceAs (Decidable (_ ∨ _))

def complaint (c : Counter n) (i : Fin n) : Fault :=
  if c.slots[i].state < c.slots[i].flushed then .behind i c.slots[i].state c.slots[i].flushed
  else .overflow i

theorem amount_eq_sum (f : Slot → Nat) (c : Counter n) :
    c.amount f = ∑ i : Fin n, f c.slots[i] := by
  have terms : c.slots.toList.map f = List.ofFn fun i : Fin n => f c.slots[i] :=
    List.ext_getElem (by simp) (by simp)
  rw [amount, terms, List.sum_ofFn]

theorem amount_before (f : Slot → Nat) (c : Counter n) (i : Fin n) :
    ((c.slots.toList.take i).map f).sum = ∑ j ∈ Finset.Iio i, f c.slots[j] := by
  have terms : c.slots.toList.map f = List.ofFn fun i : Fin n => f c.slots[i] :=
    List.ext_getElem (by simp) (by simp)
  rw [List.map_take, terms, List.sum_take_ofFn]
  refine Finset.sum_congr ?_ fun _ _ => rfl
  ext j
  simp

theorem ordered_iff : c.Ordered ↔ ∀ i : Fin n, c.slots[i].flushed ≤ c.slots[i].state := by
  refine ⟨fun ordered i => ordered _ (c.slot_mem i), fun ordered s member => ?_⟩
  obtain ⟨i, inside, rfl⟩ := List.getElem_of_mem member
  have bound : i < n := by simpa using inside
  simpa using ordered ⟨i, bound⟩

theorem scan_stops {slots : List Slot} {i : Nat} {acc : UInt64} {fault : Fault}
    (run : scan slots i acc = .error fault) :
    ∃ (before : List Slot) (s : Slot) (after : List Slot), slots = before ++ s :: after ∧
      (∀ t ∈ before, t.flushed ≤ t.state) ∧
      acc.toNat + (before.map Slot.waiting).sum < UInt64.size ∧
      (s.state < s.flushed ∧ fault = .behind (i + before.length) s.state s.flushed ∨
        s.flushed ≤ s.state ∧ fault = .overflow (i + before.length) ∧
          UInt64.size ≤ acc.toNat + (before.map Slot.waiting).sum + s.waiting) := by
  induction slots generalizing i acc with
  | nil => exact absurd run (by simp [scan])
  | cons s rest ih =>
    have room := acc.toNat_lt_size
    unfold scan at run
    split at run
    · rename_i ahead
      exact ⟨[], s, rest, rfl, by simp, room, Or.inl ⟨ahead, (Except.error.inj run).symm⟩⟩
    · rename_i first
      have ordered := UInt64.not_lt.mp first
      have difference := Slot.difference_of_ordered ordered
      split at run
      · rename_i full
        rw [difference] at full
        exact ⟨[], s, rest, rfl, by simp, room,
          Or.inr ⟨ordered, (Except.error.inj run).symm, full⟩⟩
      · rename_i fits
        have sum : (acc + (s.state - s.flushed)).toNat = acc.toNat + s.waiting := by
          rw [word_add (by omega), difference]
        obtain ⟨before, t, after, parted, passed, found, stop⟩ := ih run
        have place : i + 1 + before.length = i + (s :: before).length := by
          rw [List.length_cons]
          omega
        rw [sum] at found stop
        rw [place] at stop
        refine ⟨s :: before, t, after, by rw [parted]; rfl, ?_, ?_, ?_⟩
        · simpa using ⟨ordered, passed⟩
        · rw [List.map_cons, List.sum_cons]
          omega
        · rw [List.map_cons, List.sum_cons, ← Nat.add_assoc]
          exact stop

theorem drain_stops {fault : Fault} (run : c.drain = .error fault) :
    ∃ i, c.Blocks i ∧ (∀ j < i, ¬ c.Blocks j) ∧ fault = c.complaint i := by
  have failed : scan c.slots.toList 0 0 = .error fault := by
    unfold drain at run
    split at run
    · rename_i found
      rw [found, Except.error.inj run]
    · exact absurd run (by simp)
  obtain ⟨before, s, after, parted, passed, found, stop⟩ := scan_stops failed
  have length : before.length < n := by
    have whole := congrArg List.length parted
    simp only [Vector.length_toList, List.length_append, List.length_cons] at whole
    omega
  let i : Fin n := ⟨before.length, length⟩
  have slot : c.slots[i] = s := by
    have at_i : c.slots.toList[before.length]? = some s := by simp [parted]
    simpa [i, length] using at_i
  have taken : c.slots.toList.take i = before := by simp [i, parted]
  have earlier : ∑ j ∈ Finset.Iio i, c.slots[j].waiting = (before.map Slot.waiting).sum := by
    rw [← taken, amount_before]
  have upTo : ∑ j ∈ Finset.Iic i, c.slots[j].waiting =
      (before.map Slot.waiting).sum + s.waiting := by
    rw [← Finset.Iio_insert, Finset.sum_insert (by simp), earlier, slot, Nat.add_comm]
  simp only [UInt64.toNat_zero, Nat.zero_add] at found stop
  refine ⟨i, ?_, fun j lower => ?_, ?_⟩
  · rcases stop with ⟨ahead, _⟩ | ⟨_, _, full⟩
    · exact Or.inl (by rwa [slot])
    · exact Or.inr (by rwa [upTo])
  · rintro (ahead | full)
    · have member : c.slots[j] ∈ before := by
        rw [← taken, List.mem_take_iff_getElem]
        exact ⟨j, by simpa using lower, by simp⟩
      exact absurd (passed _ member) (UInt64.not_le.mpr ahead)
    · have within : Finset.Iic j ⊆ Finset.Iio i := fun k member =>
        Finset.mem_Iio.mpr (lt_of_le_of_lt (Finset.mem_Iic.mp member) lower)
      have less := Finset.sum_le_sum_of_subset (f := fun j => c.slots[j].waiting) within
      omega
  · rw [complaint, slot]
    rcases stop with ⟨ahead, rfl⟩ | ⟨ordered, rfl, _⟩
    · rw [if_pos ahead]
    · rw [if_neg (UInt64.not_lt.mpr ordered)]

theorem first_unique {i j : Fin n} (first : c.Blocks i ∧ ∀ l < i, ¬ c.Blocks l)
    (other : c.Blocks j ∧ ∀ l < j, ¬ c.Blocks l) : i = j := by
  rcases lt_trichotomy i j with less | same | more
  · exact absurd first.1 (other.2 i less)
  · exact same
  · exact absurd other.1 (first.2 j more)

theorem not_blocks (ordered : c.Ordered) (fits : c.waiting < UInt64.size) (i : Fin n) :
    ¬ c.Blocks i := by
  rintro (ahead | full)
  · exact absurd (ordered_iff.mp ordered i) (UInt64.not_le.mpr ahead)
  · have less := Finset.sum_le_sum_of_subset (f := fun j => c.slots[j].waiting)
      (Finset.subset_univ (Finset.Iic i))
    rw [waiting, amount_eq_sum] at fits
    omega

theorem attempt_cases (c : Counter n) :
    (∃ own, c.attempt = (c.settled, .ok own) ∧ c.Ordered ∧ own.toNat = c.waiting) ∨
      ∃ i, c.attempt = (c, .error (.inconsistent (.counter (c.complaint i)))) ∧ c.Blocks i ∧
        ∀ j < i, ¬ c.Blocks j := by
  cases run : c.drain with
  | ok result =>
    obtain ⟨own, after⟩ := result
    obtain ⟨ordered, rfl, value⟩ := drain_requires run
    exact Or.inl ⟨own, by simp only [attempt, run], ordered, value⟩
  | error fault =>
    obtain ⟨i, blocks, first, rfl⟩ := drain_stops run
    exact Or.inr ⟨i, by simp only [attempt, run], blocks, first⟩

theorem attempt_ok (ordered : c.Ordered) (fits : c.waiting < UInt64.size) :
    ∃ own, c.attempt = (c.settled, .ok own) ∧ own.toNat = c.waiting := by
  obtain ⟨own, run, value⟩ := drain_ok ordered fits
  exact ⟨own, by simp only [attempt, run], value⟩

theorem attempt_ok_iff {own : UInt64} :
    c.attempt.2 = .ok own ↔ c.Ordered ∧ c.waiting < UInt64.size ∧ own.toNat = c.waiting := by
  constructor
  · intro answer
    rcases c.attempt_cases with ⟨found, run, ordered, value⟩ | ⟨i, run, _⟩
    · rw [run] at answer
      obtain rfl := Except.ok.inj answer
      exact ⟨ordered, value ▸ found.toNat_lt_size, value⟩
    · rw [run] at answer
      exact absurd answer (by simp)
  · rintro ⟨ordered, fits, value⟩
    obtain ⟨found, run, same⟩ := attempt_ok ordered fits
    rw [run, UInt64.toNat_inj.mp (value.trans same.symm)]

theorem attempt_error_iff {fault : NodeFault} : c.attempt.2 = .error fault ↔
    ∃ i, c.Blocks i ∧ (∀ j < i, ¬ c.Blocks j) ∧
      fault = .inconsistent (.counter (c.complaint i)) := by
  constructor
  · intro answer
    rcases c.attempt_cases with ⟨own, run, _⟩ | ⟨i, run, blocks, first⟩
    · rw [run] at answer
      exact absurd answer (by simp)
    · rw [run] at answer
      exact ⟨i, blocks, first, (Except.error.inj answer).symm⟩
  · rintro ⟨i, blocks, first, rfl⟩
    rcases c.attempt_cases with ⟨own, _, ordered, value⟩ | ⟨j, run, other⟩
    · exact absurd blocks (not_blocks ordered (value ▸ own.toNat_lt_size) i)
    · rw [run, first_unique ⟨blocks, first⟩ other]

/-- A drain succeeds just where no mark is ahead and the sum of what waits fits a word. It yields that
    sum and moves every mark up, so that another drain finds nothing. Otherwise it names the first slot
    that blocks it and changes no slot: when slots have been mended so that it can succeed, it yields
    what waits on these and all that waited on the others. -/
theorem drains_all_or_nothing (c : Counter n) :
    (∀ own, c.attempt.2 = .ok own ↔ (∀ i : Fin n, c.slots[i].flushed ≤ c.slots[i].state) ∧
      ∑ i : Fin n, c.slots[i].waiting < UInt64.size ∧
        own.toNat = ∑ i : Fin n, c.slots[i].waiting) ∧
    (∀ own, c.attempt.2 = .ok own →
      (∀ i : Fin n, c.attempt.1.slots[i] = ⟨c.slots[i].state, c.slots[i].state⟩) ∧
        c.attempt.1.attempt = (c.attempt.1, .ok 0)) ∧
    (∀ fault, c.attempt.2 = .error fault ↔ ∃ i, c.Blocks i ∧ (∀ j < i, ¬ c.Blocks j) ∧
      fault = .inconsistent (.counter (c.complaint i))) ∧
    ∀ fault, c.attempt.2 = .error fault → c.attempt.1 = c ∧
      ∀ (m : Counter n) (mended : Finset (Fin n)),
        (∀ i ∉ mended, m.slots[i] = c.attempt.1.slots[i]) →
        (∀ i : Fin n, m.slots[i].flushed ≤ m.slots[i].state) →
        ∑ i : Fin n, m.slots[i].waiting < UInt64.size →
        ∃ own, m.attempt.2 = .ok own ∧ own.toNat =
          ∑ i ∈ mended, m.slots[i].waiting + ∑ i ∈ mendedᶜ, c.slots[i].waiting := by
  refine ⟨fun own => ?_, fun own answer => ?_, fun fault => attempt_error_iff,
    fun fault answer => ?_⟩
  · rw [attempt_ok_iff, ordered_iff, waiting, amount_eq_sum]
  · rcases c.attempt_cases with ⟨found, run, _⟩ | ⟨i, run, _⟩
    · have none := c.waiting_settled
      obtain ⟨second, again, value⟩ := attempt_ok c.settled_ordered (by rw [none]; decide)
      have zero : second = 0 := UInt64.toNat_inj.mp (value.trans none)
      have still : c.settled.settled = c.settled := by simp [settled, Function.comp_def]
      rw [run]
      refine ⟨fun i => by simp [settled], ?_⟩
      rw [again, zero, still]
    · rw [run] at answer
      exact absurd answer (by simp)
  · have same : c.attempt.1 = c := by
      rcases c.attempt_cases with ⟨found, run, _⟩ | ⟨i, run, _⟩
      · rw [run] at answer
        exact absurd answer (by simp)
      · rw [run]
    refine ⟨same, fun m mended others ordered fits => ?_⟩
    rw [← amount_eq_sum Slot.waiting m] at fits
    obtain ⟨own, run, value⟩ := attempt_ok (ordered_iff.mpr ordered) fits
    have rest : ∑ i ∈ mendedᶜ, m.slots[i].waiting = ∑ i ∈ mendedᶜ, c.slots[i].waiting :=
      Finset.sum_congr rfl fun i member => by rw [others i (Finset.mem_compl.mp member), same]
    refine ⟨own, by rw [run], ?_⟩
    rw [value, waiting, amount_eq_sum, ← rest, Finset.sum_add_sum_compl]

theorem drains_after_mending :
    let c : Counter 3 := ⟨#v[⟨3, 0⟩, ⟨1, 10⟩, ⟨5, 2⟩]⟩
    let m : Counter 3 := ⟨#v[⟨3, 0⟩, ⟨1, 1⟩, ⟨5, 2⟩]⟩
    c.attempt.2 = .error (.inconsistent (.counter (.behind 1 1 10))) ∧ c.attempt.1 = c ∧
      ∃ own, m.attempt.2 = .ok own ∧ own = 6 := by
  intro c m
  obtain ⟨_, _, fails, unchanged⟩ := drains_all_or_nothing c
  have answer : c.attempt.2 = .error (.inconsistent (.counter (.behind 1 1 10))) :=
    (fails _).mpr ⟨1, by decide, by decide, by decide⟩
  obtain ⟨same, mends⟩ := unchanged _ answer
  obtain ⟨own, yields, value⟩ := mends m {1} (by decide) (by decide) (by decide)
  exact ⟨answer, same, own, yields, UInt64.toNat_inj.mp (value.trans (by decide))⟩

inductive Use where
  | add (cpu : Cpu) (delta : UInt64)
  | drain

namespace Use

def given : Use → Nat
  | .add _ delta => delta.toNat
  | .drain => 0

def givenTo (slots slot : Nat) : Use → Nat
  | .add cpu delta => if cpu.val.toNat % slots = slot then delta.toNat else 0
  | .drain => 0

end Use

end Counter

structure Used (cfg : Config) where
  counter : Counter cfg.slots
  answers : List (Except NodeFault UInt64)

namespace Used

open Counter

variable {cfg : Config} {u : Used cfg}

def start (cfg : Config) : Used cfg := ⟨.zero cfg.slots, []⟩

def step (u : Used cfg) : Use → Used cfg
  | .add cpu delta => { u with counter := u.counter.add (cfg.slot cpu) delta }
  | .drain => ⟨u.counter.attempt.1, u.answers ++ [u.counter.attempt.2]⟩

def run (u : Used cfg) (uses : List Use) : Used cfg := uses.foldl step u

def yielded (u : Used cfg) : Nat :=
  ((u.answers.filterMap Except.toOption).map UInt64.toNat).sum

theorem yielded_step (tallied : u.yielded = u.counter.drained) (t : Use) :
    (u.step t).yielded = (u.step t).counter.drained := by
  cases t with
  | add cpu delta => exact tallied.trans drained_add.symm
  | drain =>
    rcases u.counter.attempt_cases with ⟨own, run, ordered, value⟩ | ⟨i, run, _⟩
    · have split := recorded_split ordered
      have after : u.counter.settled.drained = u.counter.recorded := drained_settled _
      have more : (u.step .drain).yielded = u.yielded + own.toNat := by
        simp [step, run, yielded, Except.toOption]
      rw [more]
      simp only [step, run]
      omega
    · have same : (u.step .drain).yielded = u.yielded := by
        simp [step, run, yielded, List.filterMap_cons, Except.toOption]
      rw [same, tallied]
      simp only [step, run]

theorem yielded_run (tallied : u.yielded = u.counter.drained) (uses : List Use) :
    (u.run uses).yielded = (u.run uses).counter.drained := by
  induction uses generalizing u with
  | nil => exact tallied
  | cons t rest ih => exact ih (yielded_step tallied t)

theorem state_step (t : Use) (i : Fin cfg.slots) : ((u.step t).counter.slots[i]).state.toNat =
    (u.counter.slots[i].state.toNat + t.givenTo cfg.slots i) % UInt64.size := by
  have small : u.counter.slots[i].state.toNat % UInt64.size = u.counter.slots[i].state.toNat :=
    Nat.mod_eq_of_lt (UInt64.toNat_lt_size _)
  cases t with
  | add cpu delta =>
    have same : cfg.slot cpu = i ↔ cpu.val.toNat % cfg.slots = i := Fin.ext_iff
    simp only [step, Use.givenTo, slot_add, same]
    split
    · exact UInt64.toNat_add _ _
    · exact small.symm
  | drain =>
    rw [Use.givenTo, Nat.add_zero, small]
    rcases u.counter.attempt_cases with ⟨own, run, _⟩ | ⟨j, run, _⟩
    · simp [step, run, settled]
    · simp [step, run]

theorem state_run (uses : List Use) (i : Fin cfg.slots) :
    ((u.run uses).counter.slots[i]).state.toNat =
      (u.counter.slots[i].state.toNat + (uses.map (Use.givenTo cfg.slots i)).sum) %
        UInt64.size := by
  induction uses generalizing u with
  | nil => exact (Nat.mod_eq_of_lt (UInt64.toNat_lt_size _)).symm
  | cons t rest ih =>
    rw [List.map_cons, List.sum_cons, ← Nat.add_assoc, ← Nat.mod_add_mod, ← state_step t i]
    exact ih

structure Exact (u : Used cfg) (given : Nat) : Prop where
  ordered : u.counter.Ordered
  recorded : u.counter.recorded = given
  answered : ∀ a ∈ u.answers, ∃ own, a = .ok own

theorem Exact.step {given : Nat} (exact : u.Exact given) (t : Use)
    (fits : given + t.given < UInt64.size) : (u.step t).Exact (given + t.given) := by
  obtain ⟨ordered, recorded, answered⟩ := exact
  cases t with
  | add cpu delta =>
    rw [← recorded] at fits
    exact ⟨ordered_add ordered fits, recorded ▸ recorded_add fits, answered⟩
  | drain =>
    have split := recorded_split ordered
    simp only [Use.given, Nat.add_zero] at fits ⊢
    obtain ⟨own, run, _⟩ := attempt_ok ordered (by omega)
    simp only [Used.step, run]
    refine ⟨settled_ordered _, (recorded_settled _).trans recorded, fun a member => ?_⟩
    rcases List.mem_append.mp member with old | new
    · exact answered a old
    · exact ⟨own, List.mem_singleton.mp new⟩

theorem Exact.run {given : Nat} (exact : u.Exact given) {uses : List Use}
    (fits : given + (uses.map Use.given).sum < UInt64.size) :
    (u.run uses).Exact (given + (uses.map Use.given).sum) := by
  induction uses generalizing u given with
  | nil => exact exact
  | cons t rest ih =>
    rw [List.map_cons, List.sum_cons, ← Nat.add_assoc] at fits ⊢
    exact ih (exact.step t (by omega)) fits

theorem Exact.start (cfg : Config) : (Used.start cfg).Exact 0 :=
  ⟨zero_ordered, amount_zero rfl, by simp [Used.start]⟩

/-- In every run of additions and drains, the marks add up to just what the drains that succeeded have
    yielded, and each slot holds the events for its CPUs, modulo the size of a word. As long as all
    events fit a word, no drain has failed, and the sums of the counter are those of the run. -/
theorem drained_exactly_once (cfg : Config) (uses : List Use) :
    let u := (start cfg).run uses
    let given := (uses.map Use.given).sum
    u.yielded = ∑ i : Fin cfg.slots, u.counter.slots[i].flushed.toNat ∧
      (∀ i : Fin cfg.slots, u.counter.slots[i].state.toNat =
        (uses.map (Use.givenTo cfg.slots i)).sum % UInt64.size) ∧
      (given < UInt64.size → (∀ a ∈ u.answers, ∃ own, a = .ok own) ∧
        u.counter.sum.toNat = given ∧ u.counter.flushedTotal.toNat = u.yielded ∧
          u.counter.flushedTotal.toNat + u.counter.unflushed.toNat = u.counter.sum.toNat) := by
  intro u given
  have none : (start cfg).yielded = (start cfg).counter.drained := (amount_zero rfl).symm
  have yields : u.yielded = u.counter.drained := yielded_run none uses
  refine ⟨yields.trans (amount_eq_sum _ _), fun i => ?_, fun fits => ?_⟩
  · have zero : (start cfg).counter.slots[i].state.toNat = 0 := by simp [start, Counter.zero]
    have states := state_run (u := start cfg) uses i
    rwa [zero, Nat.zero_add] at states
  · have exact : u.Exact given := by
      have within : 0 + (uses.map Use.given).sum < UInt64.size := by rwa [Nat.zero_add]
      have run := (Exact.start cfg).run within
      rwa [Nat.zero_add] at run
    have split := recorded_split exact.ordered
    have recorded := exact.recorded
    have sum := sum_of_fits (c := u.counter) (by omega)
    have flushed := flushed_total_of_fits (c := u.counter) (by omega)
    have unflushed := unflushed_of_fits exact.ordered (by omega)
    exact ⟨exact.answered, sum.trans recorded, flushed.trans yields.symm, by omega⟩

/-- A counter made for no CPU has one slot, on which every CPU counts. -/
theorem drained_exactly_once_without_cpus :
    let u := (start ⟨0⟩).run [.add ⟨5⟩ 3, .drain, .add ⟨2⟩ 4, .drain, .add ⟨0⟩ 6]
    u.yielded = 7 ∧ u.counter.sum.toNat = 13 ∧
      u.counter.flushedTotal.toNat + u.counter.unflushed.toNat = 13 := by
  intro u
  obtain ⟨_, _, exact⟩ :=
    drained_exactly_once ⟨0⟩ [.add ⟨5⟩ 3, .drain, .add ⟨2⟩ 4, .drain, .add ⟨0⟩ 6]
  obtain ⟨_, sum, _, parts⟩ := exact (by decide)
  exact ⟨by decide +kernel, sum, parts.trans sum⟩

end Used

theorem Session.drain_counter_attempts {cfg : Config} (h : Hierarchy cfg) (k : Nat) :
    Session.drainCounter h k =
      (h.update k fun s => { s with counter := (h.node k).counter.attempt.1 },
        match (h.node k).counter.attempt.2 with
        | .ok own => .number own.toNat
        | .error fault => .nodeFault fault) := by
  cases run : (h.node k).counter.drain with
  | ok result =>
    simp only [Session.drainCounter, Counter.attempt, run]
  | error fault =>
    have still : h.arena.update k (fun s => { s with counter := (h.node k).counter }) = h.arena := by
      refine Arena.eq_of_nodes (Arena.size_update _ _ _) fun j => ?_
      rw [Arena.node_update]
      split
      · rename_i here
        rw [← here.1]
        rfl
      · rfl
    simp only [Session.drainCounter, Counter.attempt, run, Hierarchy.update, still]

end Rollup
