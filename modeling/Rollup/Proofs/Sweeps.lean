import Mathlib
import Rollup.Proofs.Drains
import Rollup.Proofs.Marking

/-!
A drain under way. Somebody asks it for one node after another, and in between nodes are marked and
references given back, in any order.

A call yields what the drain has in hand, or takes the first list ahead that has an entry, whole, and
passes the empty ones before it. So one step changes the list of a slot in at most two ways (`Stepped`):
a call that reaches the list empties it, and a mark adds a chain to it.
-/
namespace Rollup

open Hierarchy

variable {cfg : Config}

namespace Drain

def reached (d : Drain cfg) : Nat := cfg.slots - d.ahead.length

theorem reach_none {d : Drain cfg} {h after : Hierarchy cfg} {ahead : List (Fin cfg.slots)}
    (stop : reach h ahead = (none, d, after)) : d = ⟨[], []⟩ := by
  induction ahead generalizing h with
  | nil => exact (congrArg (fun result => result.2.1) stop).symm
  | cons c cs ih =>
    unfold reach at stop
    split at stop
    · exact ih stop
    · exact absurd (congrArg Prod.fst stop) (by simp)

theorem next_none {d d' : Drain cfg} {h after : Hierarchy cfg}
    (stop : d.next h = (none, d', after)) : d' = ⟨[], []⟩ := by
  unfold next at stop
  split at stop
  · exact absurd (congrArg Prod.fst stop) (by simp)
  · exact reach_none stop

theorem stop_eq (d : Drain cfg) (h : Hierarchy cfg) :
    d.stop h = { h with holds := h.holds.diff d.taken } := by
  obtain ⟨ks, ahead⟩ := d
  unfold stop
  induction ks generalizing h with
  | nil => rfl
  | cons k ks ih =>
    rw [List.foldl_cons, ih, List.diff_cons]
    rfl

end Drain

structure Sweep (cfg : Config) where
  hierarchy : Hierarchy cfg
  drain : Drain cfg
  yielded : List (Nat × Nat)
  exhausted : Bool

inductive SweepStep where
  | next (keep : Bool)
  | mark (k : Nat) (cpu : Cpu)
  | release (k : Nat)

namespace Sweep

variable {h : Hierarchy cfg} {w w' : Sweep cfg} {c : Fin cfg.slots}

def start (h : Hierarchy cfg) : Sweep cfg := ⟨h, .start cfg, [], false⟩

def step (w : Sweep cfg) : SweepStep → Sweep cfg
  | .next keep =>
    match w.drain.next w.hierarchy with
    | (some k, d, h) =>
      ⟨if keep then h.hold k else h, d, w.yielded ++ [(d.reached, k)], w.exhausted⟩
    | (none, d, h) => ⟨h, d, w.yielded, true⟩
  | .mark k cpu => { w with hierarchy := w.hierarchy.mark k cpu }
  | .release k => { w with hierarchy := w.hierarchy.release k }

def run (w : Sweep cfg) (steps : List SweepStep) : Sweep cfg := steps.foldl step w

def dropped (w : Sweep cfg) : Hierarchy cfg := w.drain.stop w.hierarchy

/-- Only a node that is alive can be marked, and the references of the drain are its own. -/
def permits (w : Sweep cfg) : SweepStep → Bool
  | .next _ => true
  | .mark k _ => k < w.hierarchy.arena.size && w.hierarchy.isAlive k
  | .release k => w.drain.taken.count k < w.hierarchy.holds.count k

def allows (w : Sweep cfg) : List SweepStep → Bool
  | [] => true
  | s :: steps => w.permits s && (w.step s).allows steps

def entering (w : Sweep cfg) (c : Fin cfg.slots) : SweepStep → List Nat
  | .mark k cpu => if cfg.slot cpu = c then w.hierarchy.chain k else []
  | _ => []

def entered (w : Sweep cfg) (c : Fin cfg.slots) : List SweepStep → List Nat
  | [] => []
  | s :: steps => w.entering c s ++ (w.step s).entered c steps

def yieldedFrom (w : Sweep cfg) (c : Fin cfg.slots) : List Nat :=
  (w.yielded.filter fun e => e.1 = c.val + 1).map Prod.snd

def inHand (w : Sweep cfg) (c : Fin cfg.slots) : List Nat :=
  if w.drain.reached = c.val + 1 then w.drain.taken else []

def got (w : Sweep cfg) (c : Fin cfg.slots) : List Nat := w.yieldedFrom c ++ w.inHand c

def Passes (w w' : Sweep cfg) (c : Fin cfg.slots) : Prop :=
  w.drain.reached ≤ c ∧ c < w'.drain.reached

instance decidablePasses (w w' : Sweep cfg) (c : Fin cfg.slots) : Decidable (w.Passes w' c) :=
  inferInstanceAs (Decidable (_ ∧ _))

structure Booked (w : Sweep cfg) : Prop where
  inside : ∀ k ∈ w.drain.taken, k < w.hierarchy.arena.size
  held : ∀ k, w.drain.taken.count k ≤ w.hierarchy.holds.count k
  begun : w.drain.taken ≠ [] → 0 < w.drain.reached
  places : ∀ e ∈ w.yielded, 0 < e.1 ∧ e.1 ≤ w.drain.reached
  ends : w.exhausted = true → w.drain.taken = [] ∧ w.drain.ahead = []

structure Sweeping (w : Sweep cfg) : Prop extends Booked w where
  tracked : w.hierarchy.Tracked
  distinct : w.hierarchy.LiveDistinct
  ahead : w.drain.ahead <:+ List.finRange cfg.slots

/-- What a step does to each list, to its flags, and to what the drain has got from it. -/
structure Stepped (w w' : Sweep cfg) (s : SweepStep) : Prop where
  reached : w.drain.reached ≤ w'.drain.reached
  lists : ∀ c j, w'.hierarchy.lists c j ↔
    w.hierarchy.lists c j ∧ ¬ w.Passes w' c ∨ j ∈ w.entering c s
  queued : ∀ (c : Fin cfg.slots) j, (w'.hierarchy.node j).queued[c] = true ↔
    (w.hierarchy.node j).queued[c] = true ∧ ¬ (w.Passes w' c ∧ w.hierarchy.lists c j) ∨
      j ∈ w.entering c s
  got : ∀ c, w.Passes w' c → w'.got c = w.hierarchy.queues[c].values
  keeps : ∀ c, ¬ w.Passes w' c → w'.got c = w.got c

/-- A step that takes the lists of these slots and changes references. -/
structure Pulled (w w' : Sweep cfg) (after : Hierarchy cfg) (passed : List (Fin cfg.slots))
    (ks : List Nat) : Prop where
  taken : Taken w.hierarchy after passed ks
  state : w'.hierarchy = { after with holds := w'.hierarchy.holds }
  alive : ∀ k ∈ w'.hierarchy.holds, w.hierarchy.isAlive k = true
  parted : w.drain.ahead = passed ++ w'.drain.ahead
  booked : w'.Booked
  got : ∀ c ∈ passed, w'.got c = w.hierarchy.queues[c].values
  keeps : ∀ c, c ∉ passed → w'.got c = w.got c

theorem drop_fin_range {n : Nat} {cs : List (Fin n)} (suffix : cs <:+ List.finRange n) :
    cs = (List.finRange n).drop (n - cs.length) := by
  have drop := List.suffix_iff_eq_drop.mp suffix
  rwa [List.length_finRange] at drop

theorem Sweeping.mem_ahead (sweeping : w.Sweeping) : c ∈ w.drain.ahead ↔ w.drain.reached ≤ c := by
  rw [drop_fin_range sweeping.ahead, List.mem_drop_iff_getElem, Drain.reached]
  constructor
  · rintro ⟨i, _, rfl⟩
    simp
  · intro later
    refine ⟨c.val - (cfg.slots - w.drain.ahead.length), ?_, ?_⟩
    · rw [List.length_finRange]
      omega
    · simp [Nat.add_sub_cancel' later]

theorem Sweeping.nodup_ahead (sweeping : w.Sweeping) : w.drain.ahead.Nodup :=
  (List.nodup_finRange _).sublist sweeping.ahead.sublist

theorem reached_after {rest : List (Fin cfg.slots)} {ks : List Nat}
    (suffix : c :: rest <:+ List.finRange cfg.slots) :
    (Drain.mk ks rest).reached = c.val + 1 := by
  have length := suffix.length_le
  rw [List.length_cons, List.length_finRange] at length
  have first := congrArg List.head? (drop_fin_range suffix)
  rw [List.head?_drop, List.getElem?_eq_getElem (by simp; omega), List.getElem_finRange] at first
  have place : c.val = cfg.slots - (rest.length + 1) := congrArg Fin.val (Option.some.inj first)
  show cfg.slots - rest.length = c.val + 1
  omega

namespace Pulled

variable {after : Hierarchy cfg} {passed : List (Fin cfg.slots)} {ks : List Nat}

theorem sweeping (pulled : Pulled w w' after passed ks) (before : w.Sweeping) : w'.Sweeping where
  toBooked := pulled.booked
  tracked := by
    rw [pulled.state]
    exact before.tracked.taken_holding pulled.taken pulled.alive
  distinct := by
    rw [pulled.state]
    exact before.distinct.fades (Fades.taken_holding pulled.taken pulled.alive)
  ahead := List.IsSuffix.trans ⟨passed, pulled.parted.symm⟩ before.ahead

theorem passes_iff (pulled : Pulled w w' after passed ks) (before : w.Sweeping) :
    w.Passes w' c ↔ c ∈ passed := by
  have nodup := before.nodup_ahead
  rw [pulled.parted, List.nodup_append] at nodup
  rw [Passes, ← before.mem_ahead, ← Nat.not_le, ← (pulled.sweeping before).mem_ahead,
    pulled.parted, List.mem_append]
  constructor
  · rintro ⟨here | later, other⟩
    · exact here
    · exact absurd later other
  · intro here
    exact ⟨Or.inl here, fun later => nodup.2.2 c here c later rfl⟩

theorem stepped (pulled : Pulled w w' after passed ks) (before : w.Sweeping) {s : SweepStep}
    (none : ∀ c, w.entering c s = []) : Stepped w w' s where
  reached := by
    have length := congrArg List.length pulled.parted
    rw [List.length_append] at length
    unfold Drain.reached
    omega
  lists c j := by
    rw [pulled.passes_iff before, none, or_iff_left List.not_mem_nil, pulled.state]
    exact pulled.taken.lists c j
  queued c j := by
    rw [pulled.passes_iff before, none, or_iff_left List.not_mem_nil, pulled.state]
    exact pulled.taken.queued c j
  got c passes := pulled.got c ((pulled.passes_iff before).mp passes)
  keeps c passes := pulled.keeps c fun member => passes ((pulled.passes_iff before).mpr member)

end Pulled

theorem Booked.yielded_from (booked : w.Booked) (ahead : w.drain.reached ≤ c) :
    w.yieldedFrom c = [] := by
  rw [yieldedFrom, List.map_eq_nil_iff, List.filter_eq_nil_iff]
  intro e member here
  have place := (booked.places e member).2
  have same : e.1 = c.val + 1 := of_decide_eq_true here
  omega

theorem Booked.places_append (booked : w.Booked) {i : Nat} (k : Nat) (some : 0 < i)
    (further : w.drain.reached ≤ i) : ∀ e ∈ w.yielded ++ [(i, k)], 0 < e.1 ∧ e.1 ≤ i := by
  intro e member
  rcases List.mem_append.mp member with old | new
  · have place := booked.places e old
    omega
  · rw [List.mem_singleton.mp new]
    exact ⟨some, Nat.le_refl i⟩

def keeping (keep : Bool) (k : Nat) (holds : List Nat) : List Nat :=
  if keep then k :: holds else holds

theorem mem_keeping {keep : Bool} {j k : Nat} {holds : List Nat}
    (member : j ∈ keeping keep k holds) : j = k ∨ j ∈ holds := by
  cases keep with
  | false => exact Or.inr member
  | true => exact List.mem_cons.mp member

theorem count_keeping (keep : Bool) (j k : Nat) (holds : List Nat) :
    holds.count j ≤ (keeping keep k holds).count j := by
  cases keep with
  | false => exact Nat.le_refl _
  | true => exact List.count_le_count_cons

theorem step_next_some {keep : Bool} {k : Nat} {d : Drain cfg} {after : Hierarchy cfg}
    (found : w.drain.next w.hierarchy = (some k, d, after)) : w.step (.next keep) =
      ⟨{ after with holds := keeping keep k after.holds }, d, w.yielded ++ [(d.reached, k)],
        w.exhausted⟩ := by
  simp only [step, found]
  cases keep <;> rfl

theorem step_next_none {keep : Bool} {d : Drain cfg} {after : Hierarchy cfg}
    (found : w.drain.next w.hierarchy = (none, d, after)) :
    w.step (.next keep) = ⟨after, d, w.yielded, true⟩ := by
  simp only [step, found]

theorem got_append (c : Fin cfg.slots) (k : Nat) (d : Drain cfg) (after : Hierarchy cfg) :
    got ⟨after, d, w.yielded ++ [(d.reached, k)], w.exhausted⟩ c =
      w.yieldedFrom c ++ if d.reached = c.val + 1 then k :: d.taken else [] := by
  simp only [got, yieldedFrom, inHand, List.filter_append, List.map_append]
  by_cases here : d.reached = c.val + 1 <;> simp [here]

namespace Sweeping

variable {keep : Bool} {k : Nat} {ks : List Nat}

theorem yields_from_hand (sweeping : w.Sweeping) (hand : w.drain.taken = k :: ks) :
    Pulled w (w.step (.next keep)) w.hierarchy [] [] := by
  have found : w.drain.next w.hierarchy =
      (some k, { w.drain with taken := ks }, w.hierarchy.release k) := by
    simp only [Drain.next, hand]
  have counts (j : Nat) : ks.count j ≤ (w.hierarchy.holds.erase k).count j := by
    have held := sweeping.held j
    rw [hand, List.count_cons] at held
    rw [List.count_erase]
    omega
  have own : k ∈ w.hierarchy.holds := by
    have held := sweeping.held k
    rw [hand, List.count_cons_self] at held
    exact List.count_pos_iff.mp (by omega)
  have begun : 0 < w.drain.reached := sweeping.begun (by simp [hand])
  rw [step_next_some found]
  constructor
  case taken => exact Taken.none w.hierarchy
  case state => rfl
  case alive =>
    intro j member
    rcases mem_keeping member with rfl | held
    · exact alive_of_held own
    · exact alive_of_held (List.mem_of_mem_erase held)
  case parted => rfl
  case booked =>
    constructor
    case inside =>
      intro j member
      exact sweeping.inside j (hand ▸ List.mem_cons_of_mem k member)
    case held =>
      intro j
      exact Nat.le_trans (counts j) (count_keeping keep j k _)
    case begun => exact fun _ => begun
    case places => exact sweeping.places_append k begun (Nat.le_refl _)
    case ends =>
      intro ended
      have none := (sweeping.ends ended).1
      rw [hand] at none
      exact absurd none (by simp)
  case got =>
    intro c member
    exact absurd member (by simp)
  case keeps =>
    intro c _
    rw [got_append, got, inHand, hand]
    rfl

theorem yields_nothing {after : Hierarchy cfg} (sweeping : w.Sweeping)
    (hand : w.drain.taken = []) (stop : Drain.reach w.hierarchy w.drain.ahead = (none, ⟨[], []⟩, after))
    (taken : Taken w.hierarchy after w.drain.ahead [])
    (empty : ∀ c ∈ w.drain.ahead, w.hierarchy.queues[c].values = []) :
    Pulled w (w.step (.next keep)) after w.drain.ahead [] := by
  have found : w.drain.next w.hierarchy = (none, ⟨[], []⟩, after) := by
    simp only [Drain.next, hand, stop]
  rw [step_next_none found]
  have none (c : Fin cfg.slots) : w.inHand c = [] := by simp [inHand, hand]
  have got_eq (c : Fin cfg.slots) : got ⟨after, ⟨[], []⟩, w.yielded, true⟩ c = w.yieldedFrom c := by
    simp [got, inHand, yieldedFrom]
  constructor
  case taken => exact taken
  case state => rfl
  case alive =>
    intro j held
    exact alive_of_held (taken.holds ▸ held)
  case parted => exact (List.append_nil _).symm
  case booked =>
    constructor
    case inside => simp
    case held => simp
    case begun => simp
    case places =>
      intro e member
      obtain ⟨some, place⟩ := sweeping.places e member
      exact ⟨some, Nat.le_trans place (Nat.sub_le_sub_left (Nat.zero_le _) _)⟩
    case ends => exact fun _ => ⟨rfl, rfl⟩
  case got =>
    intro c member
    rw [got_eq, empty c member]
    exact sweeping.yielded_from (sweeping.mem_ahead.mp member)
  case keeps =>
    intro c _
    rw [got_eq, got, none, List.append_nil]

theorem yields_first {after : Hierarchy cfg} {empty rest : List (Fin cfg.slots)}
    (sweeping : w.Sweeping) (hand : w.drain.taken = [])
    (opens : Drain.Opens w.hierarchy after w.drain.ahead empty c rest k ks) :
    Pulled w (w.step (.next keep)) after (empty ++ [c]) (k :: ks) := by
  have found : w.drain.next w.hierarchy =
      (some k, ⟨ks, rest⟩, { after with holds := ks ++ after.holds }) := by
    simp only [Drain.next, hand, opens.run]
  have suffix : c :: rest <:+ List.finRange cfg.slots :=
    List.IsSuffix.trans ⟨empty, opens.parted.symm⟩ sweeping.ahead
  have reached : (Drain.mk ks rest).reached = c.val + 1 := reached_after suffix
  have listed (j : Nat) (member : j ∈ k :: ks) : ∃ d, w.hierarchy.lists d j := by
    obtain ⟨d, _, listed⟩ := (opens.taken.yields j).mp member
    exact ⟨d, listed⟩
  have later (d : Fin cfg.slots) (member : d ∈ empty ++ [c]) : w.drain.reached ≤ d :=
    sweeping.mem_ahead.mp (opens.mem_ahead member)
  have got_eq (d : Fin cfg.slots) :
      got ⟨{ after with holds := keeping keep k (ks ++ after.holds) }, ⟨ks, rest⟩,
        w.yielded ++ [((Drain.mk ks rest).reached, k)], w.exhausted⟩ d =
      w.yieldedFrom d ++ if c = d then k :: ks else [] := by
    rw [got_append, reached]
    simp [Fin.ext_iff]
  rw [step_next_some found]
  constructor
  case taken => exact opens.taken
  case state => rfl
  case alive =>
    intro j member
    have alive_of_listed (member : j ∈ k :: ks) : w.hierarchy.isAlive j = true := by
      obtain ⟨d, found⟩ := listed j member
      exact alive_of_lists found
    rcases mem_keeping member with rfl | held
    · exact alive_of_listed List.mem_cons_self
    · rcases List.mem_append.mp held with new | old
      · exact alive_of_listed (List.mem_cons_of_mem k new)
      · exact alive_of_held (opens.taken.holds ▸ old)
  case parted => rw [opens.parted, List.append_cons]
  case booked =>
    constructor
    case inside =>
      intro j member
      obtain ⟨d, found⟩ := listed j (List.mem_cons_of_mem k member)
      exact Nat.lt_of_lt_of_eq (sweeping.tracked.inside found) opens.taken.size.symm
    case held =>
      intro j
      refine Nat.le_trans ?_ (count_keeping keep j k _)
      rw [List.count_append]
      exact Nat.le_add_right _ _
    case begun =>
      intro _
      exact Nat.lt_of_lt_of_eq (Nat.succ_pos _) reached.symm
    case places =>
      have ahead := later c (by simp)
      exact sweeping.places_append k (by omega) (by omega)
    case ends =>
      intro ended
      have nothing := (sweeping.ends ended).2
      rw [opens.parted] at nothing
      exact absurd nothing (by simp)
  case got =>
    intro d member
    rw [got_eq, sweeping.yielded_from (later d member), List.nil_append]
    -- the lists passed on the way were empty, and all that was on this one is yielded or in hand
    rcases List.mem_append.mp member with before | last
    · have nodup := sweeping.nodup_ahead
      rw [opens.parted, List.nodup_append] at nodup
      rw [opens.none d before,
        if_neg fun same => nodup.2.2 d before c List.mem_cons_self same.symm]
    · rw [List.mem_singleton.mp last, if_pos rfl, opens.full]
  case keeps =>
    intro d other
    have apart : c ≠ d := fun same => other (by simp [same])
    have nothing : w.inHand d = [] := by simp [inHand, hand]
    rw [got_eq, if_neg apart, got, nothing]

theorem next_pulls (sweeping : w.Sweeping) (keep : Bool) :
    ∃ after passed ks, Pulled w (w.step (.next keep)) after passed ks := by
  cases hand : w.drain.taken with
  | cons k ks => exact ⟨_, _, _, sweeping.yields_from_hand hand⟩
  | nil =>
    rcases Drain.reach_takes sweeping.tracked.filed sweeping.nodup_ahead with
      ⟨after, stop, taken, empty⟩ | ⟨after, empty, c, rest, k, ks, opens⟩
    · exact ⟨_, _, _, sweeping.yields_nothing hand stop taken empty⟩
    · exact ⟨_, _, _, sweeping.yields_first hand opens⟩

theorem release_pulls (sweeping : w.Sweeping) (permitted : w.permits (.release k) = true) :
    Pulled w (w.step (.release k)) w.hierarchy [] [] where
  taken := Taken.none w.hierarchy
  state := rfl
  alive j member := alive_of_held (List.mem_of_mem_erase member)
  parted := rfl
  booked := by
    refine ⟨sweeping.inside, fun j => ?_, sweeping.begun, sweeping.places, sweeping.ends⟩
    have held := sweeping.held j
    have spare : w.drain.taken.count k < w.hierarchy.holds.count k := of_decide_eq_true permitted
    show w.drain.taken.count j ≤ (w.hierarchy.holds.erase k).count j
    rw [List.count_erase]
    split
    · rename_i same
      rw [← eq_of_beq same]
      omega
    · exact held
  got c member := absurd member (by simp)
  keeps _ _ := rfl

theorem mark (sweeping : w.Sweeping) (inside : k < w.hierarchy.arena.size)
    (alive : w.hierarchy.isAlive k = true) (cpu : Cpu) : (w.step (.mark k cpu)).Sweeping := by
  have only := only_lists_mark w.hierarchy k cpu
  have apart := sweeping.distinct.chain sweeping.tracked.filed inside alive
  constructor
  case toBooked =>
    refine ⟨fun j member => ?_, fun j => ?_, sweeping.begun, sweeping.places, sweeping.ends⟩
    · exact Nat.lt_of_lt_of_eq (sweeping.inside j member) only.size.symm
    · have same : (w.hierarchy.mark k cpu).holds.count j = w.hierarchy.holds.count j := by
        rw [only.holds]
      exact Nat.le_trans (sweeping.held j) (Nat.le_of_eq same.symm)
  case tracked => exact sweeping.tracked.mark inside alive apart cpu
  case distinct => exact sweeping.distinct.fades (.mark alive cpu)
  case ahead => exact sweeping.ahead

theorem mark_stepped (sweeping : w.Sweeping) (inside : k < w.hierarchy.arena.size)
    (alive : w.hierarchy.isAlive k = true) (cpu : Cpu) :
    Stepped w (w.step (.mark k cpu)) (.mark k cpu) := by
  have marked := mark_enqueues sweeping.tracked inside alive
    (sweeping.distinct.chain sweeping.tracked.filed inside alive) cpu
  have still (c : Fin cfg.slots) : ¬ w.Passes (w.step (.mark k cpu)) c := fun passes =>
    Nat.not_lt.mpr passes.1 passes.2
  have mem_entering (c : Fin cfg.slots) (j : Nat) :
      j ∈ w.entering c (.mark k cpu) ↔ c = cfg.slot cpu ∧ j ∈ w.hierarchy.chain k := by
    rw [entering]
    split
    · rename_i here
      simp [here]
    · rename_i other
      simp [Ne.symm other]
  constructor
  case reached => exact Nat.le_refl _
  case lists =>
    intro c j
    rw [mem_entering, and_iff_left (still c)]
    exact marked.lists c j
  case queued =>
    intro c j
    rw [mem_entering, and_iff_left fun both => still c both.1]
    exact marked.queued c j
  case got => exact fun c passes => absurd passes (still c)
  case keeps => exact fun _ _ => rfl

theorem step (sweeping : w.Sweeping) {s : SweepStep} (permitted : w.permits s = true) :
    (w.step s).Sweeping ∧ Stepped w (w.step s) s := by
  cases s with
  | next keep =>
    obtain ⟨after, passed, ks, pulled⟩ := sweeping.next_pulls keep
    exact ⟨pulled.sweeping sweeping, pulled.stepped sweeping fun _ => rfl⟩
  | mark k cpu =>
    simp only [permits, Bool.and_eq_true, decide_eq_true_eq] at permitted
    exact ⟨sweeping.mark permitted.1 permitted.2 cpu,
      sweeping.mark_stepped permitted.1 permitted.2 cpu⟩
  | release k =>
    have pulled := sweeping.release_pulls permitted
    exact ⟨pulled.sweeping sweeping, pulled.stepped sweeping fun _ => rfl⟩

end Sweeping

theorem run_finished (finished : w.drain = ⟨[], []⟩) (ended : w.exhausted = true) (count : Nat) :
    w.run (List.replicate count (.next false)) = w := by
  obtain ⟨h, d, yielded, e⟩ := w
  subst finished ended
  induction count with
  | zero => rfl
  | succ count ih => exact ih

theorem take_sweeps (w : Sweep cfg) (count : Nat) :
    ∃ ks, w.drain.take w.hierarchy count =
        (ks, (w.run (List.replicate count (.next false))).drain,
          (w.run (List.replicate count (.next false))).hierarchy) ∧
      (w.run (List.replicate count (.next false))).yielded.map Prod.snd =
        w.yielded.map Prod.snd ++ ks := by
  induction count generalizing w with
  | zero => exact ⟨[], rfl, (List.append_nil _).symm⟩
  | succ count ih =>
    have onward : w.run (List.replicate (count + 1) (.next false)) =
        (w.step (.next false)).run (List.replicate count (.next false)) := rfl
    rw [onward]
    cases found : w.drain.next w.hierarchy with
    | mk answer rest =>
      obtain ⟨d, after⟩ := rest
      cases answer with
      | none =>
        rw [step_next_none found, run_finished (Drain.next_none found) rfl]
        exact ⟨[], by simp only [Drain.take, found], (List.append_nil _).symm⟩
      | some k =>
        obtain ⟨ks, taken, yields⟩ := ih (w.step (.next false))
        have next : (w.step (.next false)).drain = d ∧ (w.step (.next false)).hierarchy = after ∧
            (w.step (.next false)).yielded.map Prod.snd = w.yielded.map Prod.snd ++ [k] := by
          rw [step_next_some found]
          exact ⟨rfl, rfl, by simp⟩
        rw [next.1, next.2.1] at taken
        refine ⟨k :: ks, by simp only [Drain.take, found, taken], ?_⟩
        rw [yields, next.2.2, List.append_assoc]
        rfl

/-- In a session, a drain that is dropped after so many nodes is such a run. -/
theorem drain_take_sweeps (h : Hierarchy cfg) (count : Nat) :
    let w := (start h).run (List.replicate count (.next false))
    Session.drainTake h count =
      (w.dropped, .yielded w.yielded.length w.dropped.pendingCount) := by
  intro w
  obtain ⟨ks, taken, yields⟩ := take_sweeps (start h) count
  have length : w.yielded.length = ks.length := by
    rw [← List.length_map Prod.snd, yields]
    rfl
  have result : (Drain.start cfg).take h count = (ks, w.drain, w.hierarchy) := taken
  simp only [Session.drainTake, result, length, dropped]

end Sweep

end Rollup
