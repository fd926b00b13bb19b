import Mathlib
import Rollup.Proofs.LoneFlusher
import Rollup.Proofs.RacingFlush

/-!
What the updates of a race come to. Each node's recorded events are those of the updates of it, and
its drained events those of the updates folded so far, a set of places that only grows. `Raced` says
so, and that a marked update that is not folded is one that the flusher will come to: its node is
listed, or taken and not settled. Of the updates that were marked when a flush began, `Raced` says
more: this flush itself has yet to come to them.
-/
namespace Rollup

def Update.onNode (k : Nat) (u : Update) : Nat := if u.key = k then u.delta.toNat else 0

namespace Race

variable {cfg : Config} {r : Race cfg} {updates : List Update} {w : Update → Nat}

def worth (updates : List Update) (w : Update → Nat) (i : Nat) : Nat := updates[i]?.elim 0 w

def given (r : Race cfg) : Nat := (r.updates.map fun u => u.delta.toNat).sum

/-- The events of the update at this place, if it is of the node `n` or of one below it. -/
def share (r : Race cfg) (n i : Nat) : Nat :=
  worth r.updates (fun u => if n ∈ r.hierarchy.lineage u.key then u.delta.toNat else 0) i

theorem worth_of_some {i : Nat} {u : Update} (found : updates[i]? = some u) :
    worth updates w i = w u := by
  rw [worth, found]
  rfl

theorem worth_append {more : List Update} {i : Nat} (inside : i < updates.length) :
    worth (updates ++ more) w i = worth updates w i := by
  rw [worth, worth, List.getElem?_append_left inside]

theorem worth_last (u : Update) : worth (updates ++ [u]) w updates.length = w u :=
  worth_of_some (by simp)

theorem worth_set {i : Nat} {u v : Update} (found : updates[i]? = some u) (same : w v = w u)
    (j : Nat) : worth (updates.set i v) w j = worth updates w j := by
  by_cases here : i = j
  · subst here
    have inside := (List.getElem?_eq_some_iff.mp found).1
    rw [worth_of_some found, worth_of_some (List.getElem?_set_self inside), same]
  · rw [worth, worth, List.getElem?_set_ne here]

theorem sum_worth (updates : List Update) (w : Update → Nat) :
    ∑ i ∈ Finset.range updates.length, worth updates w i = (updates.map w).sum := by
  induction updates using List.reverseRecOn with
  | nil => rfl
  | append_singleton rest u ih =>
    have before : ∑ i ∈ Finset.range rest.length, worth (rest ++ [u]) w i =
        ∑ i ∈ Finset.range rest.length, worth rest w i :=
      Finset.sum_congr rfl fun i member => worth_append (Finset.mem_range.mp member)
    rw [List.length_append, List.length_singleton, Finset.sum_range_succ, before, ih, worth_last]
    simp

theorem sum_on_nodes (s : Finset Nat) (i : Nat) :
    ∑ k ∈ s, worth updates (Update.onNode k) i =
      worth updates (fun u => if u.key ∈ s then u.delta.toNat else 0) i := by
  cases found : updates[i]? with
  | none =>
    simp only [worth, found, Option.elim_none]
    exact Finset.sum_const_zero
  | some u =>
    simp only [worth_of_some found, Update.onNode, Finset.sum_ite_eq]

theorem worth_congr {w' : Update → Nat} (same : ∀ u ∈ updates, w' u = w u) (i : Nat) :
    worth updates w' i = worth updates w i := by
  cases found : updates[i]? with
  | none => simp only [worth, found, Option.elim_none]
  | some u => rw [worth_of_some found, worth_of_some found, same u (List.mem_of_getElem? found)]

theorem sum_below_share {places : Finset Nat} {count : Nat → Nat}
    (keyed : ∀ u ∈ r.updates, u.key < r.hierarchy.arena.size)
    (made : ∀ k, count k = ∑ i ∈ places, worth r.updates (Update.onNode k) i) (n : Nat) :
    r.hierarchy.sumBelow n count = ∑ i ∈ places, r.share n i := by
  calc r.hierarchy.sumBelow n count
      = ∑ k ∈ r.hierarchy.below n, ∑ i ∈ places, worth r.updates (Update.onNode k) i :=
        Finset.sum_congr rfl fun k _ => made k
    _ = ∑ i ∈ places, ∑ k ∈ r.hierarchy.below n, worth r.updates (Update.onNode k) i :=
        Finset.sum_comm
    _ = ∑ i ∈ places, r.share n i := by
        apply Finset.sum_congr rfl
        intro i _
        rw [sum_on_nodes]
        refine worth_congr (fun u member => ?_) i
        simp only [Hierarchy.mem_below, keyed u member, true_and]

inductive Moved (r : Race cfg) : Race cfg → Prop
  | stays : Moved r r
  | counts (writer key : Nat) (cpu : Cpu) (delta : UInt64) (member : key ∈ r.hierarchy.keys) :
      Moved r { r with
        hierarchy := r.hierarchy.count key cpu delta
        updates := r.updates ++ [⟨writer, key, cpu, delta, false⟩] }
  | marks (u : Update) (i : Nat) (found : r.updates[i]? = some u) (unmarked : u.marked = false) :
      Moved r { r with
        hierarchy := r.hierarchy.mark u.key u.cpu
        updates := r.updates.set i { u with marked := true } }
  | flushes : Moved r r.flush

theorem step_moved (r : Race cfg) (m : Move) : Moved r (r.step m) := by
  cases m with
  | count writer key cpu delta =>
    change Moved r (r.count writer key cpu delta)
    unfold count
    split
    case isTrue ready => exact .counts writer key cpu delta ready.1
    case isFalse => exact .stays
  | mark writer =>
    change Moved r (r.mark writer)
    unfold mark
    cases unfinished : r.unfinished writer with
    | none => exact .stays
    | some entry =>
      obtain ⟨u, i⟩ := entry
      obtain ⟨found, unmarked⟩ := unfinished_found unfinished
      exact .marks u i found unmarked
  | flush => exact .flushes

structure Racing (tree : Hierarchy cfg) (r : Race cfg) : Prop where
  flushing : r.hierarchy.Flushing r.flusher
  shape : Hierarchy.SameShape tree r.hierarchy
  keyed : ∀ u ∈ r.updates, u.key < r.hierarchy.arena.size ∧
    (r.hierarchy.node u.key).removed = false

namespace Racing

variable {tree : Hierarchy cfg} (racing : Racing tree r)
include racing

section
variable (writer : Nat) {key : Nat} {delta : UInt64}
  (room : r.hierarchy.recordings + delta.toNat < UInt64.size) (member : key ∈ r.hierarchy.keys)
  (cpu : Cpu)
include room member

theorem counts : Hierarchy.Counted r.hierarchy (r.hierarchy.count key cpu delta) key delta.toNat :=
  racing.flushing.solvent.counted (racing.flushing.shaped.key_of_mem member).1 room cpu

theorem counted :
    Racing tree { r with
      hierarchy := r.hierarchy.count key cpu delta
      updates := r.updates ++ [⟨writer, key, cpu, delta, false⟩] } := by
  obtain ⟨inside, live⟩ := racing.flushing.shaped.key_of_mem member
  have counted := racing.counts room member cpu
  refine ⟨racing.flushing.counted inside room cpu, racing.shape.trans counted.toSameShape, ?_⟩
  intro u known
  simp only [counted.size, counted.removed]
  cases List.mem_append.mp known with
  | inl old => exact racing.keyed u old
  | inr new =>
    rw [List.mem_singleton.mp new]
    exact ⟨inside, live⟩

end

section
variable {u : Update} {i : Nat} (found : r.updates[i]? = some u)
include found

theorem marks : Hierarchy.Enqueued r.hierarchy (r.hierarchy.mark u.key u.cpu) (cfg.slot u.cpu)
    (r.hierarchy.lineage u.key) := by
  obtain ⟨inside, live⟩ := racing.keyed u (List.mem_of_getElem? found)
  rw [← racing.flushing.shaped.chain_eq_lineage live]
  exact racing.flushing.toIntact.enqueues inside live u.cpu

theorem marked :
    Racing tree { r with
      hierarchy := r.hierarchy.mark u.key u.cpu
      updates := r.updates.set i { u with marked := true } } := by
  obtain ⟨inside, live⟩ := racing.keyed u (List.mem_of_getElem? found)
  have queued := racing.marks found
  refine ⟨racing.flushing.marked inside live u.cpu, racing.shape.trans queued.toSameShape, ?_⟩
  intro v known
  simp only [queued.size, queued.removed]
  cases List.mem_or_eq_of_mem_set known with
  | inl old => exact racing.keyed v old
  | inr new =>
    rw [new]
    exact ⟨inside, live⟩

end

theorem flushed : Racing tree r.flush := by
  obtain ⟨done, step, updates, _⟩ := flush_step racing.flushing
  refine ⟨step.flushing, racing.shape.trans step.shape, ?_⟩
  rw [updates, step.shape.size]
  intro u known
  rw [step.shape.removed]
  exact racing.keyed u known

theorem total_eq (idle : r.flusher = .idle) {n : Nat} (inside : n < r.hierarchy.arena.size) :
    r.hierarchy.total n = r.hierarchy.sumBelow n r.hierarchy.drained := by
  have quiet := racing.flushing.quiet_of_unclaimed (by
    rw [idle]
    exact Hierarchy.not_claimed_idle)
  have conserved := racing.flushing.conserved n inside
  rw [Hierarchy.sum_below_zero quiet] at conserved
  omega

end Racing

/-- A race over this tree, with the updates at these places folded. Those at the places `old` were
    marked when the flush under way began. -/
structure Raced (tree : Hierarchy cfg) (old folded : Finset Nat) (r : Race cfg) : Prop where
  flushing : r.hierarchy.Flushing r.flusher
  shape : Hierarchy.SameShape tree r.hierarchy
  keyed : ∀ u ∈ r.updates, u.key < r.hierarchy.arena.size ∧
    (r.hierarchy.node u.key).removed = false
  recorded : ∀ k, r.hierarchy.recorded k =
    ∑ i ∈ Finset.range r.updates.length, worth r.updates (Update.onNode k) i
  inside : folded ⊆ Finset.range r.updates.length
  drained : ∀ k, r.hierarchy.drained k = ∑ i ∈ folded, worth r.updates (Update.onNode k) i
  awaited : ∀ {i u}, r.updates[i]? = some u → u.marked = true → i ∉ folded →
    r.hierarchy.Awaits r.flusher (List.finRange cfg.slots) u.key
  promised : ∀ {i}, i ∈ old → i ∉ folded → ∃ u, r.updates[i]? = some u ∧
    r.hierarchy.Awaits r.flusher r.flusher.ahead u.key

namespace Raced

variable {tree : Hierarchy cfg} {old folded : Finset Nat} (raced : Raced tree old folded r)
include raced

theorem racing : Racing tree r := ⟨raced.flushing, raced.shape, raced.keyed⟩

theorem key_inside (u : Update) (member : u ∈ r.updates) : u.key < r.hierarchy.arena.size :=
  (raced.keyed u member).1

theorem recordings : r.hierarchy.recordings = r.given := by
  calc r.hierarchy.recordings
      = ∑ k ∈ Finset.range r.hierarchy.arena.size, ∑ i ∈ Finset.range r.updates.length,
          worth r.updates (Update.onNode k) i := Finset.sum_congr rfl fun k _ => raced.recorded k
    _ = ∑ i ∈ Finset.range r.updates.length, ∑ k ∈ Finset.range r.hierarchy.arena.size,
          worth r.updates (Update.onNode k) i := Finset.sum_comm
    _ = ∑ i ∈ Finset.range r.updates.length, worth r.updates (fun u => u.delta.toNat) i := by
        apply Finset.sum_congr rfl
        intro i _
        rw [sum_on_nodes]
        refine worth_congr (fun u member => ?_) i
        rw [if_pos (Finset.mem_range.mpr (raced.key_inside u member))]
    _ = r.given := sum_worth _ _

theorem unfolded {k : Nat} (dirty : r.hierarchy.undrained k ≠ 0) :
    ∃ i u, r.updates[i]? = some u ∧ u.key = k ∧ i ∉ folded := by
  by_contra none
  have split := raced.flushing.solvent.split k
  have all : r.hierarchy.drained k = r.hierarchy.recorded k := by
    rw [raced.drained, raced.recorded]
    apply Finset.sum_subset raced.inside
    intro i _ left
    cases found : r.updates[i]? with
    | none => simp only [worth, found, Option.elim_none]
    | some u =>
      have other : u.key ≠ k := fun same => none ⟨i, u, found, same, left⟩
      rw [worth_of_some found, Update.onNode, if_neg other]
  omega

theorem flushed : ∃ folded', folded ⊆ folded' ∧ Raced tree old folded' r.flush := by
  classical
  obtain ⟨done, step, updates, _⟩ := flush_step raced.flushing
  let settled : Finset Nat :=
    {i ∈ Finset.range r.updates.length | ∃ u, r.updates[i]? = some u ∧ u.key ∈ done}
  have of_done {i : Nat} {u : Update} (found : r.updates[i]? = some u) (member : u.key ∈ done) :
      i ∈ folded ∪ settled := by
    have inside : i < r.updates.length := (List.getElem?_eq_some_iff.mp found).1
    exact Finset.mem_union_right _
      (Finset.mem_filter.mpr ⟨Finset.mem_range.mpr inside, u, found, member⟩)
  have inside : folded ∪ settled ⊆ Finset.range r.updates.length :=
    Finset.union_subset raced.inside (Finset.filter_subset _ _)
  refine ⟨folded ∪ settled, Finset.subset_union_left, ?_⟩
  have racing := raced.racing.flushed
  constructor
  case flushing => exact racing.flushing
  case shape => exact racing.shape
  case keyed => exact racing.keyed
  case recorded =>
    intro k
    rw [step.recorded, updates]
    exact raced.recorded k
  case inside =>
    rw [updates]
    exact inside
  case drained =>
    intro k
    rw [step.drained, updates]
    split
    · rename_i member
      rw [raced.recorded]
      symm
      apply Finset.sum_subset inside
      intro i _ left
      cases found : r.updates[i]? with
      | none => simp only [worth, found, Option.elim_none]
      | some u =>
        have other : u.key ≠ k := fun same => left (of_done found (same ▸ member))
        rw [worth_of_some found, Update.onNode, if_neg other]
    · rename_i other
      rw [raced.drained]
      apply Finset.sum_subset Finset.subset_union_left
      intro i either left
      obtain ⟨_, u, found, member⟩ :=
        Finset.mem_filter.mp ((Finset.mem_union.mp either).resolve_left left)
      have apart : u.key ≠ k := fun same => other (same ▸ member)
      rw [worth_of_some found, Update.onNode, if_neg apart]
  case awaited =>
    intro i u found marked left
    rw [updates] at found
    exact step.awaited u.key (fun member => left (of_done found member))
      (raced.awaited found marked fun old => left (Finset.mem_union_left _ old))
  case promised =>
    intro i early left
    obtain ⟨u, found, awaits⟩ :=
      raced.promised early fun old => left (Finset.mem_union_left _ old)
    refine ⟨u, by rw [updates]; exact found, ?_⟩
    exact step.promised u.key (fun member => left (of_done found member)) awaits

theorem counted {writer key : Nat} {cpu : Cpu} {delta : UInt64}
    (member : key ∈ r.hierarchy.keys) (fits : r.given + delta.toNat < UInt64.size) :
    Raced tree old folded { r with
      hierarchy := r.hierarchy.count key cpu delta
      updates := r.updates ++ [⟨writer, key, cpu, delta, false⟩] } := by
  have room : r.hierarchy.recordings + delta.toNat < UInt64.size := by
    rw [raced.recordings]
    exact fits
  have racing := raced.racing.counted writer room member cpu
  have counted := raced.racing.counts room member cpu
  have length (u : Update) : (r.updates ++ [u]).length = r.updates.length + 1 := by simp
  have early (u : Update) {i : Nat} (member : i ∈ Finset.range r.updates.length) (k : Nat) :
      worth (r.updates ++ [u]) (Update.onNode k) i = worth r.updates (Update.onNode k) i :=
    worth_append (Finset.mem_range.mp member)
  constructor
  case flushing => exact racing.flushing
  case shape => exact racing.shape
  case keyed => exact racing.keyed
  case recorded =>
    intro k
    rw [counted.recorded, length, Finset.sum_range_succ, worth_last,
      Finset.sum_congr rfl fun i member => early _ member k, raced.recorded]
    simp only [Update.onNode, eq_comm]
  case inside =>
    rw [length]
    exact raced.inside.trans (Finset.range_subset_range.mpr (Nat.le_succ _))
  case drained =>
    intro k
    rw [counted.drained, raced.drained]
    exact Finset.sum_congr rfl fun i member => (early _ (raced.inside member) k).symm
  case awaited =>
    intro i u found marked left
    by_cases old : i < r.updates.length
    · rw [List.getElem?_append_left old] at found
      exact (raced.awaited found marked left).counted key cpu delta
    · rw [List.getElem?_append_right (Nat.le_of_not_lt old)] at found
      rw [List.mem_singleton.mp (List.mem_of_getElem? found)] at marked
      exact absurd marked (by simp)
  case promised =>
    intro i member left
    obtain ⟨u, found, before⟩ := raced.promised member left
    have old := (List.getElem?_eq_some_iff.mp found).1
    exact ⟨u, by rw [List.getElem?_append_left old]; exact found, before.counted key cpu delta⟩

theorem marked {u : Update} {i : Nat} (found : r.updates[i]? = some u) :
    Raced tree old folded { r with
      hierarchy := r.hierarchy.mark u.key u.cpu
      updates := r.updates.set i { u with marked := true } } := by
  have racing := raced.racing.marked found
  have queued := raced.racing.marks found
  have books := queued.toOnlyLists.books
  have inside := (List.getElem?_eq_some_iff.mp found).1
  have same (k j : Nat) : worth (r.updates.set i { u with marked := true }) (Update.onNode k) j =
      worth r.updates (Update.onNode k) j :=
    worth_set (v := { u with marked := true }) found rfl j
  constructor
  case flushing => exact racing.flushing
  case shape => exact racing.shape
  case keyed => exact racing.keyed
  case recorded =>
    intro k
    rw [congrFun books.recorded_eq k, List.length_set, raced.recorded]
    exact Finset.sum_congr rfl fun j _ => (same k j).symm
  case inside =>
    rw [List.length_set]
    exact raced.inside
  case drained =>
    intro k
    rw [congrFun books.drained_eq k, raced.drained]
    exact Finset.sum_congr rfl fun j _ => (same k j).symm
  case awaited =>
    intro j v entry marked left
    by_cases here : i = j
    · subst here
      rw [List.getElem?_set_self inside] at entry
      obtain rfl := Option.some.inj entry
      have listed := (queued.lists (cfg.slot u.cpu) u.key).mpr
        (Or.inr ⟨rfl, Hierarchy.self_mem_lineage _ _⟩)
      exact Or.inl ⟨_, List.mem_finRange _, listed⟩
    · rw [List.getElem?_set_ne here] at entry
      exact (raced.awaited entry marked left).enqueued queued
  case promised =>
    intro j member left
    obtain ⟨v, old, before⟩ := raced.promised member left
    by_cases here : i = j
    · subst here
      obtain rfl : u = v := Option.some.inj (found.symm.trans old)
      exact ⟨_, List.getElem?_set_self inside, before.enqueued queued⟩
    · exact ⟨v, by rw [List.getElem?_set_ne here]; exact old, before.enqueued queued⟩

end Raced

end Race

end Rollup
