import Mathlib
import Rollup.Proofs.RacingWriters

/-!
What the flusher of a race owes. `Tallied` says of a race over any tree, also one on which events
were recorded before, that what the marked updates come to is drained, or its node is one that the
flusher will come to. Once a flush has begun it owes what was marked by then: `Owed` says that this
flush itself has yet to come to it, and that the lists which it has taken hold no node but for
updates that were marked later. When the flush ends, all that it owed is in the totals.
-/
namespace Rollup

def Update.shown (k : Nat) (u : Update) : Nat := if u.marked then u.onNode k else 0

namespace Race

variable {cfg : Config} {tree : Hierarchy cfg} {b r r' : Race cfg}

def countedOn (r : Race cfg) (k : Nat) : Nat := (r.updates.map (Update.onNode k)).sum

def markedOn (r : Race cfg) (k : Nat) : Nat := (r.updates.map (Update.shown k)).sum

def Marked (r : Race cfg) (i : Nat) : Prop := ∃ u, r.updates[i]? = some u ∧ u.marked = true

def MarkedSince (b r : Race cfg) (k : Nat) : Prop :=
  ∃ i u, r.updates[i]? = some u ∧ u.marked = true ∧ ¬ b.Marked i ∧ k ∈ r.hierarchy.lineage u.key

theorem marked_on_le (r : Race cfg) (k : Nat) : r.markedOn k ≤ r.countedOn k := by
  apply List.sum_le_sum
  intro u _
  unfold Update.shown
  split
  · exact Nat.le_refl _
  · exact Nat.zero_le _

theorem sum_counted_on_le (r : Race cfg) (bound : Nat) :
    ∑ k ∈ Finset.range bound, r.countedOn k ≤ r.given := by
  unfold countedOn given
  induction r.updates with
  | nil => simp
  | cons u rest ih =>
    have one : ∑ k ∈ Finset.range bound, u.onNode k ≤ u.delta.toNat := by
      unfold Update.onNode
      rw [Finset.sum_ite_eq]
      split
      · exact Nat.le_refl _
      · exact Nat.zero_le _
    simp only [List.map_cons, List.sum_cons, Finset.sum_add_distrib]
    omega

theorem sum_set {updates : List Update} {w : Update → Nat} {i : Nat} {u : Update}
    (found : updates[i]? = some u) (v : Update) :
    ((updates.set i v).map w).sum + w u = (updates.map w).sum + w v := by
  induction updates generalizing i with
  | nil => exact absurd found (by simp)
  | cons first rest ih =>
    cases i with
    | zero =>
      obtain rfl : first = u := Option.some.inj found
      simp only [List.set_cons_zero, List.map_cons, List.sum_cons]
      omega
    | succ i =>
      have later := ih found
      simp only [List.set_cons_succ, List.map_cons, List.sum_cons]
      omega

theorem Moved.update (moved : Moved r r') {i : Nat} {u : Update} (found : r.updates[i]? = some u) :
    ∃ v, r'.updates[i]? = some v ∧ v.key = u.key ∧ (u.marked = true → v.marked = true) := by
  cases moved with
  | stays => exact ⟨u, found, rfl, id⟩
  | counts writer key cpu delta member =>
    have inside := (List.getElem?_eq_some_iff.mp found).1
    exact ⟨u, (List.getElem?_append_left inside).trans found, rfl, id⟩
  | marks w j other unmarked =>
    by_cases here : j = i
    · subst here
      obtain rfl : w = u := Option.some.inj (other.symm.trans found)
      have inside := (List.getElem?_eq_some_iff.mp found).1
      exact ⟨_, List.getElem?_set_self inside, rfl, fun _ => rfl⟩
    · exact ⟨u, (List.getElem?_set_ne here).trans found, rfl, id⟩
  | flushes =>
    rw [flush_updates]
    exact ⟨u, found, rfl, id⟩

theorem Moved.marked_on_le (moved : Moved r r') (k : Nat) : r.markedOn k ≤ r'.markedOn k := by
  cases moved with
  | stays => exact Nat.le_refl _
  | counts writer key cpu delta member => simp [markedOn]
  | marks u i found unmarked =>
    have sum := sum_set (w := Update.shown k) found { u with marked := true }
    have none : u.shown k = 0 := by simp [Update.shown, unmarked]
    simp only [markedOn]
    omega
  | flushes => rw [markedOn, markedOn, flush_updates]

structure Since (b r : Race cfg) : Prop where
  marked : ∀ i, b.Marked i → r.Marked i
  markedOn : ∀ k, b.markedOn k ≤ r.markedOn k

theorem Since.refl (r : Race cfg) : Since r r := ⟨fun _ marked => marked, fun _ => Nat.le_refl _⟩

theorem Since.step (since : Since b r) (moved : Moved r r') : Since b r' := by
  constructor
  case marked =>
    intro i early
    obtain ⟨u, found, marked⟩ := since.marked i early
    obtain ⟨v, next, _, still⟩ := moved.update found
    exact ⟨v, next, still marked⟩
  case markedOn =>
    intro k
    exact Nat.le_trans (since.markedOn k) (moved.marked_on_le k)

namespace MarkedSince

variable {k : Nat}

theorem earlier (late : MarkedSince r r' k) (since : Since b r) : MarkedSince b r' k := by
  obtain ⟨i, u, found, marked, fresh, above⟩ := late
  exact ⟨i, u, found, marked, fun early => fresh (since.marked i early), above⟩

theorem step (late : MarkedSince b r k) (moved : Moved r r')
    (shape : Hierarchy.SameShape r.hierarchy r'.hierarchy) : MarkedSince b r' k := by
  obtain ⟨i, u, found, marked, fresh, above⟩ := late
  obtain ⟨v, next, key, still⟩ := moved.update found
  refine ⟨i, v, next, still marked, fresh, ?_⟩
  rw [key, shape.lineage]
  exact above

end MarkedSince

/-- A race over this tree, whatever was recorded on it before. -/
structure Tallied (tree : Hierarchy cfg) (r : Race cfg) : Prop extends Racing tree r where
  recorded : ∀ k, r.hierarchy.recorded k = tree.recorded k + r.countedOn k
  awaited : ∀ k, r.hierarchy.Awaits r.flusher (List.finRange cfg.slots) k ∨
    tree.recorded k + r.markedOn k ≤ r.hierarchy.drained k

/-- A flush that began after the state `b` owes what was marked then. -/
structure Owed (tree : Hierarchy cfg) (b r : Race cfg) : Prop where
  since : Since b r
  promised : ∀ k, r.hierarchy.Awaits r.flusher r.flusher.ahead k ∨
    tree.recorded k + b.markedOn k ≤ r.hierarchy.drained k
  late : ∀ c k, r.hierarchy.lists c k → c ∈ r.flusher.ahead ∨ MarkedSince b r k

theorem Tallied.start {h : Hierarchy cfg} (kept : h.Kept) : Tallied h (Race.start h) := by
  constructor
  case toRacing =>
    refine ⟨.start kept.intact kept.quiet, .refl h, ?_⟩
    intro u member
    exact absurd member (by simp [Race.start])
  case recorded => exact fun _ => rfl
  case awaited =>
    intro k
    have split := kept.solvent.split k
    by_cases clean : h.undrained k = 0
    · refine Or.inr ?_
      change h.recorded k + 0 ≤ h.drained k
      omega
    · obtain ⟨c, listed⟩ := kept.dirty clean
      exact Or.inl (Or.inl ⟨c, List.mem_finRange c, listed⟩)

namespace Tallied

variable (tallied : Tallied tree r)
include tallied

theorem recordings_le : r.hierarchy.recordings ≤ tree.recordings + r.given := by
  have counted := r.sum_counted_on_le tree.arena.size
  have size := tallied.shape.size
  simp only [Hierarchy.recordings, tallied.recorded, Finset.sum_add_distrib, size]
  omega

theorem room {delta : UInt64} (fits : tree.recordings + (r.given + delta.toNat) < UInt64.size) :
    r.hierarchy.recordings + delta.toNat < UInt64.size := by
  have le := tallied.recordings_le
  omega

theorem counted {writer key : Nat} {cpu : Cpu} {delta : UInt64}
    (fits : tree.recordings + (r.given + delta.toNat) < UInt64.size)
    (member : key ∈ r.hierarchy.keys) :
    Tallied tree { r with
      hierarchy := r.hierarchy.count key cpu delta
      updates := r.updates ++ [⟨writer, key, cpu, delta, false⟩] } := by
  have counted := tallied.counts (tallied.room fits) member cpu
  constructor
  case toRacing => exact tallied.toRacing.counted writer (tallied.room fits) member cpu
  case recorded =>
    intro k
    have before := tallied.recorded k
    simp only [counted.recorded, countedOn, List.map_append, List.sum_append, List.map_cons,
      List.map_nil, List.sum_cons, List.sum_nil, Update.onNode, eq_comm (a := k)] at before ⊢
    omega
  case awaited =>
    intro k
    have same : ({ r with
        hierarchy := r.hierarchy.count key cpu delta
        updates := r.updates ++ [⟨writer, key, cpu, delta, false⟩] } : Race cfg).markedOn k =
          r.markedOn k := by
      simp [markedOn, Update.shown]
    rw [same, counted.drained]
    exact (tallied.awaited k).imp_left fun awaits => awaits.counted key cpu delta

theorem marked {u : Update} {i : Nat} (found : r.updates[i]? = some u) :
    Tallied tree { r with
      hierarchy := r.hierarchy.mark u.key u.cpu
      updates := r.updates.set i { u with marked := true } } := by
  have queued := tallied.marks found
  have books := queued.toOnlyLists.books
  constructor
  case toRacing => exact tallied.toRacing.marked found
  case recorded =>
    intro k
    have sum := sum_set (w := Update.onNode k) found { u with marked := true }
    have before := tallied.recorded k
    have same : Update.onNode k { u with marked := true } = u.onNode k := rfl
    simp only [congrFun books.recorded_eq k, countedOn] at before ⊢
    omega
  case awaited =>
    intro k
    by_cases here : u.key = k
    · subst here
      have listed := (queued.lists (cfg.slot u.cpu) u.key).mpr
        (Or.inr ⟨rfl, Hierarchy.self_mem_lineage _ _⟩)
      exact Or.inl (Or.inl ⟨_, List.mem_finRange _, listed⟩)
    · have sum := sum_set (w := Update.shown k) found { u with marked := true }
      have none (v : Update) (keyed : v.key = u.key) : v.shown k = 0 := by
        simp [Update.shown, Update.onNode, keyed, here]
      have before := none u rfl
      have after := none { u with marked := true } rfl
      simp only [congrFun books.drained_eq k]
      rcases tallied.awaited k with awaits | drained
      · exact Or.inl (awaits.enqueued queued)
      · refine Or.inr ?_
        simp only [markedOn] at drained ⊢
        omega

theorem flushed : Tallied tree r.flush := by
  obtain ⟨done, step, updates, _⟩ := flush_step tallied.flushing
  constructor
  case toRacing => exact tallied.toRacing.flushed
  case recorded =>
    intro k
    rw [step.recorded, countedOn, updates]
    exact tallied.recorded k
  case awaited =>
    intro k
    have le := r.marked_on_le k
    have recorded := tallied.recorded k
    rw [step.drained, markedOn, updates]
    rw [markedOn] at le
    by_cases settled : k ∈ done
    · rw [if_pos settled]
      exact Or.inr (by omega)
    · rw [if_neg settled]
      exact (tallied.awaited k).imp_left (step.awaited k settled)

theorem step (moved : Moved r r') (fits : tree.recordings + r'.given < UInt64.size) :
    Tallied tree r' := by
  cases moved with
  | stays => exact tallied
  | counts writer key cpu delta member => exact tallied.counted (by simpa [given] using fits) member
  | marks u i found unmarked => exact tallied.marked found
  | flushes => exact tallied.flushed

theorem rising (moved : Moved r r') (fits : tree.recordings + r'.given < UInt64.size) (n : Nat) :
    r.hierarchy.total n ≤ r'.hierarchy.total n := by
  cases moved with
  | stays => exact Nat.le_refl _
  | counts writer key cpu delta member =>
    have counted := tallied.counts (tallied.room (by simpa [given] using fits)) member cpu
    exact Nat.le_of_eq (congrFun counted.total_eq n).symm
  | marks u i found unmarked =>
    exact Nat.le_of_eq (congrFun (tallied.marks found).toOnlyLists.books.total_eq n).symm
  | flushes =>
    obtain ⟨done, step, _⟩ := flush_step tallied.flushing
    exact step.rising n

theorem step_shape (moved : Moved r r') (fits : tree.recordings + r'.given < UInt64.size) :
    Hierarchy.SameShape r.hierarchy r'.hierarchy :=
  tallied.shape.symm.trans (tallied.step moved fits).shape

/-- What is listed after a step was so before, and its list has not just been taken, or the step
    has marked it. -/
theorem listed (moved : Moved r r') (fits : tree.recordings + r'.given < UInt64.size)
    {c : Fin cfg.slots} {k : Nat} (listed : r'.hierarchy.lists c k) :
    r.hierarchy.lists c k ∧ (c ∈ r'.flusher.ahead ∨ c ∉ r.flusher.ahead) ∨
      MarkedSince r r' k := by
  have shape := tallied.step_shape moved fits
  cases moved with
  | stays => exact Or.inl ⟨listed, em _⟩
  | counts writer key cpu delta member =>
    exact Or.inl ⟨(r.hierarchy.lists_count key cpu delta c k).mp listed, em _⟩
  | marks u i found unmarked =>
    rcases ((tallied.marks found).lists c k).mp listed with old | ⟨_, above⟩
    · exact Or.inl ⟨old, em _⟩
    · have inside := (List.getElem?_eq_some_iff.mp found).1
      have fresh : ¬ r.Marked i := by
        rintro ⟨v, other, marked⟩
        obtain rfl : u = v := Option.some.inj (found.symm.trans other)
        exact absurd marked (by simp [unmarked])
      rw [← shape.lineage] at above
      exact Or.inr ⟨i, _, List.getElem?_set_self inside, rfl, fresh, above⟩
  | flushes =>
    obtain ⟨done, step, _⟩ := flush_step tallied.flushing
    exact Or.inl (step.leftover c k listed)

end Tallied

namespace Owed

theorem begins (tallied : Tallied tree r) (idle : r.flusher = .idle) (since : Since b r) :
    Owed tree b r.flush := by
  have next : r.flush.flusher = .gathering [] (List.finRange cfg.slots) .empty ∧
      r.flush.hierarchy = r.hierarchy := by
    obtain ⟨h, updates, f, results⟩ := r
    obtain rfl : f = .idle := idle
    exact ⟨rfl, rfl⟩
  constructor
  case since => exact since.step .flushes
  case promised =>
    intro k
    have le := since.markedOn k
    rw [next.1, next.2]
    rcases tallied.awaited k with awaits | drained
    · rw [idle] at awaits
      refine Or.inl (awaits.imp_right fun claimed => ?_)
      exact absurd claimed (Hierarchy.not_claimed_idle k)
    · exact Or.inr (by omega)
  case late =>
    intro c k _
    rw [next.1]
    exact Or.inl (List.mem_finRange c)

theorem promised_step (owed : Owed tree b r) (tallied : Tallied tree r) (moved : Moved r r')
    (fits : tree.recordings + r'.given < UInt64.size) (k : Nat) :
    r'.hierarchy.Awaits r'.flusher r'.flusher.ahead k ∨
      tree.recorded k + b.markedOn k ≤ r'.hierarchy.drained k := by
  have before := owed.promised k
  cases moved with
  | stays => exact before
  | counts writer key cpu delta member =>
    have counted := tallied.counts (tallied.room (by simpa [given] using fits)) member cpu
    rw [counted.drained]
    exact before.imp_left fun awaits => awaits.counted key cpu delta
  | marks u i found unmarked =>
    have queued := tallied.marks found
    rw [congrFun queued.toOnlyLists.books.drained_eq k]
    exact before.imp_left fun awaits => awaits.enqueued queued
  | flushes =>
    obtain ⟨done, step, _⟩ := flush_step tallied.flushing
    have le := owed.since.markedOn k
    have all := r.marked_on_le k
    have recorded := tallied.recorded k
    rw [step.drained]
    by_cases settled : k ∈ done
    · rw [if_pos settled]
      exact Or.inr (by omega)
    · rw [if_neg settled]
      exact before.imp_left (step.promised k settled)

theorem step (owed : Owed tree b r) (tallied : Tallied tree r) (moved : Moved r r')
    (fits : tree.recordings + r'.given < UInt64.size) : Owed tree b r' := by
  constructor
  case since => exact owed.since.step moved
  case promised => exact owed.promised_step tallied moved fits
  case late =>
    intro c k listed
    have shape := tallied.step_shape moved fits
    rcases tallied.listed moved fits listed with ⟨before, either⟩ | late
    · rcases either with ahead | taken
      · exact Or.inl ahead
      · exact Or.inr (((owed.late c k before).resolve_left taken).step moved shape)
    · exact Or.inr (late.earlier owed.since)

theorem settled (owed : Owed tree b r) (idle : r.flusher = .idle) (k : Nat) :
    tree.recorded k + b.markedOn k ≤ r.hierarchy.drained k := by
  rcases owed.promised k with awaits | drained
  · rw [idle] at awaits
    rcases awaits with ⟨c, ahead, _⟩ | claimed
    · exact absurd ahead (by simp [Flusher.ahead])
    · exact absurd claimed (Hierarchy.not_claimed_idle k)
  · exact drained

theorem late_listed (owed : Owed tree b r) (idle : r.flusher = .idle) {c : Fin cfg.slots}
    {k : Nat} (listed : r.hierarchy.lists c k) : MarkedSince b r k := by
  refine (owed.late c k listed).resolve_left fun ahead => ?_
  rw [idle] at ahead
  exact absurd ahead (by simp [Flusher.ahead])

end Owed

end Race

end Rollup
