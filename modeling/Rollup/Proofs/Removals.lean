import Mathlib
import Rollup.Proofs.ExactSessions
import Rollup.Proofs.ListsInOrder
import Rollup.Proofs.OneTree
import Rollup.Proofs.SharedIds

/-!
Removals against flushes. A removal takes a node out, leaves its total to its parent and flushes. The
flush finds the same queued nodes, counts and living parents as if the node had stayed: where a node
below it is queued it is queued too, and so lives on. Therefore all nodes gain what they would gain
without the removal, and the last gain of the removed node joins its total in what the parent
inherits (`Leaving.transparent`).

After one removal nothing is queued, and those that follow change no total at all.
-/
namespace Rollup

namespace Hierarchy

variable {cfg : Config} {h h' g : Hierarchy cfg} {n k p : Nat} {id : NodeId}

theorem Solvent.gain_le (solvent : h.Solvent) (inside : n < h.arena.size) :
    h.gain n ≤ h.sumBelow n h.afloat := by
  -- along the recursion of gains, from the leaves up
  induction n using gain.induct h with
  | case1 n ih =>
    have children : h.dueUnder n ⊆ h.issue n := fun m member =>
      mem_issue.mpr (link_of_parent (mem_due_under.mp member).2)
    have each : ∑ m ∈ h.dueUnder n, h.gain m ≤ ∑ m ∈ h.dueUnder n, h.sumBelow m h.afloat :=
      Finset.sum_le_sum fun m member =>
        ih ⟨m, member⟩ (mem_due.mp (mem_due_under.mp member).1).1
    have more := Finset.sum_le_sum_of_subset (f := fun m => h.sumBelow m h.afloat) children
    have whole := add_sum_issue_le inside h.afloat
    have own := solvent.unflushed_eq n
    have parts := h.gain_eq n
    simp only [afloat, pending] at whole each more ⊢
    omega

theorem Solvent.total_with_gain (solvent : h.Solvent) (inside : n < h.arena.size) :
    h.total n + h.gain n ≤ h.sumBelow n h.recorded := by
  have gain := solvent.gain_le inside
  have bounded := solvent.bounded n inside
  have split := solvent.sum_split n
  have parts : h.sumBelow n h.afloat = h.sumBelow n h.undrained + h.sumBelow n h.pending :=
    h.sum_below_add n h.undrained h.pending
  omega

theorem Endowed.inherited_with_legacy {m : Nat} (endowed : h.Endowed m) (inside : n < h.arena.size) :
    h.inherited n + h.legacy n ≤ h.sumBelow n h.recorded := by
  have heirs : {m ∈ h.dueUnder n | (h.node m).removed = true} ⊆ h.departed n := by
    intro m member
    obtain ⟨queued, gone⟩ := Finset.mem_filter.mp member
    exact mem_departed.mpr ⟨link_of_parent (mem_due_under.mp queued).2, gone⟩
  have left : h.departed n ⊆ h.issue n := Finset.filter_subset _ _
  have backed := endowed.backed n
  have gains : h.legacy n ≤ ∑ c ∈ h.departed n, h.gain c := Finset.sum_le_sum_of_subset heirs
  have each : ∑ c ∈ h.departed n, (h.total c + h.gain c) ≤
      ∑ c ∈ h.departed n, h.sumBelow c h.recorded :=
    Finset.sum_le_sum fun c member =>
      endowed.solvent.total_with_gain (parent_inside (mem_departed.mp member).1)
  have more := Finset.sum_le_sum_of_subset (f := fun c => h.sumBelow c h.recorded) left
  have whole := add_sum_issue_le inside h.recorded
  rw [Finset.sum_add_distrib] at each
  omega

theorem Endowed.gains_fit {m : Nat} (endowed : h.Endowed m) : h.GainsFit := by
  have solvent := endowed.solvent
  have known {n : Nat} (queued : n ∈ h.due) : n < h.arena.size := (mem_due.mp queued).1
  constructor
  case total =>
    intro n queued
    exact Nat.lt_of_le_of_lt (solvent.total_with_gain (known queued)) (solvent.sum_fits n)
  case inherited =>
    intro n queued
    exact Nat.lt_of_le_of_lt (endowed.inherited_with_legacy (known queued)) (solvent.sum_fits n)
  case own =>
    intro n _
    have own : (h.node n).own.toNat = h.drained n :=
      Counter.flushed_total_of_fits (solvent.drained_fits n)
    have split := solvent.split n
    have fits := solvent.recorded_fits n
    rw [own, solvent.unflushed_eq, ← split]
    exact fits
  case delta =>
    have inside : h.due ⊆ Finset.range h.arena.size := Finset.filter_subset _ _
    have part := Finset.sum_le_sum_of_subset (f := h.undrained) inside
    have below : ∑ n ∈ Finset.range h.arena.size, h.undrained n ≤ h.recordings :=
      Finset.sum_le_sum fun n _ => by rw [solvent.split n]; exact Nat.le_add_left _ _
    have fits := solvent.fits
    have same : ∑ n ∈ h.due, (h.node n).counter.unflushed.toNat = ∑ n ∈ h.due, h.undrained n :=
      Finset.sum_congr rfl fun n _ => solvent.unflushed_eq n
    omega

namespace Leaving

variable (leaving : Leaving h id k p) (shaped : h.Shaped)
include leaving shaped

theorem fades : Fades h (h.left id k p) := by
  rw [leaving.bequeath_eq shaped]
  exact (Fades.apart leaving).trans (.update (fun _ => rfl) fun _ => rfl)

theorem well_formed (formed : h.WellFormed) : (h.left id k p).WellFormed :=
  (leaving.tracked shaped formed.tracked).well_formed
    (formed.live.fades (leaving.fades shaped))

theorem due : (h.left id k p).due = h.due := by
  ext m
  simp only [mem_due, leaving.size shaped, leaving.lists shaped]

/-- A node that leaves stays alive if it is listed, and it is listed if a queued node is below it. -/
theorem parent_of_due (formed : h.WellFormed) {m : Nat} (queued : m ∈ h.due) :
    (h.left id k p).parent? m = h.parent? m := by
  have link : ((h.left id k p).node m).parent = (h.node m).parent :=
    congrArg Identity.parent (leaving.identity shaped m)
  obtain ⟨_, c, listed⟩ := mem_due.mp queued
  refine Option.ext fun q => ?_
  rw [parent_eq_some, link, parent_eq_some]
  refine and_congr_right fun up => ⟨(leaving.fades shaped).alive q, fun alive => ?_⟩
  -- also where `q` is the node that leaves, since then it is on the list of its queued child
  have above := formed.closed listed (parent_eq_some.mpr ⟨up, alive⟩)
  exact alive_of_lists ((leaving.lists shaped c q).mpr above)

theorem due_under (formed : h.WellFormed) (n : Nat) :
    (h.left id k p).dueUnder n = h.dueUnder n := by
  ext m
  rw [mem_due_under, mem_due_under, leaving.due shaped]
  exact and_congr_right fun queued => by rw [leaving.parent_of_due shaped formed queued]

theorem gain (formed : h.WellFormed) (n : Nat) : (h.left id k p).gain n = h.gain n := by
  induction n using gain.induct h with
  | case1 n ih =>
    have books := leaving.books shaped
    rw [gain_eq, gain_eq h, books.counter, books.pending, leaving.due_under shaped formed]
    exact congrArg _ (Finset.sum_congr rfl fun m member => ih ⟨m, member⟩)

theorem heirs (formed : h.WellFormed) (n : Nat) :
    ∑ m ∈ h.due with (h.left id k p).parent? m = some n ∧ ((h.left id k p).node m).removed = true,
        h.gain m =
      (∑ m ∈ h.due with h.parent? m = some n ∧ (h.node m).removed = true, h.gain m) +
        if n = p ∧ k ∈ h.due then h.gain k else 0 := by
  have live := leaving.live shaped
  have up : h.parent? k = some p := by
    rw [shaped.parent_of_live live, leaving.up]
  have term (m : Nat) (queued : m ∈ h.due) :
      (if (h.left id k p).parent? m = some n ∧ ((h.left id k p).node m).removed = true
        then h.gain m else 0) =
      (if h.parent? m = some n ∧ (h.node m).removed = true then h.gain m else 0) +
        if m = k then (if n = p then h.gain k else 0) else 0 := by
    rw [leaving.parent_of_due shaped formed queued, leaving.removed shaped]
    by_cases same : m = k
    · subst same
      simp [up, live, eq_comm]
    · simp [same]
  rw [Finset.sum_filter, Finset.sum_filter, Finset.sum_congr rfl term, Finset.sum_add_distrib,
    Finset.sum_ite_eq' h.due k]
  by_cases queued : k ∈ h.due <;> simp [queued]

end Leaving

structure SameTally (h h' : Hierarchy cfg) : Prop where
  total : ∀ n, (h'.node n).total = (h.node n).total
  own : ∀ n, (h'.node n).own = (h.node n).own
  unflushed : ∀ n, (h'.node n).counter.unflushed = (h.node n).counter.unflushed
  pending : ∀ n, (h'.node n).pending = (h.node n).pending

namespace SameTally

theorem refl (h : Hierarchy cfg) : SameTally h h :=
  ⟨fun _ => rfl, fun _ => rfl, fun _ => rfl, fun _ => rfl⟩

theorem symm (same : SameTally h h') : SameTally h' h :=
  ⟨fun n => (same.total n).symm, fun n => (same.own n).symm, fun n => (same.unflushed n).symm,
    fun n => (same.pending n).symm⟩

theorem trans {h'' : Hierarchy cfg} (first : SameTally h h') (second : SameTally h' h'') :
    SameTally h h'' where
  total n := (second.total n).trans (first.total n)
  own n := (second.own n).trans (first.own n)
  unflushed n := (second.unflushed n).trans (first.unflushed n)
  pending n := (second.pending n).trans (first.pending n)

theorem of_books (books : SameBooks h h') : SameTally h h' where
  total := books.total
  own n := congrArg Counter.flushedTotal (books.counter n)
  unflushed n := congrArg Counter.unflushed (books.counter n)
  pending := books.pending

end SameTally

/-- A removal of the node `k` under `p` led from `h` to `after`, and a flush of `h` to `flushed`. -/
structure Transparent (h after flushed : Hierarchy cfg) (id : NodeId) (k p : Nat) : Prop
    extends SameTally flushed after where
  queued : ∀ n, (after.node n).queued = (flushed.node n).queued
  queues : after.queues = flushed.queues
  idle : ∀ c : Fin cfg.slots, after.queues[c] = ∅
  flushes : after.flushes = flushed.flushes
  inherited : ∀ n, n ≠ p → (after.node n).inherited = (flushed.node n).inherited
  heir : (after.node p).inherited.toNat =
    (flushed.node p).inherited.toNat + (after.node k).total.toNat
  index : after.index = h.index.erase id
  children : ∀ n, (after.node n).children =
    if n = p then (h.node p).children.erase id else (h.node n).children
  removed : ∀ n, (after.node n).removed = if n = k then true else (h.node n).removed

theorem Shaped.leaving (shaped : h.Shaped) (found : h.index[id]? = some k)
    (other : id ≠ NodeId.root) (childless : (h.node k).children = ∅) : ∃ p, Leaving h id k p := by
  obtain ⟨inside, named, _⟩ := shaped.indexed found
  cases up : (h.node k).parent with
  | none =>
    obtain rfl := shaped.topmost inside up
    exact absurd (named.symm.trans shaped.rooted.2.2.2) other
  | some p => exact ⟨p, found, up, childless⟩

theorem Leaving.same_shape (leaving : Leaving h id k p) (shape : SameShape h h') :
    Leaving h' id k p where
  found := by rw [shape.index, leaving.found]
  up := by rw [shape.parent, leaving.up]
  childless := by rw [shape.children, leaving.childless]

namespace Leaving

variable (leaving : Leaving h id k p) (shaped : h.Shaped)
include leaving shaped

theorem remove_eq : h.remove id = ((h.left id k p).flush.1, .ok ()) := by
  have run := detach_of_childless shaped leaving.found leaving.up leaving.childless
  simp only [remove, run, left]

theorem index : (h.left id k p).index = h.index.erase id := by
  rw [leaving.bequeath_eq shaped]
  rfl

theorem flushes : (h.left id k p).flushes = h.flushes := by
  rw [leaving.bequeath_eq shaped]
  rfl

theorem children (n : Nat) : ((h.left id k p).node n).children =
    if n = p then (h.node p).children.erase id else (h.node n).children := by
  have before := leaving.before
  rw [(leaving.shape shaped).children, node_apart leaving.inside before]
  split
  · rename_i same
    rw [if_neg (by omega), same]
  · split <;> rfl

variable {g' : Hierarchy cfg} {s s' : Schedule} {sum sum' : Summary}
  (stay : Progress h h.due g s sum)
  (leave : Progress (h.left id k p) (h.left id k p).due g' s' sum')
include stay leave

theorem same_counter (n : Nat) : (g'.node n).counter = (g.node n).counter := by
  rw [leave.counter, stay.counter, leaving.due shaped, (leaving.books shaped).counter]

variable (formed : h.WellFormed)
include formed

theorem same_total (n : Nat) : (g'.node n).total = (g.node n).total := by
  rw [leave.total, stay.total, leaving.due shaped, leaving.gain shaped formed,
    (leaving.books shaped).total]

theorem same_pending (n : Nat) : (g'.node n).pending = (g.node n).pending := by
  have passed : ∑ m ∈ (h.left id k p).dueUnder n, (h.left id k p).gain m =
      ∑ m ∈ h.dueUnder n, h.gain m := by
    rw [leaving.due_under shaped formed]
    exact Finset.sum_congr rfl fun m _ => leaving.gain shaped formed m
  rw [dueUnder, dueUnder] at passed
  rw [leave.pending, stay.pending, passed, leaving.due shaped, (leaving.books shaped).pending]

theorem same_tally : SameTally g g' where
  total := leaving.same_total shaped stay leave formed
  own n := congrArg Counter.flushedTotal (leaving.same_counter shaped stay leave n)
  unflushed n := congrArg Counter.unflushed (leaving.same_counter shaped stay leave n)
  pending := leaving.same_pending shaped stay leave formed

theorem same_queued (n : Nat) : (g'.node n).queued = (g.node n).queued := by
  have first := begins formed.tracked
  have second := begins (leaving.tracked shaped formed.tracked)
  rw [leave.under.queued, stay.under.queued]
  refine Vector.ext fun i bound => Bool.eq_iff_iff.mpr ?_
  refine (second.queued ⟨i, bound⟩ n).trans (Iff.trans ?_ (first.queued ⟨i, bound⟩ n).symm)
  rw [leaving.queued shaped, leaving.lists shaped]

theorem same_queues : g'.queues = g.queues := by
  refine Vector.ext fun i bound => ?_
  exact (leave.unlisted (leaving.tracked shaped formed.tracked) ⟨i, bound⟩).trans
    (stay.unlisted formed.tracked ⟨i, bound⟩).symm

theorem inherited_after (n : Nat) : (g'.node n).inherited =
    (g.node n).inherited + if n = p then (g'.node k).total else 0 := by
  have heirs := leaving.heirs shaped formed n
  have gains : ∀ m, (h.left id k p).gain m = h.gain m := leaving.gain shaped formed
  rw [leave.inherited, stay.inherited, leave.total, leaving.due shaped, leaving.inherited shaped,
    (leaving.books shaped).total]
  simp only [gains, heirs, UInt64.ofNat_add]
  by_cases at_p : n = p
  · subst at_p
    by_cases queued : k ∈ h.due
    · simp only [queued, and_self, if_true]
      ac_rfl
    · have none : UInt64.ofNat 0 = 0 := rfl
      simp only [queued, and_false, if_true, if_false, none, UInt64.add_zero]
      ac_rfl
  · simp [at_p]

end Leaving

theorem Leaving.transparent {m : Nat} (leaving : Leaving h id k p) (endowed : h.Endowed m)
    (formed : h.WellFormed) : ∃ after flushed sum, h.remove id = (after, .ok ()) ∧
      h.flush = (flushed, .ok sum) ∧ Transparent h after flushed id k p := by
  have shaped := endowed.shaped
  have endowed_left : (h.left id k p).Endowed m := endowed_custody.leave endowed leaving
  have formed_left := leaving.well_formed shaped formed
  obtain ⟨g, s, sum, flushed, stay, run, arena, index, queues, flushes⟩ :=
    flush_settles formed.tracked endowed.solvent.drainable endowed.gains_fit
  obtain ⟨g', s', sum', after, leave, run', arena', index', queues', flushes'⟩ :=
    flush_settles formed_left.tracked endowed_left.solvent.drainable endowed_left.gains_fit
  have node (n : Nat) : flushed.node n = g.node n := congrArg (fun a => Arena.node a n) arena
  have node' (n : Nat) : after.node n = g'.node n := congrArg (fun a => Arena.node a n) arena'
  have shape : SameShape h flushed :=
    ((begins formed.tracked).toSameShape.trans stay.under.shape).trans (.of_arena arena index)
  have shape' : SameShape (h.left id k p) after :=
    ((begins formed_left.tracked).toSameShape.trans leave.under.shape).trans
      (.of_arena arena' index')
  have removed := leaving.remove_eq shaped
  rw [run'] at removed
  refine ⟨after, flushed, sum, removed, run, ?_⟩
  have tally := leaving.same_tally shaped stay leave formed
  have inherited := leaving.inherited_after shaped stay leave formed
  constructor
  case toSameTally =>
    exact (SameTally.of_books (.of_arena arena index)).symm.trans
      (tally.trans (.of_books (.of_arena arena' index')))
  case queued =>
    intro n
    rw [node, node', leaving.same_queued shaped stay leave formed]
  case queues => rw [queues, queues', leaving.same_queues shaped stay leave formed]
  case idle =>
    intro c
    rw [queues']
    exact leave.unlisted formed_left.tracked c
  case flushes => rw [flushes, flushes', leaving.due shaped, leaving.flushes shaped]
  case inherited =>
    intro n other
    rw [node, node', inherited, if_neg other, UInt64.add_zero]
  case heir =>
    have endowed_flushed : h.flush.1.Endowed m := endowed.flush
    rw [run] at endowed_flushed
    have room := endowed_flushed.backed.leave_room endowed_flushed.solvent endowed_flushed.shaped
      (leaving.same_shape shape)
    simp only [Hierarchy.inherited, Hierarchy.total, node] at room
    rw [node, node', node', inherited, if_pos rfl, tally.total]
    exact word_add room
  case index => exact shape'.index.trans (leaving.index shaped)
  case children => exact fun n => (shape'.children n).trans (leaving.children shaped n)
  case removed => exact fun n => (shape'.removed n).trans (leaving.removed shaped n)

inductive Removals : Hierarchy cfg → List NodeId → Hierarchy cfg → Prop where
  | none {h : Hierarchy cfg} : Removals h [] h
  | more {h h' g : Hierarchy cfg} {id : NodeId} {ids : List NodeId}
      (first : h.remove id = (h', .ok ())) (rest : Removals h' ids g) : Removals h (id :: ids) g

theorem remove_succeeds (shaped : h.Shaped) (done : h.remove id = (h', .ok ())) :
    ∃ k p, Leaving h id k p := by
  rcases remove_cases shaped id with ⟨fault, run⟩ | ⟨k, p, leaving, _⟩
  · exact absurd (Prod.mk.inj (done.symm.trans run)).2 (by simp)
  · exact ⟨k, p, leaving⟩

theorem Endowed.removed {m : Nat} (endowed : h.Endowed m) (done : h.remove id = (h', .ok ())) :
    h'.Endowed m := by
  obtain ⟨k, p, leaving⟩ := remove_succeeds endowed.shaped done
  rw [(Prod.mk.inj (done.symm.trans (leaving.remove_eq endowed.shaped))).1]
  exact (endowed_custody.leave endowed leaving).flush

theorem Leaving.remove_idle (leaving : Leaving h id k p) (shaped : h.Shaped)
    (idle : ∀ c : Fin cfg.slots, h.queues[c] = ∅) : h.remove id = (h.left id k p, .ok ()) := by
  have unlisted : ∀ c : Fin cfg.slots, (h.left id k p).queues[c] = ∅ := by
    rw [leaving.queues shaped]
    exact idle
  rw [leaving.remove_eq shaped, flush_of_unlisted unlisted]

theorem Removals.tally_of_idle {ids : List NodeId} (removals : Removals h ids g)
    (shaped : h.Shaped) (idle : ∀ c : Fin cfg.slots, h.queues[c] = ∅) : SameTally h g := by
  induction removals with
  | none => exact .refl _
  | more first _ ih =>
    obtain ⟨k, p, leaving⟩ := remove_succeeds shaped first
    have run := leaving.remove_idle shaped idle
    obtain rfl := (Prod.mk.inj (first.symm.trans run)).1
    have shaped_left := (shaped.apart leaving.found leaving.up leaving.childless).of_same
      (leaving.shape shaped)
    have rest := ih shaped_left fun c => by
      rw [leaving.queues shaped]
      exact idle c
    exact (SameTally.of_books (leaving.books shaped)).trans rest

theorem Removals.tally {m : Nat} {ids : List NodeId} {flushed : Hierarchy cfg} {sum : Summary}
    (removals : Removals h ids g) (some : ids ≠ []) (endowed : h.Endowed m) (formed : h.WellFormed)
    (run : h.flush = (flushed, .ok sum)) : SameTally flushed g := by
  cases removals with
  | none => exact absurd rfl some
  | more first rest =>
    obtain ⟨k, p, leaving⟩ := remove_succeeds endowed.shaped first
    obtain ⟨after, flushed', sum', removed, run', transparent⟩ :=
      leaving.transparent endowed formed
    obtain rfl := (Prod.mk.inj (first.symm.trans removed)).1
    obtain rfl := (Prod.mk.inj (run.symm.trans run')).1
    exact transparent.toSameTally.trans (rest.tally_of_idle (endowed.removed first).shaped
      transparent.idle)

end Hierarchy

namespace Session

open Hierarchy

/-- In any state of a session whose events fit a word, with distinct ids and lists in order, a
    removal leaves every node as a flush would have left it. Only the parent has inherited more, by
    the final total of the node that is gone. So removals one after another, in whatever order they
    are possible, leave the totals of one flush. -/
theorem removals_are_transparent (cfg : Config) (steps : List Step)
    (fits : (start cfg).given steps < UInt64.size) :
    let h := ((start cfg).run steps).hierarchy
    h.LiveDistinct →
    (∀ (c : Fin cfg.slots) k, k < h.arena.size → h.isAlive k = true →
      ((h.node k).queued[c] = true ↔ h.lists c k)) →
    (∀ (c : Fin cfg.slots) k p, h.lists c k → h.parent? k = some p → h.lists c p) →
      (∀ id k, h.index[id]? = some k → id ≠ NodeId.root → (h.node k).children = ∅ →
        ∃ p after flushed sum, (h.node k).parent = some p ∧ h.remove id = (after, .ok ()) ∧
          h.flush = (flushed, .ok sum) ∧ Transparent h after flushed id k p) ∧
      (∃ flushed sum, h.flush = (flushed, .ok sum) ∧
        ∀ ids g, ids ≠ [] → Removals h ids g → SameTally flushed g) ∧
      ∀ ids ids' g g', ids.Perm ids' → Removals h ids g → Removals h ids' g' → SameTally g g' := by
  intro h distinct flagged closed
  have begins : Healthy (Endowed ((start cfg).given (steps ++ []))) (start cfg) :=
    ⟨.start cfg (by rwa [List.append_nil]), Referenced.start cfg⟩
  have endowed : h.Endowed 0 := (run_endowed begins).kept
  have formed : h.WellFormed :=
    { keyed := fun found => ⟨(endowed.filed.keyed found).1, (endowed.filed.keyed found).2.1⟩
      distinct := fun hj hk alive_j alive_k same => distinct _ _ hj hk alive_j alive_k same
      flagged := fun inside alive => flagged _ _ inside alive
      closed := fun listed up => closed _ _ _ listed up }
  obtain ⟨flushed, sum, run⟩ := endowed.flush_ok
  refine ⟨fun id k found other childless => ?_, ⟨flushed, sum, run, ?_⟩, ?_⟩
  · obtain ⟨p, leaving⟩ := endowed.shaped.leaving found other childless
    obtain ⟨after, flushed, sum, removed, run, transparent⟩ := leaving.transparent endowed formed
    exact ⟨p, after, flushed, sum, leaving.up, removed, run, transparent⟩
  · intro ids g some removals
    exact removals.tally some endowed formed run
  · intro ids ids' g g' same first second
    cases ids with
    | nil =>
      obtain rfl := List.nil_perm.mp same
      cases first
      cases second
      exact .refl _
    | cons id rest =>
      have some : ids' ≠ [] := fun none => by simp [none] at same
      exact (first.tally (by simp) endowed formed run).symm.trans
        (second.tally some endowed formed run)

def cascadeSteps : List Step :=
  [.create NodeId.root "job", .create ⟨2⟩ "task", .create ⟨2⟩ "other", .add ⟨3⟩ ⟨0⟩ 5,
    .add ⟨4⟩ ⟨1⟩ 3, .create ⟨3⟩ "child", .add ⟨5⟩ ⟨0⟩ 4, .remove ⟨5⟩, .add ⟨3⟩ ⟨1⟩ 7]

theorem removals_are_transparent_in_cascade :
    let h := ((start ⟨2⟩).run cascadeSteps).hierarchy
    (∃ p after flushed sum, (h.node 2).parent = some p ∧ h.remove ⟨3⟩ = (after, .ok ()) ∧
      h.flush = (flushed, .ok sum) ∧ Transparent h after flushed ⟨3⟩ 2 p ∧ sum.nodes = 3) ∧
    ∃ g g', Removals h [⟨3⟩, ⟨4⟩, ⟨2⟩] g ∧ Removals h [⟨4⟩, ⟨3⟩, ⟨2⟩] g' ∧ SameTally g g' ∧
      (g.node 0).total = 19 := by
  intro h
  have distinct : h.Distinct := by decide +kernel
  have tracked : h.Tracked := (run_in_order ⟨2⟩ cascadeSteps fun _ _ parted =>
    (distinct_all_along distinct parted).live).tracked
  obtain ⟨one, _, orders⟩ := removals_are_transparent ⟨2⟩ cascadeSteps (by decide +kernel)
    distinct.live (fun c k inside alive => ⟨tracked.flagged inside alive, tracked.queued⟩)
    fun c k p => tracked.closed
  have leaf : (h.node 2).children = ∅ :=
    Std.ExtTreeMap.eq_empty_iff_size_eq_zero.mpr (by decide +kernel)
  have done (g : Hierarchy ⟨2⟩) (id : NodeId) (ok : (g.remove id).2 = .ok ()) :
      g.remove id = ((g.remove id).1, .ok ()) := by
    rw [← ok]
  have first : Removals h [⟨3⟩, ⟨4⟩, ⟨2⟩] _ :=
    .more (done _ _ (by decide +kernel)) (.more (done _ _ (by decide +kernel))
      (.more (done _ _ (by decide +kernel)) .none))
  have second : Removals h [⟨4⟩, ⟨3⟩, ⟨2⟩] _ :=
    .more (done _ _ (by decide +kernel)) (.more (done _ _ (by decide +kernel))
      (.more (done _ _ (by decide +kernel)) .none))
  obtain ⟨p, after, flushed, sum, up, removed, run, transparent⟩ :=
    one ⟨3⟩ 2 (by decide +kernel) (by decide) leaf
  have nodes : h.flush.2 = .ok sum := congrArg Prod.snd run
  have three : h.flush.2.map Summary.nodes = .ok 3 := by decide +kernel
  refine ⟨⟨p, after, flushed, sum, up, removed, run, transparent, ?_⟩, _, _, first, second,
    orders _ _ _ _ (by decide) first second, by decide +kernel⟩
  rw [nodes] at three
  exact Except.ok.inj three

end Session

end Rollup
