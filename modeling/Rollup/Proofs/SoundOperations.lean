import Mathlib
import Rollup.Layout
import Rollup.Proofs.WholeFlush

/-!
Operations keep a hierarchy sound: its tree, its lists and its books are in order, and nothing is
on its way up. There is one lemma for each thing that an operation can do: a node is added, one is
taken out and its total left to its parent, events are counted, a node is marked, lists are taken,
references come and go. A flush of a sound state succeeds.

Every way to create nodes comes down to adding them one by one. `build_keeps` and the lemmas before
it say so for any property that adding a node keeps.
-/
namespace Rollup

namespace Hierarchy

variable {cfg : Config} {h h' : Hierarchy cfg}

structure Sound (h : Hierarchy cfg) : Prop where
  shaped : h.Shaped
  tracked : h.Tracked
  solvent : h.Solvent
  quiet : h.Quiet

theorem Tracked.start (cfg : Config) : (Hierarchy.new cfg).Tracked := by
  have empty (c : Fin cfg.slots) : (Hierarchy.new cfg).queues[c] = ∅ := by simp [Hierarchy.new]
  have unlisted {c : Fin cfg.slots} {k : Nat} : ¬ (Hierarchy.new cfg).lists c k := by
    intro listed
    rw [lists, empty] at listed
    exact absurd listed (by simp)
  constructor
  case keyed =>
    intro c id k found
    rw [empty] at found
    exact absurd found (by simp)
  case flagged =>
    intro c k inside _ flag
    have only : k = 0 := Nat.lt_one_iff.mp inside
    subst only
    have clear : ((Hierarchy.new cfg).node 0).queued = Vector.replicate cfg.slots false := rfl
    rw [clear] at flag
    exact absurd flag (by simp)
  case closed =>
    intro c k p listed _
    exact absurd listed unlisted
  case distinct =>
    intro c d j k listed _ _
    exact absurd listed unlisted

theorem new_counter (cfg : Config) (k : Nat) :
    ((Hierarchy.new cfg).node k).counter = .zero cfg.slots := by
  by_cases root : k = 0
  · subst root
    rfl
  · rw [node_outside (Nat.one_le_iff_ne_zero.mpr root)]
    rfl

theorem new_total (cfg : Config) (k : Nat) : (Hierarchy.new cfg).total k = 0 := by
  by_cases root : k = 0
  · subst root
    rfl
  · exact total_outside (Nat.one_le_iff_ne_zero.mpr root)

theorem new_pending (cfg : Config) (k : Nat) : (Hierarchy.new cfg).pending k = 0 := by
  by_cases root : k = 0
  · subst root
    rfl
  · exact pending_outside (Nat.one_le_iff_ne_zero.mpr root)

theorem new_recordings (cfg : Config) : (Hierarchy.new cfg).recordings = 0 := by
  apply Finset.sum_eq_zero
  intro k _
  rw [recorded, new_counter]
  exact Counter.amount_zero rfl

theorem Sound.start (cfg : Config) : (Hierarchy.new cfg).Sound := by
  refine ⟨Shaped.start cfg, Tracked.start cfg, ⟨fun k => ?_, ?_, fun n _ => ?_⟩, new_pending cfg⟩
  · rw [new_counter]
    exact Counter.zero_ordered
  · rw [new_recordings]
    decide
  · rw [new_total, sum_below_zero (new_pending cfg)]
    exact Nat.zero_le _

structure Vacancy (h : Hierarchy cfg) (id : NodeId) (p : Nat) (name : String) : Prop where
  inside : p < h.arena.size
  live : (h.node p).removed = false
  free : h.index[id]? = none
  vacant : h.childNamed p name = none

/-- Where the search for free ids goes on once a node has this id, which was free or chosen. -/
inductive Allots (h : Hierarchy cfg) (id : NodeId) : UInt64 → Prop where
  | found (free : h.freeId = some id.val) : Allots h id (id.val + 1)
  | chosen : Allots h id (max h.nextId (idAfter id))

section
variable {id : NodeId} {p : Nat} {name : String}

theorem Tracked.attach (tracked : h.Tracked) (inside : p < h.arena.size) (next : UInt64) :
    Tracked { h.attach id p name with nextId := next } := by
  apply tracked.carry
  case queues => rfl
  case grown => exact (attach_books inside).grown
  case identity =>
    intro k old
    exact attach_identity inside (Nat.ne_of_lt old)
  case queued => exact attach_queued inside
  case removed =>
    intro k _ live
    exact (attach_removed inside k).symm.trans live
  case holds =>
    intro k _ held
    exact alive_of_held held

theorem attach_lists (filed : h.Filed) (inside : p < h.arena.size) {c : Fin cfg.slots} {k : Nat} :
    (h.attach id p name).lists c k ↔ h.lists c k := by
  have same_id (old : k < h.arena.size) : ((h.attach id p name).node k).id = (h.node k).id :=
    congrArg Identity.id (attach_identity inside (Nat.ne_of_lt old))
  constructor
  · intro listed
    have entry : h.queues[c][((h.attach id p name).node k).id]? = some k := listed
    rw [lists, same_id (filed.keyed entry).1] at listed
    exact listed
  · intro listed
    rw [lists, same_id (filed.inside listed)]
    exact listed

theorem Vacancy.books (place : Vacancy h id p name) (next : UInt64) :
    SameBooks h { h.attach id p name with nextId := next } := by
  have books : SameBooks h (h.attach id p name) := attach_books place.inside
  exact ⟨books.grown, books.parent, books.counter, books.total, books.pending⟩

theorem Sound.attach (sound : h.Sound) (place : Vacancy h id p name) (next : UInt64) :
    Sound { h.attach id p name with nextId := next } := by
  have books := place.books next
  have shaped := sound.shaped.attach place.inside place.live place.free place.vacant
  exact {
    shaped := shaped.of_same (.of_arena rfl rfl)
    tracked := sound.tracked.attach place.inside next
    solvent := books.solvent sound.solvent
    quiet := books.quiet sound.quiet }

end

theorem free_from_free {index : IdMap Nat} {tries : Nat} {next id : UInt64}
    (found : freeFrom index tries next = some id) : index[(⟨id⟩ : NodeId)]? = none := by
  induction tries generalizing next with
  | zero =>
    unfold freeFrom at found
    split at found
    · exact absurd found (by simp)
    · rename_i absent
      rw [← Option.some.inj found]
      simpa using absent
  | succ tries ih =>
    unfold freeFrom at found
    split at found
    · exact ih found
    · rename_i absent
      rw [← Option.some.inj found]
      simpa using absent

theorem vacant_parent_ok (shaped : h.Shaped) {parent : NodeId} {name : String} {p : Nat}
    (ok : h.vacantParent parent name = .ok p) :
    p < h.arena.size ∧ (h.node p).removed = false ∧ h.childNamed p name = none := by
  unfold vacantParent at ok
  split at ok
  · exact absurd ok (by simp)
  · rename_i q found
    split at ok
    · exact absurd ok (by simp)
    · rename_i vacant
      obtain rfl := Except.ok.inj ok
      obtain ⟨inside, _, live⟩ := shaped.indexed found
      exact ⟨inside, live, vacant⟩

section
variable {P : Hierarchy cfg → Prop} (shaped : ∀ {h}, P h → h.Shaped)
  (attach : ∀ {h : Hierarchy cfg} {id p name} (next : UInt64), P h → Vacancy h id p name →
    Allots h id next → P { h.attach id p name with nextId := next })
include shaped attach

theorem create_keeps (before : P h) (parent : NodeId) (name : String) :
    P (h.create parent name).1 := by
  unfold create
  split
  · exact before
  · rename_i p ok
    split
    · exact before
    · rename_i id found
      obtain ⟨inside, live, vacant⟩ := vacant_parent_ok (shaped before) ok
      exact attach _ before ⟨inside, live, free_from_free found, vacant⟩ (.found found)

theorem create_with_id_keeps (before : P h) (id parent : NodeId) (name : String) :
    P (h.createWithId id parent name).1 := by
  unfold createWithId
  split
  · exact before
  · rename_i absent
    split
    · exact before
    · rename_i p ok
      obtain ⟨inside, live, vacant⟩ := vacant_parent_ok (shaped before) ok
      exact attach _ before ⟨inside, live, by simpa using absent, vacant⟩ .chosen

theorem create_path_keeps (before : P h) (path : String) : P (h.createPath path).1 := by
  unfold createPath
  split
  · exact before
  · rename_i parentPath name _
    split
    · exact before
    · rename_i p _
      have created := create_keeps shaped attach before (h.node p).id name
      split
      · rename_i after id run
        rw [run] at created
        exact created
      · rename_i after fault run
        rw [run] at created
        exact created

theorem create_all_keeps (before : P h) (paths : List String) :
    P (Layout.createAll h paths).1 := by
  induction paths generalizing h with
  | nil => exact before
  | cons path rest ih =>
    have created := create_path_keeps shaped attach before path
    unfold Layout.createAll
    split
    · rename_i after fault run
      rw [run] at created
      exact created
    · rename_i after id run
      rw [run] at created
      have later := ih created
      split
      · rename_i last fault rest_run
        rw [rest_run] at later
        exact later
      · rename_i last ids rest_run
        rw [rest_run] at later
        exact later

theorem build_keeps (before : P h) (layout : Layout) : P (layout.build h).1 := by
  unfold Layout.build
  split
  · exact before
  · have created := create_all_keeps shaped attach before layout.nodes
    split
    · rename_i after fault run
      rw [run] at created
      exact created
    · rename_i after ids run
      rw [run] at created
      exact created

end

def left (h : Hierarchy cfg) (id : NodeId) (k p : Nat) : Hierarchy cfg :=
  (h.apart id k p).bequeath k

structure Leaving (h : Hierarchy cfg) (id : NodeId) (k p : Nat) : Prop where
  found : h.index[id]? = some k
  up : (h.node k).parent = some p
  childless : (h.node k).children = ∅

theorem remove_cases (shaped : h.Shaped) (id : NodeId) :
    (∃ fault, h.remove id = (h, .error fault)) ∨
      ∃ k p, Leaving h id k p ∧ h.detach id = (h.apart id k p, .ok k) ∧
        h.remove id = ((h.left id k p).flush.1, .ok ()) := by
  rcases detach_cases shaped id with ⟨fault, run⟩ | ⟨k, p, run, found, up, childless⟩
  · exact Or.inl ⟨fault, by simp only [remove, run]⟩
  · exact Or.inr ⟨k, p, ⟨found, up, childless⟩, run, by simp only [remove, run, left]⟩

namespace Leaving

variable {id : NodeId} {k p : Nat}

theorem inside (leaving : Leaving h id k p) : k < h.arena.size := parent_inside leaving.up

theorem before (leaving : Leaving h id k p) : p < k := Arena.parent_before leaving.up

theorem live (leaving : Leaving h id k p) (shaped : h.Shaped) : (h.node k).removed = false :=
  (shaped.indexed leaving.found).2.2

theorem parent_live (leaving : Leaving h id k p) (shaped : h.Shaped) :
    (h.node p).removed = false :=
  shaped.upward (leaving.live shaped) leaving.up

theorem no_child (leaving : Leaving h id k p) (shaped : h.Shaped) {c : Nat}
    (live : (h.node c).removed = false) : (h.node c).parent ≠ some k := by
  intro link
  have child := (shaped.downward leaving.inside).mpr ⟨parent_inside link, live, link, rfl⟩
  rw [leaving.childless] at child
  exact absurd child (by simp)

theorem bequeath_eq (leaving : Leaving h id k p) (shaped : h.Shaped) :
    h.left id k p = (h.apart id k p).update p fun s =>
      { s with inherited := s.inherited + (h.node k).total } := by
  have total : ((h.apart id k p).node k).total = (h.node k).total :=
    (apart_counts leaving.inside leaving.before).total k
  have link : ((h.apart id k p).node k).parent = some p :=
    (congrArg Identity.parent (apart_identity leaving.inside leaving.before k)).trans leaving.up
  have alive : (h.apart id k p).isAlive p = true := by
    refine alive_of_live ?_
    rw [apart_removed leaving.inside leaving.before, if_neg (Nat.ne_of_lt leaving.before)]
    exact leaving.parent_live shaped
  have up : (h.apart id k p).parent? k = some p := parent_eq_some.mpr ⟨link, alive⟩
  simp only [left, bequeath, up, total]

theorem shape (leaving : Leaving h id k p) (shaped : h.Shaped) :
    SameShape (h.apart id k p) (h.left id k p) := by
  rw [leaving.bequeath_eq shaped]
  exact same_shape_update (fun _ => rfl) (fun _ => rfl)

theorem removed (leaving : Leaving h id k p) (shaped : h.Shaped) (j : Nat) :
    ((h.left id k p).node j).removed = if j = k then true else (h.node j).removed :=
  ((leaving.shape shaped).removed j).trans (apart_removed leaving.inside leaving.before j)

theorem identity (leaving : Leaving h id k p) (shaped : h.Shaped) (j : Nat) :
    ((h.left id k p).node j).toIdentity = (h.node j).toIdentity :=
  ((leaving.shape shaped).identity j).trans (apart_identity leaving.inside leaving.before j)

theorem size (leaving : Leaving h id k p) (shaped : h.Shaped) :
    (h.left id k p).arena.size = h.arena.size :=
  (leaving.shape shaped).size.trans size_apart

theorem queued (leaving : Leaving h id k p) (shaped : h.Shaped) (j : Nat) :
    ((h.left id k p).node j).queued = (h.node j).queued := by
  have first : ((h.apart id k p).node j).queued = (h.node j).queued :=
    apart_queued leaving.inside leaving.before j
  rw [← first, leaving.bequeath_eq shaped, node_update]
  split <;> rfl

theorem queues (leaving : Leaving h id k p) (shaped : h.Shaped) :
    (h.left id k p).queues = h.queues := by
  rw [leaving.bequeath_eq shaped]
  rfl

theorem holds (leaving : Leaving h id k p) (shaped : h.Shaped) :
    (h.left id k p).holds = h.holds := by
  rw [leaving.bequeath_eq shaped]
  rfl

theorem books (leaving : Leaving h id k p) (shaped : h.Shaped) : SameBooks h (h.left id k p) := by
  have first : SameBooks h (h.apart id k p) := apart_books leaving.inside leaving.before
  have node (j : Nat) := node_update (h.apart id k p) p
    (fun s => { s with inherited := s.inherited + (h.node k).total }) j
  rw [← leaving.bequeath_eq shaped] at node
  refine ⟨Nat.le_of_eq (leaving.size shaped).symm,
    fun {j} _ => congrArg Identity.parent (leaving.identity shaped j), fun j => ?_, fun j => ?_,
    fun j => ?_⟩
  · rw [← first.counter, node]
    split <;> rfl
  · rw [← first.total, node]
    split <;> rfl
  · rw [← first.pending, node]
    split <;> rfl

theorem inherited (leaving : Leaving h id k p) (shaped : h.Shaped) (j : Nat) :
    ((h.left id k p).node j).inherited =
      if j = p then (h.node p).inherited + (h.node k).total else (h.node j).inherited := by
  have same (j : Nat) : ((h.apart id k p).node j).inherited = (h.node j).inherited :=
    (apart_counts leaving.inside leaving.before).inherited j
  have inside : p < (h.apart id k p).arena.size := by
    rw [size_apart]
    exact Nat.lt_trans leaving.before leaving.inside
  rw [leaving.bequeath_eq shaped, node_update]
  by_cases at_p : p = j
  · subst at_p
    simp [inside, same]
  · simp [at_p, Ne.symm at_p, same]

theorem lists (leaving : Leaving h id k p) (shaped : h.Shaped) (c : Fin cfg.slots) (j : Nat) :
    (h.left id k p).lists c j ↔ h.lists c j := by
  rw [Hierarchy.lists, Hierarchy.lists, leaving.queues shaped,
    congrArg Identity.id (leaving.identity shaped j)]

theorem apart_tracked (leaving : Leaving h id k p) (tracked : h.Tracked) :
    (h.apart id k p).Tracked := by
  apply tracked.carry
  case queues => rfl
  case grown => exact Nat.le_of_eq size_apart.symm
  case identity =>
    intro j _
    exact apart_identity leaving.inside leaving.before j
  case queued => exact apart_queued leaving.inside leaving.before
  case removed =>
    intro j _ live
    rw [apart_removed leaving.inside leaving.before] at live
    split at live
    · exact absurd live (by simp)
    · exact live
  case holds =>
    intro j _ held
    exact alive_of_held held

theorem tracked (leaving : Leaving h id k p) (shaped : h.Shaped) (tracked : h.Tracked) :
    (h.left id k p).Tracked := by
  rw [leaving.bequeath_eq shaped]
  exact (leaving.apart_tracked tracked).update (fun _ => rfl) (fun _ => rfl) fun _ => rfl

theorem sound (leaving : Leaving h id k p) (sound : h.Sound) : (h.left id k p).Sound where
  shaped := (sound.shaped.apart leaving.found leaving.up leaving.childless).of_same
    (leaving.shape sound.shaped)
  tracked := leaving.tracked sound.shaped sound.tracked
  solvent := (leaving.books sound.shaped).solvent sound.solvent
  quiet := (leaving.books sound.shaped).quiet sound.quiet

end Leaving

theorem record_of_live {k : Nat} (live : (h.node k).removed = false) (cpu : Cpu) (delta : UInt64) :
    h.record k cpu delta = (h.count k cpu delta).mark k cpu := by
  simp [record, live]

namespace Sound

variable {k : Nat}

theorem counted (sound : h.Sound) {delta : UInt64} (inside : k < h.arena.size)
    (fits : h.recordings + delta.toNat < UInt64.size) (cpu : Cpu) :
    (h.count k cpu delta).Sound := by
  have counted := sound.solvent.counted inside fits cpu
  refine ⟨sound.shaped.of_same counted.toSameShape, ?_,
    counted.solvent inside sound.solvent fits, counted.quiet sound.quiet⟩
  exact sound.tracked.stay counted.toSameShape rfl counted.queued fun _ held => alive_of_held held

theorem marked (sound : h.Sound) (inside : k < h.arena.size) (alive : h.isAlive k = true)
    (apart : h.ChainDistinct k) (cpu : Cpu) : (h.mark k cpu).Sound := by
  have after := mark_enqueues sound.tracked inside alive apart cpu
  have books := after.toOnlyLists.books
  exact ⟨sound.shaped.of_same after.toSameShape, sound.tracked.mark inside alive apart cpu,
    books.solvent sound.solvent, books.quiet sound.quiet⟩

theorem taken_holding (sound : h.Sound) {cs : List (Fin cfg.slots)} {ks holds : List Nat}
    (taken : Taken h h' cs ks) (held : ∀ k ∈ holds, h.isAlive k = true) :
    Sound { h' with holds := holds } := by
  have first := taken.toOnlyLists.books
  have second : SameBooks h' { h' with holds := holds } := .of_arena rfl rfl
  have shape : SameShape h { h' with holds := holds } :=
    ⟨taken.size, taken.index, taken.identity, taken.removed, taken.children⟩
  exact ⟨sound.shaped.of_same shape, sound.tracked.taken_holding taken held,
    second.solvent (first.solvent sound.solvent), second.quiet (first.quiet sound.quiet)⟩

theorem holding (sound : h.Sound) {holds : List Nat} (held : ∀ k ∈ holds, h.isAlive k = true) :
    Sound { h with holds := holds } :=
  sound.taken_holding (Taken.none h) held

theorem flushes (sound : h.Sound) :
    ∃ after sum, h.flush = (after, .ok sum) ∧ Flushed h after ∧ after.Sound := by
  obtain ⟨after, sum, run, flushed⟩ := flush_ok sound.tracked sound.solvent sound.quiet
  exact ⟨after, sum, run, flushed,
    ⟨sound.shaped.of_same flushed.toSameShape, flushed.tracked, flushed.solvent, flushed.quiet⟩⟩

end Sound

end Hierarchy

end Rollup
