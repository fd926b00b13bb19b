import Mathlib
import Rollup.Proofs.AlikeStates

/-!
Operations on states that differ in their slots only. Creating, recording, flushing and removing
lead from alike states to alike states with the same answers, whichever CPUs the events are counted
on. Recording lists the lineage of a node on one list or another, and a flush asks only which nodes
are listed at all: both schedules are the one of these nodes, and both flushes settle the same node
with the same gain in every round.
-/
namespace Rollup

namespace Hierarchy

variable {cfg cfg' : Config} {h : Hierarchy cfg} {g : Hierarchy cfg'}

structure Agree {α : Type} (x : Hierarchy cfg × α) (y : Hierarchy cfg' × α) : Prop where
  alike : Alike x.1 y.1
  answer : y.2 = x.2

theorem Agree.parts {α : Type} {x : Hierarchy cfg × α} {y : Hierarchy cfg' × α}
    (agree : Agree x y) : ∃ h g a, x = (h, a) ∧ y = (g, a) ∧ Alike h g :=
  ⟨x.1, y.1, x.2, rfl, Prod.ext rfl agree.answer, agree.alike⟩

/-- Alike states in which nothing recorded is lost. -/
structure Twins (h : Hierarchy cfg) (g : Hierarchy cfg') : Prop where
  alike : Alike h g
  left : h.Kept
  right : g.Kept

section
variable {id : NodeId} {p : Nat} {name : String}

theorem Alike.attaches (alike : Alike h g) (filed : h.Filed) (filed' : g.Filed)
    (inside : p < h.arena.size) (next : UInt64) :
    Alike { h.attach id p name with nextId := next } { g.attach id p name with nextId := next } := by
  have inside' : p < g.arena.size := alike.size.symm ▸ inside
  have left : SameCounts h (h.attach id p name) := attach_counts inside
  have right : SameCounts g (g.attach id p name) := attach_counts inside'
  constructor
  case size =>
    change (g.attach id p name).arena.size = (h.attach id p name).arena.size
    rw [size_attach, size_attach, alike.size]
  case index =>
    change g.index.insert id g.arena.size = h.index.insert id h.arena.size
    rw [alike.index, alike.size]
  case nextId => rfl
  case flushes => exact alike.flushes
  case holds => exact alike.holds
  case identity =>
    intro k
    change ((g.attach id p name).node k).toIdentity = ((h.attach id p name).node k).toIdentity
    by_cases new : k = h.arena.size
    · have depth : (g.arena.node p).depth = (h.arena.node p).depth := alike.depth p
      have link : h.arena.link (some p) = some p := by simpa [Arena.link] using inside
      have link' : g.arena.link (some p) = some p := by simpa [Arena.link] using inside'
      have newborn : (g.arena.newborn id name (some p)).toIdentity =
          (h.arena.newborn id name (some p)).toIdentity := by
        simp only [Arena.newborn, link, link', depth]
      rw [node_attach inside', node_attach inside, if_pos (new.trans alike.size.symm), if_pos new,
        newborn]
    · rw [attach_identity inside new, attach_identity inside' (alike.size.symm ▸ new),
        alike.identity]
  case removed =>
    intro k
    exact (attach_removed inside' k).trans ((alike.removed k).trans (attach_removed inside k).symm)
  case children =>
    intro k
    change ((g.attach id p name).node k).children = ((h.attach id p name).node k).children
    rw [node_attach inside', node_attach inside, alike.size]
    split
    · rfl
    · split
      · rw [alike.children]
      · exact alike.children k
  case total =>
    intro k
    exact (right.total k).trans ((alike.total k).trans (left.total k).symm)
  case pending =>
    intro k
    exact (right.pending k).trans ((alike.pending k).trans (left.pending k).symm)
  case inherited =>
    intro k
    exact (right.inherited k).trans ((alike.inherited k).trans (left.inherited k).symm)
  case recorded =>
    intro k
    exact (congrArg Counter.recorded (right.counter k)).trans
      ((alike.recorded k).trans (congrArg Counter.recorded (left.counter k)).symm)
  case drained =>
    intro k
    exact (congrArg Counter.drained (right.counter k)).trans
      ((alike.drained k).trans (congrArg Counter.drained (left.counter k)).symm)
  case listed =>
    intro k
    change (∃ c, (g.attach id p name).lists c k) ↔ ∃ c, (h.attach id p name).lists c k
    simp only [attach_lists filed inside, attach_lists filed' inside', alike.listed]

end

namespace Twins

variable (twins : Twins h g)
include twins

theorem creates (parent : NodeId) (name : String) :
    Agree (h.create parent name) (g.create parent name) := by
  have alike := twins.alike
  unfold create
  rw [alike.vacant_parent, alike.free_id, alike.nextId]
  split
  · exact ⟨alike, rfl⟩
  · rename_i p ok
    split
    · exact ⟨alike, rfl⟩
    · have inside := (vacant_parent_ok twins.left.shaped ok).1
      exact ⟨alike.attaches twins.left.tracked.filed twins.right.tracked.filed inside _, rfl⟩

theorem creates_with_id (id parent : NodeId) (name : String) :
    Agree (h.createWithId id parent name) (g.createWithId id parent name) := by
  have alike := twins.alike
  unfold createWithId
  rw [alike.vacant_parent, alike.index, alike.nextId]
  split
  · exact ⟨alike, rfl⟩
  · split
    · exact ⟨alike, rfl⟩
    · rename_i p ok
      have inside := (vacant_parent_ok twins.left.shaped ok).1
      exact ⟨alike.attaches twins.left.tracked.filed twins.right.tracked.filed inside _, rfl⟩

theorem creates_path (path : String) : Agree (h.createPath path) (g.createPath path) := by
  have alike := twins.alike
  unfold createPath
  split
  · exact ⟨alike, rfl⟩
  · rename_i parentPath name _
    rw [alike.lookup]
    split
    · exact ⟨alike, rfl⟩
    · rename_i p _
      obtain ⟨h', g', result, left, right, after⟩ := (twins.creates (h.node p).id name).parts
      rw [alike.id, left, right]
      cases result <;> exact ⟨after, rfl⟩

theorem created_path (path : String) : Twins (h.createPath path).1 (g.createPath path).1 where
  alike := (twins.creates_path path).alike
  left := create_path_keeps (fun kept => kept.shaped)
    (fun next kept place _ => kept.attach place next) twins.left path
  right := create_path_keeps (fun kept => kept.shaped)
    (fun next kept place _ => kept.attach place next) twins.right path

theorem creates_all (paths : List String) :
    Agree (Layout.createAll h paths) (Layout.createAll g paths) := by
  induction paths generalizing h g with
  | nil => exact ⟨twins.alike, rfl⟩
  | cons path rest ih =>
    have later := ih (twins.created_path path)
    unfold Layout.createAll
    obtain ⟨h', g', result, left, right, first⟩ := (twins.creates_path path).parts
    rw [left, right] at later ⊢
    cases result with
    | error fault => exact ⟨first, rfl⟩
    | ok id =>
      obtain ⟨h₂, g₂, ids, more, more', after⟩ := later.parts
      simp only at more more'
      simp only [more, more']
      cases ids <;> exact ⟨after, rfl⟩

theorem builds (layout : Layout) : Agree (layout.build h) (layout.build g) := by
  unfold Layout.build
  split
  · exact ⟨twins.alike, rfl⟩
  · obtain ⟨h', g', ids, left, right, after⟩ := (twins.creates_all layout.nodes).parts
    rw [left, right]
    cases ids <;> exact ⟨after, rfl⟩

end Twins

theorem Alike.recordings (alike : Alike h g) : g.recordings = h.recordings := by
  rw [Hierarchy.recordings, Hierarchy.recordings, alike.size]
  exact Finset.sum_congr rfl fun k _ => alike.recorded k

section
variable {k : Nat} {delta : UInt64}

/-- Besides what was listed before, recording an event lists the lineage of its node. -/
theorem Kept.listed_of_record (kept : h.Kept) (inside : k < h.arena.size)
    (live : (h.node k).removed = false) (fits : h.recordings + delta.toNat < UInt64.size)
    (cpu : Cpu) (j : Nat) :
    (∃ c, (h.record k cpu delta).lists c j) ↔ (∃ c, h.lists c j) ∨ j ∈ h.lineage k := by
  have marked := kept.record_enqueues inside live fits cpu
  simp only [marked.lists, lists_count]
  constructor
  · rintro ⟨c, old | ⟨_, member⟩⟩
    · exact Or.inl ⟨c, old⟩
    · exact Or.inr member
  · rintro (⟨c, old⟩ | member)
    · exact ⟨c, Or.inl old⟩
    · exact ⟨cfg.slot cpu, Or.inr ⟨rfl, member⟩⟩

theorem Twins.records (twins : Twins h g) (inside : k < h.arena.size)
    (fits : h.recordings + delta.toNat < UInt64.size) (cpu cpu' : Cpu) :
    Alike (h.record k cpu delta) (g.record k cpu' delta) := by
  obtain ⟨alike, left, right⟩ := twins
  cases live : (h.node k).removed with
  | true =>
    have gone := (alike.removed k).trans live
    simpa only [record, live, gone, if_true] using alike
  | false =>
    have live' := (alike.removed k).trans live
    have inside' : k < g.arena.size := alike.size.symm ▸ inside
    have fits' : g.recordings + delta.toNat < UInt64.size := by
      rw [alike.recordings]
      exact fits
    have counted := left.solvent.counted inside fits cpu
    have counted' := right.solvent.counted inside' fits' cpu'
    have only := (left.record_enqueues inside live fits cpu).toOnlyLists
    have only' := (right.record_enqueues inside' live' fits' cpu').toOnlyLists
    apply alike.of_shapes
    case left => exact counted.toSameShape.trans only.toSameShape
    case right => exact counted'.toSameShape.trans only'.toSameShape
    case nextId => exact only'.nextId.trans (alike.nextId.trans only.nextId.symm)
    case flushes => exact only'.flushes.trans (alike.flushes.trans only.flushes.symm)
    case holds => exact only'.holds.trans (alike.holds.trans only.holds.symm)
    case total =>
      intro j
      rw [only'.total, counted'.total, only.total, counted.total, alike.total]
    case pending =>
      intro j
      rw [only'.pending, counted'.pending, only.pending, counted.pending, alike.pending]
    case inherited =>
      intro j
      rw [only'.inherited, counted'.inherited, only.inherited, counted.inherited, alike.inherited]
    case recorded =>
      intro j
      rw [only'.books.recorded_eq, only.books.recorded_eq, counted'.recorded, counted.recorded,
        alike.recorded]
    case drained =>
      intro j
      rw [only'.books.drained_eq, only.books.drained_eq, counted'.drained, counted.drained,
        alike.drained]
    case listed =>
      intro j
      rw [right.listed_of_record inside' live' fits', left.listed_of_record inside live fits,
        alike.listed, alike.lineage]

theorem Twins.adds (twins : Twins h g) (fits : h.recordings + delta.toNat < UInt64.size)
    (id : NodeId) (cpu cpu' : Cpu) : Agree (h.add id cpu delta) (g.add id cpu' delta) := by
  unfold add
  rw [twins.alike.find]
  cases found : h.index[id]? with
  | none =>
    simp only [find, found]
    exact ⟨twins.alike, rfl⟩
  | some k =>
    simp only [find, found]
    exact ⟨twins.records (twins.left.shaped.indexed found).1 fits cpu cpu', rfl⟩

end

section
variable {a a' : Hierarchy cfg} {b : Hierarchy cfg'} {s s' : Schedule} {k : Nat} {own : UInt64}

theorem Alike.settles (alike : Alike a b) (solvent : a.Solvent) (solvent' : b.Solvent)
    (inside : k < a.arena.size) (done : a.settle s k = .ok (own, a', s')) :
    ∃ b', b.settle s k = .ok (own, b', s') ∧ Alike a' b' := by
  have inside' : k < b.arena.size := alike.size.symm ▸ inside
  obtain ⟨own', b', t, done'⟩ := solvent'.settles inside' s
  obtain ⟨_, own_eq, settled⟩ := settle_ok inside done
  obtain ⟨_, own_eq', settled'⟩ := settle_ok inside' done'
  obtain rfl : own' = own := by
    apply UInt64.toNat_inj.mp
    rw [own_eq, own_eq']
    exact alike.undrained solvent solvent' k
  rw [alike.pending] at settled'
  have schedule (p : Nat) : b.schedule s p = a.schedule s p := by
    rw [Hierarchy.schedule, Hierarchy.schedule, alike.rank]
  obtain rfl : t = s' := by
    obtain ⟨_, _, outcome⟩ := settle_iff.mp done
    obtain ⟨_, _, outcome'⟩ := settle_iff.mp done'
    rw [alike.pending, alike.parent] at outcome'
    rcases outcome with ⟨stays, _, rfl⟩ | ⟨p, some, up, _, rfl⟩
    · rcases outcome' with ⟨_, _, rfl⟩ | ⟨q, some, up, _, _⟩
      · rfl
      · rcases stays with none | top
        · exact absurd none some
        · exact absurd (up.symm.trans top) (by simp)
    · rcases outcome' with ⟨none | top, _, _⟩ | ⟨q, _, up', _, rfl⟩
      · exact absurd none some
      · exact absurd (up.symm.trans top) (by simp)
      · obtain rfl := Option.some.inj (up.symm.trans up')
        exact schedule p
  have lists {cfg : Config} {f f' : Hierarchy cfg} {gain : UInt64} (settled : Settled f f' k gain)
      (c : Fin cfg.slots) (j : Nat) : f'.lists c j ↔ f.lists c j := by
    rw [Hierarchy.lists, Hierarchy.lists, settled.queues, settled.id]
  refine ⟨b', done', ?_⟩
  apply alike.of_shapes settled.toSameShape settled'.toSameShape
  case nextId => exact settled'.nextId.trans (alike.nextId.trans settled.nextId.symm)
  case flushes => exact settled'.flushes.trans (alike.flushes.trans settled.flushes.symm)
  case holds => exact settled'.holds.trans (alike.holds.trans settled.holds.symm)
  case total =>
    intro j
    rw [settled'.total, settled.total, alike.total]
  case pending =>
    intro j
    rw [settled'.pending, settled.pending, alike.pending, alike.parent]
  case inherited =>
    intro j
    rw [settled'.inherited, settled.inherited, alike.inherited, alike.parent, alike.removed]
  case recorded =>
    intro j
    have same := alike.recorded j
    simp only [Hierarchy.recorded, settled'.counter, settled.counter] at same ⊢
    split
    · simpa only [Counter.recorded_settled] using same
    · exact same
  case drained =>
    intro j
    have recorded := alike.recorded j
    have drained := alike.drained j
    simp only [Hierarchy.drained, Hierarchy.recorded, settled'.counter, settled.counter]
      at recorded drained ⊢
    split
    · simpa only [Counter.drained_settled] using recorded
    · exact drained
  case listed =>
    intro j
    simp only [lists settled, lists settled', alike.listed]

theorem Alike.begins (alike : Alike h g) (tracked : h.Tracked) (tracked' : g.Tracked) :
    g.begunSchedule = h.begunSchedule ∧ Alike h.begun g.begun := by
  have begun := Hierarchy.begins tracked
  have begun' := Hierarchy.begins tracked'
  have rank : g.begun.rank = h.begun.rank := by
    rw [begun'.rank, begun.rank, alike.rank]
  have schedule : g.begunSchedule = h.begunSchedule := by
    refine Schedule.Valid.ext begun'.underway.valid (rank ▸ begun.underway.valid) fun k => ?_
    rw [begun'.waiting, begun.waiting, alike.listed]
  have books : SameBooks h h.begun := .of_counts begun.toSameShape begun.toSameCounts
  have books' : SameBooks g g.begun := .of_counts begun'.toSameShape begun'.toSameCounts
  have unlisted {cfg : Config} {f f' : Hierarchy cfg} {s : Schedule} (begun : Begun f f' s)
      (k : Nat) : ¬ ∃ c, f'.lists c k := by
    rintro ⟨c, listed⟩
    rw [lists, begun.queues] at listed
    exact absurd listed (by simp)
  refine ⟨schedule, ?_⟩
  apply alike.of_shapes begun.toSameShape begun'.toSameShape
  case nextId => exact begun'.nextId.trans (alike.nextId.trans begun.nextId.symm)
  case flushes => exact begun'.flushes.trans (alike.flushes.trans begun.flushes.symm)
  case holds => rw [begun'.holds, begun.holds, schedule, alike.holds]
  case total =>
    intro k
    rw [begun'.total, begun.total, alike.total]
  case pending =>
    intro k
    rw [begun'.pending, begun.pending, alike.pending]
  case inherited =>
    intro k
    rw [begun'.inherited, begun.inherited, alike.inherited]
  case recorded =>
    intro k
    rw [books'.recorded_eq, books.recorded_eq, alike.recorded]
  case drained =>
    intro k
    rw [books'.drained_eq, books.drained_eq, alike.drained]
  case listed =>
    intro k
    exact iff_of_false (unlisted begun' k) (unlisted begun k)

theorem Alike.flushes_alike (alike : Alike h g) (sound : h.Sound) (sound' : g.Sound) :
    Agree h.flush g.flush := by
  obtain ⟨schedule, begun⟩ := alike.begins sound.tracked sound'.tracked
  -- while one flush is between two rounds, so is the other, with as much to do
  have rounds : KeptByRounds fun a s sum => Folding h a s ∧ ∃ b, Folding g b s ∧ Alike a b ∧
      g.begun.settleAll g.begunSchedule .zero = b.settleAll s sum := by
    refine ⟨fun {a s sum k rest own a' s'} before pop done => ?_⟩
    obtain ⟨folding, b, folding', alike, ahead⟩ := before
    have inside := folding.under.inside k (Schedule.pop_waits pop).1
    obtain ⟨b', done', after⟩ := alike.settles folding.solvent folding'.solvent inside done
    refine ⟨folding.round sound.tracked (folding.under.round pop done), b', ?_, after, ?_⟩
    · exact folding'.round sound'.tracked (folding'.under.round pop done')
    · exact ahead.trans (settle_all_next pop done')
  have start := Folding.start sound.tracked sound.solvent sound.quiet
  have start' := Folding.start sound'.tracked sound'.solvent sound'.quiet
  obtain ⟨a, s, sum, ⟨_, b, _, alike', ahead⟩, last, run⟩ := flush_completes rounds
    ⟨start, g.begun, schedule ▸ start', begun, by rw [schedule]⟩ fun before pop =>
      before.1.solvent.settles (before.1.under.inside _ (Schedule.pop_waits pop).1) _
  have run' := flush_of_rounds (ahead.trans (settle_all_last last))
  rw [run, run', schedule, alike.flushes, alike.holds]
  exact ⟨alike'.renewed rfl rfl, rfl⟩

end

theorem Twins.flushes (twins : Twins h g) : Agree h.flush g.flush :=
  twins.alike.flushes_alike twins.left.toSound twins.right.toSound

theorem Twins.flushes_and_dumps (twins : Twins h g) (id : NodeId) :
    Agree (h.flushAndDump id) (g.flushAndDump id) := by
  unfold flushAndDump
  rw [twins.alike.index]
  split
  · obtain ⟨h', g', result, left, right, after⟩ := twins.flushes.parts
    rw [left, right]
    cases result with
    | error fault => exact ⟨after, rfl⟩
    | ok sum => exact ⟨after, after.dump id⟩
  · exact ⟨twins.alike, rfl⟩

section
variable {id : NodeId} {k p : Nat}

theorem Alike.leaving (alike : Alike h g) (leaving : Leaving h id k p) : Leaving g id k p where
  found := alike.index ▸ leaving.found
  up := (alike.link k).trans leaving.up
  childless := (alike.children k).trans leaving.childless

theorem Alike.leaves (alike : Alike h g) (shaped : h.Shaped) (shaped' : g.Shaped)
    (leaving : Leaving h id k p) : Alike (h.left id k p) (g.left id k p) := by
  have leaving' := alike.leaving leaving
  have books := leaving.books shaped
  have books' := leaving'.books shaped'
  have same {cfg : Config} {f : Hierarchy cfg} (shaped : f.Shaped) (leaving : Leaving f id k p) :
      (f.left id k p).nextId = f.nextId ∧ (f.left id k p).flushes = f.flushes := by
    rw [leaving.bequeath_eq shaped]
    exact ⟨rfl, rfl⟩
  constructor
  case size => rw [leaving'.size shaped', leaving.size shaped, alike.size]
  case index =>
    rw [(leaving'.shape shaped').index, (leaving.shape shaped).index]
    change g.index.erase id = h.index.erase id
    rw [alike.index]
  case nextId => rw [(same shaped' leaving').1, (same shaped leaving).1, alike.nextId]
  case flushes => rw [(same shaped' leaving').2, (same shaped leaving).2, alike.flushes]
  case holds => rw [leaving'.holds shaped', leaving.holds shaped, alike.holds]
  case identity =>
    intro j
    rw [leaving'.identity shaped', leaving.identity shaped, alike.identity]
  case removed =>
    intro j
    rw [leaving'.removed shaped', leaving.removed shaped, alike.removed]
  case children =>
    intro j
    rw [(leaving'.shape shaped').children, (leaving.shape shaped).children]
    refine Std.ExtTreeMap.ext_getElem? fun i => ?_
    rw [apart_children leaving'.inside leaving'.before, apart_children leaving.inside leaving.before,
      alike.children]
  case total =>
    intro j
    rw [books'.total, books.total, alike.total]
  case pending =>
    intro j
    rw [books'.pending, books.pending, alike.pending]
  case inherited =>
    intro j
    rw [leaving'.inherited shaped', leaving.inherited shaped, alike.inherited, alike.inherited,
      alike.total]
  case recorded =>
    intro j
    rw [books'.recorded_eq, books.recorded_eq, alike.recorded]
  case drained =>
    intro j
    rw [books'.drained_eq, books.drained_eq, alike.drained]
  case listed =>
    intro j
    simp only [leaving'.lists shaped', leaving.lists shaped, alike.listed]

theorem Alike.detach_answer (alike : Alike h g) (id : NodeId) :
    (g.detach id).2 = (h.detach id).2 := by
  unfold detach
  rw [alike.index]
  split
  · rfl
  · rw [alike.is_top, alike.children]
    split
    · rfl
    · split <;> rfl

theorem Twins.removes (twins : Twins h g) (id : NodeId) : Agree (h.remove id) (g.remove id) := by
  obtain ⟨alike, left, right⟩ := twins
  have answer {cfg : Config} (f : Hierarchy cfg) :
      (f.remove id).2 = (f.detach id).2.map fun _ => () := by
    unfold remove
    rcases f.detach id with ⟨f', fault | k⟩ <;> rfl
  have same : (g.remove id).2 = (h.remove id).2 := by
    rw [answer, answer, alike.detach_answer]
  rcases remove_cases left.shaped id with ⟨fault, run⟩ | ⟨k, p, leaving, _, run⟩
  · rcases remove_cases right.shaped id with ⟨fault', run'⟩ | ⟨_, _, _, _, run'⟩
    · refine ⟨?_, same⟩
      rw [run, run']
      exact alike
    · rw [run, run'] at same
      exact absurd same (by simp)
  · rcases remove_cases right.shaped id with ⟨fault', run'⟩ | ⟨k', p', leaving', _, run'⟩
    · rw [run, run'] at same
      exact absurd same (by simp)
    · obtain rfl := Option.some.inj (leaving'.found.symm.trans (alike.leaving leaving).found)
      obtain rfl := Option.some.inj (leaving'.up.symm.trans (alike.leaving leaving).up)
      refine ⟨?_, same⟩
      rw [run, run']
      exact ((alike.leaves left.shaped right.shaped leaving).flushes_alike
        (leaving.sound left.toSound) (leaving'.sound right.toSound)).alike

end

end Hierarchy

end Rollup
