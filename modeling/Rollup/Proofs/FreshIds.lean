import Mathlib
import Rollup.Proofs.PlantedLayouts
import Rollup.Proofs.Refusals

/-!
Ids that are given to new nodes. The search for free ids begins after the ids of all nodes there
have been, found or chosen, in the tree or taken out (`Ranked`), so a new node gets an id above them
all. This ends when a node has the last id there is: the search starts over, and meets ids of nodes
that were taken out, and one below the root's.
-/
namespace Rollup

namespace NodeId

def last : NodeId := ⟨UInt64.ofNat (UInt64.size - 1)⟩

theorem below_next {id : NodeId} (other : id ≠ last) : id.val < id.val + 1 := by
  have bound := id.val.toNat_lt
  have short : id.val.toNat ≠ 2 ^ 64 - 1 := fun full =>
    other (congrArg NodeId.mk (UInt64.toNat_inj.mp full))
  rw [UInt64.lt_iff_toNat_lt, UInt64.toNat_add, UInt64.toNat_one, Nat.mod_eq_of_lt (by omega)]
  exact Nat.lt_succ_self _

end NodeId

namespace Hierarchy

variable {cfg : Config} {h h' : Hierarchy cfg} {id : NodeId} {k p : Nat} {name : String}

structure FreshId (h : Hierarchy cfg) (k : Nat) : Prop where
  unshared : ∀ j < k, (h.node j).removed = false → (h.node j).id ≠ (h.node k).id
  above : (∀ j < k, (h.node j).id ≠ NodeId.last) →
    NodeId.root.val < (h.node k).id.val ∧ ∀ j < k, (h.node j).id.val < (h.node k).id.val

def newIds (h h' : Hierarchy cfg) : List NodeId :=
  (List.range' h.arena.size (h'.arena.size - h.arena.size)).map fun k => (h'.node k).id

/-- The search for free ids begins after the ids of all nodes unless one of them has the last. -/
structure Ranked (h : Hierarchy cfg) : Prop extends Charted h where
  below : (∀ k < h.arena.size, (h.node k).id ≠ NodeId.last) →
    ∀ k < h.arena.size, (h.node k).id.val < h.nextId

namespace Ranked

theorem start (cfg : Config) : (Hierarchy.new cfg).Ranked where
  toCharted := .start cfg
  below _ k inside := by
    obtain rfl : k = 0 := Nat.lt_one_iff.mp inside
    exact (by decide : NodeId.root.val < NodeId.root.val + 1)

theorem of_same (ranked : h.Ranked) (charted : h'.Charted) (size : h'.arena.size = h.arena.size)
    (ids : ∀ k, (h'.node k).id = (h.node k).id) (next : h'.nextId = h.nextId) : h'.Ranked where
  toCharted := charted
  below unspent k inside := by
    simp only [size, ids, next] at unspent inside ⊢
    exact ranked.below unspent k inside

theorem free_id (ranked : h.Ranked) (unspent : ∀ k < h.arena.size, (h.node k).id ≠ NodeId.last) :
    h.freeId = some h.nextId := by
  refine free_id_next (Option.eq_none_iff_forall_ne_some.mpr fun k found => ?_)
  obtain ⟨inside, named, _⟩ := ranked.indexed found
  have low := ranked.below unspent k inside
  rw [named] at low
  exact UInt64.lt_irrefl _ low

theorem raises (ranked : h.Ranked) (unspent : ∀ k < h.arena.size, (h.node k).id ≠ NodeId.last)
    (other : id ≠ NodeId.last) {next : UInt64} (allots : Allots h id next) :
    h.nextId ≤ next ∧ id.val < next := by
  have low := NodeId.below_next other
  cases allots with
  | found free =>
    have same := Option.some.inj ((ranked.free_id unspent).symm.trans free)
    exact ⟨UInt64.le_of_lt (same ▸ low), low⟩
  | chosen =>
    have after : idAfter id = id.val + 1 := if_neg fun full => other (congrArg NodeId.mk full)
    rw [UInt64.lt_iff_toNat_lt] at low
    rw [after, UInt64.le_iff_toNat_le, UInt64.lt_iff_toNat_lt, UInt64.toNat_max]
    omega

theorem attach (ranked : h.Ranked) (place : Vacancy h id p name) {next : UInt64}
    (allots : Allots h id next) : Ranked { h.attach id p name with nextId := next } where
  toCharted := ranked.toCharted.attach place next
  below unspent k inside := by
    have old {j : Nat} (before : j < h.arena.size) :
        ((h.attach id p name).node j).id = (h.node j).id :=
      congrArg Identity.id (attach_identity place.inside (Nat.ne_of_lt before))
    have new : ((h.attach id p name).node h.arena.size).id = id := by
      rw [attach_newborn place.inside]
      rfl
    have size : (h.attach id p name).arena.size = h.arena.size + 1 := size_attach
    have earlier (j : Nat) (before : j < h.arena.size) : (h.node j).id ≠ NodeId.last := by
      rw [← old before]
      exact unspent j (Nat.lt_of_lt_of_eq (Nat.lt_succ_of_lt before) size.symm)
    have other : id ≠ NodeId.last := by
      rw [← new]
      exact unspent _ (Nat.lt_of_lt_of_eq (Nat.lt_succ_self _) size.symm)
    obtain ⟨further, above⟩ := ranked.raises earlier other allots
    change ((h.attach id p name).node k).id.val < next
    rcases Nat.lt_succ_iff_lt_or_eq.mp (Nat.lt_of_lt_of_eq inside size) with before | rfl
    · rw [old before]
      exact UInt64.lt_of_lt_of_le (ranked.below earlier k before) further
    · rw [new]
      exact above

theorem apart (ranked : h.Ranked) (leaving : Leaving h id k p) : (h.apart id k p).Ranked :=
  ranked.of_same (ranked.toCharted.apart leaving) size_apart
    (fun j => congrArg Identity.id (apart_identity leaving.inside leaving.before j)) rfl

theorem update (ranked : h.Ranked) {f : Status cfg.slots → Status cfg.slots}
    (charted : (h.update k f).Charted) : (h.update k f).Ranked :=
  ranked.of_same charted (Arena.size_update h.arena k f)
    (fun j => congrArg Identity.id (identity_update h k f j)) rfl

end Ranked

theorem ranked_tending : Tending (@Ranked cfg) fun _ => True where
  filed ranked := ranked.toFiled
  take ranked taken held :=
    ranked.of_same (charted_tending.take ranked.toCharted taken held) taken.size taken.id
      taken.nextId
  ready _ _ := trivial
  mark {h k} cpu ranked ready inside alive := by
    have only := only_lists_mark h k cpu
    exact ranked.of_same (charted_tending.mark cpu ranked.toCharted ready inside alive) only.size
      only.id only.nextId
  settle ranked inside done := by
    obtain ⟨_, _, settled⟩ := settle_ok inside done
    exact ranked.of_same (charted_tending.settle ranked.toCharted inside done) settled.size
      settled.id settled.nextId
  finish flushes ranked :=
    ranked.of_same (charted_tending.finish flushes ranked.toCharted) rfl (fun _ => rfl) rfl

theorem ranked_custody : Custody (fun _ => @Ranked cfg) fun _ => True where
  shaped ranked := ranked.toShaped
  tending _ := ranked_tending
  spare _ ranked := ranked
  attach _ ranked place allots := ranked.attach place allots
  apart ranked leaving := ranked.apart leaving
  leave {_ h id k p} ranked leaving := by
    have charted : (h.left id k p).Charted :=
      charted_custody.leave (n := 0) ranked.toCharted leaving
    rw [leaving.bequeath_eq ranked.toShaped] at charted ⊢
    exact (ranked.apart leaving).update charted
  count cpu ranked inside :=
    ranked.update (charted_custody.count (n := 0) cpu ranked.toCharted inside)
  drain ranked inside run :=
    ranked.update (charted_custody.drain (n := 0) ranked.toCharted inside run)

section
variable {id : UInt64} (ranked : h.Ranked) (place : Vacancy h ⟨id⟩ p name)
  (free : h.freeId = some id)
include ranked place free

theorem sprout_ranked : (h.sprout id p name).Ranked := ranked.attach place (.found free)

theorem sprout_fresh : (h.sprout id p name).FreshId h.arena.size := by
  have old (j : Nat) (before : j < h.arena.size) :
      ((h.sprout id p name).node j).id = (h.node j).id :=
    congrArg Identity.id (attach_identity place.inside (Nat.ne_of_lt before))
  have new : ((h.sprout id p name).node h.arena.size).id = ⟨id⟩ := sprout_id place.inside
  constructor
  · intro j before live same
    have removed : ((h.sprout id p name).node j).removed = (h.node j).removed :=
      attach_removed place.inside j
    have free_of := ranked.toShaped.id_ne_of_free place.free before (removed.symm.trans live)
    exact free_of (new.symm.trans (same.symm.trans (old j before)))
  · intro unspent
    have earlier (j : Nat) (before : j < h.arena.size) : (h.node j).id ≠ NodeId.last :=
      old j before ▸ unspent j before
    have low (j : Nat) (before : j < h.arena.size) :
        ((h.sprout id p name).node j).id.val < id := by
      rw [old j before, ← Option.some.inj ((ranked.free_id earlier).symm.trans free)]
      exact ranked.below earlier j before
    obtain ⟨root_inside, _, _, root⟩ := ranked.rooted
    rw [new, ← root, ← old _ root_inside]
    exact ⟨low _ root_inside, low⟩

end

theorem FreshId.later (fresh : h.FreshId k) (extended : h.Extended h') (inside : k < h.arena.size) :
    h'.FreshId k := by
  have id {j : Nat} (known : j ≤ k) : (h'.node j).id = (h.node j).id :=
    congrArg Identity.id (extended.identity (Nat.lt_of_le_of_lt known inside))
  have removed {j : Nat} (known : j ≤ k) : (h'.node j).removed = (h.node j).removed := by
    rw [extended.node j (Nat.lt_of_le_of_lt known inside)]
  constructor
  · intro j before live
    rw [id (Nat.le_of_lt before), id (Nat.le_refl k)]
    exact fresh.unshared j before ((removed (Nat.le_of_lt before)).symm.trans live)
  · intro unspent
    obtain ⟨root, low⟩ := fresh.above fun j before => id (Nat.le_of_lt before) ▸ unspent j before
    rw [id (Nat.le_refl k)]
    exact ⟨root, fun j before => id (Nat.le_of_lt before) ▸ low j before⟩

namespace Allocated

variable {ids : List NodeId} (made : Allocated h ids h')
include made

theorem fresh (ranked : h.Ranked) (new : h.arena.size ≤ k) (inside : k < h'.arena.size) :
    h'.FreshId k := by
  induction made with
  | nil h => exact absurd inside (Nat.not_lt_of_le new)
  | @cons h h' id p name ids place free later ih =>
    have after := sprout_ranked ranked place free
    rcases Nat.eq_or_lt_of_le new with rfl | above
    · refine (sprout_fresh ranked place free).later (later.extended after.toCharted) ?_
      rw [sprout_arena]
      exact Nat.lt_succ_self _
    · exact ih after (sprout_arena ▸ above) inside

theorem new_ids (charted : h.Charted) : h.newIds h' = ids := by
  rw [newIds, made.keys, Nat.add_sub_cancel_left]
  refine List.ext_getElem (by simp) fun i _ few => ?_
  have entry := made.entry charted (List.getElem?_eq_getElem few)
  rw [List.getElem_map, List.getElem_range', Nat.one_mul]
  exact ((made.charted_after charted).indexed entry).2.1

end Allocated

theorem create_cases (shaped : h.Shaped) (parent : NodeId) (name : String) :
    (∃ fault, h.create parent name = (h, .error fault)) ∨
      ∃ id p, Vacancy h ⟨id⟩ p name ∧ h.freeId = some id ∧
        h.create parent name = (h.sprout id p name, .ok ⟨id⟩) := by
  cases ok : h.vacantParent parent name with
  | error fault => exact Or.inl ⟨fault, by simp only [create, ok]⟩
  | ok p =>
    cases free : h.freeId with
    | none => exact Or.inl ⟨.alreadyExists ⟨h.nextId⟩, by simp only [create, ok, free]⟩
    | some id =>
      obtain ⟨inside, live, vacant⟩ := vacant_parent_ok shaped ok
      exact Or.inr ⟨id, p, ⟨inside, live, free_from_free free, vacant⟩, rfl, by
        simp only [create, ok, free, sprout]⟩

end Hierarchy

def Step.allocates : Step → Bool
  | .create _ _ | .createPath _ | .build _ => true
  | _ => false

def Answer.given : Answer → List NodeId
  | .id i => [i]
  | .ids is => is
  | _ => []

namespace Session

open Hierarchy

variable {cfg : Config} {s : Session cfg}

theorem run_ranked (cfg : Config) (steps : List Step) :
    ((start cfg).run steps).hierarchy.Ranked := by
  have begins : Healthy (@Ranked cfg) (start cfg) := ⟨.start cfg, Referenced.start cfg⟩
  exact (run_keeps (n := 0) ranked_custody begins fun _ _ _ => trivial).kept

theorem step_allocates {t : Step} (charted : s.hierarchy.Charted) (allocates : t.allocates = true) :
    ∃ ids, Allocated s.hierarchy ids (s.step t).1.hierarchy ∧
      ((s.step t).2.isFault = false → (s.step t).2.given = ids) := by
  cases t
  case create parent name =>
    rcases create_cases charted.toShaped parent name with ⟨fault, run⟩ | ⟨id, p, place, free, run⟩
    · simp only [step, change, run]
      exact ⟨[], .nil _, fun answered => by simp [Answer.ofResult, Answer.isFault] at answered⟩
    · simp only [step, change, run]
      exact ⟨_, .cons place free (.nil _), fun _ => rfl⟩
  case createPath path =>
    rcases create_path_cases charted path with ⟨_, name, p, id, creatable, free, run⟩ | ⟨fault, run⟩
    · simp only [step, run]
      exact ⟨_, .cons (creatable.place charted free) free (.nil _), fun _ => rfl⟩
    · simp only [step, run]
      exact ⟨[], .nil _, fun answered => by simp [Answer.isFault] at answered⟩
  case build layout =>
    cases valid : layout.validate with
    | error fault =>
      simp only [step, Layout.build, valid]
      exact ⟨[], .nil _, fun answered => by simp [Answer.isFault] at answered⟩
    | ok _ =>
      obtain ⟨made, rest, ids, after, _, planted, ends⟩ := create_all_cases charted layout.nodes
      have allocated := planted.allocated charted
      rcases ends with ⟨_, all⟩ | ⟨_, _, fault, _, _, all⟩
      · simp only [step, Layout.build, valid, all]
        exact ⟨ids, allocated, fun _ => rfl⟩
      · simp only [step, Layout.build, valid, all]
        exact ⟨ids, allocated, fun answered => by simp [Answer.isFault] at answered⟩
  all_goals simp [Step.allocates] at allocates

/-- Where ids are found and not chosen, no node of the tree has them yet, and as long as no node made
    in the run before has the last id they are above the root's and those of all these nodes. -/
theorem allocated_ids_fresh (cfg : Config) (steps : List Step) {t : Step}
    (allocates : t.allocates = true) :
    let s := (start cfg).run steps
    let h := s.hierarchy
    let h' := (s.step t).1.hierarchy
    ((s.step t).2.isFault = false → (s.step t).2.given = h.newIds h') ∧
      ∀ k, h.arena.size ≤ k → k < h'.arena.size → h'.FreshId k := by
  intro s h h'
  have ranked : h.Ranked := run_ranked cfg steps
  obtain ⟨ids, made, given⟩ := step_allocates ranked.toCharted allocates
  refine ⟨fun answered => ?_, fun k new inside => made.fresh ranked new inside⟩
  rw [given answered]
  exact (made.new_ids ranked.toCharted).symm

/-- Two nodes under chosen ids have been taken out, and one of them is still held. -/
def choosingSteps : List Step :=
  [.createWithId ⟨10⟩ NodeId.root "a", .createWithId ⟨5⟩ NodeId.root "b", .remove ⟨10⟩,
    .hold ⟨5⟩ "b", .remove ⟨5⟩]

theorem fresh_ids_after_chosen :
    let h := ((start ⟨1⟩).run choosingSteps).hierarchy
    let h' := (((start ⟨1⟩).run choosingSteps).step (.build ⟨["/a", "/a/b"]⟩)).1.hierarchy
    h.newIds h' = [⟨11⟩, ⟨12⟩] ∧ (∀ j < 3, (h'.node j).id.val < (h'.node 3).id.val) ∧
      ∀ j < 4, (h'.node j).id.val < (h'.node 4).id.val := by
  intro h h'
  obtain ⟨given, fresh⟩ :=
    allocated_ids_fresh ⟨1⟩ choosingSteps (t := .build ⟨["/a", "/a/b"]⟩) rfl
  have third := (fresh 3 (by decide +kernel) (by decide +kernel)).above (by decide +kernel)
  have fourth := (fresh 4 (by decide +kernel) (by decide +kernel)).above (by decide +kernel)
  exact ⟨(given (by decide +kernel)).symm.trans (by decide +kernel), third.2, fourth.2⟩

/-- After the last id the search goes back to it as soon as it is free, and then to zero. -/
theorem last_id_given_again :
    let h := ((start ⟨1⟩).run [.createWithId NodeId.last NodeId.root "a", .hold NodeId.last "a",
      .remove NodeId.last]).hierarchy
    let next := (h.create NodeId.root "b").1
    (h.node 1).id = NodeId.last ∧ h.isAlive 1 = true ∧
      (h.create NodeId.root "b").2 = .ok NodeId.last ∧
      (next.create NodeId.root "c").2 = .ok ⟨0⟩ ∧ ¬ NodeId.root.val < (⟨0⟩ : NodeId).val := by
  decide +kernel

end Session

end Rollup
