import Mathlib
import Rollup.Proofs.BuiltLayouts

/-!
Creating one path. A path belongs below a node of the tree when its text is well formed and what
comes before its last slash leads to that node. It is created just when it belongs somewhere and
leads nowhere yet, and then every text with the same names leads to the new node and every other
text where it led before.

`Extended` says of a state that nodes were added to it and nothing else happened. Nodes that were
there before, also removed ones, then keep their paths (`path_of`).
-/
namespace Rollup

namespace Hierarchy

variable {cfg : Config} {h h' : Hierarchy cfg}

/-- Nodes were added, with nothing recorded on them and on no list. Of what was there before, only
    maps of children may have changed, by entries of new nodes. -/
structure Extended (h h' : Hierarchy cfg) : Prop where
  grown : h.arena.size ≤ h'.arena.size
  node : ∀ k < h.arena.size, h'.node k = { h.node k with children := (h'.node k).children }
  children : ∀ k < h.arena.size, ∀ (id : NodeId), ∀ c < h.arena.size,
    (h'.node k).children[id]? = some c ↔ (h.node k).children[id]? = some c
  newborn : ∀ k < h'.arena.size, h.arena.size ≤ k →
    (h'.node k).toStatus = { Status.fresh cfg.slots with children := (h'.node k).children }
  index : ∀ (id : NodeId), ∀ k < h.arena.size, h'.index[id]? = some k ↔ h.index[id]? = some k
  queues : h'.queues = h.queues
  flushes : h'.flushes = h.flushes
  holds : h'.holds = h.holds

namespace Extended

theorem refl (h : Hierarchy cfg) : h.Extended h where
  grown := Nat.le_refl _
  node _ _ := rfl
  children _ _ _ _ _ := Iff.rfl
  newborn _ inside outside := absurd inside (Nat.not_lt_of_le outside)
  index _ _ _ := Iff.rfl
  queues := rfl
  flushes := rfl
  holds := rfl

theorem trans {h'' : Hierarchy cfg} (first : h.Extended h') (second : h'.Extended h'') :
    h.Extended h'' where
  grown := Nat.le_trans first.grown second.grown
  node k inside := by
    rw [second.node k (Nat.lt_of_lt_of_le inside first.grown), first.node k inside]
  children k inside id c known :=
    (second.children k (Nat.lt_of_lt_of_le inside first.grown) id c
      (Nat.lt_of_lt_of_le known first.grown)).trans (first.children k inside id c known)
  newborn k inside outside := by
    by_cases between : k < h'.arena.size
    · rw [second.node k between]
      exact congrArg (fun s : Status cfg.slots => { s with children := (h''.node k).children })
        (first.newborn k between outside)
    · exact second.newborn k inside (Nat.le_of_not_lt between)
  index id k inside :=
    (second.index id k (Nat.lt_of_lt_of_le inside first.grown)).trans (first.index id k inside)
  queues := second.queues.trans first.queues
  flushes := second.flushes.trans first.flushes
  holds := second.holds.trans first.holds

variable (extended : h.Extended h')
include extended

theorem identity {k : Nat} (inside : k < h.arena.size) :
    (h'.node k).toIdentity = (h.node k).toIdentity := by
  rw [extended.node k inside]

theorem alive {k : Nat} (inside : k < h.arena.size) : h'.isAlive k = h.isAlive k := by
  have id := congrArg Identity.id (extended.identity inside)
  have removed : (h'.node k).removed = (h.node k).removed := by rw [extended.node k inside]
  rw [isAlive, isAlive, isListed, isListed, id, removed, extended.queues, extended.holds]

theorem parent {k : Nat} (inside : k < h.arena.size) : h'.parent? k = h.parent? k := by
  have link := congrArg Identity.parent (extended.identity inside)
  rw [parent?, parent?, link]
  cases up : (h.node k).parent with
  | none => rfl
  | some p =>
    have known : p < h.arena.size := Nat.lt_trans (Arena.parent_before up) inside
    rw [Option.filter_some, Option.filter_some, extended.alive known]

theorem chain {k : Nat} (inside : k < h.arena.size) : h'.chain k = h.chain k := by
  induction k using Nat.strongRecOn with
  | ind k ih =>
    have same := extended.parent inside
    cases up : h.parent? k with
    | none => rw [chain_of_no_parent up, chain_of_no_parent (same.trans up)]
    | some p =>
      have before := parent_before up
      rw [chain_of_parent up, chain_of_parent (same.trans up), ih p before (before.trans inside)]

theorem path_of {k : Nat} (inside : k < h.arena.size) : h'.pathOf k = h.pathOf k := by
  have known {a : Nat} (member : a ∈ h.chain k) :
      (h'.node a).toIdentity = (h.node a).toIdentity :=
    extended.identity (chain_inside inside member)
  have top {a : Nat} (member : a ∈ h.chain k) : (h'.node a).isTop = (h.node a).isTop :=
    congrArg (fun i => i.parent.isNone) (known member)
  have inner : (h.chain k).filter (fun a => !(h'.node a).isTop) =
      (h.chain k).filter fun a => !(h.node a).isTop :=
    List.filter_congr fun a member => by rw [top member]
  rw [pathOf, pathOf, top (self_mem_chain h k), extended.chain inside, inner]
  refine congrArg (fun names => if (h.node k).isTop then "/" else Path.ofNames names) ?_
  refine List.map_congr_left fun a member => ?_
  exact congrArg Identity.name (known (List.mem_of_mem_filter (List.mem_reverse.mp member)))

end Extended

section
variable {id : UInt64} {p : Nat} {name : String} (charted : h.Charted)
  (place : Vacancy h ⟨id⟩ p name)
include charted place

theorem sprout_extended : h.Extended (h.sprout id p name) where
  grown := sprout_arena ▸ Nat.le_succ _
  node k inside := by
    have node : (h.sprout id p name).node k = if k = h.arena.size then _ else _ :=
      node_attach place.inside k
    rw [if_neg (Nat.ne_of_lt inside)] at node
    split at node
    · rename_i same
      rw [node, same]
    · rw [node]
  children k inside i c known := by
    refine Iff.trans (Eq.to_iff (congrArg (· = some c) (attach_children place.inside inside i))) ?_
    split
    · rename_i here
      constructor
      · intro new
        exact absurd (Option.some.inj new) (Nat.ne_of_gt known)
      · intro old
        -- a child under the new id would be in the tree, where the id is free
        obtain ⟨child, live, _, named⟩ := (charted.toShaped.downward inside).mp old
        exact absurd (here.2.trans named.symm)
          (charted.toShaped.id_ne_of_free place.free child live)
    · exact Iff.rfl
  newborn k inside outside := by
    rw [sprout_arena] at inside
    obtain rfl : k = h.arena.size := by omega
    rw [sprout_newborn place.inside]
    rfl
  index i k inside := by
    rw [sprout_index]
    split
    · rename_i same
      rw [← same, place.free]
      simpa using Nat.ne_of_gt inside
    · exact Iff.rfl
  queues := rfl
  flushes := rfl
  holds := rfl

end

inductive Allocated : Hierarchy cfg → List NodeId → Hierarchy cfg → Prop where
  | nil (h : Hierarchy cfg) : Allocated h [] h
  | cons {h h' : Hierarchy cfg} {id : UInt64} {p : Nat} {name : String} {ids : List NodeId}
      (place : Vacancy h ⟨id⟩ p name) (free : h.freeId = some id)
      (later : Allocated (h.sprout id p name) ids h') : Allocated h (⟨id⟩ :: ids) h'

namespace Allocated

variable {ids : List NodeId}

theorem keys (made : Allocated h ids h') : h'.arena.size = h.arena.size + ids.length := by
  induction made with
  | nil h => rfl
  | cons place _ _ ih =>
    rw [ih, List.length_cons, sprout_arena]
    omega

variable (made : Allocated h ids h') (charted : h.Charted)
include made charted

theorem charted_after : h'.Charted := by
  induction made with
  | nil h => exact charted
  | cons place _ _ ih => exact ih (sprout_charted charted place)

theorem size : h'.index.size = h.index.size + ids.length := by
  induction made with
  | nil h => rfl
  | cons place _ _ ih =>
    rw [ih (sprout_charted charted place), sprout_size place, List.length_cons]
    omega

theorem extended : h.Extended h' := by
  induction made with
  | nil h => exact .refl h
  | cons place _ _ ih =>
    exact (sprout_extended charted place).trans (ih (sprout_charted charted place))

theorem entry {i : Nat} {id : NodeId} (found : ids[i]? = some id) :
    h'.index[id]? = some (h.arena.size + i) := by
  induction made generalizing i with
  | nil h => simp at found
  | @cons h h' word p name ids place _ later ih =>
    have after := sprout_charted charted place
    cases i with
    | zero =>
      obtain rfl : (⟨word⟩ : NodeId) = id := by simpa using found
      refine ((later.extended after).index _ _ ?_).mpr ?_
      · rw [sprout_arena]
        omega
      · rw [sprout_index, if_pos rfl]
        rfl
    | succ i =>
      have behind := ih after (List.getElem?_cons_succ.symm.trans found)
      rw [behind, sprout_arena]
      congr 1
      omega

end Allocated

def Belongs (h : Hierarchy cfg) (path : String) : Prop :=
  Path.WellFormed path ∧ ∃ above p, Layout.parentText path = some above ∧ h.lookup above = some p

section
variable {path name : String} {names : List String} {p : Nat}

theorem belongs_iff : h.Belongs path ↔ ∃ names name p, Placed h path names name p := by
  -- the text before the last slash is the path of all names but the last
  have parted {names : List String} {name : String} (normal : Path.IsNormal path)
      (ends : Path.components path = names ++ [name]) :
      ∃ above, Layout.parentText path = some above ∧ Path.components above = names := by
    obtain ⟨above, fit⟩ := Path.component_snoc ends
    exact ⟨_, Layout.parent_text_of_snoc fit (normal.to_list_snoc ends),
      Path.components_of_stem above⟩
  constructor
  · rintro ⟨formed, above, p, text, found⟩
    obtain ⟨normal, filled⟩ := Path.well_formed_iff.mp formed
    obtain ⟨names, name, ends⟩ := (List.eq_nil_or_concat' _).resolve_left filled
    obtain ⟨other, same, known⟩ := parted normal ends
    obtain rfl := Option.some.inj (text.symm.trans same)
    exact ⟨names, name, p, normal, ends, known ▸ found⟩
  · rintro ⟨names, name, p, placed⟩
    obtain ⟨above, text, known⟩ := parted placed.normal placed.ends
    refine ⟨Path.well_formed_iff.mpr ⟨placed.normal, by simp [placed.ends]⟩, above, p, text, ?_⟩
    rw [lookup, known]
    exact placed.parent

theorem Placed.lookup_eq (placed : Placed h path names name p) :
    h.lookup path = h.descend rootKey (names ++ [name]) := by
  rw [lookup, placed.ends]

theorem Placed.taken (charted : h.Charted) (placed : Placed h path names name p) {id : NodeId}
    (found : h.lookupId path = some id) :
    h.createPath path = (h, .error (.node (.alreadyExists id))) := by
  obtain ⟨c, leads, rfl⟩ := Option.map_eq_some_iff.mp found
  rw [placed.create_path charted, ← placed.lookup_eq, leads]

theorem Placed.creatable (placed : Placed h path names name p) (none : h.lookupId path = none) :
    Creatable h path names name p :=
  ⟨placed, placed.lookup_eq.symm.trans (Option.map_eq_none_iff.mp none)⟩

theorem Creatable.lookup_none (creatable : Creatable h path names name p) :
    h.lookupId path = none :=
  Option.map_eq_none_iff.mpr (creatable.lookup_eq.trans creatable.vacant)

variable {id : UInt64} (charted : h.Charted) (creatable : Creatable h path names name p)
  (free : h.freeId = some id)
include charted creatable free

theorem Creatable.lookup_id (q : String) : (h.sprout id p name).lookupId q =
    if Path.components q = Path.components path then some ⟨id⟩ else h.lookupId q := by
  have place := creatable.place charted free
  have trail : h.trail p = names := (charted.descend_iff.mp creatable.parent).2
  have leads (k : Nat) : (h.sprout id p name).lookup q = some k ↔ h.lookup q = some k ∨
      k = h.arena.size ∧ Path.components q = Path.components path := by
    rw [creatable.ends, ← trail]
    exact sprout_descend charted place
  split
  · rename_i same
    rw [lookupId, (leads _).mpr (Or.inr ⟨rfl, same⟩), Option.map_some, sprout_id place.inside]
  · rename_i other
    have same : (h.sprout id p name).lookup q = h.lookup q := by
      refine Option.ext fun k => (leads k).trans ?_
      simp [other]
    rw [lookupId, lookupId, same]
    cases found : h.lookup q with
    | none => rfl
    | some k =>
      have member := (charted.descend_iff.mp found).1
      exact congrArg (fun i => some i.id) (sprout_identity charted place member)

theorem Creatable.path_of : (h.sprout id p name).pathOf h.arena.size = path := by
  have place := creatable.place charted free
  have trail : h.trail p = names := (charted.descend_iff.mp creatable.parent).2
  have member := (sprout_keys charted place).mpr (Or.inr rfl)
  rw [(sprout_charted charted place).path_of_trail member, sprout_trail_new charted place, trail,
    ← creatable.ends, creatable.normal]

end

end Hierarchy

namespace Session

open Hierarchy

/-- A path is created just when it belongs somewhere and leads nowhere yet, and is then the path of
    the one new node. Texts with its names lead there, other texts and all other nodes are as they
    were. A path that leads to a node already is refused for that node, and one that belongs nowhere
    as invalid. -/
theorem path_created_exactly (cfg : Config) (steps : List Step) (path : String) :
    let h := ((start cfg).run steps).hierarchy
    let h' := (h.createPath path).1
    (h.index.size < UInt64.size →
      ((∃ id, (h.createPath path).2 = .ok id) ↔ h.Belongs path ∧ h.lookupId path = none)) ∧
    (∀ id, (h.createPath path).2 = .ok id →
      h.index[id]? = none ∧ h'.index[id]? = some h.arena.size ∧
      h'.arena.size = h.arena.size + 1 ∧ h'.pathOf h.arena.size = path ∧
      (∀ q, h'.lookupId q =
        if Path.components q = Path.components path then some id else h.lookupId q) ∧
      h.Extended h' ∧ ∀ k < h.arena.size, h'.pathOf k = h.pathOf k) ∧
    (∀ id, h.Belongs path → h.lookupId path = some id →
      h.createPath path = (h, .error (.node (.alreadyExists id)))) ∧
    (¬ h.Belongs path → ∃ reason, h.createPath path = (h, .error (.invalid path reason))) := by
  intro h h'
  have charted : h.Charted := run_charted cfg steps
  refine ⟨fun room => ⟨?_, ?_⟩, fun id ok => ?_, fun id belongs found => ?_, fun none => ?_⟩
  · rintro ⟨id, ok⟩
    rcases create_path_cases charted path with
      ⟨names, name, p, _, creatable, _, _⟩ | ⟨fault, run⟩
    · exact ⟨belongs_iff.mpr ⟨names, name, p, creatable.toPlaced⟩, creatable.lookup_none⟩
    · simp [run] at ok
  · rintro ⟨belongs, none⟩
    obtain ⟨names, name, p, placed⟩ := belongs_iff.mp belongs
    obtain ⟨id, free⟩ := free_id_found room
    exact ⟨⟨id⟩, by rw [(placed.creatable none).sprouts charted free]⟩
  · rcases create_path_cases charted path with
      ⟨names, name, p, word, creatable, free, run⟩ | ⟨fault, run⟩
    · obtain rfl : (⟨word⟩ : NodeId) = id := by simpa [run] using ok
      have place := creatable.place charted free
      have extended : h.Extended (h.sprout word p name) := sprout_extended charted place
      have after : h' = h.sprout word p name := congrArg Prod.fst run
      rw [after]
      refine ⟨place.free, by rw [sprout_index, if_pos rfl], sprout_arena,
        creatable.path_of charted free, creatable.lookup_id charted free, extended, ?_⟩
      exact fun k inside => extended.path_of inside
    · simp [run] at ok
  · obtain ⟨names, name, p, placed⟩ := belongs_iff.mp belongs
    exact placed.taken charted found
  · exact create_path_unplaced fun names name p placed =>
      none (belongs_iff.mpr ⟨names, name, p, placed⟩)

/-- Beside `b` below `a` there is a node named `a/b` and one without a name: `/a/c` can be made,
    `/a/b` is there, and the name of a node is no path to it. -/
theorem path_created_among_like_names :
    let h := ((start ⟨1⟩).run likeNamedSteps).hierarchy
    let h' := (h.createPath "/a/c").1
    (∃ id, (h.createPath "/a/c").2 = .ok id) ∧ h'.pathOf 5 = "/a/c" ∧
      h'.lookupId "a//c/" = some ⟨6⟩ ∧ h'.lookupId "/a/b" = some ⟨3⟩ ∧ h.Extended h' ∧
      h.createPath "/a/b" = (h, .error (.node (.alreadyExists ⟨3⟩))) ∧
      ∃ reason, h.createPath "/b/c" = (h, .error (.invalid "/b/c" reason)) := by
  intro h h'
  have formed (path : String) (normal : Path.IsNormal path) (filled : Path.components path ≠ []) :
      Path.WellFormed path := Path.well_formed_iff.mpr ⟨normal, filled⟩
  obtain ⟨succeeds, effect, _, _⟩ := path_created_exactly ⟨1⟩ likeNamedSteps "/a/c"
  obtain ⟨_, _, taken, _⟩ := path_created_exactly ⟨1⟩ likeNamedSteps "/a/b"
  obtain ⟨_, _, _, refused⟩ := path_created_exactly ⟨1⟩ likeNamedSteps "/b/c"
  have new : (h.createPath "/a/c").2 = .ok ⟨6⟩ := by decide +kernel
  obtain ⟨_, _, _, named, leads, extended, _⟩ := effect ⟨6⟩ new
  refine ⟨(succeeds (by decide +kernel)).mpr ⟨⟨formed _ (by decide +kernel) (by decide +kernel),
    "/a", 1, by decide +kernel, by decide +kernel⟩, by decide +kernel⟩, named,
    (leads _).trans (by decide +kernel), (leads _).trans (by decide +kernel), extended, ?_, ?_⟩
  · exact taken ⟨3⟩ ⟨formed _ (by decide +kernel) (by decide +kernel), "/a", 1, by decide +kernel,
      by decide +kernel⟩ (by decide +kernel)
  · refine refused fun belongs => ?_
    obtain ⟨_, above, p, text, found⟩ := belongs
    obtain rfl : "/b" = above := Option.some.inj ((by decide +kernel :
      some "/b" = Layout.parentText "/b/c").trans text)
    exact absurd found (by
      rw [(by decide +kernel : h.lookup "/b" = none)]
      simp)

end Session

end Rollup
