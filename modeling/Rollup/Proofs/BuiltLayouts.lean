import Mathlib
import Rollup.Proofs.IdSearch
import Rollup.Proofs.PathText

/-!
Layouts and the trees built from them. Creating a path succeeds when the path is normal, its parent
is in the tree and it is not. `Grown` says of a tree that it has the root and the nodes at some
list of normal paths, so that the entries a layout's check has seen are the nodes made so far, and
an entry passes the check just when its node can be made. Only one thing escapes the check: an entry
whose text before the last slash is a slash has the root for its parent there, and an empty
component for creation.
-/
namespace Rollup

namespace Hierarchy

variable {cfg : Config} {h : Hierarchy cfg}

def sprout (h : Hierarchy cfg) (id : UInt64) (p : Nat) (name : String) : Hierarchy cfg :=
  { h.attach ⟨id⟩ p name with nextId := id + 1 }

section
variable {id : UInt64} {p : Nat} {name : String}

theorem sprout_index (i : NodeId) : (h.sprout id p name).index[i]? =
    if ⟨id⟩ = i then some h.arena.size else h.index[i]? := by
  have attached : (h.attach ⟨id⟩ p name).index[i]? =
      if ⟨id⟩ = i then some h.arena.size else h.index[i]? := index_attach i
  exact attached

theorem sprout_arena : (h.sprout id p name).arena.size = h.arena.size + 1 := size_attach

theorem sprout_newborn (inside : p < h.arena.size) :
    (h.sprout id p name).node h.arena.size = h.arena.newborn ⟨id⟩ name (some p) :=
  attach_newborn inside

theorem sprout_id (inside : p < h.arena.size) :
    ((h.sprout id p name).node h.arena.size).id = ⟨id⟩ := by
  rw [sprout_newborn inside]
  rfl

theorem sprout_size (place : Vacancy h ⟨id⟩ p name) :
    (h.sprout id p name).index.size = h.index.size + 1 :=
  (attach_joins place.free p name).size

variable (charted : h.Charted) (place : Vacancy h ⟨id⟩ p name)
include charted place

theorem sprout_charted : (h.sprout id p name).Charted := charted.attach place _

theorem sprout_keys {k : Nat} : k ∈ (h.sprout id p name).keys ↔ k ∈ h.keys ∨ k = h.arena.size := by
  have removed : ((h.sprout id p name).node k).removed = (h.node k).removed :=
    attach_removed place.inside k
  rw [(sprout_charted charted place).toShaped.mem_keys, charted.toShaped.mem_keys, sprout_arena,
    removed]
  constructor
  · rintro ⟨inside, live⟩
    by_cases new : k = h.arena.size
    · exact Or.inr new
    · exact Or.inl ⟨by omega, live⟩
  · rintro (⟨inside, live⟩ | rfl)
    · exact ⟨by omega, live⟩
    · exact ⟨Nat.lt_succ_self _, next_removed⟩

theorem sprout_identity {k : Nat} (member : k ∈ h.keys) :
    ((h.sprout id p name).node k).toIdentity = (h.node k).toIdentity :=
  attach_identity place.inside (Nat.ne_of_lt (charted.toShaped.key_of_mem member).1)

theorem sprout_parent {k : Nat} (member : k ∈ h.keys) :
    (h.sprout id p name).parent? k = h.parent? k := by
  have live := (charted.toShaped.key_of_mem member).2
  have still := (sprout_charted charted place).toShaped.key_of_mem
    ((sprout_keys charted place).mpr (Or.inl member))
  rw [charted.toShaped.parent_of_live live,
    (sprout_charted charted place).toShaped.parent_of_live still.2]
  exact congrArg Identity.parent (sprout_identity charted place member)

theorem sprout_trail {k : Nat} (member : k ∈ h.keys) :
    (h.sprout id p name).trail k = h.trail k := by
  induction k using Nat.strongRecOn with
  | ind k ih =>
    have same := sprout_parent charted place member
    cases up : h.parent? k with
    | none => rw [trail_of_no_parent up, trail_of_no_parent (same.trans up)]
    | some q =>
      rw [trail_of_parent up, trail_of_parent (same.trans up),
        ih q (parent_before up) (charted.parent_member member up)]
      exact congrArg (fun i => h.trail q ++ [i.name]) (sprout_identity charted place member)

theorem sprout_trail_new : (h.sprout id p name).trail h.arena.size = h.trail p ++ [name] := by
  have above : p ∈ h.keys := charted.toShaped.mem_keys.mpr ⟨place.inside, place.live⟩
  have new := (sprout_charted charted place).toShaped.key_of_mem
    ((sprout_keys charted place).mpr (Or.inr rfl))
  have up : (h.sprout id p name).parent? h.arena.size = some p := by
    rw [(sprout_charted charted place).toShaped.parent_of_live new.2, sprout_newborn place.inside]
    exact newborn_parent place.inside
  rw [trail_of_parent up, sprout_trail charted place above, sprout_newborn place.inside]
  rfl

theorem sprout_descend {names : List String} {k : Nat} :
    (h.sprout id p name).descend rootKey names = some k ↔
      h.descend rootKey names = some k ∨ k = h.arena.size ∧ names = h.trail p ++ [name] := by
  rw [(sprout_charted charted place).descend_iff, charted.descend_iff, sprout_keys charted place]
  constructor
  · rintro ⟨old | rfl, trail⟩
    · exact Or.inl ⟨old, (sprout_trail charted place old).symm.trans trail⟩
    · exact Or.inr ⟨rfl, trail.symm.trans (sprout_trail_new charted place)⟩
  · rintro (⟨old, trail⟩ | ⟨rfl, trail⟩)
    · exact ⟨Or.inl old, (sprout_trail charted place old).trans trail⟩
    · exact ⟨Or.inr rfl, (sprout_trail_new charted place).trans trail.symm⟩

end

theorem descend_snoc {names : List String} {name : String} {p : Nat}
    (found : h.descend rootKey names = some p) :
    h.descend rootKey (names ++ [name]) = h.childNamed p name := by
  rw [descend_append, found, Option.bind_some, descend]
  cases h.childNamed p name <;> rfl

/-- Where a path belongs: it is normal and its parent is in the tree. -/
structure Placed (h : Hierarchy cfg) (path : String) (names : List String) (name : String)
    (p : Nat) : Prop where
  normal : Path.IsNormal path
  ends : Path.components path = names ++ [name]
  parent : h.descend rootKey names = some p

structure Creatable (h : Hierarchy cfg) (path : String) (names : List String) (name : String)
    (p : Nat) : Prop extends Placed h path names name p where
  vacant : h.descend rootKey (names ++ [name]) = none

section
variable {path name : String} {names : List String} {p : Nat}

theorem Placed.create_path (charted : h.Charted) (placed : Placed h path names name p) :
    h.createPath path = match h.descend rootKey (names ++ [name]) with
      | some c => (h, .error (.node (.alreadyExists (h.node c).id)))
      | none => match h.freeId with
        | some id => (h.sprout id p name, .ok ⟨id⟩)
        | none => (h, .error (.node (.alreadyExists ⟨h.nextId⟩))) := by
  have parted := Path.parts_ok_iff.mpr ⟨names, placed.ends, placed.normal, rfl⟩
  have above : Path.components (Path.ofNames names) = names :=
    Path.components_of_names (Path.component_snoc placed.ends).1
  have entry := charted.entry (charted.descend_iff.mp placed.parent).1
  rw [descend_snoc placed.parent]
  simp only [createPath, parted, lookup, above, placed.parent, create, vacantParent, entry]
  cases h.childNamed p name with
  | some c => rfl
  | none => cases h.freeId <;> rfl

theorem Creatable.sprouts (charted : h.Charted) (creatable : Creatable h path names name p)
    {id : UInt64} (free : h.freeId = some id) :
    h.createPath path = (h.sprout id p name, .ok ⟨id⟩) := by
  rw [creatable.create_path charted, creatable.vacant, free]

theorem create_path_unplaced (none : ∀ names name p, ¬ Placed h path names name p) :
    ∃ reason, h.createPath path = (h, .error (.invalid path reason)) := by
  cases parted : Path.parts path with
  | error reason => exact ⟨reason, by simp only [createPath, parted]⟩
  | ok parts =>
    obtain ⟨parent, name⟩ := parts
    obtain ⟨names, ends, normal, rfl⟩ := Path.parts_ok_iff.mp parted
    have above : Path.components (Path.ofNames names) = names :=
      Path.components_of_names (Path.component_snoc ends).1
    cases found : h.descend rootKey names with
    | none => exact ⟨.noParent, by simp only [createPath, parted, lookup, above, found]⟩
    | some p => exact absurd ⟨normal, ends, found⟩ (none names name p)

theorem create_path_cases (charted : h.Charted) (path : String) :
    (∃ names name p id, Creatable h path names name p ∧ h.freeId = some id ∧
      h.createPath path = (h.sprout id p name, .ok ⟨id⟩)) ∨
    ∃ fault, h.createPath path = (h, .error fault) := by
  by_cases belongs : ∃ names name p, Placed h path names name p
  · obtain ⟨names, name, p, placed⟩ := belongs
    have run := placed.create_path charted
    cases vacant : h.descend rootKey (names ++ [name]) with
    | some c => exact Or.inr ⟨_, by rw [run, vacant]⟩
    | none =>
      cases free : h.freeId with
      | none => exact Or.inr ⟨_, by rw [run, vacant, free]⟩
      | some id =>
        exact Or.inl ⟨names, name, p, id, ⟨placed, vacant⟩, rfl, by rw [run, vacant, free]⟩
  · obtain ⟨reason, refused⟩ := create_path_unplaced fun names name p placed =>
      belongs ⟨names, name, p, placed⟩
    exact Or.inr ⟨_, refused⟩

theorem Creatable.place (charted : h.Charted) (creatable : Creatable h path names name p)
    {id : UInt64} (found : h.freeId = some id) : Vacancy h ⟨id⟩ p name := by
  have member := (charted.descend_iff.mp creatable.parent).1
  obtain ⟨inside, live⟩ := charted.toShaped.key_of_mem member
  exact ⟨inside, live, free_from_free found,
    (descend_snoc creatable.parent).symm.trans creatable.vacant⟩

end

structure Grown (h : Hierarchy cfg) (paths : List String) : Prop where
  charted : h.Charted
  normal : ∀ path ∈ paths, Path.IsNormal path
  filled : ∀ path ∈ paths, Path.components path ≠ []
  reached : ∀ names, (∀ n ∈ names, Path.IsComponent n) →
    ((∃ k, h.descend rootKey names = some k) ↔ names = [] ∨ Path.ofNames names ∈ paths)

theorem Grown.bare (charted : h.Charted) (bare : h.keys = [rootKey]) : h.Grown [] where
  charted := charted
  normal path member := absurd member (by simp)
  filled path member := absurd member (by simp)
  reached names _ := by
    constructor
    · rintro ⟨k, found⟩
      obtain ⟨member, trail⟩ := charted.descend_iff.mp found
      obtain rfl : k = rootKey := by simpa [bare] using member
      have top := (charted.one_tree.topmost rootKey member).mpr rfl
      exact Or.inl (trail.symm.trans (trail_of_no_parent top))
    · rintro (rfl | member)
      · exact ⟨rootKey, rfl⟩
      · exact absurd member (by simp)

theorem Grown.of_mem {seen paths : List String} (grown : h.Grown seen)
    (same : ∀ path, path ∈ paths ↔ path ∈ seen) : h.Grown paths where
  charted := grown.charted
  normal path member := grown.normal path ((same path).mp member)
  filled path member := grown.filled path ((same path).mp member)
  reached names fit := by rw [grown.reached names fit, same]

def Accepts (seen : List String) (path : String) : Prop :=
  ∃ parent, Layout.requiredParent path = some parent ∧ (parent = "/" ∨ parent ∈ seen) ∧ path ∉ seen

theorem check_after_cons {seen rest : List String} {path : String} :
    Layout.checkAfter seen (path :: rest) = .ok () ↔
      Accepts seen path ∧ Layout.checkAfter (path :: seen) rest = .ok () := by
  simp only [Layout.checkAfter, Accepts]
  cases required : Layout.requiredParent path with
  | none => simp
  | some parent =>
    by_cases late : parent ≠ "/" ∧ parent ∉ seen
    · simp [late]
    · have known : parent = "/" ∨ parent ∈ seen := by
        by_cases root : parent = "/"
        · exact Or.inl root
        · exact Or.inr (by_contra fun absent => late ⟨root, absent⟩)
      by_cases again : path ∈ seen
      · simp [late, again]
      · simp [late, again, known]

namespace Grown

variable {seen : List String} {path : String}

/-- An entry passes the check and has no empty component just when its node can be made. -/
theorem accepts_iff (grown : h.Grown seen) :
    Accepts seen path ∧ Path.hasEmptyComponent path.toList = false ↔
      ∃ names name p, Creatable h path names name p := by
  constructor
  · rintro ⟨⟨parent, required, known, new⟩, whole⟩
    have root : Path.components "/" = [] := rfl
    have normal : Path.IsNormal parent := by
      rcases known with rfl | listed
      · rfl
      · exact grown.normal parent listed
    obtain ⟨normal_path, name, ends⟩ := Layout.normal_of_required required normal whole
    obtain ⟨above, _⟩ := Path.component_snoc ends
    have all (n : String) (member : n ∈ Path.components path) : Path.IsComponent n :=
      Path.is_component_of_components member
    obtain ⟨p, found⟩ := (grown.reached _ above).mpr <| by
      rcases known with rfl | listed
      · exact Or.inl root
      · exact Or.inr (normal.symm ▸ listed)
    refine ⟨_, name, p, ⟨normal_path, ends, found⟩, ?_⟩
    cases taken : h.descend rootKey (Path.components parent ++ [name]) with
    | none => rfl
    | some k =>
      rcases (grown.reached _ all).mp ⟨k, ends ▸ taken⟩ with none | listed
      · exact absurd (ends.symm.trans none) (by simp)
      · rw [normal_path] at listed
        exact absurd listed new
  · rintro ⟨names, name, p, creatable⟩
    obtain ⟨above, fit⟩ := Path.component_snoc creatable.ends
    have text := creatable.normal.to_list_snoc creatable.ends
    refine ⟨⟨_, Layout.required_parent_of_snoc fit text, ?_, fun listed => ?_⟩, ?_⟩
    · rcases (grown.reached names above).mp ⟨p, creatable.parent⟩ with rfl | listed
      · exact Or.inl rfl
      · exact Or.inr listed
    · have all (n : String) (member : n ∈ Path.components path) : Path.IsComponent n :=
        Path.is_component_of_components member
      have normal : Path.ofNames (Path.components path) = path := creatable.normal
      obtain ⟨k, found⟩ := (grown.reached _ all).mpr (Or.inr (normal.symm ▸ listed))
      rw [creatable.ends, creatable.vacant] at found
      simp at found
    · rw [text, ← Path.stem_snoc, ← creatable.ends]
      exact Path.no_empty_stem fun _ => Path.is_component_of_components

theorem sprout (grown : h.Grown seen) {names : List String} {name : String} {p : Nat} {id : UInt64}
    (creatable : Creatable h path names name p) (free : h.freeId = some id) :
    (h.sprout id p name).Grown (path :: seen) := by
  have place := creatable.place grown.charted free
  have trail : h.trail p = names := (grown.charted.descend_iff.mp creatable.parent).2
  refine ⟨sprout_charted grown.charted place, ?_, ?_, ?_⟩
  · intro q member
    rcases List.mem_cons.mp member with rfl | old
    · exact creatable.normal
    · exact grown.normal q old
  · intro q member
    rcases List.mem_cons.mp member with rfl | old
    · rw [creatable.ends]
      simp
    · exact grown.filled q old
  · intro others fit
    have leads {k : Nat} : (h.sprout id p name).descend rootKey others = some k ↔
        h.descend rootKey others = some k ∨ k = h.arena.size ∧ others = names ++ [name] := by
      rw [← trail]
      exact sprout_descend grown.charted place
    constructor
    · rintro ⟨k, found⟩
      rcases leads.mp found with old | ⟨_, new⟩
      · rcases (grown.reached others fit).mp ⟨k, old⟩ with rfl | listed
        · exact Or.inl rfl
        · exact Or.inr (List.mem_cons_of_mem _ listed)
      · rw [new, ← creatable.ends, creatable.normal]
        exact Or.inr (List.mem_cons_self)
    · rintro (rfl | listed)
      · exact ⟨rootKey, rfl⟩
      · rcases List.mem_cons.mp listed with same | old
        · have ends : others = names ++ [name] := by
            rw [← creatable.ends, ← same, Path.components_of_names fit]
          exact ⟨_, leads.mpr (Or.inr ⟨rfl, ends⟩)⟩
        · obtain ⟨k, found⟩ := (grown.reached others fit).mpr (Or.inr old)
          exact ⟨k, leads.mpr (Or.inl found)⟩

end Grown

inductive Plants : Hierarchy cfg → List String → List NodeId → Hierarchy cfg → Prop where
  | nil (h : Hierarchy cfg) : Plants h [] [] h
  | cons {h h' : Hierarchy cfg} {path name : String} {names rest : List String} {p : Nat}
      {id : UInt64} {ids : List NodeId} (creatable : Creatable h path names name p)
      (free : h.freeId = some id) (later : Plants (h.sprout id p name) rest ids h') :
      Plants h (path :: rest) (⟨id⟩ :: ids) h'

theorem create_all_cases (charted : h.Charted) (paths : List String) :
    ∃ made rest ids h', paths = made ++ rest ∧ Plants h made ids h' ∧
      (rest = [] ∧ Layout.createAll h paths = (h', .ok ids) ∨
        ∃ path later fault, rest = path :: later ∧ h'.createPath path = (h', .error fault) ∧
          Layout.createAll h paths = (h', .error fault)) := by
  induction paths generalizing h with
  | nil => exact ⟨[], [], [], h, rfl, .nil h, Or.inl ⟨rfl, rfl⟩⟩
  | cons path others ih =>
    rcases create_path_cases charted path with
      ⟨names, name, p, id, creatable, free, run⟩ | ⟨fault, run⟩
    · obtain ⟨made, rest, ids, h', parted, planted, ends⟩ :=
        ih (sprout_charted charted (creatable.place charted free))
      refine ⟨path :: made, rest, ⟨id⟩ :: ids, h', by rw [parted]; rfl,
        .cons creatable free planted, ?_⟩
      rcases ends with ⟨done, all⟩ | ⟨next, later, fault, stop, refused, all⟩
      · exact Or.inl ⟨done, by simp only [Layout.createAll, run, all]⟩
      · exact Or.inr ⟨next, later, fault, stop, refused, by simp only [Layout.createAll, run, all]⟩
    · exact ⟨[], path :: others, [], h, rfl, .nil h,
        Or.inr ⟨path, others, fault, rfl, run, by simp only [Layout.createAll, run]⟩⟩

theorem create_all_ok_iff (charted : h.Charted) {paths : List String} {h' : Hierarchy cfg}
    {ids : List NodeId} : Layout.createAll h paths = (h', .ok ids) ↔ Plants h paths ids h' := by
  constructor
  · intro all
    obtain ⟨made, rest, others, after, rfl, planted, ends⟩ := create_all_cases charted paths
    rcases ends with ⟨rfl, done⟩ | ⟨_, _, _, _, _, failed⟩
    · rw [done, Prod.mk.injEq, Except.ok.injEq] at all
      obtain ⟨rfl, rfl⟩ := all
      rwa [List.append_nil]
    · simp [failed] at all
  · intro planted
    induction planted with
    | nil h => rfl
    | cons creatable free _ ih =>
      have later := ih (sprout_charted charted (creatable.place charted free))
      simp only [Layout.createAll, creatable.sprouts charted free, later]

theorem build_ok_iff {l : Layout} {ids : List NodeId} {h' : Hierarchy cfg} :
    l.build h = (h', .ok ids) ↔
      l.validate = .ok () ∧ Layout.createAll h l.nodes = (h', .ok ids) := by
  unfold Layout.build
  cases l.validate with
  | error fault => simp
  | ok _ =>
    cases Layout.createAll h l.nodes with
    | mk after outcome => cases outcome <;> simp

namespace Plants

variable {h' : Hierarchy cfg} {paths seen : List String} {ids : List NodeId}

theorem grown (planted : Plants h paths ids h') (before : h.Grown seen) :
    h'.Grown (paths.reverse ++ seen) := by
  induction planted generalizing seen with
  | nil h => exact before
  | cons creatable free _ ih =>
    rw [List.reverse_cons, List.append_assoc]
    exact ih (before.sprout creatable free)

theorem listed (planted : Plants h paths ids h') {i : NodeId} :
    (∃ k, h'.index[i]? = some k) ↔ (∃ k, h.index[i]? = some k) ∨ i ∈ ids := by
  induction planted with
  | nil h => simp
  | @cons h h' path name names rest p id ids creatable free later ih =>
    rw [ih, List.mem_cons]
    simp only [sprout_index]
    by_cases same : (⟨id⟩ : NodeId) = i
    · simp [same]
    · simp [same, Ne.symm same]

theorem stays (planted : Plants h paths ids h') (charted : h.Charted) {names : List String}
    {k : Nat} (found : h.descend rootKey names = some k) :
    h'.descend rootKey names = some k ∧ (h'.node k).id = (h.node k).id := by
  induction planted with
  | nil h => exact ⟨found, rfl⟩
  | cons creatable free _ ih =>
    have place := creatable.place charted free
    have member := (charted.descend_iff.mp found).1
    obtain ⟨still, same⟩ := ih (sprout_charted charted place)
      ((sprout_descend charted place).mpr (Or.inl found))
    exact ⟨still, same.trans (congrArg Identity.id (sprout_identity charted place member))⟩

theorem lookups (planted : Plants h paths ids h') (charted : h.Charted) :
    paths.map h'.lookupId = ids.map some := by
  induction planted with
  | nil h => rfl
  | @cons h h' path name names rest p id ids creatable free later ih =>
    have place := creatable.place charted free
    have after := sprout_charted charted place
    have trail : h.trail p = names := (charted.descend_iff.mp creatable.parent).2
    have made := (sprout_descend charted place (k := h.arena.size)).mpr
      (Or.inr ⟨rfl, creatable.ends.trans (trail ▸ rfl)⟩)
    obtain ⟨found, same⟩ := later.stays after made
    rw [List.map_cons, List.map_cons, ih after]
    simp only [lookupId, lookup, found, Option.map_some, same, sprout_id place.inside]

end Plants

namespace Grown

variable {seen : List String}

theorem check_iff (grown : h.Grown seen) {paths : List String}
    (room : h.index.size + paths.length ≤ UInt64.size) :
    (Layout.checkAfter seen paths = .ok () ∧
      ∀ path ∈ paths, Path.hasEmptyComponent path.toList = false) ↔
      ∃ ids h', Plants h paths ids h' := by
  -- the check sees exactly the nodes made so far
  induction paths generalizing h seen with
  | nil => simpa [Layout.checkAfter] using ⟨[], h, .nil h⟩
  | cons path rest ih =>
    rw [List.length_cons] at room
    rw [check_after_cons, List.forall_mem_cons]
    constructor
    · rintro ⟨⟨accepted, checked⟩, whole, others⟩
      obtain ⟨names, name, p, creatable⟩ := grown.accepts_iff.mp ⟨accepted, whole⟩
      obtain ⟨id, free⟩ := free_id_found (h := h) (by omega)
      have left : (h.sprout id p name).index.size + rest.length ≤ UInt64.size := by
        rw [sprout_size (creatable.place grown.charted free)]
        omega
      obtain ⟨ids, h', later⟩ := (ih (grown.sprout creatable free) left).mp ⟨checked, others⟩
      exact ⟨_, h', .cons creatable free later⟩
    · rintro ⟨ids, h', planted⟩
      cases planted with
      | @cons _ _ _ name names _ p id _ creatable free later =>
        have left : (h.sprout id p name).index.size + rest.length ≤ UInt64.size := by
          rw [sprout_size (creatable.place grown.charted free)]
          omega
        obtain ⟨checked, others⟩ := (ih (grown.sprout creatable free) left).mpr ⟨_, _, later⟩
        obtain ⟨accepted, whole⟩ := grown.accepts_iff.mpr ⟨names, name, p, creatable⟩
        exact ⟨⟨accepted, checked⟩, whole, others⟩

end Grown

end Hierarchy

namespace Session

open Hierarchy

theorem validate_ok_iff {nodes : List String} (filled : nodes ≠ []) :
    (Layout.mk nodes).validate = .ok () ↔ Layout.checkAfter [] nodes = .ok () := by
  simp only [Layout.validate, if_neg filled]
  cases Layout.checkAfter [] nodes <;> simp

/-- Where only the root is in the tree, all entries of a list can be made in turn just when the list
    is a valid layout and no entry has an empty component; and then the layout is built whole, and
    every entry leads to its node. -/
theorem valid_layouts_built (cfg : Config) (steps : List Step) {nodes : List String}
    (filled : nodes ≠ []) (few : nodes.length < UInt64.size)
    (bare : ((start cfg).run steps).hierarchy.keys = [rootKey]) :
    let h := ((start cfg).run steps).hierarchy
    let layout : Layout := ⟨nodes⟩
    ((∃ h' ids, Layout.createAll h nodes = (h', .ok ids)) ↔
      layout.validate = .ok () ∧ ∀ path ∈ nodes, Path.hasEmptyComponent path.toList = false) ∧
    (layout.validate = .ok () → (∀ path ∈ nodes, Path.hasEmptyComponent path.toList = false) →
      ∃ h' ids, layout.build h = (h', .ok ids) ∧ nodes.map h'.lookupId = ids.map some) := by
  intro h layout
  have charted : h.Charted := run_charted cfg steps
  have room : h.index.size + nodes.length ≤ UInt64.size := by
    have one : h.index.size = 1 := by
      rw [← Std.ExtTreeMap.length_toList, ← List.length_map (f := Prod.snd), ← IdMap.values_eq_map]
      exact congrArg List.length bare
    omega
  have agree := (Grown.bare charted bare).check_iff room
  rw [← validate_ok_iff filled] at agree
  constructor
  · rw [agree]
    constructor
    · rintro ⟨h', ids, run⟩
      exact ⟨ids, h', (create_all_ok_iff charted).mp run⟩
    · rintro ⟨ids, h', planted⟩
      exact ⟨h', ids, (create_all_ok_iff charted).mpr planted⟩
  · intro valid whole
    obtain ⟨ids, h', planted⟩ := agree.mp ⟨valid, whole⟩
    have run := (create_all_ok_iff charted).mpr planted
    refine ⟨h', ids, ?_, planted.lookups charted⟩
    simp only [Layout.build, valid, layout, run]

/-- The root alone, after a node has come and gone; the ids start over when the last is taken. -/
def regrownSteps : List Step :=
  [.createWithId ⟨18446744073709551615⟩ NodeId.root "a", .remove ⟨18446744073709551615⟩]

theorem regrown_built :
    let h := ((start ⟨1⟩).run regrownSteps).hierarchy
    ∃ h' ids, (Layout.mk ["/a", "/a/b"]).build h = (h', .ok ids) ∧
      ["/a", "/a/b"].map h'.lookupId = ids.map some := by
  intro h
  exact (valid_layouts_built ⟨1⟩ regrownSteps (by decide) (by decide) (by decide +kernel)).2
    (by decide +kernel) (by decide +kernel)

/-- The check takes the slash before the last one for the root. -/
theorem doubled_slash_validated :
    (Layout.mk ["//a"]).validate = .ok () ∧
      (Layout.createAll (Hierarchy.new ⟨1⟩) ["//a"]).2 =
        .error (.invalid "//a" .emptyComponent) ∧
      ((Layout.mk ["//a"]).build (Hierarchy.new ⟨1⟩)).2 =
        .error (.path (.invalid "//a" .emptyComponent)) := by
  decide +kernel

end Session

end Rollup
