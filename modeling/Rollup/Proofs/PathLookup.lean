import Mathlib
import Rollup.Proofs.OneTree

/-!
Paths and the nodes they name. A node's trail lists the names from below the root down to it, and a
path leads to the node whose trail is the list of its components. The text of a trail has the names
of the trail as its components just when all of these could be components at all: names are any
text, but no component is empty or has a slash in it.

Look-up takes names one by one from the root, so it is taken apart at the last name: that name picks
one child of the node that the names before it lead to.
-/
namespace Rollup

namespace Text

theorem split_eq_split_on (sep : Char) (text : List Char) : split sep text = text.splitOn sep := by
  induction text with
  | nil => rfl
  | cons c rest ih =>
    have some_piece := split_nonempty sep rest
    rw [ih] at some_piece
    simp only [split, ih, List.splitOn, List.splitOnP_cons_eq_if_modifyHead] at some_piece ⊢
    by_cases same : c = sep
    · simp [same]
    · cases pieces : rest.splitOnP (· == sep) with
      | nil => exact absurd pieces some_piece
      | cons piece more => simp [same]

theorem join_eq_intercalate (sep : List Char) (pieces : List (List Char)) :
    join sep pieces = sep.intercalate pieces := by
  induction pieces with
  | nil => rfl
  | cons piece more ih =>
    cases more with
    | nil => simp [join]
    | cons next more => rw [List.intercalate_cons_cons, join, ih]; simp

theorem not_mem_of_split {sep : Char} {text piece : List Char} (member : piece ∈ split sep text) :
    sep ∉ piece := by
  induction text generalizing piece with
  | nil =>
    obtain rfl : piece = [] := by simpa [split] using member
    simp
  | cons c rest ih =>
    simp only [split] at member
    split at member
    · rcases List.mem_cons.mp member with rfl | later
      · simp
      · exact ih later
    · rename_i other
      cases pieces : split sep rest with
      | nil => exact absurd pieces (split_nonempty sep rest)
      | cons first more =>
        rw [pieces] at ih member
        rcases List.mem_cons.mp member with rfl | later
        · rw [List.mem_cons, not_or]
          exact ⟨Ne.symm other, ih (by simp)⟩
        · exact ih (by simp [later])

end Text

namespace Path

def IsComponent (name : String) : Prop := name ≠ "" ∧ '/' ∉ name.toList

theorem is_component_of_components {path name : String} (member : name ∈ components path) :
    IsComponent name := by
  obtain ⟨piece, kept, rfl⟩ := List.mem_map.mp member
  obtain ⟨among, filled⟩ := List.mem_filter.mp kept
  have nonempty : piece ≠ [] := by simpa using filled
  refine ⟨?_, ?_⟩
  · simpa using nonempty
  · simpa using Text.not_mem_of_split among

theorem components_of_names {names : List String} (fit : ∀ n ∈ names, IsComponent n) :
    components (ofNames names) = names := by
  have lead (text : List Char) : Text.split '/' ('/' :: text) = [] :: Text.split '/' text := by
    simp [Text.split]
  cases names with
  | nil => rfl
  | cons first more =>
    have whole : Text.split '/' (Text.join ['/'] ((first :: more).map String.toList)) =
        (first :: more).map String.toList := by
      rw [Text.join_eq_intercalate, Text.split_eq_split_on]
      apply List.splitOn_intercalate
      · intro piece member
        obtain ⟨name, among, rfl⟩ := List.mem_map.mp member
        exact (fit name among).2
      · simp
    have filled : (first :: more).map String.toList =
        ((first :: more).map String.toList).filter fun piece => !piece.isEmpty := by
      symm
      apply List.filter_eq_self.mpr
      intro piece member
      obtain ⟨name, among, rfl⟩ := List.mem_map.mp member
      have nonempty := (fit name among).1
      simpa using nonempty
    rw [components, ofNames, String.toList_ofList, lead, whole, List.filter_cons_of_neg (by simp),
      ← filled, List.map_map]
    simp [Function.comp_def]

theorem components_of_names_iff {names : List String} :
    components (ofNames names) = names ↔ ∀ n ∈ names, IsComponent n := by
  constructor
  · intro back n member
    rw [← back] at member
    exact is_component_of_components member
  · exact components_of_names

end Path

namespace Hierarchy

variable {cfg : Config} {h : Hierarchy cfg}

def trail (h : Hierarchy cfg) (k : Nat) : List String :=
  (h.chain k).dropLast.reverse.map fun a => (h.node a).name

theorem trail_of_parent {k p : Nat} (up : h.parent? k = some p) :
    h.trail k = h.trail p ++ [(h.node k).name] := by
  have filled : h.chain p ≠ [] := List.ne_nil_of_mem (self_mem_chain h p)
  rw [trail, chain_of_parent up, List.dropLast_cons_of_ne_nil filled, List.reverse_cons,
    List.map_append, trail]
  rfl

theorem trail_of_no_parent {k : Nat} (top : h.parent? k = none) : h.trail k = [] := by
  rw [trail, chain_of_no_parent top]
  rfl

theorem descend_append (k : Nat) (names more : List String) :
    h.descend k (names ++ more) = (h.descend k names).bind fun p => h.descend p more := by
  induction names generalizing k with
  | nil => rfl
  | cons name names ih =>
    simp only [List.cons_append, descend]
    cases h.childNamed k name with
    | none => rfl
    | some c => exact ih c

section
variable (charted : h.Charted)
include charted

theorem Charted.path_of_trail {k : Nat} (member : k ∈ h.keys) :
    h.pathOf k = Path.ofNames (h.trail k) := by
  have link {j : Nat} (among : j ∈ h.keys) : (h.node j).parent = h.parent? j :=
    (charted.toShaped.parent_of_live (charted.toShaped.key_of_mem among).2).symm
  -- of the nodes on a chain of the tree only the root is at the top
  have names {j : Nat} (among : j ∈ h.keys) :
      ((h.chain j).filter fun a => !(h.node a).isTop).reverse.map (fun a => (h.node a).name) =
        h.trail j := by
    induction j using Nat.strongRecOn with
    | ind j ih =>
      have known := link among
      cases up : h.parent? j with
      | none => simp [chain_of_no_parent up, trail_of_no_parent up, Node.isTop, known, up]
      | some p =>
        have above := ih p (parent_before up) (charted.parent_member among up)
        have inner : (!(h.node j).isTop) = true := by simp [Node.isTop, known, up]
        rw [chain_of_parent up, List.filter_cons, if_pos inner, List.reverse_cons, List.map_append,
          above, trail_of_parent up]
        rfl
  have top : (h.node k).isTop = (h.parent? k).isNone := by rw [Node.isTop, link member]
  cases up : h.parent? k with
  | none =>
    rw [pathOf, top, up, if_pos Option.isNone_none, trail_of_no_parent up]
    rfl
  | some p =>
    rw [pathOf, top, up, names member]
    rfl

theorem Charted.child_named_iff {p c : Nat} {name : String} (member : p ∈ h.keys) :
    h.childNamed p name = some c ↔
      c ∈ h.keys ∧ h.parent? c = some p ∧ (h.node c).name = name := by
  have tree := charted.one_tree
  have listed {c : Nat} : c ∈ (h.node p).children.values ↔ c ∈ h.keys ∧ h.parent? c = some p := by
    rw [IdMap.mem_values, keys, IdMap.mem_values]
    constructor
    · rintro ⟨id, found⟩
      obtain ⟨entry, up⟩ := (tree.downward p member id c).mp found
      exact ⟨⟨id, entry⟩, up⟩
    · rintro ⟨⟨id, entry⟩, up⟩
      exact ⟨id, (tree.downward p member id c).mpr ⟨entry, up⟩⟩
  have found {c : Nat} (run : h.childNamed p name = some c) :
      c ∈ h.keys ∧ h.parent? c = some p ∧ (h.node c).name = name := by
    have child := listed.mp (List.mem_of_find?_eq_some run)
    have named := List.find?_some run
    exact ⟨child.1, child.2, by simpa using named⟩
  refine ⟨found, ?_⟩
  rintro ⟨among, up, named⟩
  cases run : h.childNamed p name with
  | none =>
    have missed := List.find?_eq_none.mp run c (listed.mpr ⟨among, up⟩)
    exact absurd named (by simpa using missed)
  | some d =>
    obtain ⟨other, up', named'⟩ := found run
    rw [tree.named d other c among p up' up (named'.trans named.symm)]

theorem Charted.descend_iff {names : List String} {k : Nat} :
    h.descend rootKey names = some k ↔ k ∈ h.keys ∧ h.trail k = names := by
  have tree := charted.one_tree
  have root : rootKey ∈ h.keys := IdMap.mem_values.mpr ⟨_, tree.rooted.1⟩
  -- by induction on the names from the last one back, as trails grow at their ends
  induction names using List.reverseRecOn generalizing k with
  | nil =>
    simp only [descend, Option.some.injEq]
    constructor
    · rintro rfl
      exact ⟨root, trail_of_no_parent ((tree.topmost _ root).mpr rfl)⟩
    · rintro ⟨member, short⟩
      cases up : h.parent? k with
      | none => exact ((tree.topmost k member).mp up).symm
      | some p =>
        rw [trail_of_parent up] at short
        exact absurd short (by simp)
  | append_singleton names name ih =>
    have last (p : Nat) : h.descend p [name] = h.childNamed p name := by
      simp only [descend]
      cases h.childNamed p name <;> rfl
    rw [descend_append, Option.bind_eq_some_iff]
    constructor
    · rintro ⟨p, reached, step⟩
      obtain ⟨member, trail⟩ := ih.mp reached
      obtain ⟨child, up, named⟩ := (charted.child_named_iff member).mp ((last p).symm.trans step)
      exact ⟨child, by rw [trail_of_parent up, trail, named]⟩
    · rintro ⟨member, trail⟩
      cases up : h.parent? k with
      | none =>
        rw [trail_of_no_parent up] at trail
        exact absurd trail (by simp)
      | some p =>
        rw [trail_of_parent up] at trail
        obtain ⟨before, named⟩ := List.append_inj' trail rfl
        have above := charted.parent_member member up
        refine ⟨p, ih.mpr ⟨above, before⟩, (last p).trans ?_⟩
        exact (charted.child_named_iff above).mpr ⟨member, up, List.head_eq_of_cons_eq named⟩

theorem Charted.lookup_id_iff {path : String} {id : NodeId} :
    h.lookupId path = some id ↔
      ∃ k, h.index[id]? = some k ∧ h.trail k = Path.components path := by
  rw [lookupId, Option.map_eq_some_iff]
  constructor
  · rintro ⟨k, reached, rfl⟩
    obtain ⟨member, trail⟩ := charted.descend_iff.mp reached
    exact ⟨k, charted.entry member, trail⟩
  · rintro ⟨k, found, trail⟩
    have member : k ∈ h.keys := IdMap.mem_values.mpr ⟨id, found⟩
    exact ⟨k, charted.descend_iff.mpr ⟨member, trail⟩, (charted.indexed found).2.1⟩

end

end Hierarchy

namespace Session

open Hierarchy

/-- A path leads to a node of the tree just when its components are the names down to the node, and
    a node's own path leads back to it just when all those names can be components. -/
theorem lookup_of_paths (cfg : Config) (steps : List Step) :
    let h := ((start cfg).run steps).hierarchy
    (∀ path id, h.lookupId path = some id ↔
      ∃ k, h.index[id]? = some k ∧ h.trail k = Path.components path) ∧
    (∀ path other id, h.lookupId path = some id → h.lookupId other = some id →
      Path.components path = Path.components other) ∧
    ∀ id k, h.index[id]? = some k →
      (h.lookupId (h.pathOf k) = some id ↔ ∀ n ∈ h.trail k, n ≠ "" ∧ '/' ∉ n.toList) := by
  intro h
  have charted : h.Charted := run_charted cfg steps
  have leads (path : String) (id : NodeId) : h.lookupId path = some id ↔
      ∃ k, h.index[id]? = some k ∧ h.trail k = Path.components path := charted.lookup_id_iff
  refine ⟨leads, ?_, ?_⟩
  · intro path other id first second
    obtain ⟨j, found, trail⟩ := (leads path id).mp first
    obtain ⟨k, again, same⟩ := (leads other id).mp second
    obtain rfl := Option.some.inj (found.symm.trans again)
    exact trail.symm.trans same
  · intro id k found
    have back : h.lookupId (h.pathOf k) = some id ↔
        Path.components (Path.ofNames (h.trail k)) = h.trail k := by
      rw [leads, charted.path_of_trail (IdMap.mem_values.mpr ⟨id, found⟩)]
      constructor
      · rintro ⟨j, again, trail⟩
        obtain rfl := Option.some.inj (found.symm.trans again)
        exact trail.symm
      · intro same
        exact ⟨k, found, same.symm⟩
    exact back.trans Path.components_of_names_iff

/-- A node named `b` below `a` beside one that is named `a/b`, and one without a name. -/
def likeNamedSteps : List Step :=
  [.create NodeId.root "a", .create ⟨2⟩ "b", .create NodeId.root "a/b", .create NodeId.root ""]

theorem lookup_of_like_names :
    let h := ((start ⟨1⟩).run likeNamedSteps).hierarchy
    h.pathOf 2 = h.pathOf 3 ∧ h.lookupId "a//b/" = some ⟨3⟩ ∧
      h.lookupId (h.pathOf 2) = some ⟨3⟩ ∧ h.lookupId (h.pathOf 3) ≠ some ⟨4⟩ := by
  obtain ⟨leads, _, back⟩ := lookup_of_paths ⟨1⟩ likeNamedSteps
  refine ⟨by decide +kernel, (leads _ _).mpr ⟨2, by decide +kernel⟩, ?_, ?_⟩
  · exact (back ⟨3⟩ 2 (by decide +kernel)).mpr (by decide +kernel)
  · intro same
    exact absurd ((back ⟨4⟩ 3 (by decide +kernel)).mp same) (by decide +kernel)

end Session

end Rollup
