import Mathlib
import Rollup.Proofs.BuiltLayouts

/-!
What a layout's text says about the tree built from it. An entry lies within another when it is that
entry or goes on from it after a slash. For normal paths this is so just when the names of the one
begin the names of the other (`within_iff`), and so just when the one node is in the lineage of the
other (`lineage_iff`). Nothing but itself lies within a leaf of a built layout.
-/
namespace Rollup

namespace Text

theorem split_append (sep : Char) (first rest : List Char) :
    split sep (first ++ sep :: rest) = split sep first ++ split sep rest := by
  induction first with
  | nil => simp [split]
  | cons c more ih =>
    rw [List.cons_append, split, ih]
    by_cases same : c = sep
    · simp [split, same]
    · cases pieces : split sep more with
      | nil => exact absurd pieces (split_nonempty sep more)
      | cons piece others => simp [split, same, pieces]

end Text

namespace Layout

variable {l : Layout} {path : String}

theorem mem_leaves : path ∈ l.leaves ↔
    path ∈ l.nodes ∧ ∀ lower ∈ l.nodes, parentText lower ≠ some path := by
  simp [leaves]

end Layout

namespace Path

variable {path place : String}

theorem components_append {first rest : List Char} (text : path.toList = first ++ '/' :: rest) :
    components path = components (String.ofList first) ++ components (String.ofList rest) := by
  simp only [components, text, Text.split_append, List.filter_append, List.map_append,
    String.toList_ofList]

def isWithin (path place : String) : Bool :=
  path = place || (place.toList ++ ['/']).isPrefixOf path.toList

theorem within_iff (first : IsNormal place) (second : IsNormal path)
    (filled : components place ≠ []) :
    isWithin path place = true ↔ components place <+: components path := by
  have text (q : String) (normal : IsNormal q) (some : components q ≠ []) :
      q.toList = stem (components q) := by
    rw [← of_names_filled some, normal]
  simp only [isWithin, Bool.or_eq_true, decide_eq_true_eq, List.isPrefixOf_iff_prefix]
  constructor
  · rintro (rfl | ⟨rest, same⟩)
    · exact List.prefix_refl _
    · rw [List.append_assoc] at same
      rw [components_append same.symm, String.ofList_toList]
      exact List.prefix_append _ _
  · rintro ⟨rest, same⟩
    cases rest with
    | nil =>
      rw [List.append_nil] at same
      exact Or.inl (second.ext first same.symm)
    | cons name more =>
      have some : components path ≠ [] := by
        rw [← same]
        simp
      refine Or.inr ⟨name.toList ++ stem more, ?_⟩
      rw [text place first filled, text path second some, ← same]
      simp [stem]

end Path

namespace Hierarchy

variable {cfg : Config} {h : Hierarchy cfg} {nodes : List String}

theorem Charted.trail_inj (charted : h.Charted) {j k : Nat} (first : j ∈ h.keys)
    (second : k ∈ h.keys) (same : h.trail j = h.trail k) : j = k := by
  have left := charted.descend_iff.mpr ⟨first, same⟩
  have right := charted.descend_iff.mpr ⟨second, rfl⟩
  exact Option.some.inj (left.symm.trans right)

theorem Charted.lineage_iff (charted : h.Charted) {n k : Nat} (above : n ∈ h.keys)
    (member : k ∈ h.keys) : n ∈ h.lineage k ↔ h.trail n <+: h.trail k := by
  induction k using Nat.strongRecOn with
  | ind k ih =>
    have same := charted.trail_inj above member
    have self : n = k → h.trail n = h.trail k := fun equal => equal ▸ rfl
    have link := charted.toShaped.parent_of_live (charted.toShaped.key_of_mem member).2
    rw [mem_lineage, ← link]
    cases up : h.parent? k with
    | none =>
      rw [trail_of_no_parent up] at same self ⊢
      rw [List.prefix_nil]
      simpa using ⟨self, same⟩
    | some p =>
      rw [trail_of_parent up] at same self ⊢
      rw [List.prefix_concat_iff, ← ih p (parent_before up) (charted.parent_member member up)]
      simpa using or_congr_left ⟨self, same⟩

namespace Grown

variable (grown : h.Grown nodes) {path place : String}
include grown

theorem leads (member : path ∈ nodes) :
    ∃ k ∈ h.keys, h.lookup path = some k ∧ h.trail k = Path.components path := by
  have all (n : String) (among : n ∈ Path.components path) : Path.IsComponent n :=
    Path.is_component_of_components among
  have listed : Path.ofNames (Path.components path) ∈ nodes := by
    rwa [grown.normal path member]
  obtain ⟨k, found⟩ := (grown.reached _ all).mpr (Or.inr listed)
  obtain ⟨among, trail⟩ := grown.charted.descend_iff.mp found
  exact ⟨k, among, found, trail⟩

/-- Below an entry that another one goes on from, there is an entry whose parent text it is. -/
theorem parent_text (lower : path ∈ nodes) (upper : place ∈ nodes) (other : path ≠ place)
    (inside : Path.components place <+: Path.components path) :
    ∃ child ∈ nodes, Layout.parentText child = some place := by
  obtain ⟨rest, same⟩ := inside
  cases rest with
  | nil =>
    rw [List.append_nil] at same
    exact absurd ((grown.normal path lower).ext (grown.normal place upper) same.symm) other
  | cons name more =>
    have fit (n : String) (member : n ∈ Path.components place ++ [name]) : Path.IsComponent n := by
      have among : n ∈ Path.components path := by
        rw [← same]
        rcases List.mem_append.mp member with old | new
        · exact List.mem_append_left _ old
        · exact List.mem_append_right _ (by simp [List.mem_singleton.mp new])
      exact Path.is_component_of_components among
    obtain ⟨k, _, found, _⟩ := grown.leads lower
    have step : h.descend rootKey (Path.components place ++ [name] ++ more) = some k := by
      rw [List.append_assoc, List.singleton_append, same]
      exact found
    rw [descend_append, Option.bind_eq_some_iff] at step
    obtain ⟨c, reached, _⟩ := step
    rcases (grown.reached _ fit).mp ⟨c, reached⟩ with none | listed
    · exact absurd none (by simp)
    · exact ⟨_, listed, (Layout.parent_text_iff (grown.normal _ listed) (grown.filled _ listed)
        (grown.normal place upper) (grown.filled place upper)).mpr
          ⟨name, Path.components_of_names fit⟩⟩

theorem within_leaf (lower : path ∈ nodes) (leaf : place ∈ (Layout.mk nodes).leaves) :
    Path.isWithin path place = true ↔ path = place := by
  obtain ⟨upper, lone⟩ := Layout.mem_leaves.mp leaf
  constructor
  · intro inside
    by_contra other
    have names := (Path.within_iff (grown.normal place upper) (grown.normal path lower)
      (grown.filled place upper)).mp inside
    obtain ⟨child, member, same⟩ := grown.parent_text lower upper other names
    exact lone child member same
  · rintro rfl
    simp [Path.isWithin]

end Grown

end Hierarchy

end Rollup
