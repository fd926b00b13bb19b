import Mathlib
import Rollup.Layout
import Rollup.Proofs.PathLookup

/-!
The text of paths. A path is normal when its components, joined again, give it back: it begins with
a slash, and no slash but that of the root is the last or follows another. These are the paths at
which nodes can be made, and `parts_ok_iff` parts one at its last name.

A layout's check parts its entries at the last slash alone, which is less: what comes before may be
any text. Where that is a normal path and no component is empty, the entry is normal too
(`normal_of_required`).
-/
namespace Rollup

namespace Text

variable {sep : Char} {text before after : List Char}

theorem cut_last_none_iff : cutLast sep text = none ↔ sep ∉ text := by
  induction text with
  | nil => simp [cutLast]
  | cons c rest ih =>
    simp only [cutLast, List.mem_cons, not_or]
    cases inner : cutLast sep rest with
    | some parts =>
      rw [inner] at ih
      have member : sep ∈ rest := by simpa using ih
      simp [member]
    | none =>
      have clean : sep ∉ rest := ih.mp inner
      by_cases same : c = sep
      · simp [same]
      · simp [same, clean, Ne.symm same]

theorem cut_last_append (before : List Char) (clean : sep ∉ after) :
    cutLast sep (before ++ sep :: after) = some (before, after) := by
  induction before with
  | nil => simp [cutLast, cut_last_none_iff.mpr clean]
  | cons c rest ih => simp [cutLast, ih]

theorem not_mem_of_cut_last (cut : cutLast sep text = some (before, after)) : sep ∉ after := by
  induction text generalizing before with
  | nil => simp [cutLast] at cut
  | cons c rest ih =>
    simp only [cutLast] at cut
    split at cut
    · rename_i inner
      simp only [Option.some.injEq, Prod.mk.injEq] at cut
      exact ih (cut.2 ▸ inner)
    · rename_i inner
      split at cut
      · simp only [Option.some.injEq, Prod.mk.injEq] at cut
        exact cut.2 ▸ cut_last_none_iff.mp inner
      · simp at cut

end Text

namespace Path

variable {names : List String} {name path : String} {text : List Char}

theorem has_empty_iff : hasEmptyComponent text = true ↔ ['/', '/'] <:+: text := by
  induction text using hasEmptyComponent.induct with
  | case1 rest => simpa [hasEmptyComponent] using (List.prefix_append ['/', '/'] rest).isInfix
  | case2 c rest other ih =>
    have first : ¬ ['/', '/'] <+: c :: rest := by
      rintro ⟨tail, same⟩
      simp only [List.cons_append, List.nil_append, List.cons.injEq] at same
      exact other tail same.1.symm same.2.symm
    rw [hasEmptyComponent, ih, List.infix_cons_iff]
    · simp [first]
    · exact other
  | case3 => simp [hasEmptyComponent]

def stem (names : List String) : List Char := names.flatMap fun n => '/' :: n.toList

theorem stem_snoc (names : List String) (name : String) :
    stem (names ++ [name]) = stem names ++ '/' :: name.toList := by
  simp [stem]

theorem of_names_filled (filled : names ≠ []) : (ofNames names).toList = stem names := by
  have joined (first : String) (more : List String) :
      '/' :: Text.join ['/'] ((first :: more).map String.toList) = stem (first :: more) := by
    induction more generalizing first with
    | nil => simp [stem, Text.join]
    | cons next more ih =>
      have rest := ih next
      simp only [List.map_cons, Text.join] at rest ⊢
      simp [stem] at rest ⊢
      exact rest
  cases names with
  | nil => exact absurd rfl filled
  | cons first more => rw [ofNames, String.toList_ofList, joined]

theorem of_names_snoc (names : List String) (name : String) :
    (ofNames (names ++ [name])).toList = stem names ++ '/' :: name.toList := by
  rw [of_names_filled (by simp), stem_snoc]

theorem of_names_eq (names : List String) :
    ofNames names = if stem names = [] then "/" else String.ofList (stem names) := by
  cases names with
  | nil => rfl
  | cons first more =>
    have filled : stem (first :: more) ≠ [] := by simp [stem]
    rw [if_neg filled, ← of_names_filled (by simp), String.ofList_toList]

theorem has_empty_skip {piece : List Char} (clean : '/' ∉ piece) (rest : List Char) :
    hasEmptyComponent (piece ++ rest) = hasEmptyComponent rest := by
  induction piece with
  | nil => rfl
  | cons c piece ih =>
    rw [List.mem_cons, not_or] at clean
    rw [List.cons_append, hasEmptyComponent, ih clean.2]
    intro tail same _
    exact clean.1 same.symm

theorem no_empty_stem (fit : ∀ n ∈ names, IsComponent n) :
    hasEmptyComponent (stem names) = false := by
  induction names with
  | nil => rfl
  | cons n names ih =>
    obtain ⟨filled, clean⟩ := fit n (by simp)
    have rest := ih fun m member => fit m (by simp [member])
    have first : hasEmptyComponent ('/' :: (n.toList ++ stem names)) =
        hasEmptyComponent (n.toList ++ stem names) := by
      rw [hasEmptyComponent]
      intro tail _ same
      cases letters : n.toList with
      | nil => exact filled (by simpa using letters)
      | cons c more =>
        rw [letters] at same clean
        exact clean (by simp [(List.cons.inj same).1])
    rw [stem, List.flatMap_cons, ← stem, List.cons_append, first, has_empty_skip clean, rest]

/-- Text that begins with a slash and has no other at its end or after another is a path through
    components. -/
theorem exists_stem (begins : text.head? = some '/') (ends : text.getLast? ≠ some '/')
    (whole : ¬ ['/', '/'] <:+: text) :
    ∃ names, names ≠ [] ∧ (∀ n ∈ names, IsComponent n) ∧ text = stem names := by
  -- by induction on the length, since the part before the last slash is such a text or empty
  induction size : text.length using Nat.strongRecOn generalizing text with
  | ind n ih =>
    cases cut : Text.cutLast '/' text with
    | none => exact absurd (List.mem_of_mem_head? begins) (Text.cut_last_none_iff.mp cut)
    | some parts =>
      obtain ⟨before, after⟩ := parts
      have clean := Text.not_mem_of_cut_last cut
      obtain rfl := Text.eq_append_of_cut_last cut
      have filled : after ≠ [] := by
        rintro rfl
        exact ends (by simp)
      have fit : IsComponent (String.ofList after) := ⟨by simpa using filled, by simpa using clean⟩
      cases before with
      | nil => exact ⟨[String.ofList after], by simp, by simpa using fit, by simp [stem]⟩
      | cons c front =>
        have shorter : (c :: front).length < n := by
          rw [← size]
          simp
        have inner : ¬ ['/', '/'] <:+: c :: front := fun double =>
          whole (double.trans (List.prefix_append _ _).isInfix)
        have last : (c :: front).getLast? ≠ some '/' := by
          intro slash
          obtain ⟨start, same⟩ := List.getLast?_eq_some_iff.mp slash
          exact whole ⟨start, after, by simp [same]⟩
        obtain ⟨names, _, parts, same⟩ := ih _ shorter (by simpa using begins) last inner rfl
        refine ⟨names ++ [String.ofList after], by simp, ?_, by rw [stem_snoc, same]; simp⟩
        intro m member
        rcases List.mem_append.mp member with old | new
        · exact parts m old
        · rw [List.mem_singleton.mp new]
          exact fit

theorem components_of_stem (fit : ∀ n ∈ names, IsComponent n) :
    components (String.ofList (stem names)) = names := by
  cases names with
  | nil => rfl
  | cons first more =>
    rw [← of_names_filled (List.cons_ne_nil first more), String.ofList_toList,
      components_of_names fit]

def IsNormal (path : String) : Prop := ofNames (components path) = path

instance decidableIsNormal (path : String) : Decidable (IsNormal path) :=
  inferInstanceAs (Decidable (ofNames (components path) = path))

theorem normal_of_names (fit : ∀ n ∈ names, IsComponent n) : IsNormal (ofNames names) := by
  rw [IsNormal, components_of_names fit]

theorem IsNormal.ext {other : String} (first : IsNormal path) (second : IsNormal other)
    (same : components path = components other) : path = other := by
  rw [← first, ← second, same]

theorem IsNormal.to_list_snoc (normal : IsNormal path) (ends : components path = names ++ [name]) :
    path.toList = stem names ++ '/' :: name.toList := by
  rw [← of_names_snoc, ← ends, normal]

theorem normal_of_stem (fit : ∀ n ∈ names, IsComponent n) (filled : names ≠ [])
    (same : path.toList = stem names) : IsNormal path ∧ components path = names := by
  have whole : path = ofNames names := by
    rw [← String.toList_inj, of_names_filled filled, same]
  rw [whole]
  exact ⟨normal_of_names fit, components_of_names fit⟩

theorem component_snoc {names : List String} {name : String}
    (ends : components path = names ++ [name]) :
    (∀ n ∈ names, IsComponent n) ∧ IsComponent name := by
  have fit (n : String) (member : n ∈ names ++ [name]) : IsComponent n :=
    is_component_of_components (ends ▸ member)
  exact ⟨fun n member => fit n (by simp [member]), fit name (by simp)⟩

theorem cut_last_of_snoc (fit : IsComponent name)
    (text : path.toList = stem names ++ '/' :: name.toList) :
    Text.cutLast '/' path.toList = some (stem names, name.toList) := by
  rw [text, Text.cut_last_append _ fit.2]

/-- The text of a path at which a node can be made. -/
structure WellFormed (path : String) : Prop where
  absolute : path.toList.head? = some '/'
  inner : path ≠ "/"
  unended : path.toList.getLast? ≠ some '/'
  whole : ¬ ['/', '/'] <:+: path.toList

theorem well_formed_iff : WellFormed path ↔ IsNormal path ∧ components path ≠ [] := by
  constructor
  · intro formed
    obtain ⟨names, some_name, fit, same⟩ := exists_stem formed.absolute formed.unended formed.whole
    obtain ⟨normal, known⟩ := normal_of_stem fit some_name same
    exact ⟨normal, known ▸ some_name⟩
  · rintro ⟨normal, filled⟩
    obtain ⟨names, last, ends⟩ := (List.eq_nil_or_concat' _).resolve_left filled
    have text := normal.to_list_snoc ends
    have fit := (component_snoc ends).2
    constructor
    case absolute =>
      rw [text]
      cases names with
      | nil => rfl
      | cons first rest => rfl
    case inner =>
      rintro rfl
      exact filled rfl
    case unended =>
      obtain ⟨c, more, letters⟩ :=
        List.exists_cons_of_ne_nil (by simpa using fit.1 : last.toList ≠ [])
      rw [text, List.getLast?_append_of_ne_nil _ (by simp), letters, List.getLast?_cons_cons,
        ← letters]
      exact fun slash => fit.2 (List.mem_of_getLast? slash)
    case whole =>
      rw [← has_empty_iff, text, ← stem_snoc, ← ends,
        no_empty_stem fun _ => is_component_of_components]
      exact Bool.false_ne_true

theorem parts_ok_iff {parent : String} : parts path = .ok (parent, name) ↔
    ∃ names, components path = names ++ [name] ∧ IsNormal path ∧ parent = ofNames names := by
  -- once the three checks are passed, both sides read the two parts at the last slash
  have parted {names : List String} {last : String} (normal : IsNormal path)
      (ends : components path = names ++ [last]) :
      parts path = .ok (ofNames names, last) := by
    have formed := well_formed_iff.mpr ⟨normal, by simp [ends]⟩
    have text := normal.to_list_snoc ends
    have fit := (component_snoc ends).2
    obtain ⟨c, more, letters⟩ :=
      List.exists_cons_of_ne_nil (by simpa using fit.1 : last.toList ≠ [])
    have whole : hasEmptyComponent path.toList = false :=
      Bool.eq_false_iff.mpr fun double => formed.whole (has_empty_iff.mp double)
    simp only [parts, formed.absolute, formed.unended, whole, cut_last_of_snoc fit text, letters,
      of_names_eq names]
    cases above : stem names with
    | nil => simp [← letters]
    | cons d rest => simp [← letters]
  constructor
  · intro ok
    have given := ok
    simp only [parts] at ok
    split at ok
    · simp at ok
    rename_i begins
    split at ok
    · simp at ok
    rename_i ends
    split at ok
    · simp at ok
    rename_i whole
    cases cut : Text.cutLast '/' path.toList with
    | none => simp [cut] at ok
    | some found =>
      obtain ⟨before, after⟩ := found
      have text := Text.eq_append_of_cut_last cut
      have filled : after ≠ [] := by
        rintro rfl
        simp [cut] at ok
      have longer : 1 < path.toList.length := by
        rw [text, List.length_append, List.length_cons]
        have := List.length_pos_of_ne_nil filled
        omega
      have formed : WellFormed path := by
        constructor
        case absolute => simpa using begins
        case inner =>
          rintro rfl
          simp at longer
        case unended => exact fun slash => ends ⟨longer, slash⟩
        case whole => exact fun double => whole (has_empty_iff.mpr double)
      obtain ⟨normal, some_name⟩ := well_formed_iff.mp formed
      obtain ⟨names, last, known⟩ := (List.eq_nil_or_concat' _).resolve_left some_name
      rw [parted normal known, Except.ok.injEq, Prod.mk.injEq] at given
      exact ⟨names, by rw [known, given.2], normal, given.1.symm⟩
  · rintro ⟨names, ends, normal, rfl⟩
    exact parted normal ends

end Path

namespace Layout

variable {names : List String} {name path parent : String}

theorem required_parent_of_snoc (fit : Path.IsComponent name)
    (text : path.toList = Path.stem names ++ '/' :: name.toList) :
    requiredParent path = some (Path.ofNames names) := by
  obtain ⟨c, more, letters⟩ := List.exists_cons_of_ne_nil (by simpa using fit.1 : name.toList ≠ [])
  simp only [requiredParent, Path.cut_last_of_snoc fit text, letters, Path.of_names_eq names]
  cases above : Path.stem names with
  | nil => simp
  | cons d rest => simp

theorem parent_text_of_snoc (fit : Path.IsComponent name)
    (text : path.toList = Path.stem names ++ '/' :: name.toList) :
    parentText path = some (String.ofList (Path.stem names)) := by
  rw [parentText, Path.cut_last_of_snoc fit text, Option.map_some]

theorem parent_text_iff (lower : Path.IsNormal path) (inner : Path.components path ≠ [])
    (upper : Path.IsNormal parent) (filled : Path.components parent ≠ []) :
    parentText path = some parent ↔
      ∃ name, Path.components path = Path.components parent ++ [name] := by
  obtain ⟨names, last, ends⟩ := (List.eq_nil_or_concat' _).resolve_left inner
  obtain ⟨above, fit⟩ := Path.component_snoc ends
  rw [parent_text_of_snoc fit (lower.to_list_snoc ends), Option.some.injEq, ends]
  constructor
  · rintro rfl
    exact ⟨last, by rw [Path.components_of_stem above]⟩
  · rintro ⟨name, same⟩
    obtain rfl := (List.append_inj' same rfl).1
    rw [← Path.of_names_filled filled, upper, String.ofList_toList]

theorem normal_of_required (required : requiredParent path = some parent)
    (normal : Path.IsNormal parent) (whole : Path.hasEmptyComponent path.toList = false) :
    Path.IsNormal path ∧ ∃ name, Path.components path = Path.components parent ++ [name] := by
  cases cut : Text.cutLast '/' path.toList with
  | none => simp [requiredParent, cut] at required
  | some parts =>
    obtain ⟨before, after⟩ := parts
    have text := Text.eq_append_of_cut_last cut
    have filled : after ≠ [] := by
      rintro rfl
      simp [requiredParent, cut] at required
    have fit : Path.IsComponent (String.ofList after) :=
      ⟨by simpa using filled, by simpa using Text.not_mem_of_cut_last cut⟩
    have above : Path.stem (Path.components parent) = before := by
      obtain ⟨d, more, rfl⟩ := List.exists_cons_of_ne_nil filled
      cases before with
      | nil =>
        obtain rfl : "/" = parent := by simpa [requiredParent, cut] using required
        rfl
      | cons c front =>
        obtain rfl : String.ofList (c :: front) = parent := by
          simpa [requiredParent, cut] using required
        cases names : Path.components (String.ofList (c :: front)) with
        | nil =>
          -- the parent is the root, written out, and its slash stands before another
          have root : c :: front = ['/'] := by
            rw [Path.IsNormal, names, ← String.toList_inj, String.toList_ofList] at normal
            exact normal.symm
          rw [text, root] at whole
          simp [Path.hasEmptyComponent] at whole
        | cons first rest =>
          have joined := Path.of_names_filled (List.cons_ne_nil first rest)
          rw [← names, normal, String.toList_ofList] at joined
          rw [← names, ← joined]
    have member (n : String) (among : n ∈ Path.components parent ++ [String.ofList after]) :
        Path.IsComponent n := by
      rcases List.mem_append.mp among with old | new
      · exact Path.is_component_of_components old
      · rw [List.mem_singleton.mp new]
        exact fit
    have joined : path.toList = Path.stem (Path.components parent ++ [String.ofList after]) := by
      rw [Path.stem_snoc, above, text, String.toList_ofList]
    obtain ⟨whole_path, known⟩ := Path.normal_of_stem member (by simp) joined
    exact ⟨whole_path, _, known⟩

end Layout

end Rollup
