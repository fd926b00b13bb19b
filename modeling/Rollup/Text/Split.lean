/-!
Cutting text at separators. `split` keeps empty pieces, so joining its pieces gives the text
back; `cut` and `cutLast` part the text at the first and at the last separator.
-/
namespace Rollup.Text

/-- The pieces between separators, empty ones included; never the empty list. -/
def split (sep : Char) : List Char → List (List Char)
  | [] => [[]]
  | c :: rest =>
    if c = sep then [] :: split sep rest
    else match split sep rest with
      | [] => [[c]]
      | piece :: pieces => (c :: piece) :: pieces

def join (sep : List Char) : List (List Char) → List Char
  | [] => []
  | [piece] => piece
  | piece :: pieces => piece ++ sep ++ join sep pieces

def cut (sep : Char) : List Char → Option (List Char × List Char)
  | [] => none
  | c :: rest =>
    if c = sep then some ([], rest)
    else (cut sep rest).map fun (before, after) => (c :: before, after)

def cutLast (sep : Char) : List Char → Option (List Char × List Char)
  | [] => none
  | c :: rest =>
    match cutLast sep rest with
    | some (before, after) => some (c :: before, after)
    | none => if c = sep then some ([], rest) else none

def after? : (lead : List Char) → List Char → Option (List Char)
  | [], rest => some rest
  | _ :: _, [] => none
  | l :: lead, c :: rest => if l = c then after? lead rest else none

def cutAt (word : List Char) : List Char → Option (List Char × List Char)
  | [] => (after? word []).map ([], ·)
  | c :: rest =>
    match after? word (c :: rest) with
    | some tail => some ([], tail)
    | none => (cutAt word rest).map fun (before, after) => (c :: before, after)

def dropEnd (c : Char) (text : List Char) : List Char :=
  if text.getLast? = some c then text.dropLast else text

theorem split_nonempty (sep : Char) (text : List Char) : split sep text ≠ [] := by
  cases text with
  | nil => simp [split]
  | cons c rest =>
    simp only [split]
    split
    · simp
    · split <;> simp

theorem join_split (sep : Char) (text : List Char) : join [sep] (split sep text) = text := by
  induction text with
  | nil => rfl
  | cons c rest ih =>
    simp only [split]
    split
    · rename_i same
      subst same
      cases pieces : split c rest with
      | nil => exact absurd pieces (split_nonempty c rest)
      | cons piece more =>
        rw [pieces] at ih
        simp [join, ih]
    · cases pieces : split sep rest with
      | nil => exact absurd pieces (split_nonempty sep rest)
      | cons piece more =>
        rw [pieces] at ih
        cases more with
        | nil => simpa [join] using ih
        | cons next more => simpa [join] using ih

theorem after_append (lead rest : List Char) : after? lead (lead ++ rest) = some rest := by
  induction lead with
  | nil => rfl
  | cons l lead ih => simp [after?, ih]

theorem eq_append_of_after {lead text rest : List Char} (h : after? lead text = some rest) :
    text = lead ++ rest := by
  induction lead generalizing text with
  | nil => simpa [after?] using h
  | cons l lead ih =>
    cases text with
    | nil => simp [after?] at h
    | cons c text =>
      simp only [after?] at h
      split at h
      · rename_i same
        rw [same, ih h, List.cons_append]
      · simp at h

theorem eq_append_of_cut {sep : Char} {text before after : List Char}
    (h : cut sep text = some (before, after)) : text = before ++ sep :: after := by
  induction text generalizing before after with
  | nil => simp [cut] at h
  | cons c rest ih =>
    simp only [cut] at h
    split at h
    · rename_i same
      simp only [Option.some.injEq, Prod.mk.injEq] at h
      rw [← h.1, ← h.2, same, List.nil_append]
    · obtain ⟨⟨b, a⟩, inner, same⟩ := Option.map_eq_some_iff.mp h
      simp only [Prod.mk.injEq] at same
      rw [← same.1, ← same.2, ih inner, List.cons_append]

theorem eq_append_of_cut_last {sep : Char} {text before after : List Char}
    (h : cutLast sep text = some (before, after)) : text = before ++ sep :: after := by
  induction text generalizing before after with
  | nil => simp [cutLast] at h
  | cons c rest ih =>
    simp only [cutLast] at h
    split at h
    · rename_i b a inner
      simp only [Option.some.injEq, Prod.mk.injEq] at h
      rw [← h.1, ← h.2, ih inner, List.cons_append]
    · split at h
      · rename_i same
        simp only [Option.some.injEq, Prod.mk.injEq] at h
        rw [← h.1, ← h.2, same, List.nil_append]
      · simp at h

theorem eq_append_of_cut_at {word text before after : List Char}
    (h : cutAt word text = some (before, after)) : text = before ++ word ++ after := by
  induction text generalizing before after with
  | nil =>
    obtain ⟨rest, found, same⟩ := Option.map_eq_some_iff.mp h
    simp only [Prod.mk.injEq] at same
    rw [← same.1, ← same.2, List.nil_append]
    exact eq_append_of_after found
  | cons c rest ih =>
    simp only [cutAt] at h
    split at h
    · rename_i tail found
      simp only [Option.some.injEq, Prod.mk.injEq] at h
      rw [← h.1, ← h.2, List.nil_append]
      exact eq_append_of_after found
    · obtain ⟨⟨b, a⟩, inner, same⟩ := Option.map_eq_some_iff.mp h
      simp only [Prod.mk.injEq] at same
      rw [← same.1, ← same.2, ih inner, List.cons_append, List.cons_append]

theorem cut_at_append {letter : Char} {word before : List Char} (clean : letter ∉ before)
    (after : List Char) :
    cutAt (letter :: word) (before ++ (letter :: word ++ after)) = some (before, after) := by
  induction before with
  | nil =>
    have found := after_append (letter :: word) after
    simp only [List.nil_append, List.cons_append, cutAt] at found ⊢
    rw [found]
  | cons c rest ih =>
    rw [List.mem_cons, not_or] at clean
    simp only [List.cons_append, cutAt, after?, if_neg clean.1] at ih ⊢
    rw [ih clean.2]
    rfl

theorem drop_end_append (c : Char) (text : List Char) : dropEnd c (text ++ [c]) = text := by
  simp [dropEnd]

end Rollup.Text
