import Mathlib
import Rollup.Layout
import Rollup.Proofs.PrintedJson

/-!
Layouts written as JSON and read again. What is written is the layout itself, whatever characters
its entries hold, so reading it back can fail at the check alone; and a layout that was read from
any text has passed the check, so it can be written and read again without loss.
-/
namespace Rollup.Layout

variable {l : Layout}

theorem to_json_plain {v : Json} : Json.Plain [("nodes", v)] := by
  simp only [Json.Plain, List.map_cons, List.map_nil]
  decide

theorem to_json_sound (l : Layout) : l.toJson.Sound := by
  refine Json.of_fields_sound to_json_plain ?_
  rw [List.forall_mem_singleton]
  refine Json.array_sound fun item member => ?_
  obtain ⟨path, -, rfl⟩ := List.mem_map.mp member
  exact Json.of_string_sound path

theorem strings_of_strings (paths : List String) :
    strings? (paths.map Json.ofString) = some paths := by
  induction paths with
  | nil => rfl
  | cons path rest ih => simp [strings?, ih]

theorem of_json_to_json (l : Layout) : ofJson? l.toJson = some l := by
  simp only [toJson, Json.ofFields, ofJson?]
  rw [Json.fields_of_plain to_json_plain]
  simp [Json.field?, ofNodes?, strings_of_strings]

theorem read_text (l : Layout) : (Json.parse l.text).bind ofJson? = some l := by
  rw [text, (to_json_sound l).parse_compact, Option.bind_some, of_json_to_json]

theorem of_text_text (l : Layout) : ofText l.text = l.validate.map fun _ => l := by
  simp only [ofText, read_text]
  cases l.validate <;> rfl

theorem of_text_text_of_valid (valid : l.validate = .ok ()) : ofText l.text = .ok l := by
  rw [of_text_text, valid]
  rfl

theorem valid_of_text {text : String} (accepted : ofText text = .ok l) : l.validate = .ok () := by
  unfold ofText at accepted
  split at accepted
  · simp at accepted
  · split at accepted
    · rename_i valid
      exact Except.ok.inj accepted ▸ valid
    · simp at accepted

/-- A valid layout is read from its own text. The text of any layout stands for it, so that reading
    fails only where the check does, and with the check's own fault. And whatever the text, a layout
    read from it is valid, and read again from its own text. -/
theorem text_round_trip :
    (∀ l : Layout, l.validate = .ok () → ofText l.text = .ok l) ∧
      (∀ l : Layout, (Json.parse l.text).bind ofJson? = some l ∧
        ∀ fault, ofText l.text = .error fault ↔ l.validate = .error fault) ∧
      ∀ (text : String) (l : Layout), ofText text = .ok l →
        l.validate = .ok () ∧ ofText l.text = .ok l := by
  refine ⟨fun l => of_text_text_of_valid, fun l => ⟨read_text l, fun fault => ?_⟩, ?_⟩
  · rw [of_text_text]
    cases l.validate <;> simp [Except.map]
  · intro text l accepted
    have valid := valid_of_text accepted
    exact ⟨valid, of_text_text_of_valid valid⟩

/-- Quotes, a backslash, controls, and a character beyond sixteen bits, which another writer spells
    by its surrogates. -/
def rareNames : Layout where
  nodes := ["/a\"b", "/a\"b/c\\d", "/a\"b/\n\x01\x7f", "/😀"]

theorem text_round_trip_of_rare_names :
    (rareNames.validate = .ok () ∧ ofText rareNames.text = .ok rareNames) ∧
      ofText (Layout.text ⟨["/a/b"]⟩) = .error (.path (.invalid "/a/b" .beforeParent)) ∧
      (ofText "\x7b \"nodes\": [\"/\\ud83d\\ude00\"] \x7d" = .ok ⟨["/😀"]⟩ ∧
        ofText (Layout.text ⟨["/😀"]⟩) = .ok ⟨["/😀"]⟩) := by
  have valid : rareNames.validate = .ok () := by decide
  have orphan : validate ⟨["/a/b"]⟩ = .error (.path (.invalid "/a/b" .beforeParent)) := by decide
  have read : ofText "\x7b \"nodes\": [\"/\\ud83d\\ude00\"] \x7d" = .ok ⟨["/😀"]⟩ := by cbv
  exact ⟨⟨valid, text_round_trip.1 _ valid⟩, ((text_round_trip.2.1 _).2 _).mpr orphan,
    read, (text_round_trip.2.2 _ _ read).2⟩

end Rollup.Layout
