import Mathlib
import Rollup.Hierarchy.Report

/-!
Dump lines and the records they spell. A line is read exactly where it is a record's two words, each
followed by the digits of a number that fits a word, but for a line end (`parse_ok_iff`).

Therefore a printed record is read back whatever line end follows it, and a line that is read is the
printed record itself once its line end and the zeros that lead its numbers are taken off. Newline
and carriage return are taken off one by one, so a carriage return alone passes for a line end.
-/
namespace Rollup

theorem Text.drop_end_cases (c : Char) (text : List Char) :
    text = dropEnd c text ∨ text = dropEnd c text ++ [c] := by
  unfold dropEnd
  split
  · rename_i last
    obtain ⟨front, rfl⟩ := List.getLast?_eq_some_iff.mp last
    exact .inr (by rw [List.dropLast_concat])
  · exact .inl rfl

namespace Record

open Decimal

def wording (id counter : List Char) : List Char :=
  idField.toList ++ id ++ (counterField.toList ++ counter)

def lineEnds : List String := ["", "\n", "\r\n"]

def strippedEnds : List String := "\r" :: lineEnds

theorem read_fields_ok_iff {id counter : List Char} {r : Record} : readFields id counter = .ok r ↔
    word? id = some r.id.val ∧ word? counter = some r.counter := by
  obtain ⟨⟨i⟩, n⟩ := r
  simp only [readFields]
  cases word? id with
  | none => simp
  | some j =>
    cases word? counter with
    | none => simp
    | some m => simp

/-- Digits hold no comma, so the second word is found behind the first number. -/
theorem read_line_wording {id : List Char} (digits : ∀ c ∈ id, c.isDigit = true)
    (counter : List Char) : readLine (wording id counter) = readFields id counter := by
  have clean : ',' ∉ id := fun member => absurd (digits ',' member) (by decide)
  have found := Text.after_append idField.toList (id ++ (counterField.toList ++ counter))
  have word : counterField.toList = ',' :: " counter: ".toList := by decide
  rw [← List.append_assoc] at found
  simp only [readLine, wording, found]
  rw [word, Text.cut_at_append clean counter]

theorem read_line_ok_iff {line : List Char} {r : Record} : readLine line = .ok r ↔
    ∃ id counter, nat? id = some r.id.val.toNat ∧ nat? counter = some r.counter.toNat ∧
      line = wording id counter := by
  constructor
  · intro read
    unfold readLine at read
    split at read
    · simp at read
    · rename_i rest first
      split at read
      · simp at read
      · rename_i id counter second
        obtain ⟨left, right⟩ := read_fields_ok_iff.mp read
        refine ⟨id, counter, word_eq_some.mp left, word_eq_some.mp right, ?_⟩
        rw [Text.eq_append_of_after first, Text.eq_append_of_cut_at second, wording]
        simp only [List.append_assoc]
  · rintro ⟨id, counter, left, right, rfl⟩
    rw [read_line_wording (nat_eq_some.mp left).2.1]
    exact read_fields_ok_iff.mpr ⟨word_eq_some.mpr left, word_eq_some.mpr right⟩

theorem parse_ok_iff {line : String} {r : Record} : parse line = .ok r ↔
    ∃ id counter, nat? id = some r.id.val.toNat ∧ nat? counter = some r.counter.toNat ∧
      withoutLineEnd line.toList = wording id counter :=
  read_line_ok_iff

theorem wording_end (id : List Char) {counter : List Char} (nonempty : counter ≠ [])
    (all : ∀ c ∈ counter, c.isDigit = true) :
    ∃ front d, wording id counter = front ++ [d] ∧ d.isDigit = true := by
  have last := List.dropLast_append_getLast nonempty
  refine ⟨idField.toList ++ id ++ (counterField.toList ++ counter.dropLast), _, ?_,
    all _ (List.getLast_mem nonempty)⟩
  simp only [wording, List.append_assoc, last]

theorem without_line_end_of_digit {front : List Char} {d : Char} (digit : d.isDigit = true)
    {ending : String} (member : ending ∈ strippedEnds) :
    withoutLineEnd (front ++ [d] ++ ending.toList) = front ++ [d] := by
  have other (c : Char) (plain : c.isDigit = false) :
      Text.dropEnd c (front ++ [d]) = front ++ [d] := by
    refine if_neg fun last => ?_
    rw [List.getLast?_concat, Option.some.injEq] at last
    rw [last, plain] at digit
    exact absurd digit (by simp)
  have feed : Text.dropEnd '\n' (front ++ [d]) = front ++ [d] := other '\n' (by decide)
  have carriage : Text.dropEnd '\r' (front ++ [d]) = front ++ [d] := other '\r' (by decide)
  simp only [strippedEnds, lineEnds, List.mem_cons, List.not_mem_nil, or_false] at member
  rcases member with rfl | rfl | rfl | rfl
  · have kept : Text.dropEnd '\n' (front ++ [d] ++ ['\r']) = front ++ [d] ++ ['\r'] := by
      simp [Text.dropEnd]
    rw [show "\r".toList = ['\r'] by decide, withoutLineEnd, kept, Text.drop_end_append]
  · rw [show "".toList = [] by decide, List.append_nil, withoutLineEnd, feed, carriage]
  · rw [show "\n".toList = ['\n'] by decide, withoutLineEnd, Text.drop_end_append, carriage]
  · rw [show "\r\n".toList = ['\r'] ++ ['\n'] by decide, ← List.append_assoc, withoutLineEnd,
      Text.drop_end_append, Text.drop_end_append]

theorem without_line_end_cases (line : List Char) :
    ∃ ending ∈ strippedEnds, line = withoutLineEnd line ++ ending.toList := by
  have feed := Text.drop_end_cases '\n' line
  have carriage := Text.drop_end_cases '\r' (Text.dropEnd '\n' line)
  simp only [withoutLineEnd]
  rcases feed with kept | cut <;> rcases carriage with kept' | cut'
  · exact ⟨"", by decide, by rw [← kept', ← kept]; simp⟩
  · exact ⟨"\r", by decide, by rw [show "\r".toList = ['\r'] by decide, ← cut', ← kept]⟩
  · exact ⟨"\n", by decide, by rw [show "\n".toList = ['\n'] by decide, ← kept', ← cut]⟩
  · refine ⟨"\r\n", by decide, ?_⟩
    rw [show "\r\n".toList = ['\r'] ++ ['\n'] by decide, ← List.append_assoc, ← cut', ← cut]

theorem parse_text {r : Record} {ending : String} (member : ending ∈ lineEnds) :
    parse (r.text ++ ending) = .ok r := by
  obtain ⟨front, d, chars, digit⟩ := wording_end (digits r.id.val.toNat)
    (digits_nonempty r.counter.toNat) (digits_all_digits r.counter.toNat)
  refine parse_ok_iff.mpr ⟨digits r.id.val.toNat, digits r.counter.toNat, nat_digits _,
    nat_digits _, ?_⟩
  have spelled : r.text.toList = front ++ [d] := by
    rw [text, String.toList_ofList, ← chars]
    rfl
  rw [String.toList_append, spelled,
    without_line_end_of_digit digit (List.mem_cons_of_mem _ member), chars]

theorem text_of_nat {id counter : List Char} {r : Record} (first : nat? id = some r.id.val.toNat)
    (second : nat? counter = some r.counter.toNat) :
    String.ofList (wording (withoutZeros id) (withoutZeros counter)) = r.text := by
  obtain ⟨some_id, all_id, value_id⟩ := nat_eq_some.mp first
  obtain ⟨some_counter, all_counter, value_counter⟩ := nat_eq_some.mp second
  rw [← digits_value some_id all_id, ← digits_value some_counter all_counter, value_id,
    value_counter]
  rfl

end Record

namespace Hierarchy

variable {cfg : Config} {h : Hierarchy cfg} {id : NodeId}

theorem read_entry {k : Nat} (entry : h.index[id]? = some k) :
    h.read id = .ok ⟨id, (h.node k).total⟩ := by
  simp only [read, find, entry]

theorem read_of_member (member : h.index.contains id = true) : ∃ r, h.read id = .ok r := by
  obtain ⟨k, found⟩ := Option.isSome_iff_exists.mp (Std.ExtTreeMap.isSome_getElem?_iff_mem.mpr
    (Std.ExtTreeMap.mem_iff_contains.mpr member))
  exact ⟨_, read_entry found⟩

end Hierarchy

namespace Record

open Decimal

/-- A printed record is read back with any line end, and so is every dump line of a hierarchy, in
    whatever state it is. Conversely a line that is read is the printed record when its line end and
    the zeros that lead its two numbers are taken off. -/
theorem lines_spell_records :
    (∀ (r : Record) (ending : String), ending ∈ lineEnds → parse (r.text ++ ending) = .ok r) ∧
    (∀ (cfg : Config) (h : Hierarchy cfg) (id : NodeId), h.index.contains id = true →
      ∃ line r, h.dump id = .ok line ∧ h.read id = .ok r ∧ parse line = .ok r) ∧
    ∀ (line : String) (r : Record), parse line = .ok r →
      ∃ id counter : List Char, id ≠ [] ∧ counter ≠ [] ∧ (∀ c ∈ id ++ counter, c.isDigit = true) ∧
        withoutLineEnd line.toList = wording id counter ∧
        String.ofList (wording (withoutZeros id) (withoutZeros counter)) = r.text := by
  refine ⟨fun r ending member => parse_text member, fun cfg h id member => ?_,
    fun line r read => ?_⟩
  · obtain ⟨r, found⟩ := Hierarchy.read_of_member member
    exact ⟨r.text ++ "\n", r, by simp only [Hierarchy.dump, found], found,
      parse_text (by simp [lineEnds])⟩
  · obtain ⟨id, counter, first, second, worded⟩ := parse_ok_iff.mp read
    obtain ⟨some_id, all_id, _⟩ := nat_eq_some.mp first
    obtain ⟨some_counter, all_counter, _⟩ := nat_eq_some.mp second
    refine ⟨id, counter, some_id, some_counter, ?_, worded, text_of_nat first second⟩
    intro c member
    exact (List.mem_append.mp member).elim (all_id c) (all_counter c)

theorem lines_spell_records_with_zeros :
    let r : Record := ⟨⟨7⟩, 18446744073709551615⟩
    parse (r.text ++ "\r\n") = .ok r ∧
    (∃ line root, (Hierarchy.new ⟨2⟩).dump NodeId.root = .ok line ∧
      (Hierarchy.new ⟨2⟩).read NodeId.root = .ok root ∧ parse line = .ok root) ∧
    parse "id: 007, counter: 18446744073709551615\n" = .ok r ∧
    ∃ id counter : List Char, id ≠ [] ∧ counter ≠ [] ∧ (∀ c ∈ id ++ counter, c.isDigit = true) ∧
      withoutLineEnd "id: 007, counter: 18446744073709551615\n".toList = wording id counter ∧
      String.ofList (wording (withoutZeros id) (withoutZeros counter)) = r.text := by
  intro r
  obtain ⟨printed, dumped, spelled⟩ := lines_spell_records
  have read : parse "id: 007, counter: 18446744073709551615\n" = .ok r := by rfl
  exact ⟨printed r "\r\n" (by decide), dumped ⟨2⟩ (Hierarchy.new ⟨2⟩) NodeId.root (by decide +kernel),
    read, spelled _ r read⟩

def Spells (line : String) (r : Record) (ending : String) : Prop :=
  ∃ id counter : List Char,
    (id ≠ [] ∧ (∀ c ∈ id, c.isDigit = true) ∧ value id = r.id.val.toNat) ∧
    (counter ≠ [] ∧ (∀ c ∈ counter, c.isDigit = true) ∧ value counter = r.counter.toNat) ∧
    line.toList = "id: ".toList ++ id ++ (", counter: ".toList ++ counter) ++ ending.toList

theorem parse_ok_iff_spells {line : String} {r : Record} :
    parse line = .ok r ↔ ∃ ending ∈ strippedEnds, Spells line r ending := by
  rw [parse_ok_iff]
  constructor
  · rintro ⟨id, counter, first, second, worded⟩
    obtain ⟨ending, member, whole⟩ := without_line_end_cases line.toList
    rw [worded] at whole
    exact ⟨ending, member, id, counter, nat_eq_some.mp first, nat_eq_some.mp second, whole⟩
  · rintro ⟨ending, member, id, counter, first, second, whole⟩
    obtain ⟨front, d, worded, digit⟩ := wording_end id second.1 second.2.1
    refine ⟨id, counter, nat_eq_some.mpr first, nat_eq_some.mpr second, ?_⟩
    have split : line.toList = wording id counter ++ ending.toList := whole
    rw [split, worded, without_line_end_of_digit digit member]

theorem Spells.last_char {line : String} {r : Record} {ending : String}
    (spelled : Spells line r ending) (member : ending ∈ lineEnds) :
    line.toList.getLast? ≠ some '\r' := by
  obtain ⟨id, counter, -, ⟨nonempty, all, -⟩, whole⟩ := spelled
  obtain ⟨front, d, worded, digit⟩ := wording_end id nonempty all
  have split : line.toList = front ++ [d] ++ ending.toList := by rw [← worded]; exact whole
  simp only [lineEnds, List.mem_cons, List.not_mem_nil, or_false] at member
  rcases member with rfl | rfl | rfl
  · rw [split, show "".toList = [] by decide, List.append_nil, List.getLast?_concat]
    intro same
    rw [Option.some.inj same] at digit
    exact absurd digit (by decide)
  · rw [split, show "\n".toList = ['\n'] by decide, List.getLast?_concat]
    decide
  · rw [split, show "\r\n".toList = ['\r'] ++ ['\n'] by decide, ← List.append_assoc,
      List.getLast?_concat]
    decide

/-- A line is read as a record exactly where it spells that record and has nothing behind it, a
    newline, a carriage return and a newline, or a carriage return. Apart from this last end, a line
    is read exactly where it has the documented form. -/
theorem accepted_lines (line : String) (r : Record) :
    (parse line = .ok r ↔ ∃ ending ∈ lineEnds ++ ["\r"], Spells line r ending) ∧
    (parse line = .ok r ∧ line.toList.getLast? ≠ some '\r' ↔
      ∃ ending ∈ lineEnds, Spells line r ending) := by
  refine ⟨?_, ?_, ?_⟩
  · rw [parse_ok_iff_spells]
    simp [strippedEnds, or_comm]
  · rintro ⟨read, other⟩
    obtain ⟨ending, member, spelled⟩ := parse_ok_iff_spells.mp read
    rcases List.mem_cons.mp member with rfl | proper
    · obtain ⟨id, counter, -, -, whole⟩ := spelled
      refine absurd ?_ other
      rw [whole, show "\r".toList = ['\r'] by decide, List.getLast?_concat]
    · exact ⟨ending, proper, spelled⟩
  · rintro ⟨ending, member, spelled⟩
    exact ⟨parse_ok_iff_spells.mpr ⟨ending, List.mem_cons_of_mem _ member, spelled⟩,
      spelled.last_char member⟩

theorem lone_return_accepted :
    parse "id: 1, counter: 2\r" = .ok ⟨⟨1⟩, 2⟩ ∧
      ¬ ∃ ending ∈ lineEnds, Spells "id: 1, counter: 2\r" ⟨⟨1⟩, 2⟩ ending := by
  refine ⟨by rfl, ?_⟩
  rintro ⟨ending, member, spelled⟩
  exact spelled.last_char member (by decide)

end Record

end Rollup
