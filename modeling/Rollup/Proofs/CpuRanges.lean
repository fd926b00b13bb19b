import Mathlib
import Rollup.CpuList
import Rollup.Proofs.PathLookup

/-!
The lists of CPUs that are read, and the faults of the others. Numbers, items and lists each have a
relation that says what comes of a text, and the reader computes it: what the relation says of a
text is what is read (`run`), and the relation says something of every text.

A list is read exactly where all of its items are numbers or ranges. Otherwise the fault is that of
the first item that is neither.
-/
namespace Rollup

namespace Text

variable {sep : Char} {text before after : List Char}

theorem cut_eq_some :
    cut sep text = some (before, after) ↔ sep ∉ before ∧ text = before ++ sep :: after := by
  constructor
  · intro cut
    refine ⟨?_, eq_append_of_cut cut⟩
    induction text generalizing before with
    | nil => simp [Text.cut] at cut
    | cons c rest ih =>
      simp only [Text.cut] at cut
      split at cut
      · simp only [Option.some.injEq, Prod.mk.injEq] at cut
        simp [← cut.1]
      · rename_i other
        obtain ⟨⟨b, a⟩, inner, same⟩ := Option.map_eq_some_iff.mp cut
        simp only [Prod.mk.injEq] at same
        rw [← same.1, List.mem_cons, not_or]
        exact ⟨Ne.symm other, ih (same.2 ▸ inner)⟩
  · rintro ⟨clean, rfl⟩
    induction before with
    | nil => simp [Text.cut]
    | cons c rest ih =>
      rw [List.mem_cons, not_or] at clean
      simp [Text.cut, Ne.symm clean.1, ih clean.2]

theorem cut_eq_none : cut sep text = none ↔ sep ∉ text := by
  induction text with
  | nil => simp [cut]
  | cons c rest ih =>
    by_cases same : c = sep
    · simp [cut, same]
    · simp [cut, same, Ne.symm same, ih]

theorem mem_join {pieces : List (List Char)} {c : Char} (member : c ∈ join [sep] pieces) :
    c = sep ∨ ∃ piece ∈ pieces, c ∈ piece := by
  induction pieces with
  | nil => simp [join] at member
  | cons piece more ih =>
    cases more with
    | nil => exact .inr ⟨piece, by simp, member⟩
    | cons next more =>
      simp only [join, List.mem_append, List.mem_singleton] at member
      rcases member with (inside | same) | later
      · exact .inr ⟨piece, by simp, inside⟩
      · exact .inl same
      · rcases ih later with same | ⟨other, among, inside⟩
        · exact .inl same
        · exact .inr ⟨other, List.mem_cons_of_mem _ among, inside⟩

theorem split_join {pieces : List (List Char)} (some_piece : pieces ≠ [])
    (clean : ∀ piece ∈ pieces, sep ∉ piece) : split sep (join [sep] pieces) = pieces := by
  rw [join_eq_intercalate, split_eq_split_on]
  exact List.splitOn_intercalate sep clean some_piece

def Bare (text : List Char) : Prop :=
  (∀ c ∈ text.head?, isBlank c = false) ∧ ∀ c ∈ text.getLast?, isBlank c = false

theorem first_of_drop {c : Char} (first : c ∈ (text.dropWhile isBlank).head?) :
    isBlank c = false := by
  have stop := List.head?_dropWhile_not isBlank text
  rwa [Option.mem_def.mp first] at stop

theorem drop_blanks {lead : List Char} (blank : ∀ c ∈ lead, isBlank c = true)
    (bare : ∀ c ∈ text.head?, isBlank c = false) : (lead ++ text).dropWhile isBlank = text := by
  rw [List.dropWhile_append_of_pos blank]
  cases text with
  | nil => rfl
  | cons c rest => exact List.dropWhile_cons_of_neg (by simp [bare c rfl])

theorem drop_eq_trim_append (text : List Char) : text.dropWhile isBlank =
    trim text ++ ((text.dropWhile isBlank).reverse.takeWhile isBlank).reverse := by
  rw [trim, ← List.reverse_append, List.takeWhile_append_dropWhile, List.reverse_reverse]

theorem trim_bare (text : List Char) : Bare (trim text) := by
  refine ⟨fun c first => @first_of_drop text c ?_, fun c last => ?_⟩
  · rw [drop_eq_trim_append, List.head?_append, Option.mem_def.mp first]
    rfl
  · refine @first_of_drop (text.dropWhile isBlank).reverse c ?_
    rwa [← List.getLast?_reverse]

theorem trim_within (text : List Char) :
    ∃ front back, text = front ++ trim text ++ back ∧ ∀ c ∈ front ++ back, isBlank c = true := by
  refine ⟨text.takeWhile isBlank, ((text.dropWhile isBlank).reverse.takeWhile isBlank).reverse,
    ?_, fun c member => ?_⟩
  · rw [List.append_assoc, ← drop_eq_trim_append, List.takeWhile_append_dropWhile]
  · rcases List.mem_append.mp member with before | behind
    · exact List.mem_takeWhile_imp before
    · exact List.mem_takeWhile_imp (List.mem_reverse.mp behind)

theorem trim_of_bare {core front back : List Char} (bare : Bare core)
    (blank : ∀ c ∈ front ++ back, isBlank c = true) : trim (front ++ core ++ back) = core := by
  have left : ∀ c ∈ front, isBlank c = true := fun c member => blank c (by simp [member])
  have right : ∀ c ∈ back.reverse, isBlank c = true := fun c member =>
    blank c (by simp [List.mem_reverse.mp member])
  rw [trim, List.append_assoc]
  cases core with
  | nil =>
    have all : (front ++ ([] ++ back)).dropWhile isBlank = [] :=
      List.dropWhile_eq_nil_iff.mpr fun c member => blank c (by simpa using member)
    rw [all]
    rfl
  | cons c rest =>
    have last : ∀ d ∈ (c :: rest).reverse.head?, isBlank d = false := by
      rw [List.head?_reverse]
      exact bare.2
    rw [drop_blanks left (by simpa using bare.1), List.reverse_append, drop_blanks right last,
      List.reverse_reverse]

theorem trim_eq_iff {core : List Char} : trim text = core ↔ Bare core ∧
    ∃ front back, text = front ++ core ++ back ∧ ∀ c ∈ front ++ back, isBlank c = true := by
  constructor
  · rintro rfl
    exact ⟨trim_bare text, trim_within text⟩
  · rintro ⟨bare, front, back, rfl, blank⟩
    exact trim_of_bare bare blank

end Text

namespace CpuList

open Decimal

/-- What comes of digits read one by one from the left: the number they spell, or the fault of the
    first of them that is no digit or makes the number too large. -/
inductive DigitsRead : List Char → Except NumberFault Nat → Prop where
  | all {ds : List Char} : (∀ c ∈ ds, c.isDigit = true) → value ds < UInt32.size →
      DigitsRead ds (.ok (value ds))
  | stray {ds : List Char} {c : Char} {rest : List Char} : (∀ d ∈ ds, d.isDigit = true) →
      value ds < UInt32.size → c.isDigit = false →
      DigitsRead (ds ++ c :: rest) (.error .invalidDigit)
  | large {ds rest : List Char} : (∀ c ∈ ds, c.isDigit = true) → UInt32.size ≤ value ds →
      DigitsRead (ds ++ rest) (.error .tooLarge)

def unsigned : List Char → List Char
  | '+' :: rest => rest
  | text => text

inductive NumberRead : List Char → Except NumberFault Nat → Prop where
  | empty : NumberRead [] (.error .empty)
  | sign : NumberRead ['+'] (.error .invalidDigit)
  | digits {text : List Char} {out : Except NumberFault Nat} : unsigned text ≠ [] →
      DigitsRead (unsigned text) out → NumberRead text out

inductive Item where
  | single (n : Nat)
  | range (first last : Nat)
  deriving DecidableEq, Repr

namespace Item

def numbers : Item → List Nat
  | single n => [n]
  | range first last => List.range' first (last + 1 - first)

def cpus : Item → List Cpu
  | single n => [⟨UInt32.ofNat n⟩]
  | range first last => CpuList.range first last

def Fits : Item → Prop
  | single n => n < UInt32.size
  | range first last => first ≤ last ∧ last < UInt32.size

instance : DecidablePred Fits
  | single n => inferInstanceAs (Decidable (n < UInt32.size))
  | range first last => inferInstanceAs (Decidable (first ≤ last ∧ last < UInt32.size))

def text : Item → List Char
  | single n => Decimal.digits n
  | range first last => Decimal.digits first ++ '-' :: Decimal.digits last

end Item

/-- What comes of one item. It is parted at its first dash, and a number has none. -/
inductive ItemRead : List Char → Except Fault Item → Prop where
  | single {item : List Char} {n : Nat} : NumberRead item (.ok n) → ItemRead item (.ok (.single n))
  | range {left right : List Char} {first last : Nat} : NumberRead left (.ok first) →
      NumberRead right (.ok last) → first ≤ last →
      ItemRead (left ++ '-' :: right) (.ok (.range first last))
  | badId {item : List Char} {fault : NumberFault} : '-' ∉ item → NumberRead item (.error fault) →
      ItemRead item (.error (.badId (String.ofList item) fault))
  | badFirst {left right : List Char} {fault : NumberFault} : '-' ∉ left →
      NumberRead left (.error fault) → ItemRead (left ++ '-' :: right)
        (.error (.badRange (String.ofList (left ++ '-' :: right)) fault))
  | badLast {left right : List Char} {first : Nat} {fault : NumberFault} :
      NumberRead left (.ok first) → NumberRead right (.error fault) →
      ItemRead (left ++ '-' :: right)
        (.error (.badRange (String.ofList (left ++ '-' :: right)) fault))
  | reversed {left right : List Char} {first last : Nat} : NumberRead left (.ok first) →
      NumberRead right (.ok last) → last < first →
      ItemRead (left ++ '-' :: right) (.error (.reversed (String.ofList (left ++ '-' :: right))))

/-- The items of a list: the pieces between its commas, within the blanks around all of it. -/
structure Itemised (list : String) (pieces : List (List Char)) : Prop where
  nonempty : pieces ≠ []
  clean : ∀ piece ∈ pieces, ',' ∉ piece
  bare : Text.Bare (Text.join [','] pieces)
  within : ∃ front back, list.toList = front ++ Text.join [','] pieces ++ back ∧
    ∀ c ∈ front ++ back, Text.isBlank c = true

theorem itemised_iff {list : String} {pieces : List (List Char)} :
    Itemised list pieces ↔ Text.split ',' (Text.trim list.toList) = pieces := by
  constructor
  · rintro ⟨nonempty, clean, bare, within⟩
    rw [Text.trim_eq_iff.mpr ⟨bare, within⟩, Text.split_join nonempty clean]
  · rintro rfl
    obtain ⟨bare, within⟩ := Text.trim_eq_iff.mp (rfl : Text.trim list.toList = _)
    refine ⟨Text.split_nonempty _ _, fun _ => Text.not_mem_of_split, ?_, ?_⟩
    · rwa [Text.join_split]
    · rwa [Text.join_split]

theorem Itemised.parse {list : String} {pieces : List (List Char)}
    (itemised : Itemised list pieces) : CpuList.parse list = readItems pieces := by
  rw [CpuList.parse, itemised_iff.mp itemised]

section Numbers

variable {text : List Char} {out : Except NumberFault Nat} {n : Nat}

theorem read_digits_cons {seen : List Char} {c : Char} (digit : c.isDigit = true)
    (rest : List Char) : readDigits (value seen) (c :: rest) =
      if value (seen ++ [c]) < UInt32.size then readDigits (value (seen ++ [c])) rest
      else .error .tooLarge := by
  rw [value_append, readDigits, if_neg (by simp [digit])]

theorem value_le_append (seen ds : List Char) : value seen ≤ value (seen ++ ds) := by
  induction ds using List.reverseRecOn with
  | nil => simp
  | append_singleton ds c ih =>
    rw [← List.append_assoc, value_append]
    omega

theorem read_digits_through {seen ds : List Char} (digits : ∀ c ∈ ds, c.isDigit = true)
    (small : value (seen ++ ds) < UInt32.size) (rest : List Char) :
    readDigits (value seen) (ds ++ rest) = readDigits (value (seen ++ ds)) rest := by
  induction ds generalizing seen with
  | nil => simp
  | cons c ds ih =>
    have whole : seen ++ c :: ds = seen ++ [c] ++ ds := by simp
    rw [whole] at small ⊢
    have fits := lt_of_le_of_lt (value_le_append (seen ++ [c]) ds) small
    rw [List.cons_append, read_digits_cons (digits c (by simp)), if_pos fits]
    exact ih (fun d member => digits d (by simp [member])) small

theorem DigitsRead.run (read : DigitsRead text out) : readDigits 0 text = out := by
  have start : value [] = 0 := rfl
  cases read with
  | all digits small =>
    have through := @read_digits_through [] _ digits small []
    rwa [List.append_nil] at through
  | @stray ds c rest digits small other =>
    have through := @read_digits_through [] _ digits small (c :: rest)
    rw [← start, through, readDigits, if_pos (by simp [other])]
  | @large ds rest digits big =>
    -- by induction on the digits from the last one back, to the first number that is too large
    induction ds using List.reverseRecOn generalizing rest with
    | nil => exact absurd big (by decide)
    | append_singleton ds c ih =>
      have front : ∀ d ∈ ds, d.isDigit = true := fun d member => digits d (by simp [member])
      rw [List.append_assoc, List.singleton_append]
      by_cases small : value ds < UInt32.size
      · have through := @read_digits_through [] _ front small (c :: rest)
        rw [← start, through, List.nil_append, read_digits_cons (digits c (by simp)),
          if_neg (by omega)]
      · exact ih front (by omega)

theorem digits_read {seen : List Char} (digits : ∀ c ∈ seen, c.isDigit = true)
    (small : value seen < UInt32.size) (rest : List Char) :
    DigitsRead (seen ++ rest) (readDigits (value seen) rest) := by
  induction rest generalizing seen with
  | nil =>
    rw [List.append_nil]
    exact .all digits small
  | cons c rest ih =>
    have whole : seen ++ c :: rest = seen ++ [c] ++ rest := by simp
    cases digit : c.isDigit with
    | false =>
      rw [readDigits, if_pos (by simp [digit])]
      exact .stray digits small digit
    | true =>
      have next : ∀ d ∈ seen ++ [c], d.isDigit = true := by
        intro d member
        rcases List.mem_append.mp member with before | last
        · exact digits d before
        · rw [List.mem_singleton.mp last, digit]
      rw [read_digits_cons digit, whole]
      split
      · exact ih next ‹_›
      · exact .large next (by omega)

theorem DigitsRead.digits (read : DigitsRead text (.ok n)) :
    (∀ c ∈ text, c.isDigit = true) ∧ n < UInt32.size := by
  cases read with
  | all digits small => exact ⟨digits, small⟩

theorem read_number_unsigned (some_digit : unsigned text ≠ []) :
    readNumber text = readDigits 0 (unsigned text) := by
  match text, some_digit with
  | [], absent => exact absurd rfl absent
  | ['+'], absent => exact absurd rfl absent
  | '+' :: c :: rest, _ => rfl
  | c :: rest, _ =>
    by_cases sign : c = '+'
    · subst sign
      cases rest <;> simp_all [unsigned, readNumber]
    · simp [readNumber, unsigned, sign]

theorem NumberRead.run (read : NumberRead text out) : readNumber text = out := by
  cases read with
  | empty => rfl
  | sign => rfl
  | digits some_digit read => rw [read_number_unsigned some_digit, read.run]

theorem number_read (text : List Char) : NumberRead text (readNumber text) := by
  by_cases some_digit : unsigned text = []
  · have bare : text = [] ∨ text = ['+'] := by
      unfold unsigned at some_digit
      split at some_digit
      · exact .inr (by rw [some_digit])
      · exact .inl some_digit
    rcases bare with rfl | rfl
    · exact .empty
    · exact .sign
  · rw [read_number_unsigned some_digit]
    exact .digits some_digit (@digits_read [] (by simp) (by decide) _)

theorem NumberRead.fits (read : NumberRead text (.ok n)) : n < UInt32.size := by
  cases read with
  | digits _ read => exact read.digits.2

theorem NumberRead.no_dash (read : NumberRead text (.ok n)) : '-' ∉ text := by
  intro member
  cases read with
  | digits _ read =>
    have digits := read.digits.1
    unfold unsigned at digits
    split at digits
    · rcases List.mem_cons.mp member with sign | later
      · exact absurd sign (by decide)
      · exact absurd (digits '-' later) (by decide)
    · exact absurd (digits '-' member) (by decide)

theorem number_read_digits (small : n < UInt32.size) : NumberRead (digits n) (.ok n) := by
  have plain : unsigned (digits n) = digits n := by
    unfold unsigned
    split
    · rename_i rest same
      exact absurd (digits_all_digits n '+' (by simp [same])) (by decide)
    · rfl
  have read := DigitsRead.all (digits_all_digits n) (by rwa [value_digits])
  rw [value_digits, ← plain] at read
  exact .digits (by rw [plain]; exact digits_nonempty n) read

end Numbers

section Items

variable {item : List Char} {out : Except Fault Item} {i : Item}

theorem read_item_parted {left right : List Char} (clean : '-' ∉ left) :
    readItem (left ++ '-' :: right) = readRange (left ++ '-' :: right) left right := by
  rw [readItem, Text.cut_eq_some.mpr ⟨clean, rfl⟩]

theorem ItemRead.run (read : ItemRead item out) : readItem item = out.map Item.cpus := by
  cases read with
  | single read =>
    rw [readItem, Text.cut_eq_none.mpr read.no_dash]
    simp only [read.run]
    rfl
  | range left right ascends =>
    rw [read_item_parted left.no_dash, readRange]
    simp only [left.run, right.run, if_pos ascends]
    rfl
  | badId clean read =>
    rw [readItem, Text.cut_eq_none.mpr clean]
    simp only [read.run]
    rfl
  | badFirst clean left =>
    rw [read_item_parted clean, readRange]
    simp only [left.run]
    rfl
  | badLast left right =>
    rw [read_item_parted left.no_dash, readRange]
    simp only [left.run, right.run]
    rfl
  | reversed left right descends =>
    rw [read_item_parted left.no_dash, readRange]
    simp only [left.run, right.run, if_neg (Nat.not_le.mpr descends)]
    rfl

theorem item_read (item : List Char) : ∃ out, ItemRead item out := by
  cases parted : Text.cut '-' item with
  | none =>
    have clean := Text.cut_eq_none.mp parted
    have read := number_read item
    cases number : readNumber item with
    | ok n => exact ⟨_, .single (number ▸ read)⟩
    | error fault => exact ⟨_, .badId clean (number ▸ read)⟩
  | some parts =>
    obtain ⟨left, right⟩ := parts
    obtain ⟨clean, rfl⟩ := Text.cut_eq_some.mp parted
    have first_read := number_read left
    have last_read := number_read right
    cases number : readNumber left with
    | error fault => exact ⟨_, .badFirst clean (number ▸ first_read)⟩
    | ok first =>
      rw [number] at first_read
      cases number' : readNumber right with
      | error fault => exact ⟨_, .badLast first_read (number' ▸ last_read)⟩
      | ok last =>
        rw [number'] at last_read
        rcases Nat.lt_or_ge last first with descends | ascends
        · exact ⟨_, .reversed first_read last_read descends⟩
        · exact ⟨_, .range first_read last_read ascends⟩

theorem ItemRead.fits (read : ItemRead item (.ok i)) : i.Fits := by
  cases read with
  | single read => exact read.fits
  | range _ right ascends => exact ⟨ascends, right.fits⟩

theorem item_read_text (fits : i.Fits) : ItemRead i.text (.ok i) := by
  cases i with
  | single n => exact .single (number_read_digits fits)
  | range first last =>
    exact .range (number_read_digits (lt_of_le_of_lt fits.1 fits.2)) (number_read_digits fits.2)
      fits.1

theorem Item.Fits.cpus (fits : i.Fits) : i.cpus.map (fun cpu => cpu.val.toNat) = i.numbers := by
  have same {n : Nat} (small : n < UInt32.size) : (UInt32.ofNat n).toNat = n :=
    UInt32.toNat_ofNat_of_lt' small
  cases i with
  | single n => simp only [Item.cpus, Item.numbers, List.map_cons, List.map_nil, same fits]
  | range first last =>
    obtain ⟨ascends, small⟩ := fits
    rw [Item.cpus, CpuList.range, List.map_map, Item.numbers]
    refine (List.map_congr_left fun n member => ?_).trans (List.map_id _)
    have within := List.mem_range'_1.mp member
    exact same (by omega)

theorem Item.text_chars {c : Char} (member : c ∈ i.text) : c.isDigit = true ∨ c = '-' := by
  cases i with
  | single n => exact .inl (digits_all_digits n c member)
  | range first last =>
    simp only [Item.text, List.mem_append, List.mem_cons] at member
    rcases member with left | dash | right
    · exact .inl (digits_all_digits first c left)
    · exact .inr dash
    · exact .inl (digits_all_digits last c right)

end Items

section Lists

variable {pieces before after : List (List Char)} {piece : List Char} {items : List Item}
  {fault : Fault}

theorem read_items_ok (read : List.Forall₂ (fun p i => ItemRead p (.ok i)) pieces items) :
    readItems pieces = .ok (items.flatMap Item.cpus) := by
  induction read with
  | nil => rfl
  | @cons p i pieces items first _ ih =>
    have run : readItem p = .ok i.cpus := first.run
    rw [readItems, run]
    simp only [ih, List.flatMap_cons]

theorem read_items_error (earlier : ∀ p ∈ before, ∃ i, ItemRead p (.ok i))
    (bad : ItemRead piece (.error fault)) :
    readItems (before ++ piece :: after) = .error fault := by
  induction before with
  | nil =>
    have run : readItem piece = .error fault := bad.run
    rw [List.nil_append, readItems, run]
  | cons p before ih =>
    obtain ⟨⟨i, first⟩, rest⟩ := List.forall_mem_cons.mp earlier
    have run : readItem p = .ok i.cpus := first.run
    rw [List.cons_append, readItems, run]
    simp only [ih rest]

theorem items_read (pieces : List (List Char)) :
    (∃ items, List.Forall₂ (fun p i => ItemRead p (.ok i)) pieces items) ∨
    ∃ before piece after fault, pieces = before ++ piece :: after ∧
      (∀ p ∈ before, ∃ i, ItemRead p (.ok i)) ∧ ItemRead piece (.error fault) := by
  induction pieces with
  | nil => exact .inl ⟨[], .nil⟩
  | cons p pieces ih =>
    obtain ⟨out, read⟩ := item_read p
    cases out with
    | error fault => exact .inr ⟨[], p, pieces, fault, rfl, by simp, read⟩
    | ok i =>
      rcases ih with ⟨items, rest⟩ | ⟨before, piece, after, fault, parted, earlier, bad⟩
      · exact .inl ⟨i :: items, .cons read rest⟩
      · refine .inr ⟨p :: before, piece, after, fault, by rw [parted, List.cons_append], ?_, bad⟩
        exact List.forall_mem_cons.mpr ⟨⟨i, read⟩, earlier⟩

theorem list_read (list : String) :
    (∃ pieces items, Itemised list pieces ∧
      List.Forall₂ (fun p i => ItemRead p (.ok i)) pieces items) ∨
    ∃ before piece after fault, Itemised list (before ++ piece :: after) ∧
      (∀ p ∈ before, ∃ i, ItemRead p (.ok i)) ∧ ItemRead piece (.error fault) := by
  have itemised := itemised_iff.mpr (rfl : Text.split ',' (Text.trim list.toList) = _)
  rcases items_read (Text.split ',' (Text.trim list.toList)) with
    ⟨items, read⟩ | ⟨before, piece, after, fault, parted, earlier, bad⟩
  · exact .inl ⟨_, items, itemised, read⟩
  · exact .inr ⟨before, piece, after, fault, parted ▸ itemised, earlier, bad⟩

theorem numbers_injective {cpus others : List Cpu} (numbers : cpus.map (fun cpu => cpu.val.toNat) =
    others.map fun cpu => cpu.val.toNat) : cpus = others := by
  refine List.map_injective_iff.mpr ?_ numbers
  rintro ⟨a⟩ ⟨b⟩ same
  exact congrArg Cpu.mk (UInt32.toNat_inj.mp same)

theorem expansion (read : List.Forall₂ (fun p i => ItemRead p (.ok i)) pieces items) :
    (items.flatMap Item.cpus).map (fun cpu => cpu.val.toNat) = items.flatMap Item.numbers := by
  induction read with
  | nil => rfl
  | cons first _ ih =>
    rw [List.flatMap_cons, List.flatMap_cons, List.map_append, ih, first.fits.cpus]

theorem itemised_text (some_item : items ≠ []) :
    Itemised (String.ofList (Text.join [','] (items.map Item.text))) (items.map Item.text) := by
  have plain {c : Char} (among : c ∈ Text.join [','] (items.map Item.text)) :
      Text.isBlank c = false := by
    rcases Text.mem_join among with rfl | ⟨piece, member, inside⟩
    · decide
    · obtain ⟨i, -, rfl⟩ := List.mem_map.mp member
      rcases Item.text_chars inside with digit | rfl
      · have bounds : '0'.toNat ≤ c.toNat ∧ c.toNat ≤ '9'.toNat := by
          simpa [Char.isDigit, UInt32.le_iff_toNat_le] using digit
        have ends : '0'.toNat = 48 ∧ '9'.toNat = 57 := by decide
        simp [Text.isBlank]
        omega
      · decide
  refine ⟨by simpa using some_item, ?_, ⟨fun c first => ?_, fun c last => ?_⟩,
    [], [], by simp, by simp⟩
  · intro piece member comma
    obtain ⟨i, -, rfl⟩ := List.mem_map.mp member
    rcases Item.text_chars comma with digit | dash
    · exact absurd digit (by decide)
    · exact absurd dash (by decide)
  · exact plain (List.mem_of_mem_head? first)
  · exact plain (List.mem_of_getLast? last)

/-- A list is read exactly where all its items are numbers or ranges, as the numbers of its items in
    order. Otherwise the fault is that of the first other item. What is printed of numbers and
    ranges is read as they are. -/
theorem lists_read :
    (∀ list cpus, parse list = .ok cpus ↔
      ∃ pieces items, Itemised list pieces ∧
        List.Forall₂ (fun piece item => ItemRead piece (.ok item)) pieces items ∧
        cpus.map (fun cpu => cpu.val.toNat) = items.flatMap Item.numbers) ∧
    (∀ list fault, parse list = .error fault ↔
      ∃ before piece after, Itemised list (before ++ piece :: after) ∧
        (∀ earlier ∈ before, ∃ item, ItemRead earlier (.ok item)) ∧
        ItemRead piece (.error fault)) ∧
    ∀ items : List Item, items ≠ [] → (∀ item ∈ items, item.Fits) →
      ∃ cpus, parse (String.ofList (Text.join [','] (items.map Item.text))) = .ok cpus ∧
        cpus.map (fun cpu => cpu.val.toNat) = items.flatMap Item.numbers := by
  refine ⟨fun list cpus => ⟨fun ok => ?_, ?_⟩, fun list fault => ⟨fun failed => ?_, ?_⟩,
    fun items some_item fit => ?_⟩
  · rcases list_read list with
      ⟨pieces, items, itemised, read⟩ | ⟨before, piece, after, fault, itemised, earlier, bad⟩
    · rw [itemised.parse, read_items_ok read, Except.ok.injEq] at ok
      exact ⟨pieces, items, itemised, read, by rw [← ok, expansion read]⟩
    · rw [itemised.parse, read_items_error earlier bad] at ok
      simp at ok
  · rintro ⟨pieces, items, itemised, read, numbers⟩
    rw [itemised.parse, read_items_ok read, numbers_injective (numbers.trans (expansion read).symm)]
  · rcases list_read list with
      ⟨pieces, items, itemised, read⟩ | ⟨before, piece, after, first, itemised, earlier, bad⟩
    · rw [itemised.parse, read_items_ok read] at failed
      simp at failed
    · rw [itemised.parse, read_items_error earlier bad, Except.error.injEq] at failed
      exact ⟨before, piece, after, itemised, earlier, failed ▸ bad⟩
  · rintro ⟨before, piece, after, itemised, earlier, bad⟩
    rw [itemised.parse, read_items_error earlier bad]
  · have read : List.Forall₂ (fun p i => ItemRead p (.ok i)) (items.map Item.text) items := by
      rw [List.forall₂_map_left_iff, List.forall₂_same]
      exact fun i member => item_read_text (fit i member)
    exact ⟨_, (itemised_text some_item).parse.trans (read_items_ok read), expansion read⟩

/-- Two CPUs of a range at the end of all numbers, one listed twice, a second dash in a range, and
    a range of one. -/
theorem lists_read_to_the_last_cpu :
    (∃ pieces items, Itemised " 4294967294-4294967295,+5,05\n" pieces ∧
      List.Forall₂ (fun piece item => ItemRead piece (.ok item)) pieces items ∧
      [4294967294, 4294967295, 5, 5] = items.flatMap Item.numbers) ∧
    (∃ before piece after, Itemised "0-3,9--2,4294967296,x" (before ++ piece :: after) ∧
      (∀ earlier ∈ before, ∃ item, ItemRead earlier (.ok item)) ∧
      ItemRead piece (.error (.badRange "9--2" .invalidDigit))) ∧
    ∃ cpus, parse "4294967294-4294967295,7,3-3" = .ok cpus ∧
      cpus.map (fun cpu => cpu.val.toNat) = [4294967294, 4294967295, 7, 3] := by
  obtain ⟨accepted, refused, printed⟩ := lists_read
  obtain ⟨cpus, read, numbers⟩ := printed
    [.range 4294967294 4294967295, .single 7, .range 3 3] (by decide) (by decide +kernel)
  refine ⟨?_, (refused _ _).mp (by decide +kernel), cpus, ?_, numbers.trans (by decide +kernel)⟩
  · exact (accepted _ [⟨4294967294⟩, ⟨4294967295⟩, ⟨5⟩, ⟨5⟩]).mp (by decide +kernel)
  · rw [← read]
    exact congrArg parse (by decide +kernel)

end Lists

end CpuList

end Rollup
