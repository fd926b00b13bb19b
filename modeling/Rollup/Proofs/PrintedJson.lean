import Mathlib
import Rollup.Json.Pretty
import Rollup.Json.Reader

/-!
JSON that is printed and read again. `Spells` says when a text is a sequence of tokens: blanks may
stand before every token, and no letter or digit may follow a word or a number. Such a text has just
these tokens (`lex_of_spells`), both printers write such texts, and the tokens of a value lead back
to the value. So every value whose numbers and strings are sound is read back from its compact text
and from its pretty text, in which a line end may follow.
-/
namespace Rollup.Json

def moreItems : List Json → List Token
  | [] => [.closeArray]
  | item :: items => .comma :: tokens item ++ moreItems items

def moreMembers : List (List Char × Json) → List Token
  | [] => [.closeObject]
  | (key, value) :: members => .comma :: .string key :: .colon :: tokens value ++ moreMembers members

theorem item_tokens_cons (item : Json) (items : List Json) :
    itemTokens (item :: items) = tokens item ++ moreItems items := by
  induction items generalizing item with
  | nil => simp [itemTokens, moreItems]
  | cons next items ih => simp [itemTokens, moreItems, ih]

theorem member_tokens_cons (key : List Char) (value : Json)
    (members : List (List Char × Json)) : memberTokens ((key, value) :: members) =
      .string key :: .colon :: tokens value ++ moreMembers members := by
  induction members generalizing key value with
  | nil => simp [memberTokens, moreMembers]
  | cons next members ih => simp [memberTokens, moreMembers, ih]

namespace Reading

theorem run_of_step {r q : Reading} {t : Token} (next : r.step t = some q) (ts : List Token) :
    r.run (t :: ts) = q.run ts := by
  simp [run, next]

theorem first_item_of_tokens (v : Json) (stack : List Frame) (ts : List Token) :
    (firstItem stack).run (tokens v ++ ts) = (value (.array [] :: stack)).run (tokens v ++ ts) := by
  cases v <;> simp only [tokens, List.cons_append, List.nil_append, run, step]

mutual

theorem run_tokens (v : Json) (stack : List Frame) (ts : List Token) :
    (value stack).run (tokens v ++ ts) = (after v stack).run ts := by
  match v with
  | .null | .bool _ | .number _ | .string _ =>
    exact run_of_step (by rfl) ts
  | .array [] =>
    simp only [tokens, itemTokens, List.cons_append, List.nil_append]
    rw [run_of_step (q := firstItem stack) (by rfl), run_of_step (by rfl)]
  | .array (item :: items) =>
    simp only [tokens, item_tokens_cons, List.cons_append, List.append_assoc]
    rw [run_of_step (q := firstItem stack) (by rfl), first_item_of_tokens, run_tokens,
      run_items items item []]
    rfl
  | .object [] =>
    simp only [tokens, memberTokens, List.cons_append, List.nil_append]
    rw [run_of_step (q := firstKey stack) (by rfl), run_of_step (by rfl)]
  | .object ((key, first) :: members) =>
    simp only [tokens, member_tokens_cons, List.cons_append, List.append_assoc]
    rw [run_of_step (q := firstKey stack) (by rfl), run_of_step (q := colon [] key stack) (by rfl),
      run_of_step (q := value (.object [] key :: stack)) (by rfl), run_tokens,
      run_members members key first []]
    rfl

theorem run_items (items : List Json) (item : Json) (done : List Json) (stack : List Frame)
    (ts : List Token) : (after item (.array done :: stack)).run (moreItems items ++ ts) =
      (after (.array (done.reverse ++ item :: items)) stack).run ts := by
  match items with
  | [] =>
    refine (run_of_step (by rfl) ts).trans ?_
    rw [List.reverse_cons]
  | next :: items =>
    simp only [moreItems, List.cons_append, List.append_assoc]
    rw [run_of_step (q := value (.array (item :: done) :: stack)) (by rfl), run_tokens,
      run_items items next (item :: done), List.reverse_cons, List.append_assoc,
      List.singleton_append]

theorem run_members (members : List (List Char × Json)) (key : List Char) (last : Json)
    (done : List (List Char × Json)) (stack : List Frame) (ts : List Token) :
    (after last (.object done key :: stack)).run (moreMembers members ++ ts) =
      (after (.object (done.reverse ++ (key, last) :: members)) stack).run ts := by
  match members with
  | [] =>
    refine (run_of_step (by rfl) ts).trans ?_
    rw [List.reverse_cons]
  | (next, v) :: members =>
    simp only [moreMembers, List.cons_append, List.append_assoc]
    rw [run_of_step (q := nextKey ((key, last) :: done) stack) (by rfl),
      run_of_step (q := colon ((key, last) :: done) next stack) (by rfl),
      run_of_step (q := value (.object ((key, last) :: done) next :: stack)) (by rfl), run_tokens,
      run_members members next v ((key, last) :: done), List.reverse_cons, List.append_assoc,
      List.singleton_append]

end

end Reading

theorem of_tokens (v : Json) : ofTokens (tokens v) = some v := by
  have read := Reading.run_tokens v [] []
  rw [List.append_nil] at read
  simp only [ofTokens, read, Reading.run, Option.bind_some, Reading.finish]

/-- No letter or digit comes next, nor a sign or a point. -/
def Ends (text : List Char) : Prop := ∀ c ∈ text.head?, isNumberChar c = false ∧ c.isAlpha = false

/-- A token whose text can be read: its number is one, and its string ends at the closing quote and
    holds no invalid escape. -/
def Token.Sound : Token → Prop
  | .number lexeme => isNumber lexeme = true
  | .string lexeme => (∀ rest, readString (lexeme ++ '"' :: rest) = some (lexeme, rest)) ∧
      escapesValid lexeme = true
  | _ => True

def Token.isWord : Token → Bool
  | .null | .bool _ | .number _ => true
  | _ => false

theorem Ends.stops {text : List Char} (ends : Ends text) {p : Char → Bool}
    (among : ∀ c, p c = true → isNumberChar c = true ∨ c.isAlpha = true) :
    text.takeWhile p = [] ∧ text.dropWhile p = text := by
  cases text with
  | nil => simp
  | cons c rest =>
    have next := ends c (by simp)
    have other : p c = false := by
      by_contra some
      rcases among c (by simpa using some) with number | letter
      · exact absurd number (by simp [next.1])
      · exact absurd letter (by simp [next.2])
    simp [other]

theorem Ends.split {word text : List Char} (ends : Ends text) {p : Char → Bool}
    (all : ∀ c ∈ word, p c = true)
    (among : ∀ c, p c = true → isNumberChar c = true ∨ c.isAlpha = true) :
    (word ++ text).takeWhile p = word ∧ (word ++ text).dropWhile p = text := by
  obtain ⟨none, rest⟩ := ends.stops among
  rw [List.takeWhile_append_of_pos all, List.dropWhile_append_of_pos all, none, rest]
  simp

theorem lex_space {c : Char} (space : isSpace c = true) (rest : List Char) :
    lex (c :: rest) = lex rest := by
  rw [lex, if_pos space]

theorem lex_string {lexeme : List Char} (sound : (Token.string lexeme).Sound) (rest : List Char) :
    lex ((Token.string lexeme).chars ++ rest) = (lex rest).map (.string lexeme :: ·) := by
  have body := sound.1 rest
  simp only [Token.chars, List.cons_append, List.append_assoc, List.nil_append]
  rw [lex, if_neg (by decide), if_pos rfl]
  split
  · rename_i l after read
    rw [body, Option.some.injEq, Prod.mk.injEq] at read
    obtain ⟨rfl, rfl⟩ := read
    rw [if_pos sound.2]
  · rename_i failed
    rw [body] at failed
    exact absurd failed (by simp)

theorem not_space {p : Char → Bool} {c : Char} (holds : p c = true)
    (fails : [' ', '\n', '\t', '\r'].any p = false) : isSpace c = false := by
  have other (d : Char) (blank : d ∈ [' ', '\n', '\t', '\r']) : c ≠ d := by
    rintro rfl
    exact List.any_eq_false.mp fails c blank holds
  simp [isSpace, other ' ' (by decide), other '\n' (by decide), other '\t' (by decide),
    other '\r' (by decide)]

theorem not_mark {p : Char → Bool} {c : Char} (holds : p c = true)
    (fails : ['[', ']', '\x7b', '\x7d', ',', ':'].any p = false) : punctuation? c = none := by
  unfold punctuation?
  split
  case h_7 => rfl
  all_goals exact absurd holds (List.any_eq_false.mp fails _ (by decide))

theorem lex_punctuation {c : Char} {t : Token} (mark : punctuation? c = some t)
    (rest : List Char) : lex (c :: rest) = (lex rest).map (t :: ·) := by
  have space : isSpace c = false :=
    not_space (p := fun d => (punctuation? d).isSome) (by simp [mark]) (by rfl)
  have quote : c ≠ '"' := by
    rintro rfl
    exact absurd mark (by simp [punctuation?])
  rw [lex, if_neg (by simp [space]), if_neg quote, mark]

theorem lex_constant {c : Char} {letters rest : List Char} {t : Token} (letter : c.isAlpha = true)
    (all : ∀ d ∈ letters, d.isAlpha = true) (known : constant? (c :: letters) = some t)
    (ends : Ends rest) : lex (c :: letters ++ rest) = (lex rest).map (t :: ·) := by
  have space : isSpace c = false := not_space letter (by rfl)
  have mark : punctuation? c = none := not_mark letter (by rfl)
  have quote : c ≠ '"' := by
    rintro rfl
    exact absurd letter (by decide)
  obtain ⟨front, back⟩ := ends.split (p := Char.isAlpha) all fun _ => Or.inr
  rw [List.cons_append, lex, if_neg (by simp [space]), if_neg quote, mark]
  simp [letter, front, back, known]

theorem number_char_of_digit {c : Char} (digit : c.isDigit = true) : isNumberChar c = true := by
  simp [isNumberChar, digit]

theorem is_digits_chars {text : List Char} (digits : isDigits text = true) :
    ∀ c ∈ text, isNumberChar c = true := by
  simp only [isDigits, Bool.and_eq_true, List.all_eq_true] at digits
  exact fun c member => number_char_of_digit (digits.2 c member)

theorem exponent_chars {text : List Char} (exponent : isExponent text = true) :
    ∀ c ∈ text, isNumberChar c = true := by
  unfold isExponent at exponent
  split at exponent
  · exact List.forall_mem_cons.mpr ⟨by decide, is_digits_chars exponent⟩
  · exact List.forall_mem_cons.mpr ⟨by decide, is_digits_chars exponent⟩
  · exact is_digits_chars exponent

theorem chars_after_digits {text : List Char}
    (rest : ∀ c ∈ text.dropWhile Char.isDigit, isNumberChar c = true) :
    ∀ c ∈ text, isNumberChar c = true := by
  intro c member
  rw [← List.takeWhile_append_dropWhile (p := Char.isDigit) (l := text)] at member
  rcases List.mem_append.mp member with front | back
  · exact number_char_of_digit (List.mem_takeWhile_imp front)
  · exact rest c back

theorem fraction_chars {text : List Char} (fraction : isFractionTail text = true) :
    ∀ c ∈ text, isNumberChar c = true := by
  apply chars_after_digits
  simp only [isFractionTail] at fraction
  split at fraction
  · rename_i none
    simp [none]
  · rename_i rest more
    rw [more]
    exact List.forall_mem_cons.mpr
      ⟨by decide, exponent_chars (Bool.and_eq_true_iff.mp fraction).2⟩
  · rename_i rest more
    rw [more]
    exact List.forall_mem_cons.mpr
      ⟨by decide, exponent_chars (Bool.and_eq_true_iff.mp fraction).2⟩
  · simp at fraction

theorem whole_chars {text : List Char} (whole : isWholeTail text = true) :
    ∀ c ∈ text, isNumberChar c = true := by
  unfold isWholeTail at whole
  split at whole
  · simp
  · exact List.forall_mem_cons.mpr ⟨by decide, fraction_chars whole⟩
  · exact List.forall_mem_cons.mpr ⟨by decide, exponent_chars whole⟩
  · exact List.forall_mem_cons.mpr ⟨by decide, exponent_chars whole⟩
  · simp at whole

theorem unsigned_chars {text : List Char} (unsigned : isUnsigned text = true) :
    (∀ c ∈ text, isNumberChar c = true) ∧ ∃ c rest, text = c :: rest ∧ c.isDigit = true := by
  unfold isUnsigned at unsigned
  split at unsigned
  · exact ⟨List.forall_mem_cons.mpr ⟨by decide, whole_chars unsigned⟩, _, _, rfl, by decide⟩
  · rename_i c rest _
    obtain ⟨digit, more⟩ := Bool.and_eq_true_iff.mp unsigned
    exact ⟨List.forall_mem_cons.mpr
      ⟨number_char_of_digit digit, chars_after_digits (whole_chars more)⟩, c, rest, rfl, digit⟩
  · simp at unsigned

theorem number_chars {text : List Char} (number : isNumber text = true) :
    (∀ c ∈ text, isNumberChar c = true) ∧
      ∃ c rest, text = c :: rest ∧ (c = '-' ∨ c.isDigit = true) := by
  unfold isNumber at number
  split at number
  · exact ⟨List.forall_mem_cons.mpr ⟨by decide, (unsigned_chars number).1⟩, _, _, rfl, Or.inl rfl⟩
  · obtain ⟨chars, c, rest, same, digit⟩ := unsigned_chars number
    exact ⟨chars, c, rest, same, Or.inr digit⟩

theorem number_start {c : Char} (start : c = '-' ∨ c.isDigit = true) :
    isSpace c = false ∧ c ≠ '"' ∧ punctuation? c = none ∧
      (isNumberChar c && !c.isAlpha) = true := by
  rcases start with rfl | digit
  · decide
  · have letter : c.isAlpha = false := by
      simp only [Char.isDigit, Char.isAlpha, Char.isUpper, Char.isLower, Bool.and_eq_true,
        decide_eq_true_eq, Bool.or_eq_false_iff, Bool.and_eq_false_iff, decide_eq_false_iff_not,
        ge_iff_le, UInt32.le_iff_toNat_le] at digit ⊢
      have bounds : 'A'.val.toNat = 65 ∧ 'a'.val.toNat = 97 ∧ '9'.val.toNat = 57 := by decide
      omega
    have quote : c ≠ '"' := by
      rintro rfl
      exact absurd digit (by decide)
    exact ⟨not_space digit (by rfl), quote, not_mark digit (by rfl),
      by simp [number_char_of_digit digit, letter]⟩

theorem lex_number {lexeme rest : List Char} (number : isNumber lexeme = true) (ends : Ends rest) :
    lex (lexeme ++ rest) = (lex rest).map (.number lexeme :: ·) := by
  obtain ⟨chars, c, more, rfl, start⟩ := number_chars number
  obtain ⟨space, quote, mark, begins⟩ := number_start start
  obtain ⟨front, back⟩ := ends.split (p := isNumberChar)
    (fun d member => chars d (List.mem_cons_of_mem c member)) fun _ => Or.inl
  rw [List.cons_append, lex, if_neg (by simp [space]), if_neg quote, mark]
  simp only [begins, if_true, front, back, number]

theorem digits_sound (n : Nat) : (Token.number (Decimal.digits n)).Sound := by
  have all := Decimal.digits_all_digits n
  have plain (rest : List Char) (zero : Decimal.digits n = '0' :: rest) : rest = [] :=
    Decimal.digits_plain zero
  cases digits : Decimal.digits n with
  | nil => exact absurd digits (Decimal.digits_nonempty n)
  | cons c rest =>
    rw [digits] at all plain
    have digit := all c (by simp)
    have minus : c ≠ '-' := by
      rintro rfl
      exact absurd digit (by decide)
    have none : rest.dropWhile Char.isDigit = [] := by
      rw [List.dropWhile_eq_nil_iff]
      exact fun d member => all d (List.mem_cons_of_mem c member)
    change isNumber (c :: rest) = true
    unfold isNumber
    split
    · rename_i same
      exact absurd (List.cons.inj same).1 minus
    · unfold isUnsigned
      split
      · rename_i same
        rw [List.cons.injEq] at same
        obtain ⟨rfl, rfl⟩ := same
        rw [plain rest rfl]
        rfl
      · rename_i same
        rw [List.cons.injEq] at same
        obtain ⟨rfl, rfl⟩ := same
        simp [digit, none, isWholeTail]
      · rename_i same
        exact absurd same (by simp)

theorem read_string_plain {c : Char} (quote : c ≠ '"') (slash : c ≠ '\\') (high : 0x20 ≤ c.toNat)
    (text : List Char) :
    readString (c :: text) = (readString text).map fun (lexeme, after) => (c :: lexeme, after) := by
  rw [readString.eq_def]
  split
  case h_1 same => simp at same
  case h_2 same => exact absurd (List.cons.inj same).1 quote
  case h_3 same => exact absurd (List.cons.inj same).1 slash
  case h_4 same => exact absurd (List.cons.inj same).1 slash
  case h_5 same =>
    rw [List.cons.injEq] at same
    obtain ⟨rfl, rfl⟩ := same
    rw [if_neg (by omega)]

theorem hex_char_plain {d : Nat} (small : d < 16) :
    hexChar d ≠ '"' ∧ hexChar d ≠ '\\' ∧ 0x20 ≤ (hexChar d).toNat := by
  revert d
  decide

theorem read_string_escaped (c : Char) (text : List Char) : readString ('\\' :: c :: text) =
    (readString text).map fun (lexeme, after) => ('\\' :: c :: lexeme, after) := by
  rw [readString]

theorem read_string_escape_char (c : Char) (text : List Char) : readString (escapeChar c ++ text) =
    (readString text).map fun (lexeme, after) => (escapeChar c ++ lexeme, after) := by
  rcases escape_char_cases c with ⟨d, short, _, _⟩ | ⟨control, code⟩ | ⟨plain, quote, slash, high⟩
  · rw [short]
    exact read_string_escaped d text
  · have first := hex_char_plain (show c.toNat / 16 < 16 by omega)
    have second := hex_char_plain (show c.toNat % 16 < 16 by omega)
    simp only [code, List.cons_append, List.nil_append]
    rw [read_string_escaped, read_string_plain (by decide) (by decide) (by decide),
      read_string_plain (by decide) (by decide) (by decide),
      read_string_plain first.1 first.2.1 first.2.2, read_string_plain second.1 second.2.1 second.2.2]
    simp only [Option.map_map]
    rfl
  · rw [plain]
    exact read_string_plain quote slash high text

theorem escapes_valid_escape_char (c : Char) (text : List Char) :
    escapesValid (escapeChar c ++ text) = escapesValid text := by
  rcases escape_char_cases c with ⟨d, short, other, known⟩ | ⟨control, code⟩ | ⟨plain, _, slash, _⟩
  · rw [short, List.cons_append, List.cons_append, List.nil_append, escapesValid.eq_def]
    split <;> simp_all
    rename_i second same
    exact absurd same.2.symm (second d text same.1.symm)
  · simp only [code, List.cons_append, List.nil_append, escapesValid, hex_word_control control,
      Option.isSome_some, Bool.true_and]
  · rw [plain, List.cons_append, List.nil_append, escapesValid.eq_def]
    split <;> simp_all

theorem escape_sound (text : List Char) : (Token.string (escape text)).Sound := by
  constructor
  · intro rest
    induction text with
    | nil => rfl
    | cons c text ih =>
      rw [escape, List.flatMap_cons, List.append_assoc, read_string_escape_char]
      rw [escape] at ih
      rw [ih]
      rfl
  · induction text with
    | nil => rfl
    | cons c text ih =>
      rw [escape, List.flatMap_cons, escapes_valid_escape_char]
      exact ih

/-- A text made of these tokens, with blanks before any of them; behind a word or a number stands
    nothing that would belong to it. -/
inductive Spells : List Token → List Char → Prop where
  | nothing : Spells [] []
  | blank {c : Char} {ts : List Token} {text : List Char} (space : isSpace c = true)
      (spells : Spells ts text) : Spells ts (c :: text)
  | token {t : Token} {ts : List Token} {text : List Char} (sound : t.Sound)
      (ends : t.isWord = true → Ends text) (spells : Spells ts text) :
      Spells (t :: ts) (t.chars ++ text)

theorem lex_token {t : Token} (sound : t.Sound) {rest : List Char}
    (ends : t.isWord = true → Ends rest) : lex (t.chars ++ rest) = (lex rest).map (t :: ·) := by
  cases t
  case null =>
    have chars : Token.null.chars = 'n' :: ['u', 'l', 'l'] := by decide
    rw [chars]
    exact lex_constant (by decide) (by simp [Char.isAlpha]) (by rfl) (ends rfl)
  case bool b =>
    cases b
    · have chars : (Token.bool false).chars = 'f' :: ['a', 'l', 's', 'e'] := by decide
      rw [chars]
      exact lex_constant (by decide) (by simp [Char.isAlpha]) (by rfl) (ends rfl)
    · have chars : (Token.bool true).chars = 't' :: ['r', 'u', 'e'] := by decide
      rw [chars]
      exact lex_constant (by decide) (by simp [Char.isAlpha]) (by rfl) (ends rfl)
  case number lexeme => exact lex_number sound (ends rfl)
  case string lexeme => exact lex_string sound rest
  all_goals exact lex_punctuation (by decide) rest

/-- A text has the tokens that it spells and no others. -/
theorem lex_of_spells {ts : List Token} {text : List Char} (spells : Spells ts text) :
    lex text = some ts := by
  induction spells with
  | nothing => rw [lex]
  | blank space _ ih => rw [lex_space space, ih]
  | token sound ends _ ih =>
    rw [lex_token sound ends, ih]
    rfl

theorem ends_before {c : Char} (other : isNumberChar c = false ∧ c.isAlpha = false)
    (text : List Char) : Ends (c :: text) := by
  intro d first
  rw [List.head?_cons, Option.mem_some_iff] at first
  exact first ▸ other

theorem Ends.nothing : Ends [] := by
  intro c first
  simp at first

theorem Spells.line {ts : List Token} {text : List Char} (spells : Spells ts text) (depth : Nat) :
    Spells ts (lineAt depth ++ text) := by
  refine .blank (by decide) ?_
  generalize 2 * depth = width
  induction width with
  | zero => exact spells
  | succ width ih => exact .blank (by decide) ih

theorem Spells.mark {t : Token} {ts : List Token} {text : List Char} (spells : Spells ts text)
    (sound : t.Sound) (mark : t.isWord = false) : Spells (t :: ts) (t.chars ++ text) :=
  .token sound (fun word => absurd word (by simp [mark])) spells

theorem ends_items (items : List Json) (depth : Nat) (text : List Char) :
    Ends (prettyItems (depth + 1) items ++ (lineAt depth ++ text)) := by
  cases items with
  | nil => exact ends_before (by decide) _
  | cons item items =>
    rw [prettyItems, List.cons_append, List.cons_append, List.cons_append]
    exact ends_before (by decide) _

theorem ends_members (members : List (List Char × Json)) (depth : Nat) (text : List Char) :
    Ends (prettyMembers (depth + 1) members ++ (lineAt depth ++ text)) := by
  cases members with
  | nil => exact ends_before (by decide) _
  | cons member members =>
    rw [prettyMembers, List.cons_append, List.cons_append, List.cons_append, List.cons_append,
      List.cons_append]
    exact ends_before (by decide) _

mutual

theorem spells_pretty (v : Json) (depth : Nat) (sound : ∀ t ∈ tokens v, t.Sound) {ts : List Token}
    {rest : List Char} (ends : Ends rest) (more : Spells ts rest) :
    Spells (tokens v ++ ts) (prettyChars depth v ++ rest) := by
  match v with
  | .null | .bool _ | .number _ | .string _ =>
    exact .token (sound _ (by simp [tokens])) (fun _ => ends) more
  | .array [] => exact ((more.mark (t := .closeArray) trivial rfl).mark (t := .openArray) trivial rfl)
  | .object [] =>
    exact ((more.mark (t := .closeObject) trivial rfl).mark (t := .openObject) trivial rfl)
  | .array (item :: items) =>
    simp only [tokens, item_tokens_cons, List.forall_mem_cons, List.forall_mem_append] at sound
    simp only [tokens, item_tokens_cons, prettyChars, List.cons_append, List.append_assoc]
    refine Spells.mark (t := .openArray) (.line ?_ _) trivial rfl
    exact spells_pretty item _ sound.2.1 (ends_items items depth _)
      (spells_items items depth sound.2.2 more)
  | .object ((key, value) :: members) =>
    simp only [tokens, member_tokens_cons, List.forall_mem_cons, List.forall_mem_append,
      List.cons_append] at sound
    simp only [tokens, member_tokens_cons, prettyChars, List.cons_append, List.append_assoc,
      List.nil_append]
    refine Spells.mark (t := .openObject) (.line (.mark ?_ sound.2.1 rfl) _) trivial rfl
    refine Spells.mark (t := .colon) (.blank (by decide) ?_) trivial rfl
    exact spells_pretty value _ sound.2.2.2.1 (ends_members members depth _)
      (spells_members members depth sound.2.2.2.2 more)

theorem spells_items (items : List Json) (depth : Nat) (sound : ∀ t ∈ moreItems items, t.Sound)
    {ts : List Token} {rest : List Char} (more : Spells ts rest) : Spells (moreItems items ++ ts)
      (prettyItems (depth + 1) items ++ (lineAt depth ++ (Token.closeArray.chars ++ rest))) := by
  match items with
  | [] => exact .line (more.mark (t := .closeArray) trivial rfl) depth
  | item :: items =>
    simp only [moreItems, List.forall_mem_cons, List.forall_mem_append, List.cons_append] at sound
    simp only [moreItems, prettyItems, List.cons_append, List.append_assoc]
    refine Spells.mark (t := .comma) (.line ?_ _) trivial rfl
    exact spells_pretty item _ sound.2.1 (ends_items items depth _)
      (spells_items items depth sound.2.2 more)

theorem spells_members (members : List (List Char × Json)) (depth : Nat)
    (sound : ∀ t ∈ moreMembers members, t.Sound) {ts : List Token} {rest : List Char}
    (more : Spells ts rest) : Spells (moreMembers members ++ ts)
      (prettyMembers (depth + 1) members ++
        (lineAt depth ++ (Token.closeObject.chars ++ rest))) := by
  match members with
  | [] => exact .line (more.mark (t := .closeObject) trivial rfl) depth
  | (key, value) :: members =>
    simp only [moreMembers, List.forall_mem_cons, List.forall_mem_append, List.cons_append]
      at sound
    simp only [moreMembers, prettyMembers, List.cons_append, List.append_assoc, List.nil_append]
    refine Spells.mark (t := .comma) (.line (.mark ?_ sound.2.1 rfl) _) trivial rfl
    refine Spells.mark (t := .colon) (.blank (by decide) ?_) trivial rfl
    exact spells_pretty value _ sound.2.2.2.1 (ends_members members depth _)
      (spells_members members depth sound.2.2.2.2 more)

end

theorem ends_more_items (items : List Json) (text : List Char) :
    Ends ((moreItems items).flatMap Token.chars ++ text) := by
  cases items <;> exact ends_before (by decide) _

theorem ends_more_members (members : List (List Char × Json)) (text : List Char) :
    Ends ((moreMembers members).flatMap Token.chars ++ text) := by
  cases members <;> exact ends_before (by decide) _

mutual

/-- Two words of a value have a mark between them, so they need no blank. -/
theorem spells_compact (v : Json) (sound : ∀ t ∈ tokens v, t.Sound) {ts : List Token}
    {rest : List Char} (ends : Ends rest) (more : Spells ts rest) :
    Spells (tokens v ++ ts) ((tokens v).flatMap Token.chars ++ rest) := by
  match v with
  | .null | .bool _ | .number _ | .string _ =>
    simp only [tokens, List.flatMap_cons, List.flatMap_nil, List.append_nil, List.cons_append,
      List.nil_append]
    exact .token (sound _ (by simp [tokens])) (fun _ => ends) more
  | .array [] => exact ((more.mark (t := .closeArray) trivial rfl).mark (t := .openArray) trivial rfl)
  | .object [] =>
    exact ((more.mark (t := .closeObject) trivial rfl).mark (t := .openObject) trivial rfl)
  | .array (item :: items) =>
    simp only [tokens, item_tokens_cons, List.forall_mem_cons, List.forall_mem_append] at sound
    simp only [tokens, item_tokens_cons, List.flatMap_cons, List.flatMap_append, List.cons_append,
      List.append_assoc]
    refine Spells.mark (t := .openArray) ?_ trivial rfl
    exact spells_compact item sound.2.1 (ends_more_items items _)
      (spells_more_items items sound.2.2 more)
  | .object ((key, value) :: members) =>
    simp only [tokens, member_tokens_cons, List.forall_mem_cons, List.forall_mem_append,
      List.cons_append] at sound
    simp only [tokens, member_tokens_cons, List.flatMap_cons, List.flatMap_append,
      List.cons_append, List.append_assoc]
    refine Spells.mark (t := .openObject) (.mark (.mark ?_ trivial rfl) sound.2.1 rfl) trivial rfl
    exact spells_compact value sound.2.2.2.1 (ends_more_members members _)
      (spells_more_members members sound.2.2.2.2 more)

theorem spells_more_items (items : List Json) (sound : ∀ t ∈ moreItems items, t.Sound)
    {ts : List Token} {rest : List Char} (more : Spells ts rest) :
    Spells (moreItems items ++ ts) ((moreItems items).flatMap Token.chars ++ rest) := by
  match items with
  | [] => exact more.mark (t := .closeArray) trivial rfl
  | item :: items =>
    simp only [moreItems, List.forall_mem_cons, List.forall_mem_append, List.cons_append] at sound
    simp only [moreItems, List.flatMap_cons, List.flatMap_append, List.cons_append,
      List.append_assoc]
    refine Spells.mark (t := .comma) ?_ trivial rfl
    exact spells_compact item sound.2.1 (ends_more_items items _)
      (spells_more_items items sound.2.2 more)

theorem spells_more_members (members : List (List Char × Json))
    (sound : ∀ t ∈ moreMembers members, t.Sound) {ts : List Token} {rest : List Char}
    (more : Spells ts rest) :
    Spells (moreMembers members ++ ts) ((moreMembers members).flatMap Token.chars ++ rest) := by
  match members with
  | [] => exact more.mark (t := .closeObject) trivial rfl
  | (key, value) :: members =>
    simp only [moreMembers, List.forall_mem_cons, List.forall_mem_append, List.cons_append]
      at sound
    simp only [moreMembers, List.flatMap_cons, List.flatMap_append, List.cons_append,
      List.append_assoc]
    refine Spells.mark (t := .comma) (.mark (.mark ?_ trivial rfl) sound.2.1 rfl) trivial rfl
    exact spells_compact value sound.2.2.2.1 (ends_more_members members _)
      (spells_more_members members sound.2.2.2.2 more)

end

def Sound (v : Json) : Prop := ∀ t ∈ tokens v, t.Sound

theorem parse_of_spells {v : Json} {text : List Char} (spells : Spells (tokens v) text) :
    parse (String.ofList text) = some v := by
  rw [parse, String.toList_ofList, lex_of_spells spells, Option.bind_some, of_tokens]

theorem Sound.parse_compact {v : Json} (sound : v.Sound) : parse v.compact = some v := by
  have spells := spells_compact v sound Ends.nothing .nothing
  rw [List.append_nil, List.append_nil] at spells
  exact parse_of_spells spells

theorem Sound.parse_pretty {v : Json} (sound : v.Sound) : parse v.pretty = some v := by
  have spells := spells_pretty v 0 sound Ends.nothing .nothing
  rw [List.append_nil, List.append_nil] at spells
  exact parse_of_spells spells

theorem Sound.parse_pretty_line {v : Json} (sound : v.Sound) :
    parse (v.pretty ++ "\n") = some v := by
  have ends : Ends ['\n'] := ends_before (by decide) []
  have spells := spells_pretty v 0 sound ends (.blank (by decide) .nothing)
  rw [List.append_nil] at spells
  rw [pretty, ← String.ofList_append]
  exact parse_of_spells spells

theorem null_sound : Sound .null := by
  intro t member
  rw [List.mem_singleton.mp member]
  trivial

theorem of_nat_sound (n : Nat) : (ofNat n).Sound := by
  intro t member
  rw [List.mem_singleton.mp member]
  exact digits_sound n

theorem of_string_sound (s : String) : (ofString s).Sound := by
  intro t member
  rw [List.mem_singleton.mp member]
  exact escape_sound s.toList

theorem more_items_sound {items : List Json} (sound : ∀ item ∈ items, item.Sound) :
    ∀ t ∈ moreItems items, t.Sound := by
  induction items with
  | nil => simp [moreItems, Token.Sound]
  | cons item items ih =>
    rw [List.forall_mem_cons] at sound
    simp only [moreItems, List.cons_append, List.forall_mem_cons, List.forall_mem_append]
    exact ⟨trivial, sound.1, ih sound.2⟩

theorem array_sound {items : List Json} (sound : ∀ item ∈ items, item.Sound) :
    (Json.array items).Sound := by
  cases items with
  | nil => simp [Sound, tokens, itemTokens, Token.Sound]
  | cons item items =>
    rw [List.forall_mem_cons] at sound
    simp only [Sound, tokens, item_tokens_cons, List.forall_mem_cons, List.forall_mem_append]
    exact ⟨trivial, sound.1, more_items_sound sound.2⟩

theorem more_members_sound {members : List (List Char × Json)}
    (sound : ∀ m ∈ members, (Token.string m.1).Sound ∧ m.2.Sound) :
    ∀ t ∈ moreMembers members, t.Sound := by
  induction members with
  | nil => simp [moreMembers, Token.Sound]
  | cons m members ih =>
    rw [List.forall_mem_cons] at sound
    simp only [moreMembers, List.cons_append, List.forall_mem_cons, List.forall_mem_append]
    exact ⟨trivial, sound.1.1, trivial, sound.1.2, ih sound.2⟩

theorem object_sound {members : List (List Char × Json)}
    (sound : ∀ m ∈ members, (Token.string m.1).Sound ∧ m.2.Sound) :
    (Json.object members).Sound := by
  cases members with
  | nil => simp [Sound, tokens, memberTokens, Token.Sound]
  | cons m members =>
    obtain ⟨key, value⟩ := m
    rw [List.forall_mem_cons] at sound
    simp only [Sound, tokens, member_tokens_cons, List.cons_append, List.forall_mem_cons,
      List.forall_mem_append]
    exact ⟨trivial, sound.1.1, trivial, sound.1.2, more_members_sound sound.2⟩

def Plain (fields : List (String × Json)) : Prop :=
  ∀ key ∈ fields.map Prod.fst, escape key.toList = key.toList

theorem of_fields_sound {fields : List (String × Json)} (plain : Plain fields)
    (sound : ∀ f ∈ fields, f.2.Sound) : (ofFields fields).Sound := by
  refine object_sound fun m member => ?_
  obtain ⟨⟨key, value⟩, field, rfl⟩ := List.mem_map.mp member
  have named := escape_sound key.toList
  rw [plain key (List.mem_map_of_mem (f := Prod.fst) field)] at named
  exact ⟨named, sound (key, value) field⟩

theorem fields_of_plain {fields : List (String × Json)} (plain : Plain fields) :
    fields? (fields.map fun (key, value) => (key.toList, value)) = some fields := by
  induction fields with
  | nil => rfl
  | cons f rest ih =>
    rw [Plain, List.map_cons, List.forall_mem_cons] at plain
    have first : unescape f.1.toList = some f.1.toList := by
      have read := unescape_escape f.1.toList
      rwa [plain.1] at read
    have later := ih plain.2
    simp only [List.map_cons, fields?, first, later]
    simp

@[simp] theorem string_of_string (s : String) : (ofString s).string? = some s := by
  simp [ofString, string?, unescape_escape]

@[simp] theorem word_of_word (w : UInt64) : (ofWord w).word? = some w :=
  Decimal.word_digits w

end Rollup.Json
