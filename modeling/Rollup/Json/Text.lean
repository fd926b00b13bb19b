import Rollup.Text.Decimal

/-!
Text inside the quotes of a JSON string. Writing escapes the quote, the backslash and the
controls below the space, and leaves every other character as it is. Reading knows all escapes of
the format; a code point beyond sixteen bits is written as a pair of surrogates, and a surrogate
that stands alone spells no character.

`unescape_escape` says that reading undoes writing.
-/
namespace Rollup.Json

def hexValue? (c : Char) : Option Nat :=
  if c.isDigit then some (c.toNat - '0'.toNat)
  else if 'a' ≤ c ∧ c ≤ 'f' then some (c.toNat - 'a'.toNat + 10)
  else if 'A' ≤ c ∧ c ≤ 'F' then some (c.toNat - 'A'.toNat + 10)
  else none

def hexWord? (a b c d : Char) : Option Nat := do
  let a ← hexValue? a
  let b ← hexValue? b
  let c ← hexValue? c
  let d ← hexValue? d
  return ((a * 16 + b) * 16 + c) * 16 + d

def hexChar (d : Nat) : Char :=
  if d < 10 then Char.ofNat ('0'.toNat + d) else Char.ofNat ('a'.toNat + (d - 10))

def escapeChar (c : Char) : List Char :=
  if c = '"' then ['\\', '"']
  else if c = '\\' then ['\\', '\\']
  else if c = '\x08' then ['\\', 'b']
  else if c = '\x0c' then ['\\', 'f']
  else if c = '\n' then ['\\', 'n']
  else if c = '\r' then ['\\', 'r']
  else if c = '\t' then ['\\', 't']
  else if c.toNat < 0x20 then
    ['\\', 'u', '0', '0', hexChar (c.toNat / 16), hexChar (c.toNat % 16)]
  else [c]

def escape (text : List Char) : List Char := text.flatMap escapeChar

def shortEscape? (c : Char) : Option Char :=
  match c with
  | '"' => some '"'
  | '\\' => some '\\'
  | '/' => some '/'
  | 'b' => some '\x08'
  | 'f' => some '\x0c'
  | 'n' => some '\n'
  | 'r' => some '\r'
  | 't' => some '\t'
  | _ => none

def isHigh (n : Nat) : Bool := 0xd800 ≤ n && n < 0xdc00

def isLow (n : Nat) : Bool := 0xdc00 ≤ n && n < 0xe000

def paired (high low : Nat) : Char :=
  Char.ofNat (0x10000 + (high - 0xd800) * 0x400 + (low - 0xdc00))

/-- Whether every escape is one of the format; surrogates need not pair up for that. -/
def escapesValid : List Char → Bool
  | [] => true
  | '\\' :: 'u' :: a :: b :: c :: d :: rest => (hexWord? a b c d).isSome && escapesValid rest
  | ['\\'] => false
  | '\\' :: c :: rest => (shortEscape? c).isSome && escapesValid rest
  | _ :: rest => escapesValid rest

def unescape : List Char → Option (List Char)
  | [] => some []
  | '\\' :: 'u' :: a :: b :: c :: d :: rest =>
    match hexWord? a b c d with
    | none => none
    | some n =>
      if isHigh n then
        match rest with
        | '\\' :: 'u' :: e :: f :: g :: h :: rest =>
          match hexWord? e f g h with
          | some m => if isLow m then (unescape rest).map (paired n m :: ·) else none
          | none => none
        | _ => none
      else if isLow n then none
      else (unescape rest).map (Char.ofNat n :: ·)
  | ['\\'] => none
  | '\\' :: c :: rest =>
    match shortEscape? c with
    | some c => (unescape rest).map (c :: ·)
    | none => none
  | c :: rest => (unescape rest).map (c :: ·)

theorem hex_value_char {d : Nat} (h : d < 16) : hexValue? (hexChar d) = some d := by
  revert d
  decide

theorem hex_word_control {n : Nat} (h : n < 0x20) :
    hexWord? '0' '0' (hexChar (n / 16)) (hexChar (n % 16)) = some n := by
  have zero : hexValue? '0' = some 0 := by decide
  simp only [hexWord?, zero, hex_value_char (show n / 16 < 16 by omega),
    hex_value_char (show n % 16 < 16 by omega), Option.bind_eq_bind, Option.bind_some,
    Option.pure_def, Option.some.injEq]
  omega

theorem unescape_plain {c : Char} (plain : c ≠ '\\') (rest : List Char) :
    unescape (c :: rest) = (unescape rest).map (c :: ·) := by
  rw [unescape.eq_def]
  split <;> simp_all

theorem unescape_short {c d : Char} (h : shortEscape? c = some d) (notUnicode : c ≠ 'u')
    (rest : List Char) : unescape ('\\' :: c :: rest) = (unescape rest).map (d :: ·) := by
  rw [unescape.eq_def]
  split <;> simp_all
  rename_i other same
  exact absurd same.2.symm (other c rest same.1.symm)

theorem unescape_control {c : Char} (h : c.toNat < 0x20) (rest : List Char) :
    unescape ('\\' :: 'u' :: '0' :: '0' :: hexChar (c.toNat / 16) :: hexChar (c.toNat % 16) ::
      rest) = (unescape rest).map (c :: ·) := by
  rw [unescape]
  have high : isHigh c.toNat = false := by
    simp only [isHigh, Bool.and_eq_false_iff, decide_eq_false_iff_not]
    omega
  have low : isLow c.toNat = false := by
    simp only [isLow, Bool.and_eq_false_iff, decide_eq_false_iff_not]
    omega
  simp only [hex_word_control h, high, low, Bool.false_eq_true, if_false, Char.ofNat_toNat]

theorem escape_char_cases (c : Char) :
    (∃ d, escapeChar c = ['\\', d] ∧ d ≠ 'u' ∧ shortEscape? d = some c) ∨
      (c.toNat < 0x20 ∧
        escapeChar c = ['\\', 'u', '0', '0', hexChar (c.toNat / 16), hexChar (c.toNat % 16)]) ∨
      (escapeChar c = [c] ∧ c ≠ '"' ∧ c ≠ '\\' ∧ 0x20 ≤ c.toNat) := by
  simp only [escapeChar]
  split
  · exact Or.inl ⟨_, rfl, by decide, by simp [shortEscape?, *]⟩
  split
  · exact Or.inl ⟨_, rfl, by decide, by simp [shortEscape?, *]⟩
  split
  · exact Or.inl ⟨_, rfl, by decide, by simp [shortEscape?, *]⟩
  split
  · exact Or.inl ⟨_, rfl, by decide, by simp [shortEscape?, *]⟩
  split
  · exact Or.inl ⟨_, rfl, by decide, by simp [shortEscape?, *]⟩
  split
  · exact Or.inl ⟨_, rfl, by decide, by simp [shortEscape?, *]⟩
  split
  · exact Or.inl ⟨_, rfl, by decide, by simp [shortEscape?, *]⟩
  split
  · rename_i control
    exact Or.inr (Or.inl ⟨control, rfl⟩)
  · rename_i quote slash _ _ _ _ _ high
    exact Or.inr (Or.inr ⟨rfl, quote, slash, Nat.le_of_not_lt high⟩)

theorem unescape_escape_char (c : Char) (rest : List Char) :
    unescape (escapeChar c ++ rest) = (unescape rest).map (c :: ·) := by
  rcases escape_char_cases c with ⟨d, short, other, known⟩ | ⟨control, code⟩ | ⟨plain, _, slash, _⟩
  · rw [short]
    exact unescape_short known other rest
  · rw [code]
    exact unescape_control control rest
  · rw [plain]
    exact unescape_plain slash rest

theorem unescape_escape (text : List Char) : unescape (escape text) = some text := by
  induction text with
  | nil => rfl
  | cons c rest ih =>
    rw [escape, List.flatMap_cons, unescape_escape_char]
    rw [escape] at ih
    rw [ih]
    rfl

end Rollup.Json
