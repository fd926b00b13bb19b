import Rollup.Json.Value

/-!
Tokens of JSON: brackets, separators, words, numbers and strings. Blanks between tokens are
skipped. A value has one sequence of tokens, and its compact text is the text of these.
-/
namespace Rollup.Json

inductive Token where
  | openArray
  | closeArray
  | openObject
  | closeObject
  | comma
  | colon
  | null
  | bool (b : Bool)
  | number (lexeme : List Char)
  | string (lexeme : List Char)
  deriving DecidableEq, Repr

def Token.chars : Token → List Char
  | .openArray => ['[']
  | .closeArray => [']']
  | .openObject => ['\x7b']
  | .closeObject => ['\x7d']
  | .comma => [',']
  | .colon => [':']
  | .null => "null".toList
  | .bool b => (if b then "true" else "false").toList
  | .number lexeme => lexeme
  | .string lexeme => '"' :: lexeme ++ ['"']

def isSpace (c : Char) : Bool := c = ' ' || c = '\n' || c = '\t' || c = '\r'

def punctuation? (c : Char) : Option Token :=
  match c with
  | '[' => some .openArray
  | ']' => some .closeArray
  | '\x7b' => some .openObject
  | '\x7d' => some .closeObject
  | ',' => some .comma
  | ':' => some .colon
  | _ => none

def readString : List Char → Option (List Char × List Char)
  | [] => none
  | '"' :: rest => some ([], rest)
  | ['\\'] => none
  | '\\' :: c :: rest => (readString rest).map fun (lexeme, after) => ('\\' :: c :: lexeme, after)
  | c :: rest =>
    if c.toNat < 0x20 then none
    else (readString rest).map fun (lexeme, after) => (c :: lexeme, after)

theorem read_string_shorter {text lexeme after : List Char}
    (h : readString text = some (lexeme, after)) : after.length < text.length := by
  fun_induction readString text generalizing lexeme with
  | case1 => simp at h
  | case2 rest =>
    simp only [Option.some.injEq, Prod.mk.injEq] at h
    rw [← h.2]
    exact Nat.lt_succ_self _
  | case3 => simp at h
  | case4 c rest ih =>
    obtain ⟨⟨l, a⟩, inner, same⟩ := Option.map_eq_some_iff.mp h
    simp only [Prod.mk.injEq] at same
    have shorter := ih (same.2 ▸ inner)
    simp only [List.length_cons]
    omega
  | case5 => simp at h
  | case6 c rest _ _ _ _ ih =>
    obtain ⟨⟨l, a⟩, inner, same⟩ := Option.map_eq_some_iff.mp h
    simp only [Prod.mk.injEq] at same
    have shorter := ih (same.2 ▸ inner)
    simp only [List.length_cons]
    omega

def isNumberChar (c : Char) : Bool :=
  c.isDigit || c = '-' || c = '+' || c = '.' || c = 'e' || c = 'E'

def isDigits (text : List Char) : Bool := !text.isEmpty && text.all Char.isDigit

def isExponent : List Char → Bool
  | '+' :: rest => isDigits rest
  | '-' :: rest => isDigits rest
  | text => isDigits text

def isFractionTail (text : List Char) : Bool :=
  let digits := text.takeWhile Char.isDigit
  match text.dropWhile Char.isDigit with
  | [] => !digits.isEmpty
  | 'e' :: rest => !digits.isEmpty && isExponent rest
  | 'E' :: rest => !digits.isEmpty && isExponent rest
  | _ => false

def isWholeTail : List Char → Bool
  | [] => true
  | '.' :: rest => isFractionTail rest
  | 'e' :: rest => isExponent rest
  | 'E' :: rest => isExponent rest
  | _ => false

/-- A number without its sign; a zero that leads stands alone before the point. -/
def isUnsigned : List Char → Bool
  | '0' :: rest => isWholeTail rest
  | c :: rest => c.isDigit && isWholeTail (rest.dropWhile Char.isDigit)
  | [] => false

def isNumber : List Char → Bool
  | '-' :: rest => isUnsigned rest
  | text => isUnsigned text

def constant? (text : List Char) : Option Token :=
  if text = "null".toList then some .null
  else if text = "true".toList then some (.bool true)
  else if text = "false".toList then some (.bool false)
  else none

theorem drop_while_shorter (p : Char → Bool) (text : List Char) :
    (text.dropWhile p).length ≤ text.length :=
  (List.dropWhile_sublist p).length_le

def lex : List Char → Option (List Token)
  | [] => some []
  | c :: rest =>
    if isSpace c then lex rest
    else if c = '"' then
      match _body : readString rest with
      | some (lexeme, after) =>
        if escapesValid lexeme then (lex after).map (.string lexeme :: ·) else none
      | none => none
    else match punctuation? c with
      | some t => (lex rest).map (t :: ·)
      | none =>
        if isNumberChar c && !c.isAlpha then
          let lexeme := c :: rest.takeWhile isNumberChar
          if isNumber lexeme then (lex (rest.dropWhile isNumberChar)).map (.number lexeme :: ·)
          else none
        else
          match constant? (c :: rest.takeWhile Char.isAlpha) with
          | some t => (lex (rest.dropWhile Char.isAlpha)).map (t :: ·)
          | none => none
termination_by text => text.length
decreasing_by
  · exact Nat.lt_succ_self _
  · have shorter := read_string_shorter _body
    simp only [List.length_cons]
    omega
  · exact Nat.lt_succ_self _
  · have shorter := drop_while_shorter isNumberChar rest
    simp only [List.length_cons]
    omega
  · have shorter := drop_while_shorter Char.isAlpha rest
    simp only [List.length_cons]
    omega

mutual

def tokens : Json → List Token
  | .null => [.null]
  | .bool b => [.bool b]
  | .number lexeme => [.number lexeme]
  | .string lexeme => [.string lexeme]
  | .array items => .openArray :: itemTokens items
  | .object members => .openObject :: memberTokens members

def itemTokens : List Json → List Token
  | [] => [.closeArray]
  | [item] => tokens item ++ [.closeArray]
  | item :: items => tokens item ++ .comma :: itemTokens items

def memberTokens : List (List Char × Json) → List Token
  | [] => [.closeObject]
  | [(key, value)] => .string key :: .colon :: tokens value ++ [.closeObject]
  | (key, value) :: members =>
    .string key :: .colon :: tokens value ++ .comma :: memberTokens members

end

def compact (v : Json) : String := String.ofList ((tokens v).flatMap Token.chars)

end Rollup.Json
