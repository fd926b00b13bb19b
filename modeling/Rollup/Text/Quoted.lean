import Rollup.Text.Unprintable

/-!
Quoted text for messages: a name between double quotes, in which every character shows.
-/
namespace Rollup.Text

def hexDigits (n : Nat) : List Char := Nat.toDigits 16 n

/-- Quotes and backslashes are escaped, four controls have short forms, and any other character
    that would not show is written by its code point. -/
def quotedChar (c : Char) : List Char :=
  match c with
  | '"' => ['\\', '"']
  | '\\' => ['\\', '\\']
  | '\n' => ['\\', 'n']
  | '\r' => ['\\', 'r']
  | '\t' => ['\\', 't']
  | '\x00' => ['\\', '0']
  | c =>
    if isUnprintable c then '\\' :: 'u' :: '\x7b' :: hexDigits c.toNat ++ ['\x7d'] else [c]

def quoted (text : String) : String :=
  String.ofList ('"' :: text.toList.flatMap quotedChar ++ ['"'])

end Rollup.Text
