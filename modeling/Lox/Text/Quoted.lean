import Lox.Text.Invisible

/-! Quoted text: double quotes around a text whose quotes, backslashes and invisible characters are
written as escapes, so that the whole text can be seen on one line. -/

namespace Lox.Text

/-- A code point in braces, in lower-case hexadecimal without padding. -/
def codePointEscape (c : Char) : List Char :=
  ['\\', 'u', '\x7b'] ++ Nat.toDigits 16 c.toNat ++ ['\x7d']

/-- The quoted form of one character. -/
def escape (c : Char) : List Char :=
  match c with
  | '\x00' => ['\\', '0']
  | '\t' => ['\\', 't']
  | '\n' => ['\\', 'n']
  | '\r' => ['\\', 'r']
  | '"' => ['\\', '"']
  | '\\' => ['\\', '\\']
  | c => if isInvisible c then codePointEscape c else [c]

/-- A text between double quotes, with escapes. -/
def quoted (text : String) : String :=
  String.ofList ('"' :: text.toList.flatMap escape ++ ['"'])

end Lox.Text
