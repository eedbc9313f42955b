import Lox.Kind

/-! A source text as consecutive pieces. Each piece is the longest one that can start where the
piece before it ended, and the pieces together are the whole text. -/

namespace Lox

/-- What a piece of source is. -/
inductive Form where
  /-- A run of spaces, tabs and carriage returns. -/
  | blank
  /-- A single line break. -/
  | newline
  /-- Two slashes and the rest of their line, without its line break. -/
  | comment
  /-- The text of a token. -/
  | lexeme (kind : Kind)
  /-- An opening quote that no quote follows, with all the text after it. -/
  | unterminated
  /-- A single character that starts nothing. -/
  | unexpected
deriving DecidableEq, Repr

/-- A piece of source: what it is, and its characters. -/
structure Piece where
  form : Form
  text : List Char
deriving DecidableEq, Repr

namespace Piece

/-- A character of a blank run. -/
def isBlank (c : Char) : Bool := c == ' ' || c == '\t' || c == '\r'

/-- A character that an identifier or a reserved word can start with. -/
def startsWord (c : Char) : Bool := c.isAlpha || c == '_'

/-- A character inside an identifier or a reserved word. -/
def continuesWord (c : Char) : Bool := c.isAlphanum || c == '_'

/-- How many of the first characters pass a test. -/
def run (test : Char → Bool) (chars : List Char) : Nat := (chars.takeWhile test).length

/-- The length of a point with digits after it, or 0 where the point is not part of the number. -/
def fractionLength : List Char → Nat
  | '.' :: after => if run Char.isDigit after = 0 then 0 else run Char.isDigit after + 1
  | _ => 0

/-- How far a number goes on after its first digit. -/
def numberTail (rest : List Char) : Nat :=
  let whole := run Char.isDigit rest
  whole + fractionLength (rest.drop whole)

/-- A string, or an unterminated one, after its opening quote. -/
def stringTail (rest : List Char) : Form × Nat :=
  let inside := run (· != '"') rest
  if inside < rest.length then (.lexeme .string, inside + 1) else (.unterminated, inside)

/-- An identifier or a reserved word from its first character on. -/
def wordTail (first : Char) (rest : List Char) : Form × Nat :=
  let tail := rest.takeWhile continuesWord
  (.lexeme (Kind.ofWord (String.ofList (first :: tail))), tail.length)

/-- A mark that grows by an equals sign if one follows. -/
def maybeEqual (rest : List Char) (alone withEqual : Kind) : Form × Nat :=
  if rest.head? = some '=' then (.lexeme withEqual, 1) else (.lexeme alone, 0)

/-- A mark of one or two characters, or an unexpected character. -/
def markTail (first : Char) (rest : List Char) : Form × Nat :=
  match first with
  | '(' => (.lexeme .leftParen, 0)
  | ')' => (.lexeme .rightParen, 0)
  | '\x7b' => (.lexeme .leftBrace, 0)
  | '\x7d' => (.lexeme .rightBrace, 0)
  | ',' => (.lexeme .comma, 0)
  | '.' => (.lexeme .dot, 0)
  | '-' => (.lexeme .minus, 0)
  | '+' => (.lexeme .plus, 0)
  | ';' => (.lexeme .semicolon, 0)
  | '/' => (.lexeme .slash, 0)
  | '*' => (.lexeme .star, 0)
  | '!' => maybeEqual rest .bang .bangEqual
  | '=' => maybeEqual rest .equal .equalEqual
  | '>' => maybeEqual rest .greater .greaterEqual
  | '<' => maybeEqual rest .less .lessEqual
  | _ => (.unexpected, 0)

/-- What the piece starting with `first` is, and how many characters of `rest` belong to it. -/
def measure (first : Char) (rest : List Char) : Form × Nat :=
  if isBlank first then (.blank, run isBlank rest)
  else if first = '\n' then (.newline, 0)
  else if first = '/' ∧ rest.head? = some '/' then (.comment, run (· != '\n') rest)
  else if first = '"' then stringTail rest
  else if first.isDigit then (.lexeme .number, numberTail rest)
  else if startsWord first then wordTail first rest
  else markTail first rest

/-- Cut a text into pieces. -/
def cut : List Char → List Piece
  | [] => []
  | first :: rest =>
    let measured := measure first rest
    ⟨measured.1, first :: rest.take measured.2⟩ :: cut (rest.drop measured.2)
termination_by chars => chars.length
decreasing_by simp only [List.length_cons, List.length_drop]; omega

/-- Nothing of the text is lost or moved. -/
theorem cut_flatten (chars : List Char) : (cut chars).flatMap Piece.text = chars := by
  fun_induction cut chars with
  | case1 => rfl
  | case2 first rest measured rests => simp [rests]

end Piece

end Lox
