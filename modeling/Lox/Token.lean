import Lox.Kind
import Lox.Text.Quoted
import Lox.Value

/-! Tokens and the line numbers that they carry. -/

namespace Lox

/-- The last line that is numbered; every later line has this number too. -/
def lastLine : Nat := 4294967295

/-- The line reached from `line` after some line breaks. -/
def lineAfter (line breaks : Nat) : Nat := min (line + breaks) lastLine

/-- A token: a kind, the source text it was cut from, the value of a literal, and its line. -/
structure Token where
  kind : Kind
  lexeme : String
  literal : Option Value
  line : Nat
deriving DecidableEq, Inhabited

namespace Token

def simple (kind : Kind) (lexeme : String) (line : Nat) : Token := ⟨kind, lexeme, none, line⟩

/-- The token after the last one of a source. -/
def endOfFile (line : Nat) : Token := simple .eof "" line

def isEof (token : Token) : Bool := token.kind == .eof

/-- The listing of a token: label, lexeme and, if it has one, the text of its value. -/
def text (token : Token) : String :=
  let head := token.kind.label ++ " " ++ token.lexeme
  match token.literal with
  | none => head
  | some value => head ++ " " ++ value.text

/-- A one-line description of a token, with its lexeme quoted and its line. -/
def description (token : Token) : String :=
  token.kind.label ++ " " ++ Text.quoted token.lexeme ++ " @ line " ++ toString token.line

/-- Tokens are equal when all their parts are, values by the equality of the language. -/
def equals (left right : Token) : Bool :=
  left.kind == right.kind && left.lexeme == right.lexeme && left.line == right.line &&
    match left.literal, right.literal with
    | none, none => true
    | some left, some right => left.equals right
    | _, _ => false

end Token

end Lox
