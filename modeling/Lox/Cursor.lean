import Lox.Stmt.Boundary

/-! A place in a token list. The cursor never moves beyond an end marker; past the end of a list
without one it keeps seeing the last token. -/

namespace Lox

/-- A token list and the number of tokens before the cursor. -/
structure Cursor where
  tokens : List Token
  position : Nat

namespace Cursor

def start (tokens : List Token) : Cursor := ⟨tokens, 0⟩

/-- The token at the cursor; an empty list counts as its end marker on line 1. -/
def current (cursor : Cursor) : Token :=
  (cursor.tokens[cursor.position]?.or cursor.tokens.getLast?).getD (Token.endOfFile 1)

/-- The kind of the token just before the cursor. -/
def previousKind (cursor : Cursor) : Option Kind :=
  if cursor.position = 0 then none else cursor.tokens[cursor.position - 1]?.map Token.kind

def check (cursor : Cursor) (kind : Kind) : Bool := cursor.current.kind == kind

def isAtEnd (cursor : Cursor) : Bool := cursor.current.isEof

/-- The cursor behind the current token, unless that is an end marker. -/
def advance (cursor : Cursor) : Cursor :=
  if cursor.isAtEnd then cursor else { cursor with position := cursor.position + 1 }

/-- How many tokens stand before the next boundary between statements. -/
def toBoundary (cursor : Cursor) : Nat :=
  Boundary.distance cursor.previousKind (cursor.tokens.drop cursor.position)

/-- The cursor at the next boundary between statements. -/
def synchronize (cursor : Cursor) : Cursor :=
  { cursor with position := cursor.position + cursor.toBoundary }

end Cursor

end Lox
