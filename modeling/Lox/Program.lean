import Lox.Source.Scan
import Lox.Stmt.Reader

/-! Reading token lists as whole programs, or as single expressions. -/

namespace Lox

/-- A token list for reading: the tokens before the first end marker, and the token that stands
there, which is the last one if there is no end marker. -/
structure Feed where
  tokens : List Token
  stop : Token

/-- Cut a token list at its end marker. -/
def Feed.ofTokens (tokens : List Token) : Feed :=
  ⟨tokens.takeWhile (!·.isEof), (tokens.find? Token.isEof).getD (tokens.getLast?.getD (Token.endOfFile 1))⟩

/-- The outcome of reading a program: the statements that could be read, and all syntax errors. -/
structure ParsedProgram where
  statements : List Stmt
  errors : List SyntaxError

/-- The program, if there were no errors; one with errors is never run. -/
def ParsedProgram.accepted (parsed : ParsedProgram) : Except (List SyntaxError) (List Stmt) :=
  if parsed.errors.isEmpty then .ok parsed.statements else .error parsed.errors

def parseProgram (tokens : List Token) : ParsedProgram :=
  let feed := Feed.ofTokens tokens
  let batch := Stmt.readAll feed.stop feed.tokens
  ⟨batch.statements, batch.errors⟩

/-- The error of a feed that goes on after an expression. -/
def Feed.extra? (feed : Feed) (width : Nat) : Option SyntaxError :=
  match feed.tokens.drop width with
  | [] => if feed.stop.isEof then none else some ⟨feed.stop, .extraTokens⟩
  | next :: _ => some ⟨next, .extraTokens⟩

/-- Read exactly one expression; the first error noticed is the one that counts. -/
def parseExpression (tokens : List Token) : Except SyntaxError Expr :=
  let feed := Feed.ofTokens tokens
  let reading := Expr.read feed.stop feed.tokens
  match reading.result with
  | .error error => .error (reading.note.getD error)
  | .ok value =>
    match reading.note.or (feed.extra? reading.width) with
    | some error => .error error
    | none => .ok value

end Lox
