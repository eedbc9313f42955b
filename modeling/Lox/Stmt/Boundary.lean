import Lox.KindSet
import Lox.Token

/-! Boundaries between statements: the places where reading can start afresh after an error. -/

namespace Lox.Boundary

/-- The kinds that mark the start of a statement, among them reserved words that no statement of
the language starts with. -/
def starters : KindSet :=
  KindSet.ofList [.kwClass, .kwFun, .kwVar, .kwFor, .kwIf, .kwWhile, .kwPrint, .kwReturn, .kwBreak]

/-- Whether reading can start afresh at `next`: at the end, after a semicolon, or at a token that
marks the start of a statement. -/
def isBoundary (previous : Option Kind) (next : Token) : Bool :=
  next.isEof || previous == some .semicolon || starters.contains next.kind

/-- How many tokens stand before the next boundary; `previous` is the kind before the first one. -/
def distance (previous : Option Kind) : List Token → Nat
  | [] => 0
  | next :: rest => if isBoundary previous next then 0 else distance (some next.kind) rest + 1

/-- How many tokens a declaration gives up when reading it failed after `width` of them: at least
one, and then all up to the next boundary. -/
def skip (tokens : List Token) (width : Nat) : Nat :=
  let taken := max width 1
  taken + distance (tokens[taken - 1]?.map Token.kind) (tokens.drop taken)

end Lox.Boundary
