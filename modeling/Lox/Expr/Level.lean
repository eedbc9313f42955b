import Lox.Expr
import Lox.KindSet

/-! The levels of binary operators, loosest first. Every level associates to the left; below the
last one stand the operators written in front of their operand. -/

namespace Lox

/-- A level of binary operators. -/
inductive Level where
  | disjunction
  | conjunction
  | equality
  | comparison
  | sum
  | product
deriving DecidableEq, Repr

namespace Level

def operators : Level → KindSet
  | disjunction => KindSet.ofList [.kwOr]
  | conjunction => KindSet.ofList [.kwAnd]
  | equality => KindSet.ofList [.bangEqual, .equalEqual]
  | comparison => KindSet.ofList [.greater, .greaterEqual, .less, .lessEqual]
  | sum => KindSet.ofList [.minus, .plus]
  | product => KindSet.ofList [.slash, .star]

/-- The operators in front of a single operand. -/
def unaryOperators : KindSet := KindSet.ofList [.bang, .minus]

/-- The tree of an operator between its operands. -/
def node : Level → Expr → Token → Expr → Expr
  | disjunction | conjunction => .logical
  | _ => .binary

/-- Whether a missing left operand is noticed, so that the rest of the expression can be read. -/
def admitsDangling : Level → Bool
  | disjunction | conjunction => false
  | _ => true

/-- Whether a token of this kind, with nothing before it, is an operator of the level that lacks
its left operand. -/
def dangles (level : Level) (kind : Kind) : Bool :=
  level.admitsDangling && level.operators.contains kind && !unaryOperators.contains kind

/-- The level of the operands; `none` stands for the operators in front of an operand. -/
def tighter : Level → Option Level
  | disjunction => some conjunction
  | conjunction => some equality
  | equality => some comparison
  | comparison => some sum
  | sum => some product
  | product => none

/-- How many levels there are from the given one down. -/
def height : Option Level → Nat
  | none => 1
  | some product => 2
  | some sum => 3
  | some comparison => 4
  | some equality => 5
  | some conjunction => 6
  | some disjunction => 7

theorem height_tighter (level : Level) : height level.tighter < height (some level) := by
  cases level <;> decide

theorem height_lt (level : Option Level) : height level < 9 := by
  rcases level with _ | level
  · decide
  · cases level <;> decide

theorem height_pos (level : Option Level) : 0 < height level := by
  rcases level with _ | level
  · decide
  · cases level <;> decide

end Level

end Lox
