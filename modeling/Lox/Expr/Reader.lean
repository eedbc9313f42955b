import Lox.Expr.Level
import Lox.Reading

/-! Reading expressions from tokens by descent through the levels. `stop` is the token that stands
after the given ones; nothing is ever taken beyond it, so a reading depends on no later token. -/

namespace Lox.Expr

open Reading

/-- The assignment of a value to what was read before an equals sign. Anything but a name is
reported and kept, and the value is dropped. -/
def assignTo (target : Expr) (equals : Token) (value : Expr) : Reading Expr :=
  match target with
  | .var name => .done (.assign name value) 0
  | other => .noted other ⟨equals, .badAssignmentTarget⟩

mutual

/-- Read an expression: a name, an equals sign and an expression, or an expression of the loosest
level. -/
def read (stop : Token) (tokens : List Token) : Reading Expr :=
  let target := readLevel stop (some .disjunction) tokens
  target.andThen fun left =>
    match _follow : tokens.drop target.width with
    | [] => .done left 0
    | equals :: rest =>
      if equals.kind = .equal then (read stop rest).afterToken.andThen (assignTo left equals)
      else .done left 0
termination_by tokens.length * 9 + 8
decreasing_by
  · exact Nat.lt_succ_self _
  · exact rank_lt _ (length_lt_of_drop _follow) (Nat.lt_succ_self _)

/-- Read an expression of a level, or of the operators in front of an operand below all levels. -/
def readLevel (stop : Token) : Option Level → List Token → Reading Expr
  | _, [] => .fail stop .noExpression
  | none, first :: rest =>
    if Level.unaryOperators.contains first.kind then
      (readLevel stop none rest).afterToken.map (.unary first)
    else readPrimary stop first rest
  | some level, first :: rest =>
    if level.dangles first.kind then
      let right := readLevel stop level.tighter rest
      (right.afterToken.andThen fun operand => .noted (.dangling first operand) ⟨first, .noLeftOperand⟩).andThen
        fun left => readChain stop level left (rest.drop right.width)
    else
      let operand := readLevel stop level.tighter (first :: rest)
      operand.andThen fun left => readChain stop level left ((first :: rest).drop operand.width)
termination_by level tokens => tokens.length * 9 + Level.height level
decreasing_by
  · exact rank_lt _ (Nat.lt_succ_self _) (Level.height_lt _)
  · exact Nat.add_lt_add_left (Level.height_pos _) _
  · exact rank_lt _ (Nat.lt_succ_self _) (Level.height_lt _)
  · exact rank_lt _ (length_drop_lt _ _ _) (by decide)
  · exact Nat.add_lt_add_left (Level.height_tighter _) _
  · exact rank_lt_of_drop _ _ _ (Level.height_pos _)

/-- Read the operators of a level after `left`, each with its right operand. -/
def readChain (stop : Token) (level : Level) (left : Expr) : List Token → Reading Expr
  | [] => .done left 0
  | operator :: rest =>
    if level.operators.contains operator.kind then
      let right := readLevel stop level.tighter rest
      right.afterToken.andThen fun operand =>
        readChain stop level (level.node left operator operand) (rest.drop right.width)
    else .done left 0
termination_by tokens => tokens.length * 9 + 0
decreasing_by
  · exact rank_lt 0 (Nat.lt_succ_self _) (Level.height_lt _)
  · exact rank_lt 0 (length_drop_lt _ _ _) (by decide)

/-- Read a literal, a name or an expression in parentheses. A literal token without a value counts
as `nil`. -/
def readPrimary (stop first : Token) (rest : List Token) : Reading Expr :=
  match first.kind with
  | .kwFalse => .done (.literal (.bool false)) 1
  | .kwTrue => .done (.literal (.bool true)) 1
  | .kwNil => .done (.literal .nil) 1
  | .number | .string => .done (.literal (first.literal.getD .nil)) 1
  | .identifier => .done (.var first) 1
  | .leftParen =>
    (((read stop rest).closedBy stop .rightParen .openGrouping rest).map .grouping).afterToken
  | _ => .fail first .noExpression
termination_by (first :: rest).length * 9 + 0
decreasing_by
  exact rank_lt 0 (Nat.lt_succ_self _) (Nat.lt_succ_self _)

end

end Lox.Expr
