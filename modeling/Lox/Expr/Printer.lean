import Lox.Expr

/-! The printed form of an expression: operators in front of their operands, in parentheses. -/

namespace Lox.Expr

def text : Expr → String
  | literal value => value.text
  | grouping inner => "(group " ++ inner.text ++ ")"
  | unary operator operand => "(" ++ operator.lexeme ++ " " ++ operand.text ++ ")"
  | binary left operator right => "(" ++ operator.lexeme ++ " " ++ left.text ++ " " ++ right.text ++ ")"
  | dangling operator right => "(" ++ operator.lexeme ++ " <missing> " ++ right.text ++ ")"
  | logical left operator right => "(" ++ operator.lexeme ++ " " ++ left.text ++ " " ++ right.text ++ ")"
  | var name => name.lexeme
  | assign name value => "(= " ++ name.lexeme ++ " " ++ value.text ++ ")"

end Lox.Expr
