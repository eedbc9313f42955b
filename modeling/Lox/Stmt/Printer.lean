import Lox.Expr.Printer
import Lox.Stmt

/-! The printed form of a statement: what it is in front of its parts, in parentheses. -/

namespace Lox.Stmt

mutual

def text : Stmt → String
  | expression value => "(; " ++ value.text ++ ")"
  | print value => "(print " ++ value.text ++ ")"
  | declare name none => "(var " ++ name.lexeme ++ ")"
  | declare name (some initial) => "(var " ++ name.lexeme ++ " " ++ initial.text ++ ")"
  | block body => "(block" ++ bodyText body ++ ")"
  | ifThen condition consequence => "(if " ++ condition.text ++ " " ++ consequence.text ++ ")"
  | ifElse condition consequence alternative =>
    "(if " ++ condition.text ++ " " ++ consequence.text ++ " " ++ alternative.text ++ ")"
  | whileLoop condition body => "(while " ++ condition.text ++ " " ++ body.text ++ ")"
  | breakLoop _ => "(break)"

/-- The printed forms of the statements of a block, each after a space. -/
def bodyText : List Stmt → String
  | [] => ""
  | first :: rest => " " ++ first.text ++ bodyText rest

end

end Lox.Stmt
