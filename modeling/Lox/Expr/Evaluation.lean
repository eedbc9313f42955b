import Lox.Environment
import Lox.Expr
import Lox.Expr.Operation

/-! The value of an expression in an environment. Operands are evaluated from left to right, and the
assignments made before a runtime error stay. -/

namespace Lox.Expr

def eval (environment : Environment) : Expr → Run Environment Value
  | literal value => .done value environment
  | grouping inner => inner.eval environment
  | unary operator operand =>
    (operand.eval environment).andThen fun value environment => Operation.unary operator value environment
  | binary left operator right =>
    (left.eval environment).andThen fun first environment =>
      (right.eval environment).andThen fun second environment =>
        Operation.binary operator first second environment
  | dangling _ _ => .contradicted .noLeftOperand
  | logical left operator right =>
    (left.eval environment).andThen fun first environment =>
      match Operation.decides? operator first with
      | none => .contradicted (.notLogical operator.kind)
      | some true => .done first environment
      | some false => right.eval environment
  | var name => .ofExcept (environment.get name) environment
  | assign name value =>
    (value.eval environment).andThen fun result environment =>
      match environment.assign name result with
      | .ok changed => .done result changed
      | .error error => .failed error environment

end Lox.Expr
