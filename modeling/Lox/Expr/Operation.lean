import Lox.Run

/-! Operators on values. The operands are looked at before the operator is known to have a rule for
their number, and none of them is converted. -/

namespace Lox.Operation

variable {σ : Type}

def unary (operator : Token) (operand : Value) (state : σ) : Run σ Value :=
  match operator.kind with
  | .minus =>
    match operand with
    | .number value => .done (.number (-value)) state
    | _ => .failed (.atToken operator .operandMustBeNumber) state
  | .bang => .done (.bool !operand.isTruthy) state
  | kind => .contradicted (.noUnaryRule kind)

/-- Add two numbers, or join two strings. -/
def add (operator : Token) (left right : Value) (state : σ) : Run σ Value :=
  match left, right with
  | .number left, .number right => .done (.number (left + right)) state
  | .string left, .string right => .done (.string (left ++ right)) state
  | _, _ => .failed (.atToken operator .operandsMustBeNumbersOrStrings) state

/-- Both operands as numbers. -/
def numbers (operator : Token) (left right : Value) : Except RuntimeError (Float × Float) :=
  match left, right with
  | .number left, .number right => .ok (left, right)
  | _, _ => .error (.atToken operator .operandsMustBeNumbers)

def numeric (kind : Kind) (left right : Float) (state : σ) : Run σ Value :=
  match kind with
  | .minus => .done (.number (left - right)) state
  | .star => .done (.number (left * right)) state
  | .slash => .done (.number (left / right)) state
  | .greater => .done (.bool (decide (left > right))) state
  | .greaterEqual => .done (.bool (decide (left ≥ right))) state
  | .less => .done (.bool (decide (left < right))) state
  | .lessEqual => .done (.bool (decide (left ≤ right))) state
  | kind => .contradicted (.notNumeric kind)

/-- Apply an operator that needs two numbers. -/
def calculate (operator : Token) (left right : Value) (state : σ) : Run σ Value :=
  match numbers operator left right with
  | .ok (first, second) => numeric operator.kind first second state
  | .error error => .failed error state

def binary (operator : Token) (left right : Value) (state : σ) : Run σ Value :=
  match operator.kind with
  | .plus => add operator left right state
  | .equalEqual => .done (.bool (left.equals right)) state
  | .bangEqual => .done (.bool !left.equals right) state
  | .minus | .star | .slash | .greater | .greaterEqual | .less | .lessEqual =>
    calculate operator left right state
  | kind => .contradicted (.noBinaryRule kind)

/-- Whether the left operand of a logical operator is already the result; `none` for any other
operator. -/
def decides? (operator : Token) (left : Value) : Option Bool :=
  match operator.kind with
  | .kwOr => some left.isTruthy
  | .kwAnd => some !left.isTruthy
  | _ => none

end Lox.Operation
