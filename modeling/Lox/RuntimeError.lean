import Lox.Diagnostic
import Lox.Token

/-! Errors of a running program, each with the line of the token that caused it. -/

namespace Lox

/-- Why a program cannot go on. -/
inductive RuntimeFault where
  | operandMustBeNumber
  | operandsMustBeNumbers
  | operandsMustBeNumbersOrStrings
  | undefinedVariable (name : String)
  | breakOutsideLoop
deriving DecidableEq, Repr

def RuntimeFault.message : RuntimeFault → String
  | operandMustBeNumber => "Operand must be a number."
  | operandsMustBeNumbers => "Operands must be numbers."
  | operandsMustBeNumbersOrStrings => "Operands must be two numbers or two strings."
  | undefinedVariable name => "Undefined variable '" ++ name ++ "'."
  | breakOutsideLoop => "Break statement not enclosed."

/-- A fault and its line. -/
structure RuntimeError where
  fault : RuntimeFault
  line : Nat
deriving DecidableEq, Repr

namespace RuntimeError

def atToken (token : Token) (fault : RuntimeFault) : RuntimeError := ⟨fault, token.line⟩

/-- A variable without a value. -/
def undefined (name : Token) : RuntimeError := .atToken name (.undefinedVariable name.lexeme)

def message (error : RuntimeError) : String := error.fault.message

def diagnostic (error : RuntimeError) : Diagnostic := .running error.line error.message

end RuntimeError

end Lox
