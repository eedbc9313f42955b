import Lox.Diagnostic
import Lox.Token

/-! Syntax errors: what was missing or misplaced, and the token at which it was noticed. -/

namespace Lox

/-- What is wrong with the tokens. -/
inductive SyntaxFault where
  | noExpression
  | noLeftOperand
  | badAssignmentTarget
  | openGrouping
  | noVariableName
  | openDeclaration
  | openPrint
  | openExpression
  | openBreak
  | noIfCondition
  | openIfCondition
  | noWhileCondition
  | openWhileCondition
  | openBlock
  | extraTokens
deriving DecidableEq, Repr

def SyntaxFault.message : SyntaxFault → String
  | noExpression => "Expect expression."
  | noLeftOperand => "Missing left operand."
  | badAssignmentTarget => "Invalid assignment target."
  | openGrouping => "Expect ')' after expression."
  | noVariableName => "Expect variable name."
  | openDeclaration => "Expect ';' after variable declaration."
  | openPrint => "Expect ';' after value."
  | openExpression => "Expect ';' after expression."
  | openBreak => "Expect ';' after 'break'."
  | noIfCondition => "Expect '(' after 'if'."
  | openIfCondition => "Expect ')' after if condition."
  | noWhileCondition => "Expect '(' after 'while'."
  | openWhileCondition => "Expect ')' after condition."
  | openBlock => "Expect '\x7d' after block."
  | extraTokens => "Expect end of expression."

/-- A fault and the token at which it was noticed. -/
structure SyntaxError where
  token : Token
  fault : SyntaxFault
deriving DecidableEq

namespace SyntaxError

def line (error : SyntaxError) : Nat := error.token.line

/-- Where the error was noticed. -/
def context (error : SyntaxError) : String := Diagnostic.position error.token.lexeme error.token.isEof

def message (error : SyntaxError) : String := error.fault.message

def diagnostic (error : SyntaxError) : Diagnostic := .reading error.line error.context error.message

end SyntaxError

end Lox
