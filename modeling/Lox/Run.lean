import Lox.RuntimeError

/-! What comes of running something: a value or a runtime error, each with the state reached, or a
halt that reaches no state. -/

namespace Lox

/-- A tree that no reading gives out, met while running it. -/
inductive Contradiction where
  | noUnaryRule (kind : Kind)
  | noBinaryRule (kind : Kind)
  | notNumeric (kind : Kind)
  | notLogical (kind : Kind)
  | noLeftOperand
  | escapedBreak
deriving DecidableEq, Repr

def Contradiction.message : Contradiction → String
  | noUnaryRule kind => "no unary rule for operator " ++ kind.label
  | noBinaryRule kind => "no binary rule for operator " ++ kind.label
  | notNumeric kind => kind.label ++ " is not a numeric operator"
  | notLogical kind => kind.label ++ " is not a logical operator"
  | noLeftOperand => "binary node with no left operand reached evaluation"
  | escapedBreak => "break escaped to top level with no loop running"

/-- Why a run reaches no state. -/
inductive Halt where
  | contradiction (cause : Contradiction)
  /-- A loop was cut off after as many rounds as the fuel allowed. -/
  | outOfFuel
deriving DecidableEq, Repr

/-- The outcome of a run over states of type `σ`. A runtime error keeps the state that was reached. -/
inductive Run (σ α : Type) where
  | done (value : α) (state : σ)
  | failed (error : RuntimeError) (state : σ)
  | halted (cause : Halt)
deriving DecidableEq

namespace Run

variable {σ τ α β : Type}

def contradicted (cause : Contradiction) : Run σ α := .halted (.contradiction cause)

/-- A value or a runtime error in an unchanged state. -/
def ofExcept (result : Except RuntimeError α) (state : σ) : Run σ α :=
  match result with
  | .ok value => .done value state
  | .error error => .failed error state

/-- Go on after a value. -/
@[inline] def andThen (run : Run σ α) (next : α → σ → Run σ β) : Run σ β :=
  match run with
  | .done value state => next value state
  | .failed error state => .failed error state
  | .halted cause => .halted cause

/-- Change the state that was reached, whatever the outcome. -/
def mapState (change : σ → τ) : Run σ α → Run τ α
  | .done value state => .done value (change state)
  | .failed error state => .failed error (change state)
  | .halted cause => .halted cause

end Run

end Lox
