import Lox.Expr.Evaluation
import Lox.Stmt

/-! Running statements and programs. Fuel bounds the rounds of every single loop; all else is
bounded by the program text, so more fuel never changes an outcome that was reached. -/

namespace Lox

/-- What a running program has: its variables, the text printed so far, and how many loops are
being run. -/
structure State where
  environment : Environment
  output : String
  loops : Nat
deriving DecidableEq

namespace State

/-- No variables, nothing printed, and no loop. -/
def new : State := ⟨Environment.new, "", 0⟩

def print (state : State) (text : String) : State := { state with output := state.output ++ text }

def printLine (state : State) (text : String) : State := (state.print text).print "\n"

def enter (state : State) : State := { state with environment := state.environment.push }

def leave (state : State) : State := { state with environment := state.environment.pop }

def enterLoop (state : State) : State := { state with loops := state.loops + 1 }

def leaveLoop (state : State) : State := { state with loops := state.loops - 1 }

def define (state : State) (name : Token) (value : Value) : State :=
  { state with environment := state.environment.define name.lexeme value }

/-- Evaluate an expression, which prints nothing. -/
def eval (state : State) (value : Expr) : Run State Value :=
  (value.eval state.environment).mapState fun environment => { state with environment }

end State

/-- How a statement ends when it does not fail. -/
inductive Completion where
  | normal
  /-- By a `break`, which ends the innermost loop around it. -/
  | broke
deriving DecidableEq, Repr

/-- Run `round` as long as `test` gives a true value and no round breaks off; at most `fuel` rounds
are begun. -/
def repeatWhile (test : State → Run State Value) (round : State → Run State Completion) :
    Nat → State → Run State Completion
  | 0, _ => .halted .outOfFuel
  | fuel + 1, state =>
    match test state with
    | .failed error after => .failed error after
    | .halted cause => .halted cause
    | .done value after =>
      if value.isTruthy then
        match round after with
        | .done .normal next => repeatWhile test round fuel next
        | .done .broke next => .done .normal next
        | .failed error next => .failed error next
        | .halted cause => .halted cause
      else .done .normal after

/-- A test, a round if the test asks for one, and all the rest of the loop. -/
theorem repeatWhile_succ (test : State → Run State Value) (round : State → Run State Completion) (fuel : Nat)
    (state : State) :
    repeatWhile test round (fuel + 1) state =
      (test state).andThen fun value after =>
        if value.isTruthy then
          (round after).andThen fun completion next =>
            match completion with
            | .normal => repeatWhile test round fuel next
            | .broke => .done .normal next
        else .done .normal after := by
  rw [repeatWhile]
  cases test state with
  | done value after =>
    simp only [Run.andThen]
    split
    · cases round after with
      | done completion next => cases completion <;> rfl
      | failed error next => rfl
      | halted cause => rfl
    · rfl
  | failed error after => rfl
  | halted cause => rfl

/-- Fuel for more rounds than any machine gets through. -/
def ampleFuel : Nat := Nat.pow 10 18

namespace Stmt

mutual

def exec (fuel : Nat) (state : State) : Stmt → Run State Completion
  | expression value => (state.eval value).andThen fun _ state => .done .normal state
  | print value => (state.eval value).andThen fun value state => .done .normal (state.printLine value.text)
  | declare name none => .done .normal (state.define name .nil)
  | declare name (some initial) =>
    (state.eval initial).andThen fun value state => .done .normal (state.define name value)
  | block body => (execAll fuel state.enter body).mapState State.leave
  | ifThen condition consequence =>
    (state.eval condition).andThen fun value state =>
      if value.isTruthy then consequence.exec fuel state else .done .normal state
  | ifElse condition consequence alternative =>
    (state.eval condition).andThen fun value state =>
      if value.isTruthy then consequence.exec fuel state else alternative.exec fuel state
  | whileLoop condition body =>
    (repeatWhile (fun state => state.eval condition) (fun state => body.exec fuel state) fuel
      state.enterLoop).mapState State.leaveLoop
  | breakLoop keyword =>
    if state.loops = 0 then .failed (.atToken keyword .breakOutsideLoop) state else .done .broke state

/-- Run statements in order, up to one that breaks off. -/
def execAll (fuel : Nat) (state : State) : List Stmt → Run State Completion
  | [] => .done .normal state
  | first :: rest =>
    (first.exec fuel state).andThen fun completion state =>
      match completion with
      | .normal => execAll fuel state rest
      | .broke => .done .broke state

end

end Stmt

namespace State

/-- Run a program, up to its first runtime error. -/
def execProgram (fuel : Nat) (state : State) : List Stmt → Run State Unit
  | [] => .done () state
  | first :: rest =>
    match first.exec fuel state with
    | .done .normal after => execProgram fuel after rest
    | .done .broke _ => .contradicted .escapedBreak
    | .failed error after => .failed error after
    | .halted cause => .halted cause

theorem execProgram_cons (fuel : Nat) (state : State) (first : Stmt) (rest : List Stmt) :
    state.execProgram fuel (first :: rest) =
      (first.exec fuel state).andThen fun completion after =>
        match completion with
        | .normal => after.execProgram fuel rest
        | .broke => .contradicted .escapedBreak := by
  rw [execProgram]
  cases first.exec fuel state with
  | done completion after => cases completion <;> rfl
  | failed error after => rfl
  | halted cause => rfl

/-- Evaluate an expression and print its value. -/
def printValue (state : State) (value : Expr) : Run State Value :=
  (state.eval value).andThen fun value state => .done value (state.printLine value.text)

end State

end Lox
