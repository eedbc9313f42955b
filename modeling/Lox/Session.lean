import Lox.Expr.Printer
import Lox.Program
import Lox.Reporter
import Lox.Stmt.Execution
import Lox.Stmt.Printer

/-! Sessions: one environment that takes one source after another. A source with any lexical or
syntax error is reported and not run; one that is run reports at most its runtime error. -/

namespace Lox

/-- A session: what the programs so far have left and printed, what was reported, and whether the
tokens and the trees of each source are listed before it is run. -/
structure Session where
  state : State
  reporter : Reporter
  showTokens : Bool
  showTrees : Bool

namespace Session

def new (showTokens showTrees : Bool) : Session := ⟨State.new, Reporter.new, showTokens, showTrees⟩

def prompt (session : Session) : Session := { session with state := session.state.print "> " }

/-- Print texts, each on a line of its own, if they are wanted. -/
def list (session : Session) (wanted : Bool) (texts : List String) : Session :=
  if wanted then { session with state := texts.foldl State.printLine session.state } else session

def report (session : Session) (diagnostics : List Diagnostic) : Session :=
  { session with reporter := session.reporter.reportAll diagnostics }

/-- Take over what a run has left, and report its runtime error. -/
def conclude {α : Type} (session : Session) : Run State α → Except Halt Session
  | .done _ state => .ok { session with state }
  | .failed error state => .ok ({ session with state }.report [error.diagnostic])
  | .halted cause => .error cause

/-- Scan a source and report its lexical errors. -/
def scanned (session : Session) (result : Scan) : Session :=
  (session.list session.showTokens (result.tokens.map Token.text)).report
    (result.errors.map LexicalError.diagnostic)

/-- Read tokens as a program and run it, or report its syntax errors. -/
def runTokens (session : Session) (fuel : Nat) (tokens : List Token) : Except Halt Session :=
  match (parseProgram tokens).accepted with
  | .error errors => .ok (session.report (errors.map SyntaxError.diagnostic))
  | .ok program =>
    let listed := session.list session.showTrees (program.map Stmt.text)
    listed.conclude (listed.state.execProgram fuel program)

def runSource (session : Session) (fuel : Nat) (source : String) : Except Halt Session :=
  let result := scan source
  let after := session.scanned result
  if result.hasErrors then .ok after else after.runTokens fuel result.tokens

/-- Run a line of a dialogue: the value of a line that is an expression is printed, and any other
line is a program. Errors are counted for each line anew. -/
def runLine (session : Session) (fuel : Nat) (line : String) : Except Halt Session :=
  let result := scan line
  let after := { session with reporter := session.reporter.reset }.scanned result
  if result.hasErrors then .ok after
  else
    match parseExpression result.tokens with
    | .ok value =>
      let listed := after.list after.showTrees [value.text]
      listed.conclude (listed.state.printValue value)
    | .error _ => after.runTokens fuel result.tokens

end Session

end Lox
