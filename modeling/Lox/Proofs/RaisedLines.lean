import Lox.Proofs.RenumberedReading
import Lox.Proofs.ScannedLines

/-! Raising is one way to change line numbers: tokens further down are read as the same
trees further down, and these do the same, up to the line of an error. -/

namespace Lox

variable {lines : Nat}

namespace Expr

def raise (lines : Nat) : Expr → Expr
  | literal value => literal value
  | grouping inner => grouping (inner.raise lines)
  | unary operator operand => unary (operator.raise lines) (operand.raise lines)
  | binary left operator right => binary (left.raise lines) (operator.raise lines) (right.raise lines)
  | dangling operator right => dangling (operator.raise lines) (right.raise lines)
  | logical left operator right => logical (left.raise lines) (operator.raise lines) (right.raise lines)
  | var name => var (name.raise lines)
  | assign name value => assign (name.raise lines) (value.raise lines)

theorem raise_eq (tree : Expr) : tree.raise lines = tree.renumber (lineAfter · lines) := by
  induction tree with
  | literal | var => rfl
  | grouping inner ih => rw [raise, renumber, ih]
  | unary operator operand ih => rw [raise, renumber, ih]; rfl
  | binary left operator right first second => rw [raise, renumber, first, second]; rfl
  | dangling operator right ih => rw [raise, renumber, ih]; rfl
  | logical left operator right first second => rw [raise, renumber, first, second]; rfl
  | assign name value ih => rw [raise, renumber, ih]; rfl

end Expr

namespace Stmt

mutual

def raise (lines : Nat) : Stmt → Stmt
  | expression value => expression (value.raise lines)
  | print value => print (value.raise lines)
  | declare name initial => declare (name.raise lines) (initial.map (·.raise lines))
  | block body => block (raiseAll lines body)
  | ifThen condition consequence => ifThen (condition.raise lines) (consequence.raise lines)
  | ifElse condition consequence alternative =>
    ifElse (condition.raise lines) (consequence.raise lines) (alternative.raise lines)
  | whileLoop condition body => whileLoop (condition.raise lines) (body.raise lines)
  | breakLoop keyword => breakLoop (keyword.raise lines)

def raiseAll (lines : Nat) : List Stmt → List Stmt
  | [] => []
  | first :: rest => first.raise lines :: raiseAll lines rest

end

private theorem raiseAll_eq {body : List Stmt} (each : ∀ tree ∈ body, tree.raise lines = tree.renumber (lineAfter · lines)) :
    raiseAll lines body = renumberAll (lineAfter · lines) body := by
  induction body with
  | nil => rfl
  | cons first rest ih =>
    rw [List.forall_mem_cons] at each
    rw [raiseAll, renumberAll, each.1, ih each.2]

theorem raise_eq (tree : Stmt) : tree.raise lines = tree.renumber (lineAfter · lines) := by
  induction tree with
  | expression value | print value => rw [raise, renumber, value.raise_eq]
  | declare name initial =>
    rw [raise, renumber]
    exact congrArg _ (Option.map_congr fun value _ => value.raise_eq)
  | block body ih => rw [raise, renumber, raiseAll_eq ih]
  | ifThen condition consequence ih => rw [raise, renumber, condition.raise_eq, ih]
  | ifElse condition consequence alternative ih other => rw [raise, renumber, condition.raise_eq, ih, other]
  | whileLoop condition body ih => rw [raise, renumber, condition.raise_eq, ih]
  | breakLoop keyword => rfl

end Stmt

theorem Grammar.Program.raise {tokens : List Token} {trees : List Stmt} (program : Program tokens trees) :
    Program (tokens.map (·.raise lines)) (Stmt.raiseAll lines trees) := by
  have read : Stmt.readAll ((Token.endOfFile 1).renumber (lineAfter · lines)) _ = _ :=
    Stmt.readAll_renumber (Token.endOfFile 1) tokens
  rw [program.readAll_done] at read
  have raised := readAll_sound rfl _ (congrArg Batch.errors read)
  rw [read] at raised
  rw [Stmt.raiseAll_eq fun tree _ => tree.raise_eq]
  exact raised

def RuntimeError.raise (error : RuntimeError) (lines : Nat) : RuntimeError :=
  { error with line := lineAfter error.line lines }

namespace Run
variable {σ τ α β : Type}

def raise (lines : Nat) : Run σ α → Run σ α
  | done value state => done value state
  | failed error state => failed (error.raise lines) state
  | halted cause => halted cause

private theorem raise_eq (run : Run σ α) : run.raise lines = run.renumber (lineAfter · lines) := by
  cases run <;> rfl

end Run

namespace State

theorem execProgram_raise (program : List Stmt) (fuel : Nat) (state : State) :
    state.execProgram fuel (Stmt.raiseAll lines program) = (state.execProgram fuel program).raise lines := by
  rw [Stmt.raiseAll_eq fun tree _ => tree.raise_eq, execProgram_renumber, Run.raise_eq]

/-- Statements that follow a program run in the state that it leaves. -/
theorem execProgram_append (fuel : Nat) (state : State) (first rest : List Stmt) :
    state.execProgram fuel (first ++ rest) =
      (state.execProgram fuel first).andThen fun _ after => after.execProgram fuel rest := by
  induction first generalizing state with
  | nil => rfl
  | cons tree others ih =>
    rw [List.cons_append, execProgram_cons, execProgram_cons]
    cases tree.exec fuel state with
    | done completion after =>
      cases completion with
      | normal => exact ih after
      | broke => rfl
    | failed error after => rfl
    | halted cause => rfl

end State

end Lox
