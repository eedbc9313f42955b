import Lox.Stmt.Execution

/-! Line numbers are there for errors alone. Trees whose tokens get other line numbers
run as they did, and only a runtime error tells the difference. -/

namespace Lox

variable {change : Nat → Nat}

def Token.renumber (token : Token) (change : Nat → Nat) : Token := { token with line := change token.line }

namespace Expr

def renumber (change : Nat → Nat) : Expr → Expr
  | literal value => literal value
  | grouping inner => grouping (inner.renumber change)
  | unary operator operand => unary (operator.renumber change) (operand.renumber change)
  | binary left operator right => binary (left.renumber change) (operator.renumber change) (right.renumber change)
  | dangling operator right => dangling (operator.renumber change) (right.renumber change)
  | logical left operator right => logical (left.renumber change) (operator.renumber change) (right.renumber change)
  | var name => var (name.renumber change)
  | assign name value => assign (name.renumber change) (value.renumber change)

end Expr

namespace Stmt

mutual

def renumber (change : Nat → Nat) : Stmt → Stmt
  | expression value => expression (value.renumber change)
  | print value => print (value.renumber change)
  | declare name initial => declare (name.renumber change) (initial.map (·.renumber change))
  | block body => block (renumberAll change body)
  | ifThen condition consequence => ifThen (condition.renumber change) (consequence.renumber change)
  | ifElse condition consequence alternative =>
    ifElse (condition.renumber change) (consequence.renumber change) (alternative.renumber change)
  | whileLoop condition body => whileLoop (condition.renumber change) (body.renumber change)
  | breakLoop keyword => breakLoop (keyword.renumber change)

def renumberAll (change : Nat → Nat) : List Stmt → List Stmt
  | [] => []
  | first :: rest => first.renumber change :: renumberAll change rest

end

theorem renumberAll_eq (change : Nat → Nat) (body : List Stmt) : renumberAll change body = body.map (renumber change) := by
  induction body with
  | nil => rfl
  | cons first rest ih => rw [renumberAll, ih, List.map_cons]

end Stmt

def RuntimeError.renumber (error : RuntimeError) (change : Nat → Nat) : RuntimeError :=
  { error with line := change error.line }

namespace Run
variable {σ τ α β : Type}

def renumber (change : Nat → Nat) : Run σ α → Run σ α
  | done value state => done value state
  | failed error state => failed (error.renumber change) state
  | halted cause => halted cause

theorem renumber_andThen (run : Run σ α) (next : α → σ → Run σ β) :
    (run.andThen next).renumber change =
      (run.renumber change).andThen fun value state => (next value state).renumber change := by
  cases run <;> rfl

theorem renumber_mapState (run : Run σ α) (switch : σ → τ) :
    (run.mapState switch).renumber change = (run.renumber change).mapState switch := by
  cases run <;> rfl

end Run

namespace Operation
variable {σ : Type}

private theorem unary_renumber (operator : Token) (operand : Value) (state : σ) :
    unary (operator.renumber change) operand state = (unary operator operand state).renumber change := by
  obtain ⟨kind, lexeme, literal, line⟩ := operator
  unfold unary
  simp only [Token.renumber]
  split
  next => cases operand <;> rfl
  next => rfl
  next => rfl

private theorem add_renumber (operator : Token) (left right : Value) (state : σ) :
    add (operator.renumber change) left right state = (add operator left right state).renumber change := by
  cases left <;> cases right <;> rfl

private theorem numeric_renumber (kind : Kind) (left right : Float) (state : σ) :
    (numeric kind left right state).renumber change = numeric kind left right state := by
  unfold numeric
  split <;> rfl

private theorem calculate_renumber (operator : Token) (left right : Value) (state : σ) :
    calculate (operator.renumber change) left right state = (calculate operator left right state).renumber change := by
  cases left with
  | nil | bool | string => rfl
  | number first =>
    cases right with
    | nil | bool | string => rfl
    | number second => exact (numeric_renumber operator.kind first second state).symm

private theorem binary_renumber (operator : Token) (left right : Value) (state : σ) :
    binary (operator.renumber change) left right state = (binary operator left right state).renumber change := by
  have adds : add (operator.renumber change) left right state = _ := add_renumber operator left right state
  have calculates : calculate (operator.renumber change) left right state = _ :=
    calculate_renumber operator left right state
  obtain ⟨kind, lexeme, literal, line⟩ := operator
  unfold binary
  simp only [Token.renumber] at adds calculates ⊢
  split
  next => exact adds
  next => rfl
  next => rfl
  all_goals first | exact calculates | rfl

end Operation

theorem Expr.eval_renumber (tree : Expr) (environment : Environment) :
    (tree.renumber change).eval environment = (tree.eval environment).renumber change := by
  induction tree generalizing environment with
  | literal value => rfl
  | grouping inner ih => exact ih environment
  | unary operator operand ih =>
    simp only [renumber, eval, Run.renumber_andThen, ih, Operation.unary_renumber]
  | binary left operator right first second =>
    simp only [renumber, eval, Run.renumber_andThen, first, second, Operation.binary_renumber]
  | dangling operator right => rfl
  | logical left operator right first second =>
    simp only [renumber, eval, Run.renumber_andThen, first]
    congr 1
    funext one after
    rw [show Operation.decides? (operator.renumber change) one = Operation.decides? operator one from rfl]
    cases Operation.decides? operator one with
    | none => rfl
    | some decided =>
      cases decided with
      | true => rfl
      | false => exact second after
  | var name =>
    simp only [renumber, eval, Environment.get, Token.renumber]
    cases environment.find? name.lexeme <;> rfl
  | assign name value ih =>
    simp only [renumber, eval, Run.renumber_andThen, ih]
    congr 1
    funext result after
    simp only [Environment.assign, Token.renumber]
    cases after.resolve? name.lexeme <;> rfl

theorem State.eval_renumber (state : State) (tree : Expr) :
    state.eval (tree.renumber change) = (state.eval tree).renumber change := by
  rw [eval, eval, Expr.eval_renumber, Run.renumber_mapState]

private theorem repeatWhile_renumber {test other : State → Run State Value} {round next : State → Run State Completion}
    (tests : ∀ state, other state = (test state).renumber change)
    (rounds : ∀ state, next state = (round state).renumber change) (fuel : Nat) (state : State) :
    repeatWhile other next fuel state = (repeatWhile test round fuel state).renumber change := by
  induction fuel generalizing state with
  | zero => rfl
  | succ fuel ih =>
    rw [repeatWhile_succ, repeatWhile_succ, Run.renumber_andThen, tests]
    congr 1
    funext value after
    split
    · rw [Run.renumber_andThen, rounds]
      congr 1
      funext completion last
      cases completion with
      | normal => exact ih last
      | broke => rfl
    · rfl

namespace Stmt

private theorem execAll_renumber {fuel : Nat} {body : List Stmt}
    (each : ∀ tree ∈ body, ∀ state, (tree.renumber change).exec fuel state = (tree.exec fuel state).renumber change)
    (state : State) : execAll fuel state (renumberAll change body) = (execAll fuel state body).renumber change := by
  induction body generalizing state with
  | nil => rfl
  | cons first rest ih =>
    rw [List.forall_mem_cons] at each
    rw [renumberAll, execAll, execAll, Run.renumber_andThen, each.1]
    congr 1
    funext completion after
    cases completion with
    | normal => exact ih each.2 after
    | broke => rfl

theorem exec_renumber (tree : Stmt) (fuel : Nat) (state : State) :
    (tree.renumber change).exec fuel state = (tree.exec fuel state).renumber change := by
  induction tree generalizing state with
  | expression value | print value =>
    simp only [renumber, exec, Run.renumber_andThen, State.eval_renumber]
    rfl
  | declare name initial =>
    cases initial with
    | none => rfl
    | some value =>
      simp only [renumber, Option.map_some, exec, Run.renumber_andThen, State.eval_renumber]
      rfl
  | block body ih => simp only [renumber, exec, Run.renumber_mapState, execAll_renumber ih]
  | ifThen condition consequence ih =>
    simp only [renumber, exec, Run.renumber_andThen, State.eval_renumber]
    congr 1
    funext value after
    split
    · exact ih after
    · rfl
  | ifElse condition consequence alternative ih other =>
    simp only [renumber, exec, Run.renumber_andThen, State.eval_renumber]
    congr 1
    funext value after
    split
    · exact ih after
    · exact other after
  | whileLoop condition body ih =>
    simp only [renumber, exec, Run.renumber_mapState]
    rw [repeatWhile_renumber (fun before => before.eval_renumber condition) ih]
  | breakLoop keyword =>
    simp only [renumber, exec]
    split <;> rfl

end Stmt

theorem State.execProgram_renumber (program : List Stmt) (fuel : Nat) (state : State) :
    state.execProgram fuel (Stmt.renumberAll change program) = (state.execProgram fuel program).renumber change := by
  induction program generalizing state with
  | nil => rfl
  | cons first rest ih =>
    rw [Stmt.renumberAll, execProgram_cons, execProgram_cons, Run.renumber_andThen, Stmt.exec_renumber]
    congr 1
    funext completion after
    cases completion with
    | normal => exact ih after
    | broke => rfl

end Lox
