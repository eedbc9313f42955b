import Lox.Proofs.ComposedRuns
import Lox.Proofs.Grammar

/-! A runtime error blames a token of the source: the operator, the name or the `break`
that could not be run. Trees keep these tokens as they were read. -/

namespace Lox

/-- The token is the one that an error is about: it gives the error its line, and it is of a kind
that can have this fault. -/
def RuntimeError.Blames (error : RuntimeError) (token : Token) : Prop :=
  error.line = token.line ∧
    match error.fault with
    | .operandMustBeNumber => token.kind = .minus
    | .operandsMustBeNumbers =>
      token.kind ∈ [Kind.minus, .star, .slash, .greater, .greaterEqual, .less, .lessEqual]
    | .operandsMustBeNumbersOrStrings => token.kind = .plus
    | .undefinedVariable name => token.kind = .identifier ∧ token.lexeme = name
    | .breakOutsideLoop => token.kind = .kwBreak

inductive Expr.From (source : List Token) : Expr → Prop where
  | literal : From source (.literal value)
  | grouping (inner : From source value) : From source (.grouping value)
  | unary (present : operator ∈ source) (inner : From source operand) : From source (.unary operator operand)
  | binary (present : operator ∈ source) (first : From source left) (second : From source right) :
      From source (.binary left operator right)
  | logical (present : operator ∈ source) (first : From source left) (second : From source right) :
      From source (.logical left operator right)
  | var (present : name ∈ source) (isName : name.kind = .identifier) : From source (.var name)
  | assign (present : name ∈ source) (isName : name.kind = .identifier) (inner : From source value) :
      From source (.assign name value)

/-- The operators, the names and the keywords of a statement, which are all that a runtime error can be about,
are among some tokens. -/
inductive Stmt.From (source : List Token) : Stmt → Prop where
  | expression (inner : value.From source) : From source (.expression value)
  | print (inner : value.From source) : From source (.print value)
  | declare (inner : ∀ value ∈ initial, value.From source) : From source (.declare name initial)
  | block (inner : ∀ statement ∈ body, From source statement) : From source (.block body)
  | ifThen (test : condition.From source) (first : From source consequence) :
      From source (.ifThen condition consequence)
  | ifElse (test : condition.From source) (first : From source consequence) (second : From source alternative) :
      From source (.ifElse condition consequence alternative)
  | whileLoop (test : condition.From source) (inner : From source body) : From source (.whileLoop condition body)
  | breakLoop (present : keyword ∈ source) (isBreak : keyword.kind = .kwBreak) : From source (.breakLoop keyword)

namespace Grammar
variable {source tokens : List Token}

private theorem joint_node_from {level : Level} {left right : Expr} {operator : Token} (present : operator ∈ source)
    (first : left.From source) (second : right.From source) : ((joint level).node left operator right).From source := by
  cases level with
  | disjunction | conjunction => exact .logical present first second
  | equality | comparison | sum | product => exact .binary present first second

theorem Derives.from_source {rule : Rule} {value : Expr} (derives : Derives rule tokens value)
    (inside : tokens ⊆ source) : value.From source := by
  induction derives with
  | assign isName isEqual right ih =>
    obtain ⟨present, inside⟩ := List.cons_subset.mp inside
    exact .assign present isName (ih (List.cons_subset.mp inside).2)
  | value inner ih | operand inner ih | primary inner ih => exact ih inside
  | operation left isOperator right first second =>
    obtain ⟨before, inside⟩ := List.append_subset.mp inside
    obtain ⟨present, after⟩ := List.cons_subset.mp inside
    exact joint_node_from present (first before) (second after)
  | signed isOperator inner ih =>
    obtain ⟨present, inside⟩ := List.cons_subset.mp inside
    exact .unary present (ih inside)
  | literal | truth | falsehood | nothing => exact .literal
  | name isName => exact .var (inside (List.mem_singleton_self _)) isName
  | grouping opens inner closes ih =>
    obtain ⟨_, inside⟩ := List.cons_subset.mp inside
    exact .grouping (ih (List.append_subset.mp inside).1)

private theorem subset_condition {keyword first last : Token} {after : List Token}
    (inside : keyword :: first :: (tokens ++ last :: after) ⊆ source) : tokens ⊆ source ∧ after ⊆ source := by
  obtain ⟨_, inside⟩ := List.cons_subset.mp inside
  obtain ⟨_, inside⟩ := List.cons_subset.mp inside
  obtain ⟨condition, inside⟩ := List.append_subset.mp inside
  exact ⟨condition, (List.cons_subset.mp inside).2⟩

mutual

theorem Statement.from_source {tokens : List Token} {tree : Stmt} (statement : Statement tokens tree)
    (inside : tokens ⊆ source) : tree.From source := by
  cases statement with
  | expression value ends => exact .expression (value.from_source (List.append_subset.mp inside).1)
  | print isPrint value ends =>
    obtain ⟨_, inside⟩ := List.cons_subset.mp inside
    exact .print (value.from_source (List.append_subset.mp inside).1)
  | block opens body closes =>
    obtain ⟨_, inside⟩ := List.cons_subset.mp inside
    exact .block (body.from_source (List.append_subset.mp inside).1)
  | ifThen isIf opens test closes consequence =>
    obtain ⟨condition, inside⟩ := subset_condition inside
    exact .ifThen (test.from_source condition) (consequence.from_source inside)
  | ifElse isIf opens test closes consequence complete isElse alternative =>
    obtain ⟨condition, inside⟩ := subset_condition inside
    obtain ⟨chosen, inside⟩ := List.append_subset.mp inside
    exact .ifElse (test.from_source condition) (consequence.from_source chosen)
      (alternative.from_source (List.cons_subset.mp inside).2)
  | whileLoop isWhile opens test closes body =>
    obtain ⟨condition, inside⟩ := subset_condition inside
    exact .whileLoop (test.from_source condition) (body.from_source inside)
  | breakLoop isBreak ends => exact .breakLoop (List.cons_subset.mp inside).1 isBreak

theorem Declaration.from_source {tokens : List Token} {tree : Stmt} (declaration : Declaration tokens tree)
    (inside : tokens ⊆ source) : tree.From source := by
  cases declaration with
  | declare isVar isName ends => exact .declare nofun
  | withValue isVar isName isEqual value ends =>
    obtain ⟨_, inside⟩ := List.cons_subset.mp inside
    obtain ⟨_, inside⟩ := List.cons_subset.mp inside
    obtain ⟨_, inside⟩ := List.cons_subset.mp inside
    refine .declare fun other same => ?_
    cases same
    exact value.from_source (List.append_subset.mp inside).1
  | statement inner => exact inner.from_source inside

theorem Program.from_source {tokens : List Token} {trees : List Stmt} (program : Program tokens trees)
    (inside : tokens ⊆ source) : ∀ tree ∈ trees, tree.From source := by
  cases program with
  | nil => exact nofun
  | cons first rest =>
    obtain ⟨before, after⟩ := List.append_subset.mp inside
    exact List.forall_mem_cons.mpr ⟨first.from_source before, rest.from_source after⟩

end

end Grammar

namespace Run
variable {σ τ α β : Type} {source : List Token}

def BlamesIn (source : List Token) (run : Run σ α) : Prop :=
  ∀ error state, run = .failed error state → ∃ token ∈ source, error.Blames token

theorem BlamesIn.done {value : α} {state : σ} : (done value state).BlamesIn source := nofun

theorem BlamesIn.halted {cause : Halt} : (halted cause : Run σ α).BlamesIn source := nofun

theorem BlamesIn.failed {error : RuntimeError} {token : Token} {state : σ} (present : token ∈ source)
    (blames : error.Blames token) : (failed error state : Run σ α).BlamesIn source := by
  intro other after fails
  cases fails
  exact ⟨token, present, blames⟩

theorem BlamesIn.andThen {run : Run σ α} {next : α → σ → Run σ β} (first : run.BlamesIn source)
    (rest : ∀ value state, (next value state).BlamesIn source) : (run.andThen next).BlamesIn source := by
  intro error after fails
  cases run with
  | done value state => exact rest value state error after fails
  | failed other state =>
    cases fails
    exact first error after rfl
  | halted cause => cases fails

theorem BlamesIn.composes : Composes fun run : Run σ _ => run.BlamesIn source := ⟨.done, .halted, .andThen⟩

theorem BlamesIn.mapState {run : Run σ α} (first : run.BlamesIn source) (change : σ → τ) :
    (run.mapState change).BlamesIn source := by
  intro error after fails
  cases run with
  | done value state => cases fails
  | failed other state =>
    cases fails
    exact first error state rfl
  | halted cause => cases fails

end Run

open Run

namespace Operation
variable {σ : Type} {source : List Token} {operator : Token}

end Operation

section Trees
variable {source : List Token}

namespace Stmt

end Stmt

end Trees

end Lox
