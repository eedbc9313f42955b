import Lox.Proofs.Grammar

/-! Trees in which every operator has its operands and a rule. A tree built by
hand may break this, a derived one does not. -/

namespace Lox

namespace Operation

def unaryRules : List Kind := [.bang, .minus]

def binaryRules : List Kind :=
  [.plus, .minus, .star, .slash, .greater, .greaterEqual, .less, .lessEqual, .equalEqual, .bangEqual]

def logicalRules : List Kind := [.kwAnd, .kwOr]

end Operation

open Operation

/-- No operator of the expression lacks its left operand or a rule. -/
inductive Expr.Ruled : Expr → Prop where
  | literal : Ruled (.literal value)
  | grouping (inner : Ruled value) : Ruled (.grouping value)
  | unary (rule : operator.kind ∈ unaryRules) (inner : Ruled operand) : Ruled (.unary operator operand)
  | binary (rule : operator.kind ∈ binaryRules) (first : Ruled left) (second : Ruled right) :
      Ruled (.binary left operator right)
  | logical (rule : operator.kind ∈ logicalRules) (first : Ruled left) (second : Ruled right) :
      Ruled (.logical left operator right)
  | var : Ruled (.var name)
  | assign (inner : Ruled value) : Ruled (.assign name value)

inductive Stmt.Ruled : Stmt → Prop where
  | expression (inner : value.Ruled) : Ruled (.expression value)
  | print (inner : value.Ruled) : Ruled (.print value)
  | declare (inner : ∀ value ∈ initial, value.Ruled) : Ruled (.declare name initial)
  | block (inner : ∀ statement ∈ body, Ruled statement) : Ruled (.block body)
  | ifThen (test : condition.Ruled) (first : Ruled consequence) : Ruled (.ifThen condition consequence)
  | ifElse (test : condition.Ruled) (first : Ruled consequence) (second : Ruled alternative) :
      Ruled (.ifElse condition consequence alternative)
  | whileLoop (test : condition.Ruled) (inner : Ruled body) : Ruled (.whileLoop condition body)
  | breakLoop : Ruled (.breakLoop keyword)

namespace Grammar

/-- The rules that an operator between operands of a level is looked up in. -/
def levelRules : Level → List Kind
  | .disjunction | .conjunction => logicalRules
  | .equality | .comparison | .sum | .product => binaryRules

theorem joint_operators_ruled (level : Level) : ∀ kind ∈ (joint level).operators, kind ∈ levelRules level := by
  cases level <;> decide

private theorem joint_node_ruled {level : Level} {left right : Expr} {operator : Token}
    (isOperator : operator.kind ∈ (joint level).operators) (first : left.Ruled) (second : right.Ruled) :
    ((joint level).node left operator right).Ruled := by
  have rule := joint_operators_ruled level _ isOperator
  cases level with
  | disjunction | conjunction => exact .logical rule first second
  | equality | comparison | sum | product => exact .binary rule first second

theorem Derives.ruled {rule : Rule} {tokens : List Token} {value : Expr} (derives : Derives rule tokens value) :
    value.Ruled := by
  induction derives with
  | assign isName isEqual right ih => exact .assign ih
  | value inner ih | operand inner ih | primary inner ih => exact ih
  | operation left isOperator right first second => exact joint_node_ruled isOperator first second
  | signed isOperator inner ih =>
    refine .unary ?_ ih
    rcases isOperator with same | same <;> rw [same] <;> decide
  | literal | truth | falsehood | nothing => exact .literal
  | name => exact .var
  | grouping opens inner closes ih => exact .grouping ih

mutual

theorem Statement.ruled {tokens : List Token} {tree : Stmt} : Statement tokens tree → tree.Ruled
  | .expression value _ => .expression value.ruled
  | .print _ value _ => .print value.ruled
  | .block _ body _ => .block (Program.ruled body)
  | .ifThen _ _ test _ consequence => .ifThen test.ruled (Statement.ruled consequence)
  | .ifElse _ _ test _ consequence _ _ alternative =>
    .ifElse test.ruled (Statement.ruled consequence) (Statement.ruled alternative)
  | .whileLoop _ _ test _ body => .whileLoop test.ruled (Statement.ruled body)
  | .breakLoop _ _ => .breakLoop

theorem Declaration.ruled {tokens : List Token} {tree : Stmt} : Declaration tokens tree → tree.Ruled
  | .declare _ _ _ => .declare nofun
  | .withValue _ _ _ value _ => .declare fun _ same => by cases same; exact value.ruled
  | .statement inner => Statement.ruled inner

theorem Program.ruled {tokens : List Token} {trees : List Stmt} :
    Program tokens trees → ∀ tree ∈ trees, tree.Ruled
  | .nil => nofun
  | .cons first rest => List.forall_mem_cons.mpr ⟨Declaration.ruled first, Program.ruled rest⟩

end

end Grammar

end Lox
