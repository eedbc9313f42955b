import Lox.Proofs.Scopes
import Lox.Stmt

/-! What expressions and statements mean, as a relation between stacks of maps.
No rule looks at how far a run may go: a loop that never ends has no derivation. -/

namespace Lox.Semantics

inductive Falsy : Value → Prop where
  | nil : Falsy .nil
  | false : Falsy (.bool false)

/-- Values are the same without being converted; no number that is not one equals itself. -/
inductive Same : Value → Value → Prop where
  | nil : Same .nil .nil
  | bool : Same (.bool truth) (.bool truth)
  | number (equal : (left == right) = true) : Same (.number left) (.number right)
  | string : Same (.string text) (.string text)

inductive Prefixes (operator : Token) : Value → Except RuntimeError Value → Prop where
  | negation (kind : operator.kind = .minus) : Prefixes operator (.number value) (.ok (.number (-value)))
  | notNumber (kind : operator.kind = .minus) (other : ∀ value, operand ≠ .number value) :
      Prefixes operator operand (.error ⟨.operandMustBeNumber, operator.line⟩)
  | inversion (kind : operator.kind = .bang) (decides : result = true ↔ Falsy operand) :
      Prefixes operator operand (.ok (.bool result))

inductive Calculates (left right : Float) : Kind → Value → Prop where
  | difference : Calculates left right .minus (.number (left - right))
  | product : Calculates left right .star (.number (left * right))
  | quotient : Calculates left right .slash (.number (left / right))
  | greater : Calculates left right .greater (.bool (left > right))
  | greaterEqual : Calculates left right .greaterEqual (.bool (left ≥ right))
  | less : Calculates left right .less (.bool (left < right))
  | lessEqual : Calculates left right .lessEqual (.bool (left ≤ right))

inductive Joins (operator : Token) : Value → Value → Except RuntimeError Value → Prop where
  | sum (kind : operator.kind = .plus) :
      Joins operator (.number left) (.number right) (.ok (.number (left + right)))
  | concatenation (kind : operator.kind = .plus) :
      Joins operator (.string left) (.string right) (.ok (.string (left ++ right)))
  | unlike (kind : operator.kind = .plus)
      (notNumbers : ∀ first second, ¬ (left = .number first ∧ right = .number second))
      (notStrings : ∀ first second, ¬ (left = .string first ∧ right = .string second)) :
      Joins operator left right (.error ⟨.operandsMustBeNumbersOrStrings, operator.line⟩)
  | equality (kind : operator.kind = .equalEqual) (decides : result = true ↔ Same left right) :
      Joins operator left right (.ok (.bool result))
  | inequality (kind : operator.kind = .bangEqual) (decides : result = true ↔ ¬ Same left right) :
      Joins operator left right (.ok (.bool result))
  | calculation (calculates : Calculates left right operator.kind result) :
      Joins operator (.number left) (.number right) (.ok result)
  | notNumbers (rule : ∃ result, Calculates 0 0 operator.kind result)
      (others : ∀ first second, ¬ (left = .number first ∧ right = .number second)) :
      Joins operator left right (.error ⟨.operandsMustBeNumbers, operator.line⟩)

inductive Decides : Kind → Value → Prop where
  | disjunction (truthy : ¬ Falsy left) : Decides .kwOr left
  | conjunction (falsy : Falsy left) : Decides .kwAnd left

inductive Defers : Kind → Value → Prop where
  | disjunction (falsy : Falsy left) : Defers .kwOr left
  | conjunction (truthy : ¬ Falsy left) : Defers .kwAnd left

/-- An expression gives a value or an error, and changes the variables. -/
inductive Evaluates : Scopes → Expr → Except RuntimeError Value → Scopes → Prop where
  | literal : Evaluates scopes (.literal value) (.ok value) scopes
  | grouping (inner : Evaluates scopes tree result after) : Evaluates scopes (.grouping tree) result after
  | unary (inner : Evaluates scopes tree (.ok operand) after) (rule : Prefixes operator operand result) :
      Evaluates scopes (.unary operator tree) result after
  | unaryFails (inner : Evaluates scopes tree (.error error) after) :
      Evaluates scopes (.unary operator tree) (.error error) after
  | binary (first : Evaluates scopes left (.ok one) middle) (second : Evaluates middle right (.ok other) after)
      (rule : Joins operator one other result) : Evaluates scopes (.binary left operator right) result after
  | leftFails (first : Evaluates scopes left (.error error) after) :
      Evaluates scopes (.binary left operator right) (.error error) after
  | rightFails (first : Evaluates scopes left (.ok one) middle) (second : Evaluates middle right (.error error) after) :
      Evaluates scopes (.binary left operator right) (.error error) after
  | decided (first : Evaluates scopes left (.ok one) after) (rule : Decides operator.kind one) :
      Evaluates scopes (.logical left operator right) (.ok one) after
  | deferred (first : Evaluates scopes left (.ok one) middle) (rule : Defers operator.kind one)
      (second : Evaluates middle right result after) : Evaluates scopes (.logical left operator right) result after
  | logicalFails (first : Evaluates scopes left (.error error) after) :
      Evaluates scopes (.logical left operator right) (.error error) after
  | var (bound : scopes.find? name.lexeme = some value) : Evaluates scopes (.var name) (.ok value) scopes
  | unbound (missing : scopes.find? name.lexeme = none) :
      Evaluates scopes (.var name) (.error ⟨.undefinedVariable name.lexeme, name.line⟩) scopes
  | assign (inner : Evaluates scopes tree (.ok value) middle)
      (bound : middle.assign? name.lexeme value = some after) : Evaluates scopes (.assign name tree) (.ok value) after
  | assignUnbound (inner : Evaluates scopes tree (.ok value) after)
      (missing : after.assign? name.lexeme value = none) :
      Evaluates scopes (.assign name tree) (.error ⟨.undefinedVariable name.lexeme, name.line⟩) after
  | assignFails (inner : Evaluates scopes tree (.error error) after) :
      Evaluates scopes (.assign name tree) (.error error) after

inductive Outcome where
  | normal
  | broke
  | failed (error : RuntimeError)

mutual

/-- A statement in some depth of loops ends, has printed a text and changed the variables. -/
inductive Executes : Nat → Scopes → Stmt → Outcome → String → Scopes → Prop where
  | expression (inner : Evaluates scopes tree (.ok value) after) :
      Executes loops scopes (.expression tree) .normal "" after
  | expressionFails (inner : Evaluates scopes tree (.error error) after) :
      Executes loops scopes (.expression tree) (.failed error) "" after
  | print (inner : Evaluates scopes tree (.ok value) after) :
      Executes loops scopes (.print tree) .normal (value.text ++ "\n") after
  | printFails (inner : Evaluates scopes tree (.error error) after) :
      Executes loops scopes (.print tree) (.failed error) "" after
  | declare : Executes loops scopes (.declare name none) .normal "" (scopes.define name.lexeme .nil)
  | declareValue (inner : Evaluates scopes tree (.ok value) after) :
      Executes loops scopes (.declare name (some tree)) .normal "" (after.define name.lexeme value)
  | declareFails (inner : Evaluates scopes tree (.error error) after) :
      Executes loops scopes (.declare name (some tree)) (.failed error) "" after
  | block (inner : ExecutesAll loops scopes.enter body outcome printed after) :
      Executes loops scopes (.block body) outcome printed after.leave
  | ifTrue (test : Evaluates scopes condition (.ok value) middle) (truthy : ¬ Falsy value)
      (inner : Executes loops middle consequence outcome printed after) :
      Executes loops scopes (.ifThen condition consequence) outcome printed after
  | ifFalse (test : Evaluates scopes condition (.ok value) after) (falsy : Falsy value) :
      Executes loops scopes (.ifThen condition consequence) .normal "" after
  | ifFails (test : Evaluates scopes condition (.error error) after) :
      Executes loops scopes (.ifThen condition consequence) (.failed error) "" after
  | elseTrue (test : Evaluates scopes condition (.ok value) middle) (truthy : ¬ Falsy value)
      (inner : Executes loops middle consequence outcome printed after) :
      Executes loops scopes (.ifElse condition consequence alternative) outcome printed after
  | elseFalse (test : Evaluates scopes condition (.ok value) middle) (falsy : Falsy value)
      (inner : Executes loops middle alternative outcome printed after) :
      Executes loops scopes (.ifElse condition consequence alternative) outcome printed after
  | elseFails (test : Evaluates scopes condition (.error error) after) :
      Executes loops scopes (.ifElse condition consequence alternative) (.failed error) "" after
  | whileLoop (inner : Repeats (loops + 1) scopes condition body outcome printed after) :
      Executes loops scopes (.whileLoop condition body) outcome printed after
  | breakLoop (inside : 0 < loops) : Executes loops scopes (.breakLoop keyword) .broke "" scopes
  | breakOutside : Executes 0 scopes (.breakLoop keyword) (.failed ⟨.breakOutsideLoop, keyword.line⟩) "" scopes

/-- Statements in a row, up to the first that does not end normally. -/
inductive ExecutesAll : Nat → Scopes → List Stmt → Outcome → String → Scopes → Prop where
  | nil : ExecutesAll loops scopes [] .normal "" scopes
  | cons (first : Executes loops scopes tree .normal printed middle)
      (others : ExecutesAll loops middle rest outcome more after) :
      ExecutesAll loops scopes (tree :: rest) outcome (printed ++ more) after
  | stop (first : Executes loops scopes tree outcome printed after) (ends : outcome ≠ .normal) :
      ExecutesAll loops scopes (tree :: rest) outcome printed after

/-- The rounds of a loop that is running. A `break` of a round ends the loop, which then ends normally. -/
inductive Repeats : Nat → Scopes → Expr → Stmt → Outcome → String → Scopes → Prop where
  | ends (test : Evaluates scopes condition (.ok value) after) (falsy : Falsy value) :
      Repeats loops scopes condition body .normal "" after
  | testFails (test : Evaluates scopes condition (.error error) after) :
      Repeats loops scopes condition body (.failed error) "" after
  | breaks (test : Evaluates scopes condition (.ok value) middle) (truthy : ¬ Falsy value)
      (round : Executes loops middle body .broke printed after) :
      Repeats loops scopes condition body .normal printed after
  | fails (test : Evaluates scopes condition (.ok value) middle) (truthy : ¬ Falsy value)
      (round : Executes loops middle body (.failed error) printed after) :
      Repeats loops scopes condition body (.failed error) printed after
  | again (test : Evaluates scopes condition (.ok value) middle) (truthy : ¬ Falsy value)
      (round : Executes loops middle body .normal printed next)
      (others : Repeats loops next condition body outcome more after) :
      Repeats loops scopes condition body outcome (printed ++ more) after

end

end Lox.Semantics
