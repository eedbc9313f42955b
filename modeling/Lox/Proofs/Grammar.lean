import Lox.Expr.Level
import Lox.Stmt

/-! The grammar of the language, apart from any way of reading it. A derivation
fixes the tree along with the tokens, so that grouping and association are part
of the grammar. -/

namespace Lox.Grammar

inductive Rule where
  | assignment
  | joined (level : Level)
  | unary
  | primary

structure Joint where
  operand : Rule
  operators : List Kind
  node : Expr → Token → Expr → Expr

def joint : Level → Joint
  | .disjunction => ⟨.joined .conjunction, [.kwOr], .logical⟩
  | .conjunction => ⟨.joined .equality, [.kwAnd], .logical⟩
  | .equality => ⟨.joined .comparison, [.bangEqual, .equalEqual], .binary⟩
  | .comparison => ⟨.joined .sum, [.greater, .greaterEqual, .less, .lessEqual], .binary⟩
  | .sum => ⟨.joined .product, [.minus, .plus], .binary⟩
  | .product => ⟨.unary, [.slash, .star], .binary⟩

/-- The tokens and the tree of an expression. The left operand of an operator
may hold operators of the same level, its right operand only tighter ones. -/
inductive Derives : Rule → List Token → Expr → Prop where
  | assign (isName : name.kind = .identifier) (isEqual : equals.kind = .equal)
      (right : Derives .assignment tokens value) :
      Derives .assignment (name :: equals :: tokens) (.assign name value)
  | value (inner : Derives (.joined .disjunction) tokens value) : Derives .assignment tokens value
  | operand (inner : Derives (joint level).operand tokens value) : Derives (.joined level) tokens value
  | operation (left : Derives (.joined level) before first) (isOperator : operator.kind ∈ (joint level).operators)
      (right : Derives (joint level).operand after second) :
      Derives (.joined level) (before ++ operator :: after) ((joint level).node first operator second)
  | signed (isOperator : operator.kind = .bang ∨ operator.kind = .minus) (inner : Derives .unary tokens operand) :
      Derives .unary (operator :: tokens) (.unary operator operand)
  | primary (inner : Derives .primary tokens value) : Derives .unary tokens value
  | literal (isLiteral : token.kind = .number ∨ token.kind = .string) :
      Derives .primary [token] (.literal (token.literal.getD .nil))
  | truth (isTrue : token.kind = .kwTrue) : Derives .primary [token] (.literal (.bool true))
  | falsehood (isFalse : token.kind = .kwFalse) : Derives .primary [token] (.literal (.bool false))
  | nothing (isNil : token.kind = .kwNil) : Derives .primary [token] (.literal .nil)
  | name (isName : token.kind = .identifier) : Derives .primary [token] (.var token)
  | grouping (opens : first.kind = .leftParen) (inner : Derives .assignment tokens value)
      (closes : last.kind = .rightParen) :
      Derives .primary (first :: (tokens ++ [last])) (.grouping value)

abbrev Expression (tokens : List Token) (value : Expr) : Prop := Derives .assignment tokens value

theorem Derives.expression {tokens : List Token} {value : Expr} (derives : Derives .unary tokens value) :
    Expression tokens value :=
  .value (.operand (.operand (.operand (.operand (.operand (.operand derives))))))

/-- Whether an `else` right after the statement would belong to an `if` in it. -/
def awaitsElse : Stmt → Bool
  | .ifThen _ _ => true
  | .ifElse _ _ alternative => awaitsElse alternative
  | .whileLoop _ body => awaitsElse body
  | _ => false

mutual

/-- The tokens and the tree of a statement. What stands before an `else` awaits
no other `else`, so that each belongs to the nearest `if` without one. -/
inductive Statement : List Token → Stmt → Prop where
  | expression (value : Expression tokens tree) (ends : semicolon.kind = .semicolon) :
      Statement (tokens ++ [semicolon]) (.expression tree)
  | print (isPrint : keyword.kind = .kwPrint) (value : Expression tokens tree)
      (ends : semicolon.kind = .semicolon) :
      Statement (keyword :: (tokens ++ [semicolon])) (.print tree)
  | block (opens : first.kind = .leftBrace) (body : Program tokens statements)
      (closes : last.kind = .rightBrace) :
      Statement (first :: (tokens ++ [last])) (.block statements)
  | ifThen (isIf : keyword.kind = .kwIf) (opens : first.kind = .leftParen) (test : Expression tokens condition)
      (closes : last.kind = .rightParen) (consequence : Statement chosen tree) :
      Statement (keyword :: first :: (tokens ++ last :: chosen)) (.ifThen condition tree)
  | ifElse (isIf : keyword.kind = .kwIf) (opens : first.kind = .leftParen) (test : Expression tokens condition)
      (closes : last.kind = .rightParen) (consequence : Statement chosen tree)
      (complete : awaitsElse tree = false) (isElse : middle.kind = .kwElse)
      (alternative : Statement other second) :
      Statement (keyword :: first :: (tokens ++ last :: (chosen ++ middle :: other))) (.ifElse condition tree second)
  | whileLoop (isWhile : keyword.kind = .kwWhile) (opens : first.kind = .leftParen)
      (test : Expression tokens condition) (closes : last.kind = .rightParen) (body : Statement after tree) :
      Statement (keyword :: first :: (tokens ++ last :: after)) (.whileLoop condition tree)
  | breakLoop (isBreak : keyword.kind = .kwBreak) (ends : semicolon.kind = .semicolon) :
      Statement [keyword, semicolon] (.breakLoop keyword)

inductive Declaration : List Token → Stmt → Prop where
  | declare (isVar : keyword.kind = .kwVar) (isName : name.kind = .identifier)
      (ends : semicolon.kind = .semicolon) :
      Declaration [keyword, name, semicolon] (.declare name none)
  | withValue (isVar : keyword.kind = .kwVar) (isName : name.kind = .identifier)
      (isEqual : equals.kind = .equal) (value : Expression tokens tree) (ends : semicolon.kind = .semicolon) :
      Declaration (keyword :: name :: equals :: (tokens ++ [semicolon])) (.declare name (some tree))
  | statement (inner : Statement tokens tree) : Declaration tokens tree

inductive Program : List Token → List Stmt → Prop where
  | nil : Program [] []
  | cons (first : Declaration before tree) (rest : Program after trees) :
      Program (before ++ after) (tree :: trees)

end

theorem Program.append {first second : List Token} {trees others : List Stmt} (begins : Program first trees)
    (ends : Program second others) : Program (first ++ second) (trees ++ others) := by
  induction trees generalizing first with
  | nil =>
    cases begins
    exact ends
  | cons tree trees ih =>
    cases begins with
    | cons declaration rest =>
      rw [List.append_assoc]
      exact .cons declaration (ih rest)

/-- An `else` can follow any statement that awaits one: the innermost open `if` takes it. -/
theorem Statement.takes_else {tokens other : List Token} {tree second : Stmt} {middle : Token}
    (statement : Statement tokens tree) (awaits : awaitsElse tree = true) (isElse : middle.kind = .kwElse)
    (alternative : Statement other second) : ∃ whole, Statement (tokens ++ middle :: other) whole := by
  induction tree generalizing tokens with
  | ifThen condition chosen ih =>
    cases statement with
    | ifThen isIf opens test closes consequence =>
      simp only [List.cons_append, List.append_assoc]
      by_cases inner : awaitsElse chosen = true
      · obtain ⟨whole, derived⟩ := ih consequence inner
        exact ⟨_, .ifThen isIf opens test closes derived⟩
      · exact ⟨_, .ifElse isIf opens test closes consequence (Bool.eq_false_iff.mpr inner) isElse alternative⟩
  | ifElse condition chosen last _ ih =>
    cases statement with
    | ifElse isIf opens test closes consequence complete follows inner =>
      obtain ⟨whole, derived⟩ := ih inner awaits
      simp only [List.cons_append, List.append_assoc]
      exact ⟨_, .ifElse isIf opens test closes consequence complete follows derived⟩
  | whileLoop condition body ih =>
    cases statement with
    | whileLoop isWhile opens test closes inner =>
      obtain ⟨whole, derived⟩ := ih inner awaits
      simp only [List.cons_append, List.append_assoc]
      exact ⟨_, .whileLoop isWhile opens test closes derived⟩
  | expression | print | declare | block | breakLoop => cases awaits

/-- Attaching each `else` to the nearest `if` keeps no two statements from standing around one. -/
theorem Statement.exists_ifElse {keyword first last middle : Token} {tokens chosen other : List Token}
    {condition : Expr} {tree second : Stmt} (isIf : keyword.kind = .kwIf) (opens : first.kind = .leftParen)
    (test : Expression tokens condition) (closes : last.kind = .rightParen) (consequence : Statement chosen tree)
    (isElse : middle.kind = .kwElse) (alternative : Statement other second) :
    ∃ whole, Statement (keyword :: first :: (tokens ++ last :: (chosen ++ middle :: other))) whole := by
  by_cases awaits : awaitsElse tree = true
  · obtain ⟨whole, derived⟩ := consequence.takes_else awaits isElse alternative
    exact ⟨_, .ifThen isIf opens test closes derived⟩
  · exact ⟨_, .ifElse isIf opens test closes consequence (Bool.eq_false_iff.mpr awaits) isElse alternative⟩

end Lox.Grammar
