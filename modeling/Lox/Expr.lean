import Lox.Token

/-! Expressions as trees. Operators and names are kept as the tokens that they were read from, so
that errors can name their lines. -/

namespace Lox

inductive Expr where
  | literal (value : Value)
  | grouping (inner : Expr)
  | unary (operator : Token) (operand : Expr)
  | binary (left : Expr) (operator : Token) (right : Expr)
  /-- A binary operator with nothing on its left; only the tree of an erroneous source has one. -/
  | dangling (operator : Token) (right : Expr)
  | logical (left : Expr) (operator : Token) (right : Expr)
  | var (name : Token)
  | assign (name : Token) (value : Expr)
deriving DecidableEq, Inhabited

end Lox
