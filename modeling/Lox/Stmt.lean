import Lox.Expr

/-! Statements as trees, and programs as lists of them. -/

namespace Lox

inductive Stmt where
  | expression (value : Expr)
  | print (value : Expr)
  | declare (name : Token) (initial : Option Expr)
  | block (body : List Stmt)
  | ifThen (condition : Expr) (consequence : Stmt)
  | ifElse (condition : Expr) (consequence alternative : Stmt)
  | whileLoop (condition : Expr) (body : Stmt)
  | breakLoop (keyword : Token)
deriving Inhabited

/-- Induction over a statement and all statements in it, those of a block taken together. -/
@[elab_as_elim, induction_eliminator]
theorem Stmt.inductionOn {motive : Stmt → Prop} (expression : ∀ value, motive (.expression value))
    (print : ∀ value, motive (.print value)) (declare : ∀ name initial, motive (.declare name initial))
    (block : ∀ body, (∀ statement ∈ body, motive statement) → motive (.block body))
    (ifThen : ∀ condition consequence, motive consequence → motive (.ifThen condition consequence))
    (ifElse : ∀ condition consequence alternative, motive consequence → motive alternative →
      motive (.ifElse condition consequence alternative))
    (whileLoop : ∀ condition body, motive body → motive (.whileLoop condition body))
    (breakLoop : ∀ keyword, motive (.breakLoop keyword)) (tree : Stmt) : motive tree :=
  @Stmt.rec motive (fun body => ∀ statement ∈ body, motive statement) expression print declare block ifThen ifElse
    whileLoop breakLoop nofun (fun _ _ first rest => List.forall_mem_cons.mpr ⟨first, rest⟩) tree

end Lox
