import Lox.Expr.Reader
import Lox.Stmt.Passage

/-! Reading statements and declarations from tokens. As for expressions, `stop` is the token after
the given ones. A declaration that cannot be read is given up at the next boundary, so that the ones
after it are read as if it were not there. -/

namespace Lox.Stmt

open Reading

/-- Read an expression and a semicolon. -/
def readClosed (stop : Token) (fault : SyntaxFault) (tokens : List Token) : Reading Expr :=
  (Expr.read stop tokens).closedBy stop .semicolon fault tokens

/-- Read the condition of an `if` or `while`, in parentheses. -/
def readCondition (stop : Token) (unopened unclosed : SyntaxFault) (tokens : List Token) : Reading Expr :=
  (expect stop .leftParen unopened tokens).andThen fun _ =>
    (Expr.read stop tokens.tail).closedBy stop .rightParen unclosed tokens.tail

/-- Read a variable declaration after its keyword. -/
def readDeclaration (stop : Token) : List Token → Reading Stmt
  | [] => .fail stop .noVariableName
  | name :: rest =>
    if name.kind = .identifier then
      let initial : Reading (Option Expr) :=
        match rest with
        | [] => .done none 0
        | equals :: after =>
          if equals.kind = .equal then ((Expr.read stop after).map some).afterToken else .done none 0
      ((initial.closedBy stop .semicolon .openDeclaration rest).map (.declare name)).afterToken
    else .fail name .noVariableName

mutual

/-- Read a statement. An error that the surrounding declaration has reported may be pending. -/
def read (stop : Token) (pending : Bool) : List Token → Passage Stmt
  | [] => .ofReading pending (.fail stop .noExpression)
  | first :: rest =>
    match first.kind with
    | .kwPrint => .ofReading pending ((readClosed stop .openPrint rest).map .print).afterToken
    | .kwBreak =>
      .ofReading pending ((expect stop .semicolon .openBreak rest).map fun _ => .breakLoop first).afterToken
    | .leftBrace =>
      let body := readBlock stop pending rest
      -- A declaration in the body, however it ended, has settled what was pending.
      let opened : Passage (List Stmt) :=
        ⟨.ok body.statements, body.width + 1, body.errors, pending && body.width == 0⟩
      opened.andThen fun statements pending =>
        .ofReading pending
          ((expect stop .rightBrace .openBlock (rest.drop body.width)).map fun _ => .block statements)
    | .kwIf =>
      let condition := readCondition stop .noIfCondition .openIfCondition rest
      (Passage.ofReading pending condition.afterToken).andThen fun test pending =>
        let after := rest.drop condition.width
        let consequence := read stop pending after
        consequence.andThen fun chosen pending =>
          match _follow : after.drop consequence.width with
          | [] => .ofReading pending (.done (.ifThen test chosen) 0)
          | keyword :: other =>
            if keyword.kind = .kwElse then ((read stop pending other).map (.ifElse test chosen)).afterToken
            else .ofReading pending (.done (.ifThen test chosen) 0)
    | .kwWhile =>
      let condition := readCondition stop .noWhileCondition .openWhileCondition rest
      (Passage.ofReading pending condition.afterToken).andThen fun test pending =>
        (read stop pending (rest.drop condition.width)).map (.whileLoop test)
    | _ => .ofReading pending ((readClosed stop .openExpression (first :: rest)).map .expression)
termination_by tokens => tokens.length * 3 + 0
decreasing_by
  · exact rank_lt 0 (Nat.lt_succ_self _) (by decide)
  · exact rank_lt 0 (length_drop_lt _ _ _) (by decide)
  · exact rank_lt 0 (Nat.lt_trans (length_lt_of_drop _follow) (length_drop_lt _ _ _)) (by decide)
  · exact rank_lt 0 (length_drop_lt _ _ _) (by decide)

/-- Read one declaration of at least one token, or give it up. -/
def readOne (stop : Token) (pending : Bool) (first : Token) (rest : List Token) : Batch :=
  .ofPassage (first :: rest)
    (if first.kind = .kwVar then .ofReading pending (readDeclaration stop rest).afterToken
      else read stop pending (first :: rest))
termination_by (first :: rest).length * 3 + 1
decreasing_by
  exact Nat.lt_succ_self _

/-- Read declarations up to a closing brace. A declaration takes at least one token, so the next
one starts `width - 1` tokens after the first. -/
def readBlock (stop : Token) (pending : Bool) : List Token → Batch
  | [] => .empty
  | first :: rest =>
    if first.kind = .rightBrace then .empty
    else
      let head := readOne stop pending first rest
      head ++ readBlock stop false (rest.drop (head.width - 1))
termination_by tokens => tokens.length * 3 + 2
decreasing_by
  · exact Nat.lt_succ_self _
  · exact rank_lt _ (length_drop_lt _ _ _) (by decide)

end

/-- Read declarations up to the end. -/
def readAll (stop : Token) : List Token → Batch
  | [] => .empty
  | first :: rest =>
    let head := readOne stop false first rest
    head ++ readAll stop (rest.drop (head.width - 1))
termination_by tokens => tokens.length
decreasing_by
  exact length_drop_lt _ _ _

end Lox.Stmt
