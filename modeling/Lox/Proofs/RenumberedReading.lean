import Lox.Proofs.AcceptedPrograms
import Lox.Proofs.RenumberedRuns

/-! Line numbers are copied and never looked at. Tokens with other line numbers are
read as the same trees with these numbers, and the same errors are noticed. -/

namespace Lox

variable {change : Nat → Nat}

private theorem Token.renumber_kind (token : Token) : (token.renumber change).kind = token.kind := rfl

def SyntaxError.renumber (error : SyntaxError) (change : Nat → Nat) : SyntaxError :=
  { error with token := error.token.renumber change }

namespace Reading
variable {α β : Type} {numbered : α → α} {other : β → β}

/-- The reading with other line numbers; `numbered` gives them to the result. -/
def renumber (change : Nat → Nat) (numbered : α → α) (reading : Reading α) : Reading α where
  result :=
    match reading.result with
    | .ok value => .ok (numbered value)
    | .error error => .error (error.renumber change)
  width := reading.width
  note := reading.note.map (·.renumber change)

private theorem afterToken_renumber (reading : Reading α) :
    (reading.renumber change numbered).afterToken = reading.afterToken.renumber change numbered := rfl

private theorem map_renumber {switch last : α → β} (agree : ∀ value, last (numbered value) = other (switch value))
    (reading : Reading α) :
    (reading.renumber change numbered).map last = (reading.map switch).renumber change other := by
  obtain ⟨result, width, note⟩ := reading
  cases result with
  | error => rfl
  | ok value => simp only [renumber, map, Except.map, agree]

private theorem andThen_renumber {first : Reading α} {next last : α → Reading β}
    (agree : ∀ value, last (numbered value) = (next value).renumber change other) :
    (first.renumber change numbered).andThen last = (first.andThen next).renumber change other := by
  obtain ⟨result, width, note⟩ := first
  cases result with
  | error => rfl
  | ok value =>
    simp only [renumber, andThen, agree]
    cases note <;> rfl

private theorem expect_renumber (stop : Token) (kind : Kind) (fault : SyntaxFault) (tokens : List Token) :
    expect (stop.renumber change) kind fault (tokens.map (·.renumber change)) =
      (expect stop kind fault tokens).renumber change id := by
  cases tokens with
  | nil =>
    rw [List.map_nil, expect, expect, Token.renumber_kind]
    split <;> rfl
  | cons first rest =>
    rw [List.map_cons, expect, expect, Token.renumber_kind]
    split <;> rfl

private theorem closedBy_renumber (reading : Reading α) (stop : Token) (kind : Kind) (fault : SyntaxFault) (tokens : List Token) :
    (reading.renumber change numbered).closedBy (stop.renumber change) kind fault (tokens.map (·.renumber change)) =
      (reading.closedBy stop kind fault tokens).renumber change numbered := by
  apply andThen_renumber
  intro value
  have next : expect _ _ _ ((tokens.drop reading.width).map _) = Reading.renumber change _ _ :=
    expect_renumber stop kind fault (tokens.drop reading.width)
  rw [List.map_drop] at next
  refine (congrArg _ next).trans ?_
  apply map_renumber
  exact fun _ => rfl

end Reading

open Reading

namespace Expr

private theorem assignTo_renumber (target : Expr) (equals : Token) (value : Expr) :
    assignTo (target.renumber change) (equals.renumber change) (value.renumber change) =
      (assignTo target equals value).renumber change (renumber change) := by
  cases target <;> rfl

private theorem node_renumber (level : Level) (left : Expr) (operator : Token) (right : Expr) :
    level.node (left.renumber change) (operator.renumber change) (right.renumber change) =
      (level.node left operator right).renumber change := by
  cases level <;> rfl

def afterTarget (stop : Token) (left : Expr) : List Token → Reading Expr
  | [] => .done left 0
  | equals :: rest =>
    if equals.kind = .equal then (read stop rest).afterToken.andThen (assignTo left equals) else .done left 0

private theorem read_eq (stop : Token) (tokens : List Token) :
    read stop tokens = (readLevel stop (some .disjunction) tokens).andThen fun left =>
      afterTarget stop left (tokens.drop (readLevel stop (some .disjunction) tokens).width) := by
  rw [read]
  congr 1
  funext left
  split
  next follow =>
    rw [follow]
    rfl
  next follow =>
    rw [follow]
    rfl

theorem read_renumber_each (stop : Token) :
    (∀ tokens, read (stop.renumber change) (tokens.map (·.renumber change)) =
      (read stop tokens).renumber change (renumber change)) ∧
    (∀ level tokens, readLevel (stop.renumber change) level (tokens.map (·.renumber change)) =
      (readLevel stop level tokens).renumber change (renumber change)) ∧
    (∀ level left tokens,
      readChain (stop.renumber change) level (left.renumber change) (tokens.map (·.renumber change)) =
        (readChain stop level left tokens).renumber change (renumber change)) ∧
    ∀ first rest, readPrimary (stop.renumber change) (first.renumber change) (rest.map (·.renumber change)) =
      (readPrimary stop first rest).renumber change (renumber change) := by
  apply read.mutual_induct stop
  case case1 =>
    intro tokens target inner value
    rw [read_eq, read_eq, inner]
    apply andThen_renumber
    intro left
    show afterTarget _ _ ((tokens.map _).drop target.width) = _
    rw [← List.map_drop]
    cases follow : tokens.drop target.width with
    | nil => rfl
    | cons equals rest =>
      rw [List.map_cons, afterTarget, afterTarget, Token.renumber_kind]
      split
      next =>
        rw [value equals rest follow, afterToken_renumber]
        exact andThen_renumber (assignTo_renumber left equals)
      next => rfl
  case case2 =>
    intro level
    rw [List.map_nil, readLevel, readLevel]
    rfl
  case case3 =>
    intro first rest isOperator inner
    rw [List.map_cons, readLevel, readLevel, Token.renumber_kind, if_pos isOperator, if_pos isOperator, inner,
      afterToken_renumber]
    apply map_renumber
    exact fun _ => rfl
  case case4 =>
    intro first rest noOperator inner
    rw [List.map_cons, readLevel, readLevel, Token.renumber_kind, if_neg noOperator, if_neg noOperator, inner]
  case case5 =>
    intro level first rest dangles right inner chain
    rw [List.map_cons, readLevel, readLevel, Token.renumber_kind, if_pos dangles, if_pos dangles, inner]
    have opening : ((right.renumber change (renumber change)).afterToken.andThen fun operand =>
        noted (dangling (first.renumber change) operand) ⟨first.renumber change, .noLeftOperand⟩) =
        (right.afterToken.andThen fun operand => noted (dangling first operand) ⟨first, .noLeftOperand⟩).renumber
          change (renumber change) := by
      rw [afterToken_renumber]
      apply andThen_renumber
      exact fun _ => rfl
    refine (congrArg (fun start : Reading Expr => start.andThen _) opening).trans ?_
    apply andThen_renumber
    intro left
    rw [← chain left, List.map_drop]
    rfl
  case case6 =>
    intro level first rest regular operand inner chain
    rw [List.map_cons] at inner
    rw [List.map_cons, readLevel, readLevel, Token.renumber_kind, if_neg regular, if_neg regular, inner]
    apply andThen_renumber
    intro left
    rw [← chain left, List.map_drop]
    rfl
  case case7 =>
    intro level left
    rw [List.map_nil, readChain, readChain]
    rfl
  case case8 =>
    intro level left operator rest isOperator right inner chain
    rw [List.map_cons, readChain, readChain, Token.renumber_kind, if_pos isOperator, if_pos isOperator, inner]
    simp only [afterToken_renumber]
    apply andThen_renumber
    intro operand
    rw [node_renumber, ← chain operand, List.map_drop]
    rfl
  case case9 =>
    intro level left operator rest noOperator
    rw [List.map_cons, readChain, readChain, Token.renumber_kind, if_neg noOperator, if_neg noOperator]
    rfl
  case case16 =>
    intro first rest opens inner
    have closed : closedBy _ _ _ _ _ = Reading.renumber change (renumber change) _ :=
      closedBy_renumber (read stop rest) stop .rightParen .openGrouping rest
    rw [← inner] at closed
    simp only [readPrimary, Token.renumber_kind, opens, closed]
    rw [← afterToken_renumber]
    congr 1
    apply map_renumber
    exact fun _ => rfl
  case case17 =>
    intro first rest notFalse notTrue notNil notNumber notString notName notOpening
    rw [readPrimary, readPrimary, Token.renumber_kind]
    split
    all_goals first | contradiction | rfl
  all_goals
    intro first rest isAtom
    rw [readPrimary, readPrimary, Token.renumber_kind, isAtom]
    rfl

end Expr

namespace Stmt

private theorem readClosed_renumber (stop : Token) (fault : SyntaxFault) (tokens : List Token) :
    readClosed (stop.renumber change) fault (tokens.map (·.renumber change)) =
      (readClosed stop fault tokens).renumber change (Expr.renumber change) := by
  rw [readClosed, (Expr.read_renumber_each stop).1, closedBy_renumber]
  rfl

private theorem readCondition_renumber (stop : Token) (unopened unclosed : SyntaxFault) (tokens : List Token) :
    readCondition (stop.renumber change) unopened unclosed (tokens.map (·.renumber change)) =
      (readCondition stop unopened unclosed tokens).renumber change (Expr.renumber change) := by
  rw [readCondition, readCondition, expect_renumber]
  apply andThen_renumber
  intro _
  rw [← List.map_tail, (Expr.read_renumber_each stop).1, closedBy_renumber]

private theorem declare_renumber {initial again : Reading (Option Expr)}
    (same : again = initial.renumber change (Option.map (Expr.renumber change))) (stop name : Token) (rest : List Token) :
    ((again.closedBy (stop.renumber change) .semicolon .openDeclaration (rest.map (·.renumber change))).map
        (declare (name.renumber change))).afterToken =
      ((initial.closedBy stop .semicolon .openDeclaration rest).map (declare name)).afterToken.renumber change
        (renumber change) := by
  rw [same, closedBy_renumber, ← Reading.afterToken_renumber]
  congr 1
  apply map_renumber
  exact fun _ => rfl

private theorem readDeclaration_renumber (stop : Token) (tokens : List Token) :
    readDeclaration (stop.renumber change) (tokens.map (·.renumber change)) =
      (readDeclaration stop tokens).renumber change (renumber change) := by
  cases tokens with
  | nil => rfl
  | cons name rest =>
    simp only [List.map_cons, readDeclaration]
    rw [Token.renumber_kind]
    by_cases isName : name.kind = .identifier
    · rw [if_pos isName, if_pos isName]
      apply declare_renumber
      cases rest with
      | nil => rfl
      | cons equals after =>
        simp only [List.map_cons]
        rw [Token.renumber_kind]
        by_cases isEqual : equals.kind = .equal
        · rw [if_pos isEqual, if_pos isEqual, (Expr.read_renumber_each stop).1, ← Reading.afterToken_renumber]
          congr 1
          apply map_renumber
          exact fun _ => rfl
        · rw [if_neg isEqual, if_neg isEqual]
          rfl
    · rw [if_neg isName, if_neg isName]
      rfl

end Stmt

namespace Passage
variable {α β : Type} {numbered : α → α} {other : β → β}

def renumber (change : Nat → Nat) (numbered : α → α) (passage : Passage α) : Passage α where
  result :=
    match passage.result with
    | .ok value => .ok (numbered value)
    | .error error => .error (error.renumber change)
  width := passage.width
  errors := passage.errors.map (·.renumber change)
  pending := passage.pending

private theorem ofReading_renumber (pending : Bool) (reading : Reading α) :
    ofReading pending (reading.renumber change numbered) = (ofReading pending reading).renumber change numbered := by
  obtain ⟨result, width, note⟩ := reading
  cases pending <;> cases note <;> rfl

private theorem afterToken_renumber (passage : Passage α) :
    (passage.renumber change numbered).afterToken = passage.afterToken.renumber change numbered := rfl

private theorem map_renumber {switch last : α → β} (agree : ∀ value, last (numbered value) = other (switch value))
    (passage : Passage α) :
    (passage.renumber change numbered).map last = (passage.map switch).renumber change other := by
  obtain ⟨result, width, errors, pending⟩ := passage
  cases result with
  | error => rfl
  | ok value => simp only [renumber, map, Except.map, agree]

private theorem andThen_renumber {first : Passage α} {next last : α → Bool → Passage β}
    (agree : ∀ value pending, last (numbered value) pending = (next value pending).renumber change other) :
    (first.renumber change numbered).andThen last = (first.andThen next).renumber change other := by
  obtain ⟨result, width, errors, pending⟩ := first
  cases result with
  | error => rfl
  | ok value => simp only [renumber, andThen, agree, List.map_append]

/-- Behind its keyword, a statement is what is made of one reading. -/
private theorem statement_renumber {switch last : α → β} (agree : ∀ value, last (numbered value) = other (switch value))
    (pending : Bool) (reading : Reading α) :
    ofReading pending ((reading.renumber change numbered).map last).afterToken =
      (ofReading pending (reading.map switch).afterToken).renumber change other := by
  rw [Reading.map_renumber agree, Reading.afterToken_renumber, ofReading_renumber]

end Passage

namespace Boundary

private theorem distance_renumber (previous : Option Kind) (tokens : List Token) :
    distance previous (tokens.map (·.renumber change)) = distance previous tokens := by
  induction tokens generalizing previous with
  | nil => rfl
  | cons next rest ih =>
    rw [List.map_cons, distance, distance, Token.renumber_kind, ih]
    rfl

private theorem skip_renumber (tokens : List Token) (width : Nat) :
    skip (tokens.map (·.renumber change)) width = skip tokens width := by
  have kinds : (Token.kind ∘ fun token : Token => token.renumber change) = Token.kind := rfl
  simp only [skip, List.getElem?_map, Option.map_map, kinds, ← List.map_drop, distance_renumber]

end Boundary

namespace Batch

def renumber (change : Nat → Nat) (batch : Batch) : Batch :=
  ⟨Stmt.renumberAll change batch.statements, batch.width, batch.errors.map (·.renumber change)⟩

private theorem append_renumber (first second : Batch) :
    first.renumber change ++ second.renumber change = (first ++ second).renumber change := by
  simp only [append_eq, renumber, Stmt.renumberAll_eq, List.map_append]

private theorem ofPassage_renumber (tokens : List Token) (passage : Passage Stmt) :
    ofPassage (tokens.map (·.renumber change)) (passage.renumber change (Stmt.renumber change)) =
      (ofPassage tokens passage).renumber change := by
  obtain ⟨result, width, errors, pending⟩ := passage
  cases result with
  | ok statement => rfl
  | error error =>
    simp only [ofPassage, Passage.renumber, Boundary.skip_renumber, renumber, List.map_append]
    cases pending <;> rfl

end Batch

namespace Stmt

private theorem elseBranch_renumber {stop : Token} {rest : List Token} (alternative : ∀ pending middle other,
      rest = middle :: other → read (stop.renumber change) pending (other.map (·.renumber change)) =
        (read stop pending other).renumber change (renumber change))
    (test : Expr) (chosen : Stmt) (pending : Bool) :
    Grammar.elseBranch (stop.renumber change) (test.renumber change) (rest.map (·.renumber change))
        (chosen.renumber change) pending =
      (Grammar.elseBranch stop test rest chosen pending).renumber change (renumber change) := by
  have alone : Passage.ofReading pending (done (ifThen (test.renumber change) (chosen.renumber change)) 0) =
      (Passage.ofReading pending (done (ifThen test chosen) 0)).renumber change (renumber change) := by
    rw [← Passage.ofReading_renumber]
    rfl
  cases rest with
  | nil => exact alone
  | cons middle other =>
    rw [List.map_cons, Grammar.elseBranch, Grammar.elseBranch, Token.renumber_kind]
    split
    next =>
      rw [alternative pending middle other rfl, ← Passage.afterToken_renumber]
      congr 1
      apply Passage.map_renumber
      exact fun _ => rfl
    next => exact alone

theorem read_renumber_each (stop : Token) :
    (∀ pending tokens, read (stop.renumber change) pending (tokens.map (·.renumber change)) =
      (read stop pending tokens).renumber change (renumber change)) ∧
    (∀ pending tokens, readBlock (stop.renumber change) pending (tokens.map (·.renumber change)) =
      (readBlock stop pending tokens).renumber change) ∧
    ∀ pending first rest,
      readOne (stop.renumber change) pending (first.renumber change) (rest.map (·.renumber change)) =
        (readOne stop pending first rest).renumber change := by
  apply read.mutual_induct stop
  case case1 =>
    intro pending
    rw [List.map_nil, read, read, ← Passage.ofReading_renumber]
    rfl
  case case2 =>
    intro pending keyword rest isPrint
    simp only [List.map_cons, read, Token.renumber_kind, isPrint, readClosed_renumber]
    apply Passage.statement_renumber
    exact fun _ => rfl
  case case3 =>
    intro pending keyword rest isBreak
    simp only [List.map_cons, read, Token.renumber_kind, isBreak, expect_renumber]
    apply Passage.statement_renumber
    exact fun _ => rfl
  case case4 =>
    intro pending opening rest opens inner
    simp only [List.map_cons, read, Token.renumber_kind, opens, inner]
    let opened : Passage (List Stmt) :=
      let body := readBlock stop pending rest
      ⟨.ok body.statements, body.width + 1, body.errors, pending && body.width == 0⟩
    show (opened.renumber change (renumberAll change)).andThen _ = _
    apply Passage.andThen_renumber
    intro statements known
    show Passage.ofReading known (Reading.map _ (expect _ _ _ (List.drop (readBlock stop pending rest).width _))) = _
    rw [← List.map_drop, expect_renumber, ← Passage.ofReading_renumber]
    congr 1
    apply map_renumber
    exact fun _ => rfl
  case case5 =>
    intro pending keyword rest isIf condition chosen _ other
    have isAgain : (keyword.renumber change).kind = .kwIf := isIf
    rw [List.map_cons, Grammar.read_of_if isAgain, Grammar.read_of_if isIf, readCondition_renumber,
      Reading.afterToken_renumber, Passage.ofReading_renumber]
    apply Passage.andThen_renumber
    intro test known
    have remains : (rest.map (·.renumber change)).drop condition.width =
        (rest.drop condition.width).map (·.renumber change) := List.map_drop.symm
    show Passage.andThen (read _ known (List.drop condition.width _)) (Grammar.elseBranch _ _
      (List.drop (read _ known (List.drop condition.width _)).width (List.drop condition.width _))) = _
    rw [remains, chosen known, ← List.map_drop]
    apply Passage.andThen_renumber
    exact elseBranch_renumber (other known) test
  case case6 =>
    intro pending keyword rest isWhile condition inner
    simp only [List.map_cons, read, Token.renumber_kind, isWhile, readCondition_renumber]
    rw [Reading.afterToken_renumber, Passage.ofReading_renumber]
    apply Passage.andThen_renumber
    intro test known
    have body := inner known
    rw [List.map_drop] at body
    refine (congrArg (Passage.map (whileLoop (test.renumber change))) body).trans ?_
    apply Passage.map_renumber
    exact fun _ => rfl
  case case7 =>
    intro pending first rest notPrint notBreak notBlock notIf notWhile
    rw [List.map_cons, read, read, Token.renumber_kind]
    split
    all_goals first | contradiction | skip
    have closed : readClosed (stop.renumber change) _ _ = _ := readClosed_renumber stop .openExpression (first :: rest)
    rw [List.map_cons] at closed
    rw [closed, ← Passage.ofReading_renumber]
    congr 1
    apply map_renumber
    exact fun _ => rfl
  case case8 =>
    intro pending
    rw [List.map_nil, readBlock, readBlock]
    rfl
  case case9 =>
    intro pending first rest closes
    rw [List.map_cons, readBlock, readBlock, Token.renumber_kind, if_pos closes, if_pos closes]
    rfl
  case case10 =>
    intro pending first rest more head one inner
    rw [List.map_cons, readBlock, readBlock, Token.renumber_kind, if_neg more, if_neg more, one,
      ← Batch.append_renumber, ← inner, List.map_drop]
    rfl
  case case11 =>
    intro pending first rest inner
    rw [List.map_cons] at inner
    rw [readOne, readOne, Token.renumber_kind, inner, readDeclaration_renumber, Reading.afterToken_renumber,
      Passage.ofReading_renumber, ← Batch.ofPassage_renumber]
    split <;> rfl

theorem readAll_renumber (stop : Token) (tokens : List Token) :
    readAll (stop.renumber change) (tokens.map (·.renumber change)) = (readAll stop tokens).renumber change := by
  induction tokens using readAll.induct stop with
  | case1 =>
    rw [List.map_nil, readAll, readAll]
    rfl
  | case2 first rest head ih =>
    rw [List.map_cons, readAll, readAll, (read_renumber_each stop).2.2, ← Batch.append_renumber, ← ih, List.map_drop]
    rfl

end Stmt

def Feed.renumber (change : Nat → Nat) (feed : Feed) : Feed :=
  ⟨feed.tokens.map (·.renumber change), feed.stop.renumber change⟩

theorem Feed.ofTokens_renumber {tokens : List Token} (some : tokens ≠ []) :
    ofTokens (tokens.map (·.renumber change)) = (ofTokens tokens).renumber change := by
  have marks : (Token.isEof ∘ fun token : Token => token.renumber change) = Token.isEof := rfl
  have unmarked : ((fun token : Token => !token.isEof) ∘ fun token : Token => token.renumber change) =
      fun token => !token.isEof := rfl
  rw [ofTokens, ofTokens, renumber, List.takeWhile_map, List.find?_map, List.getLast?_map, marks, unmarked,
    List.getLast?_eq_some_getLast some]
  cases tokens.find? Token.isEof <;> rfl

def ParsedProgram.renumber (change : Nat → Nat) (parsed : ParsedProgram) : ParsedProgram :=
  ⟨Stmt.renumberAll change parsed.statements, parsed.errors.map (·.renumber change)⟩

theorem parseProgram_renumber (tokens : List Token) :
    parseProgram (tokens.map (·.renumber change)) = (parseProgram tokens).renumber change := by
  by_cases some : tokens = []
  · subst some
    simp only [parseProgram, Feed.ofTokens, List.map_nil, List.takeWhile_nil, Stmt.readAll]
    rfl
  · simp only [parseProgram, Feed.ofTokens_renumber some, Feed.renumber, Stmt.readAll_renumber]
    rfl

private theorem Feed.extra?_renumber (feed : Feed) (width : Nat) :
    (feed.renumber change).extra? width = (feed.extra? width).map (·.renumber change) := by
  simp only [extra?, renumber, ← List.map_drop]
  cases feed.tokens.drop width with
  | nil =>
    show (if feed.stop.isEof then none else _) = _
    split <;> rfl
  | cons next rest => rfl

theorem parseExpression_renumber {tokens : List Token} (some : tokens ≠ []) :
    parseExpression (tokens.map (·.renumber change)) =
      ((parseExpression tokens).map (·.renumber change)).mapError (·.renumber change) := by
  have again : Expr.read ((Feed.ofTokens tokens).stop.renumber change) _ = _ :=
    (Expr.read_renumber_each (Feed.ofTokens tokens).stop).1 (Feed.ofTokens tokens).tokens
  simp only [parseExpression, Feed.ofTokens_renumber some, Feed.extra?_renumber]
  rw [show Expr.read ((Feed.ofTokens tokens).renumber change).stop ((Feed.ofTokens tokens).renumber change).tokens = _
    from again]
  generalize Expr.read (Feed.ofTokens tokens).stop (Feed.ofTokens tokens).tokens = reading
  obtain ⟨result, width, note⟩ := reading
  cases result with
  | error error => cases note <;> rfl
  | ok value =>
    simp only [Reading.renumber]
    cases note with
    | some error => rfl
    | none => cases (Feed.ofTokens tokens).extra? width <;> rfl

theorem SyntaxError.renumber_diagnostic (error : SyntaxError) :
    (error.renumber change).diagnostic = { error.diagnostic with line := change error.diagnostic.line } := rfl

theorem RuntimeError.renumber_diagnostic (error : RuntimeError) :
    (error.renumber change).diagnostic = { error.diagnostic with line := change error.diagnostic.line } := rfl

/-- Line numbers have no influence but on the lines that are reported. -/
theorem lines_are_only_reported (change : Nat → Nat) :
    (∀ tokens, parseProgram (tokens.map (·.renumber change)) =
      ⟨(parseProgram tokens).statements.map (·.renumber change),
        (parseProgram tokens).errors.map (·.renumber change)⟩) ∧
    (∀ tokens, tokens ≠ [] → parseExpression (tokens.map (·.renumber change)) =
      ((parseExpression tokens).map (·.renumber change)).mapError (·.renumber change)) ∧
    (∀ error : SyntaxError,
      (error.renumber change).diagnostic = { error.diagnostic with line := change error.diagnostic.line }) ∧
    (∀ (tree : Stmt) fuel state, (tree.renumber change).exec fuel state =
      match tree.exec fuel state with
      | .done completion after => .done completion after
      | .failed error after => .failed (error.renumber change) after
      | .halted cause => .halted cause) ∧
    ∀ error : RuntimeError,
      (error.renumber change).diagnostic = { error.diagnostic with line := change error.diagnostic.line } := by
  refine ⟨fun tokens => ?_, fun tokens some => parseExpression_renumber some, SyntaxError.renumber_diagnostic,
    fun tree fuel state => ?_, RuntimeError.renumber_diagnostic⟩
  · rw [parseProgram_renumber, ParsedProgram.renumber, Stmt.renumberAll_eq]
  · rw [Stmt.exec_renumber]
    cases tree.exec fuel state <;> rfl

theorem lines_are_only_reported_backwards :
    let tokens := (scan "* (a = 1) b\n+ c").tokens
    tokens ≠ [] ∧ (parseExpression tokens).toOption = none ∧
      parseExpression (tokens.map (·.renumber (3 - ·))) =
        ((parseExpression tokens).map (·.renumber (3 - ·))).mapError (·.renumber (3 - ·)) := by
  intro tokens
  have some : tokens ≠ [] := by decide +kernel
  exact ⟨some, by decide +kernel, (lines_are_only_reported (3 - ·)).2.1 tokens some⟩

end Lox
