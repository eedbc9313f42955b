import Lox.Proofs.AcceptedPrograms
import Lox.Proofs.ScannedLines
import Lox.Session

/-! A line may be an expression or a program, never both. With a semicolon after it an
expression is a statement, and evaluating it alone does what printing it would do. -/

namespace Lox

namespace Grammar

def expressionKinds : List Kind :=
  [.leftParen, .rightParen, .minus, .plus, .slash, .star, .bang, .bangEqual, .equal, .equalEqual, .greater,
    .greaterEqual, .less, .lessEqual, .identifier, .string, .number, .kwAnd, .kwFalse, .kwNil, .kwOr, .kwTrue]

theorem Derives.kinds {rule : Rule} {tokens : List Token} {value : Expr} (derives : Derives rule tokens value) :
    ∀ token ∈ tokens, token.kind ∈ expressionKinds := by
  induction derives with
  | assign isName isEqual right ih =>
    simp only [List.forall_mem_cons]
    exact ⟨by rw [isName]; decide, by rw [isEqual]; decide, ih⟩
  | value inner ih | operand inner ih | primary inner ih => exact ih
  | @operation level before after first operator second left isOperator right leftKinds rightKinds =>
    have allowed : ∀ kind ∈ (joint level).operators, kind ∈ expressionKinds := by
      cases level <;> decide
    rw [List.forall_mem_append, List.forall_mem_cons]
    exact ⟨leftKinds, allowed _ isOperator, rightKinds⟩
  | signed isOperator inner ih =>
    rw [List.forall_mem_cons]
    refine ⟨?_, ih⟩
    rcases isOperator with kind | kind <;> rw [kind] <;> decide
  | literal isLiteral =>
    rw [List.forall_mem_singleton]
    rcases isLiteral with kind | kind <;> rw [kind] <;> decide
  | truth kind | falsehood kind | nothing kind | name kind =>
    rw [List.forall_mem_singleton, kind]
    decide
  | grouping opens inner closes ih =>
    rw [List.forall_mem_cons, List.forall_mem_append, List.forall_mem_singleton]
    exact ⟨by rw [opens]; decide, ih, by rw [closes]; decide⟩

/-- Every statement has a semicolon, a brace or a keyword that no expression can hold. -/
private theorem Statement.marked {tokens : List Token} {tree : Stmt} (statement : Statement tokens tree) :
    ∃ token ∈ tokens, token.kind ∉ expressionKinds := by
  cases statement with
  | expression value ends =>
    exact ⟨_, List.mem_append_right _ (List.mem_singleton_self _), by rw [ends]; decide⟩
  | print kind | block kind | ifThen kind | ifElse kind | whileLoop kind | breakLoop kind =>
    exact ⟨_, List.mem_cons_self, by rw [kind]; decide⟩

private theorem Declaration.marked {tokens : List Token} {tree : Stmt} (declaration : Declaration tokens tree) :
    ∃ token ∈ tokens, token.kind ∉ expressionKinds := by
  cases declaration with
  | declare kind | withValue kind => exact ⟨_, List.mem_cons_self, by rw [kind]; decide⟩
  | statement inner => exact inner.marked

/-- No expression is a program: it is not empty, and a declaration would show. -/
theorem Program.not_expression {tokens : List Token} {trees : List Stmt} (program : Program tokens trees)
    (value : Expr) : ¬ Expression tokens value := by
  intro derives
  cases program with
  | nil =>
    obtain ⟨first, rest, empty, _⟩ := derives.starts
    cases empty
  | cons first rest =>
    obtain ⟨token, member, outside⟩ := first.marked
    exact outside (derives.kinds token (List.mem_append_left _ member))

theorem Expression.statement {tokens : List Token} {value : Expr} {semicolon : Token}
    (derives : Expression tokens value) (ends : semicolon.kind = .semicolon) :
    Program (tokens ++ [semicolon]) [.expression value] := by
  have program := Program.cons (.statement (.expression derives ends)) .nil
  rwa [List.append_nil] at program

theorem Expression.printed {tokens : List Token} {value : Expr} {print semicolon : Token}
    (derives : Expression tokens value) (isPrint : print.kind = .kwPrint) (ends : semicolon.kind = .semicolon) :
    Program (print :: (tokens ++ [semicolon])) [.print value] := by
  have program := Program.cons (.statement (.print isPrint derives ends)) .nil
  rwa [List.append_nil] at program

/-- A program of one expression statement is that expression and its semicolon. -/
theorem Program.of_expression {tokens : List Token} {value : Expr} {semicolon : Token}
    (program : Program (tokens ++ [semicolon]) [.expression value]) : Expression tokens value := by
  generalize whole : tokens ++ [semicolon] = all at program
  cases program with
  | @cons before _ after _ first rest =>
    cases rest
    rw [List.append_nil] at whole
    subst whole
    generalize whole : tokens ++ [semicolon] = all at first
    cases first with
    | statement inner =>
      cases inner with
      | expression derives ends =>
        obtain ⟨same, _⟩ := List.append_inj' whole rfl
        rwa [same]

end Grammar

namespace Passage

/-- All errors of a passage that nothing follows: one that ends it is reported unless one is pending. -/
def reports {α : Type} (passage : Passage α) : List SyntaxError :=
  passage.errors ++
    match passage.result with
    | .ok _ => []
    | .error error => if passage.pending then [] else [error]

end Passage

/-- An expression that has to be followed by the end marker, read as a declaration would be: errors
are reported as they are noticed, and none while one is pending. -/
def Feed.expression (feed : Feed) : Passage Expr :=
  let reading := Expr.read feed.stop feed.tokens
  (Passage.ofReading false reading).andThen fun value pending =>
    match feed.extra? reading.width with
    | none => ⟨.ok value, 0, [], pending⟩
    | some error => ⟨.error error, 0, [], pending⟩

/-- A single expression never reports a second error. -/
private theorem Feed.expression_reports (tokens : List Token) :
    (ofTokens tokens).expression.reports =
      match parseExpression tokens with
      | .ok _ => []
      | .error error => [error] := by
  simp only [expression, parseExpression]
  generalize Expr.read (ofTokens tokens).stop (ofTokens tokens).tokens = reading
  obtain ⟨result, width, note⟩ := reading
  cases result with
  | error error => cases note <;> rfl
  | ok value =>
    simp only [Passage.ofReading, Passage.andThen]
    cases (ofTokens tokens).extra? width with
    | none => cases note <;> rfl
    | some error => cases note <;> rfl

section Lines
open Grammar
variable {tokens : List Token} {stop semicolon print : Token}
  (unended : ∀ token ∈ tokens, token.kind ≠ .eof) (ends : stop.kind = .eof)
include unended ends

theorem cut_before_stop : (Feed.ofTokens (tokens ++ [stop])).tokens = tokens ∧ Ended (tokens ++ [stop]) := by
  have cut := Feed.ofTokens_append unended ends []
  exact ⟨congrArg Feed.tokens cut, stop, List.mem_append_right _ (List.mem_singleton_self _), ends⟩

private theorem parseExpression_iff (value : Expr) :
    parseExpression (tokens ++ [stop]) = .ok value ↔ Expression tokens value := by
  obtain ⟨cut, ended⟩ := cut_before_stop unended ends
  constructor
  · intro accepted
    have derived := parseExpression_sound ended accepted
    rwa [cut] at derived
  · intro derived
    apply parseExpression_complete ended
    rwa [cut]

private theorem parseProgram_iff (program : List Stmt) :
    parseProgram (tokens ++ [stop]) = ⟨program, []⟩ ↔ Program tokens program := by
  obtain ⟨cut, ended⟩ := cut_before_stop unended ends
  constructor
  · intro parsed
    have derived := parseProgram_sound ended (congrArg ParsedProgram.errors parsed)
    rw [cut, parsed] at derived
    exact derived
  · intro derived
    apply parseProgram_complete
    rwa [cut]

end Lines

namespace Session

/-- A line that is a program is run like a source, except that errors are counted for it anew. -/
private theorem runLine_program {line : String} {program : List Stmt}
    (parsed : parseProgram (scan line).tokens = ⟨program, []⟩) (session : Session) (fuel : Nat) :
    session.runLine fuel line = { session with reporter := session.reporter.reset }.runSource fuel line := by
  have refused : ∀ value, parseExpression (scan line).tokens ≠ .ok value := by
    intro value accepted
    rw [scan_tokens] at parsed accepted
    have derived := (parseProgram_iff (lexemes_unended line) rfl program).mp parsed
    exact derived.not_expression value ((parseExpression_iff (lexemes_unended line) rfl value).mp accepted)
  simp only [runLine, runSource]
  cases accepted : parseExpression (scan line).tokens with
  | ok value => exact absurd accepted (refused value)
  | error error => rfl

end Session

/-- Evaluating an expression alone leaves what printing it leaves, and fails where printing it fails. -/
theorem State.printValue_eq_print (state : State) (value : Expr) (fuel : Nat) :
    (state.printValue value).andThen (fun _ after => .done .normal after) = (Stmt.print value).exec fuel state := by
  rw [State.printValue, Stmt.exec]
  cases state.eval value <;> rfl

open Grammar in
/-- An expression is accepted alone exactly when it is accepted as a statement, and then it can be
printed as well; otherwise one error is reported. No tokens are both an expression and a program, so
that a line that is a program is run as one, and evaluating an expression alone is printing it. -/
theorem expressions_agree_with_programs {tokens : List Token} {stop semicolon print : Token}
    (unended : ∀ token ∈ tokens, token.kind ≠ .eof) (ends : stop.kind = .eof)
    (closes : semicolon.kind = .semicolon) (isPrint : print.kind = .kwPrint) :
    (∀ value, parseExpression (tokens ++ [stop]) = .ok value ↔
      parseProgram (tokens ++ [semicolon, stop]) = ⟨[.expression value], []⟩) ∧
    (∀ value, parseExpression (tokens ++ [stop]) = .ok value →
      parseProgram (print :: tokens ++ [semicolon, stop]) = ⟨[.print value], []⟩) ∧
    ((∀ value, parseExpression (tokens ++ [stop]) ≠ .ok value) →
      ∃ error, parseExpression (tokens ++ [stop]) = .error error ∧
        (Feed.ofTokens (tokens ++ [stop])).expression.reports = [error]) ∧
    (∀ value, parseExpression (tokens ++ [stop]) = .ok value → (parseProgram (tokens ++ [stop])).errors ≠ []) ∧
    (∀ (session : Session) fuel line, (parseProgram (scan line).tokens).errors = [] →
      session.runLine fuel line = { session with reporter := session.reporter.reset }.runSource fuel line) ∧
    ∀ (state : State) value fuel,
      (state.printValue value).andThen (fun _ after => .done .normal after) = (Stmt.print value).exec fuel state := by
  have clause : ∀ token ∈ tokens ++ [semicolon], token.kind ≠ .eof := by
    rw [List.forall_mem_append, List.forall_mem_singleton, closes]
    exact ⟨unended, by decide⟩
  have printing : ∀ token ∈ print :: (tokens ++ [semicolon]), token.kind ≠ .eof := by
    rw [List.forall_mem_cons, isPrint]
    exact ⟨by decide, clause⟩
  have split : tokens ++ [semicolon, stop] = (tokens ++ [semicolon]) ++ [stop] := List.append_cons tokens _ _
  have accepts := parseExpression_iff unended ends
  refine ⟨fun value => ?_, fun value accepted => ?_, fun refused => ?_, fun value accepted silent => ?_,
    fun session fuel line silent => ?_, State.printValue_eq_print⟩
  · rw [split, accepts, parseProgram_iff clause ends]
    exact ⟨fun derives => Expression.statement derives closes, Program.of_expression⟩
  · have printed := Expression.printed ((accepts value).mp accepted) isPrint closes
    rw [List.cons_append, split]
    exact (parseProgram_iff printing ends _).mpr printed
  · have reports := Feed.expression_reports (tokens ++ [stop])
    cases same : parseExpression (tokens ++ [stop]) with
    | ok value => exact absurd same (refused value)
    | error error =>
      rw [same] at reports
      exact ⟨error, rfl, reports⟩
  · obtain ⟨cut, ended⟩ := cut_before_stop unended ends
    have derived := parseProgram_sound ended silent
    rw [cut] at derived
    exact derived.not_expression value ((accepts value).mp accepted)
  · apply Session.runLine_program
    exact congrArg (ParsedProgram.mk (parseProgram (scan line).tokens).statements) silent

/-- An assignment is accepted as a line, and with its semicolon as a program; the same line with the
semicolon is run like a source. -/
theorem expressions_agree_with_programs_assignment :
    let target : Token := .simple .identifier "a" 1
    let equals : Token := .simple .equal "=" 1
    let minus : Token := .simple .minus "-" 1
    let two : Token := ⟨.number, "2", some (.number 2), 1⟩
    let semicolon : Token := .simple .semicolon ";" 1
    let print : Token := .simple .kwPrint "print" 1
    let stop : Token := .endOfFile 1
    let tokens := [target, equals, minus, two]
    let value : Expr := .assign target (.unary minus (.literal (.number 2)))
    let session := Session.new false true
    (∀ token ∈ tokens, token.kind ≠ .eof) ∧ stop.kind = .eof ∧ semicolon.kind = .semicolon ∧
      print.kind = .kwPrint ∧ parseExpression (tokens ++ [stop]) = .ok value ∧
      parseProgram (tokens ++ [semicolon, stop]) = ⟨[.expression value], []⟩ ∧
      parseProgram (print :: tokens ++ [semicolon, stop]) = ⟨[.print value], []⟩ ∧
      (parseProgram (tokens ++ [stop])).errors ≠ [] ∧
      session.runLine 1 "a = -2;" = { session with reporter := session.reporter.reset }.runSource 1 "a = -2;" := by
  intro target equals minus two semicolon print stop tokens value session
  have unended : ∀ token ∈ tokens, token.kind ≠ .eof := by decide
  have operand : Grammar.Derives .unary [two] (.literal (.number 2)) := .primary (.literal (.inl rfl))
  have negation : Grammar.Expression [minus, two] (.unary minus (.literal (.number 2))) :=
    (Grammar.Derives.signed (.inr rfl) operand).expression
  have accepted : parseExpression (tokens ++ [stop]) = .ok value :=
    (parseExpression_iff unended rfl value).mpr (.assign rfl rfl negation)
  obtain ⟨stated, printed, _, refused, runs, _⟩ :=
    @expressions_agree_with_programs tokens stop semicolon print unended rfl rfl rfl
  have silent : (parseProgram (scan "a = -2;").tokens).errors = [] := by decide +kernel
  exact ⟨unended, rfl, rfl, rfl, accepted, (stated value).mp accepted, printed value accepted, refused value accepted,
    runs session 1 "a = -2;" silent⟩

end Lox
