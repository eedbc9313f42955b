import Lox.Proofs.StatementGrammar

/-! A token list up to its end marker is a program exactly when it is derived from
the grammar. Nothing is left over and nothing is guessed: the tree is the one of
the derivation. What follows a program is read apart from it. -/

namespace Lox

/-- Some token of the list marks the end of the source, as the last one that the scanner hands out does. -/
def Ended (tokens : List Token) : Prop :=
  ∃ token ∈ tokens, token.kind = .eof

theorem Token.isEof_iff {token : Token} : token.isEof = true ↔ token.kind = .eof := by
  rw [Token.isEof, beq_iff_eq]

namespace Feed

theorem stop_of_ended {tokens : List Token} (ended : Ended tokens) : (ofTokens tokens).stop.kind = .eof := by
  obtain ⟨marker, member, isEnd⟩ := ended
  have found : (tokens.find? Token.isEof).isSome := List.find?_isSome.mpr ⟨marker, member, Token.isEof_iff.mpr isEnd⟩
  obtain ⟨stop, first⟩ := Option.isSome_iff_exists.mp found
  rw [ofTokens, first]
  exact Token.isEof_iff.mp (List.find?_some first)

theorem ofTokens_append {tokens : List Token} {stop : Token} (unended : ∀ token ∈ tokens, token.kind ≠ .eof)
    (ends : stop.kind = .eof) (rest : List Token) : ofTokens (tokens ++ stop :: rest) = ⟨tokens, stop⟩ := by
  have marks : stop.isEof = true := Token.isEof_iff.mpr ends
  have none : ∀ token ∈ tokens, token.isEof = false := fun token member =>
    Bool.eq_false_iff.mpr fun isEnd => unended token member (Token.isEof_iff.mp isEnd)
  have kept : ∀ token ∈ tokens, (!token.isEof) = true := fun token member => by rw [none token member]; rfl
  have passed : tokens.find? Token.isEof = .none := List.find?_eq_none.mpr fun token member => by
    rw [none token member]
    decide
  rw [ofTokens, List.takeWhile_append_of_pos kept, List.takeWhile_cons, marks, List.find?_append, passed,
    List.find?_cons, marks]
  simp only [Bool.not_true, Bool.false_eq_true, if_false, List.append_nil, Option.none_or, Option.getD_some]

end Feed

namespace Grammar

/-- Declarations in a row are read one by one, and then what follows them, unless that is an `else`. -/
theorem Program.readAll_append {stop : Token} {tokens : List Token} {trees : List Stmt}
    (program : Program tokens trees) {rest : List Token} (apart : ∀ next ∈ rest.head?, next.kind ≠ .kwElse) :
    Stmt.readAll stop (tokens ++ rest) = .done trees tokens.length ++ Stmt.readAll stop rest := by
  induction trees generalizing tokens with
  | nil =>
    cases program
    exact (Batch.empty_append _).symm
  | cons tree trees ih =>
    cases program with
    | @cons before _ after _ first others =>
      obtain ⟨keyword, more, rfl, _⟩ := first.starts
      have head : Stmt.readOne stop false keyword (more ++ (after ++ rest)) = .done [tree] (keyword :: more).length :=
        first.readOne_done rfl (others.settled_before tree apart)
      have remains : (more ++ (after ++ rest)).drop more.length = after ++ rest := List.drop_left
      rw [List.length_cons] at head
      rw [List.append_assoc, List.cons_append, Stmt.readAll]
      simp only [head, Batch.done, Nat.add_sub_cancel, remains, ih others]
      rw [← Batch.done, ← Batch.done, ← Batch.append_assoc, Batch.done_append, List.length_append, List.length_cons]
      rfl

theorem Program.readAll_done {stop : Token} {tokens : List Token} {trees : List Stmt}
    (program : Program tokens trees) : Stmt.readAll stop tokens = .done trees tokens.length := by
  have whole : Stmt.readAll stop (tokens ++ []) = .done trees tokens.length ++ Stmt.readAll stop [] :=
    program.readAll_append fun _ member => by cases member
  rwa [List.append_nil, Stmt.readAll, Batch.append_empty] at whole

end Grammar

open Grammar

/-- Nothing behind the end marker is read. -/
theorem parseProgram_before {tokens : List Token} {stop : Token} (unended : ∀ token ∈ tokens, token.kind ≠ .eof)
    (ends : stop.kind = .eof) (rest : List Token) :
    parseProgram (tokens ++ stop :: rest) =
      ⟨(Stmt.readAll stop tokens).statements, (Stmt.readAll stop tokens).errors⟩ := by
  rw [parseProgram, Feed.ofTokens_append unended ends rest]

/-- A program without syntax errors was derived from everything before the end marker. -/
theorem parseProgram_sound {tokens : List Token} (ended : Ended tokens) (silent : (parseProgram tokens).errors = []) :
    Program (Feed.ofTokens tokens).tokens (parseProgram tokens).statements :=
  readAll_sound (Feed.stop_of_ended ended) _ silent

theorem parseProgram_complete {tokens : List Token} {program : List Stmt}
    (derived : Program (Feed.ofTokens tokens).tokens program) : parseProgram tokens = ⟨program, []⟩ := by
  simp only [parseProgram, derived.readAll_done]
  rfl

/-- An expression that is accepted was derived from everything before the end marker. -/
theorem parseExpression_sound {tokens : List Token} {value : Expr} (ended : Ended tokens)
    (accepted : parseExpression tokens = .ok value) : Expression (Feed.ofTokens tokens).tokens value := by
  have atEnd := Feed.stop_of_ended ended
  simp only [parseExpression] at accepted
  generalize same : Expr.read (Feed.ofTokens tokens).stop (Feed.ofTokens tokens).tokens = reading at accepted
  obtain ⟨result, width, note⟩ := reading
  cases result with
  | error error => cases accepted
  | ok tree =>
    simp only at accepted
    split at accepted
    next => cases accepted
    next silent =>
      cases accepted
      obtain ⟨rfl, nothingExtra⟩ := Option.or_eq_none_iff.mp silent
      obtain ⟨taken, rest, split, rfl, derives⟩ := read_sound atEnd same
      rw [Feed.extra?, split, List.drop_left] at nothingExtra
      cases rest with
      | nil => rwa [split, List.append_nil]
      | cons => cases nothingExtra

theorem parseExpression_complete {tokens : List Token} {value : Expr} (ended : Ended tokens)
    (derived : Expression (Feed.ofTokens tokens).tokens value) : parseExpression tokens = .ok value := by
  have closes : Closes [] := nofun
  have read : Expr.read (Feed.ofTokens tokens).stop ((Feed.ofTokens tokens).tokens ++ []) = .done value _ :=
    derived.complete [] closes
  have atEnd : (Feed.ofTokens tokens).stop.isEof = true := Token.isEof_iff.mpr (Feed.stop_of_ended ended)
  rw [List.append_nil] at read
  simp only [parseExpression, read, Reading.done, Feed.extra?, List.drop_length, atEnd, if_true]
  rfl

/-- The parser accepts exactly what the grammar derives, and builds the tree of the derivation. -/
theorem parseProgram_accepts_grammar (tokens : List Token) (stop : Token)
    (unended : ∀ token ∈ tokens, token.kind ≠ .eof) (ends : stop.kind = .eof) :
    ((parseProgram (tokens ++ [stop])).errors = [] ↔ ∃ program, Program tokens program) ∧
    ∀ program, Program tokens program → (parseProgram (tokens ++ [stop])).statements = program := by
  have cut : (Feed.ofTokens (tokens ++ [stop])).tokens = tokens :=
    congrArg Feed.tokens (Feed.ofTokens_append unended ends [])
  have ended : Ended (tokens ++ [stop]) := ⟨stop, List.mem_append_right _ (List.mem_singleton_self _), ends⟩
  have complete : ∀ program, Program tokens program → parseProgram (tokens ++ [stop]) = ⟨program, []⟩ :=
    fun program derived => parseProgram_complete (by rwa [cut])
  refine ⟨⟨fun silent => ?_, ?_⟩, fun program derived => ?_⟩
  · have derived := parseProgram_sound ended silent
    rw [cut] at derived
    exact ⟨_, derived⟩
  · rintro ⟨program, derived⟩
    rw [complete program derived]
  · rw [complete program derived]

/-- The only `else` of two nested `if`s, in a source where neither has a block. -/
theorem parseProgram_accepts_shared_else :
    let keyword : Token := .simple .kwIf "if" 1
    let first : Token := .simple .leftParen "(" 1
    let test : Token := .simple .identifier "a" 1
    let last : Token := .simple .rightParen ")" 1
    let target : Token := .simple .identifier "b" 1
    let equals : Token := .simple .equal "=" 1
    let minus : Token := .simple .minus "-" 1
    let two : Token := ⟨.number, "2", some (.number 2), 1⟩
    let semicolon : Token := .simple .semicolon ";" 1
    let middle : Token := .simple .kwElse "else" 2
    let escape : Token := .simple .kwBreak "break" 2
    let inner := [keyword, first, test, last, target, equals, minus, two, semicolon, middle, escape, semicolon]
    let tokens := keyword :: first :: test :: last :: inner
    let tree : Stmt := .ifThen (.var test) (.ifElse (.var test)
      (.expression (.assign target (.unary minus (.literal (.number 2))))) (.breakLoop escape))
    (∀ token ∈ tokens, token.kind ≠ .eof) ∧ (Token.endOfFile 2).kind = .eof ∧
      (parseProgram (tokens ++ [.endOfFile 2])).errors = [] ∧
      (parseProgram (tokens ++ [.endOfFile 2])).statements = [tree] := by
  intro keyword first test last target equals minus two semicolon middle escape inner tokens tree
  have condition : Expression [test] (.var test) := (Derives.primary (.name rfl)).expression
  have operand : Derives .unary [two] (.literal (.number 2)) := .primary (.literal (.inl rfl))
  have negation : Expression [minus, two] (.unary minus (.literal (.number 2))) :=
    (Derives.signed (.inr rfl) operand).expression
  have assignment : Expression [target, equals, minus, two] _ := .assign rfl rfl negation
  have alternative : Statement [escape, semicolon] (.breakLoop escape) := .breakLoop rfl rfl
  have consequence : Statement inner _ :=
    .ifElse rfl rfl condition rfl (.expression assignment rfl) rfl rfl alternative
  have derived : Program (tokens ++ []) [tree] := .cons (.statement (.ifThen rfl rfl condition rfl consequence)) .nil
  have unended : ∀ token ∈ tokens, token.kind ≠ .eof := by decide
  have accepts := parseProgram_accepts_grammar tokens (.endOfFile 2) unended rfl
  exact ⟨unended, rfl, accepts.1.mpr ⟨_, derived⟩, accepts.2 _ derived⟩

/-- What follows a program is read as if it stood alone, whatever errors it has. Only an `else` would go
on with the last statement before it. -/
theorem parseProgram_reads_rest_apart {first second : List Token} {stop : Token}
    (unendedFirst : ∀ token ∈ first, token.kind ≠ .eof) (unendedSecond : ∀ token ∈ second, token.kind ≠ .eof)
    (ends : stop.kind = .eof) (silent : (parseProgram (first ++ [stop])).errors = [])
    (apart : ∀ next ∈ second.head?, next.kind ≠ .kwElse) :
    parseProgram (first ++ second ++ [stop]) =
      ⟨(parseProgram (first ++ [stop])).statements ++ (parseProgram (second ++ [stop])).statements,
        (parseProgram (second ++ [stop])).errors⟩ := by
  have unended : ∀ token ∈ first ++ second, token.kind ≠ .eof := List.forall_mem_append.mpr ⟨unendedFirst, unendedSecond⟩
  have ended : Ended (first ++ [stop]) := ⟨stop, List.mem_append_right _ (List.mem_singleton_self _), ends⟩
  have program : Program first (parseProgram (first ++ [stop])).statements := by
    have derived := parseProgram_sound ended silent
    rwa [Feed.ofTokens_append unendedFirst ends] at derived
  have whole : Stmt.readAll stop (first ++ second) = _ := program.readAll_append apart
  rw [parseProgram_before unended ends, parseProgram_before unendedSecond ends, whole]
  rfl

/-- An `if` that could still take an `else`, before a brace that closes nothing and a variable without
a name. -/
theorem parseProgram_reads_rest_apart_of_errors :
    let keyword : Token := .simple .kwIf "if" 1
    let opening : Token := .simple .leftParen "(" 1
    let empty : Token := .simple .kwNil "nil" 1
    let closing : Token := .simple .rightParen ")" 1
    let escape : Token := .simple .kwBreak "break" 1
    let semicolon : Token := .simple .semicolon ";" 1
    let brace : Token := .simple .rightBrace "\x7d" 2
    let stop : Token := .endOfFile 2
    let first := [keyword, opening, empty, closing, escape, semicolon]
    let second := [brace, .simple .kwVar "var" 2, empty, semicolon, .simple .kwPrint "print" 2, empty, semicolon]
    (∀ token ∈ first, token.kind ≠ .eof) ∧ (∀ token ∈ second, token.kind ≠ .eof) ∧ stop.kind = .eof ∧
      (parseProgram (first ++ [stop])).errors = [] ∧ (∀ next ∈ second.head?, next.kind ≠ .kwElse) ∧
      parseProgram (first ++ second ++ [stop]) =
        ⟨.ifThen (.literal .nil) (.breakLoop escape) :: (parseProgram (second ++ [stop])).statements,
          [⟨brace, .noExpression⟩, ⟨empty, .noVariableName⟩]⟩ := by
  intro keyword opening empty closing escape semicolon brace stop first second
  have unendedFirst : ∀ token ∈ first, token.kind ≠ .eof := by decide
  have unendedSecond : ∀ token ∈ second, token.kind ≠ .eof := by decide
  have apart : ∀ next ∈ second.head?, next.kind ≠ .kwElse := by decide
  have condition : Expression [empty] (.literal .nil) := (Derives.primary (.nothing rfl)).expression
  have consequence : Statement [escape, semicolon] (.breakLoop escape) := .breakLoop rfl rfl
  have derived : Program (first ++ []) [.ifThen (.literal .nil) (.breakLoop escape)] :=
    .cons (.statement (.ifThen rfl rfl condition rfl consequence)) .nil
  have parsed : parseProgram (first ++ [stop]) = ⟨[.ifThen (.literal .nil) (.breakLoop escape)], []⟩ :=
    parseProgram_complete derived
  have errors : (parseProgram (second ++ [stop])).errors = [⟨brace, .noExpression⟩, ⟨empty, .noVariableName⟩] := by
    decide +kernel
  have silent : (parseProgram (first ++ [stop])).errors = [] := congrArg ParsedProgram.errors parsed
  have apartly := parseProgram_reads_rest_apart unendedFirst unendedSecond rfl silent apart
  rw [parsed, errors] at apartly
  exact ⟨unendedFirst, unendedSecond, rfl, silent, apart, apartly⟩

end Lox
