import Lox.Proofs.DeclarationPlaces
import Lox.Proofs.FaultyClauses
import Lox.Proofs.UnclosedStatements

/-! What a missing semicolon costs. Reading fails right behind the gap, and gives up
the statement after it unless that one starts with a keyword. So nothing more goes
wrong, as long as the gap is not in front of a brace or an `else`. -/

namespace Lox
open Grammar Reading

/-- Declarations are read one after another, up to the tokens that remain. -/
inductive Listed (stop : Token) (rest : List Token) : List Token → Batch → Prop where
  | nil : Listed stop rest rest .empty
  | cons (inside : first.kind ≠ .rightBrace) (head : Stmt.readOne stop false first more = batch)
      (behind : (first :: more).drop batch.width = later) (others : Listed stop rest later tail) :
      Listed stop rest (first :: more) (batch ++ tail)

namespace Listed
variable {stop : Token} {rest tokens : List Token} {batch : Batch}

private theorem remains (listed : Listed stop rest tokens batch) : tokens.drop batch.width = rest := by
  induction listed with
  | nil => rfl
  | @cons first more batch later tail inside head behind others ih =>
    show (first :: more).drop (batch.width + tail.width) = rest
    rw [← List.drop_drop, behind, ih]

theorem readAll (listed : Listed stop [] tokens batch) : Stmt.readAll stop tokens = batch := by
  induction listed with
  | nil => rw [Stmt.readAll]
  | cons inside head behind others ih =>
    rw [Stmt.readAll, head, (Stmt.readOne_splits stop head).1, behind, ih]

theorem readBlock (listed : Listed stop rest tokens batch) (closes : ∀ next ∈ rest.head?, next.kind = .rightBrace) :
    Stmt.readBlock stop false tokens = batch := by
  induction listed with
  | nil =>
    cases rest with
    | nil => rw [Stmt.readBlock]
    | cons next rest => rw [Stmt.readBlock, if_pos (closes next rfl)]
  | cons inside head behind others ih =>
    rw [Stmt.readBlock, if_neg inside]
    simp only [head, (Stmt.readOne_splits stop head).1, behind, ih]

end Listed

namespace Grammar
variable {stop : Token}

/-- A declaration that was derived adds no error to those of the declarations after it. -/
theorem Declaration.listed {tokens later rest : List Token} {tree : Stmt} {tail : Batch}
    (declaration : Declaration tokens tree) (settled : Settled tree later) (others : Listed stop rest later tail) :
    Listed stop rest (tokens ++ later) (.done [tree] tokens.length ++ tail) := by
  obtain ⟨keyword, more, rfl, _⟩ := declaration.starts
  exact .cons declaration.apart.1 (declaration.readOne_done rfl settled) List.drop_left others

theorem Program.listed {tokens rest : List Token} {trees : List Stmt} (program : Program tokens trees)
    (closes : ∀ next ∈ rest.head?, next.kind = .rightBrace) :
    Listed stop rest (tokens ++ rest) (.done trees tokens.length) := by
  induction trees generalizing tokens with
  | nil =>
    cases program
    exact .nil
  | cons tree trees ih =>
    cases program with
    | cons first others =>
      have listed := first.listed (others.settled tree closes) (ih others)
      rw [Batch.done_append, ← List.length_append] at listed
      rw [List.append_assoc]
      exact listed

/-- A statement that is read adds its errors to those of the declarations after it. -/
private theorem listed_of_yields {first : Token} {more later rest : List Token} {tail : Batch} {width limit : Nat}
    (starts : first.kind ∈ statementStarters) (yields : (Stmt.read stop false (first :: more)).Yields width limit)
    (behind : (first :: more).drop width = later) (others : Listed stop rest later tail) :
    ∃ batch, Listed stop rest (first :: more) batch ∧ batch.errors.length ≤ limit + tail.errors.length := by
  have apart : ∀ kind ∈ statementStarters, kind ≠ .kwVar ∧ kind ≠ .rightBrace := by decide
  obtain ⟨notVar, inside⟩ := apart _ starts
  obtain ⟨tree, errors, same, few⟩ := Batch.ofPassage_yields yields (first :: more)
  have head : Stmt.readOne stop false first more = ⟨[tree], width, errors⟩ := by rw [Stmt.readOne, if_neg notVar, same]
  refine ⟨_, .cons inside head behind others, ?_⟩
  show (errors ++ tail.errors).length ≤ _
  rw [List.length_append]
  omega

/-- What is given up of an open end goes on to the next boundary. -/
private theorem EndsOpen.skip_append {before : List Token} (ends : EndsOpen before) (rest : List Token) :
    ∃ previous, previous ≠ some Kind.semicolon ∧
      Boundary.skip (before ++ rest) before.length = before.length + Boundary.distance previous rest := by
  obtain ⟨front, last, rfl, apart⟩ := ends
  refine ⟨some last.kind, fun same => apart (Option.some.inj same), ?_⟩
  have taken : max (front ++ [last]).length 1 = (front ++ [last]).length := by
    rw [List.length_append, List.length_singleton]
    omega
  have found : (front ++ [last] ++ rest)[(front ++ [last]).length - 1]? = some last := by
    rw [List.append_assoc, List.length_append, List.length_singleton, Nat.add_sub_cancel,
      List.getElem?_append_right (Nat.le_refl _), Nat.sub_self]
    rfl
  simp only [Boundary.skip, taken, found, List.drop_left, Option.map_some]

section GivenUp
variable {before skipped after later rest : List Token} {valued : Bool} {tail : Batch}

/-- An unclosed declaration is given up together with the tokens in front of the next boundary. -/
theorem UnclosedDeclaration.given_up (unclosed : UnclosedDeclaration valued before) (atEnd : stop.kind = .eof)
    (closes : valued = true → Closes (skipped ++ later))
    (absent : ∀ next ∈ (skipped ++ later).head?, next.kind ≠ .semicolon ∧ next.kind ≠ .equal)
    (skips : ∀ previous, previous ≠ some Kind.semicolon →
      Boundary.distance previous (skipped ++ later) = skipped.length)
    (others : Listed stop rest later tail) :
    ∃ batch, Listed stop rest (before ++ (skipped ++ later)) batch ∧ batch.errors.length ≤ 1 + tail.errors.length := by
  obtain ⟨previous, apart, skip⟩ := unclosed.ends_open.skip_append (skipped ++ later)
  rw [skips previous apart] at skip
  obtain ⟨first, more, rfl, member⟩ := unclosed.starts
  obtain ⟨error, head⟩ := unclosed.fails atEnd closes absent
  rw [skip] at head
  have inside : ∀ kind ∈ Kind.kwVar :: statementStarters, kind ≠ .rightBrace := by decide
  have behind : (first :: (more ++ (skipped ++ later))).drop ((first :: more).length + skipped.length) = later := by
    rw [← List.drop_drop, ← List.cons_append, List.drop_left, List.drop_left]
  refine ⟨_, .cons (inside _ member) head behind others, ?_⟩
  have count : ([error] ++ tail.errors).length = 1 + tail.errors.length := by
    rw [List.length_append, List.length_singleton]
  exact Nat.le_of_eq count

/-- A declaration that does not start with a brace starts with a keyword, or is an expression. -/
private theorem Declaration.keyword_or_expression {tokens : List Token} {tree : Stmt} (declaration : Declaration tokens tree)
    (resumes : ∀ next ∈ tokens.head?, next.kind ≠ .leftBrace) :
    (∃ next more, tokens = next :: more ∧ next.kind ∈ Boundary.starters.toList) ∨
      ∃ front value semicolon, tokens = front ++ [semicolon] ∧ Expression front value ∧
        semicolon.kind = .semicolon := by
  cases declaration with
  | declare kind | withValue kind => exact .inl ⟨_, _, rfl, by rw [kind]; decide⟩
  | statement inner =>
    cases inner with
    | expression value ends => exact .inr ⟨_, _, _, rfl, value, ends⟩
    | block opens => exact absurd opens (resumes _ rfl)
    | print kind | ifThen kind | ifElse kind | whileLoop kind | breakLoop kind =>
      exact .inl ⟨_, _, rfl, by rw [kind]; decide⟩

/-- In front of a keyword that starts a declaration only the unclosed one is given up. -/
private theorem UnclosedDeclaration.listed_keyword {next : Token} (unclosed : UnclosedDeclaration valued before)
    (atEnd : stop.kind = .eof) (starts : next.kind ∈ Boundary.starters.toList)
    (others : Listed stop rest (next :: later) tail) :
    ∃ batch, Listed stop rest (before ++ next :: later) batch ∧ batch.errors.length ≤ 1 + tail.errors.length := by
  have apart : ∀ kind ∈ Boundary.starters.toList,
      kind ≠ .semicolon ∧ kind ≠ .equal ∧ Boundary.starters.contains kind = true := by decide
  have closes : Closes (next :: later) := by
    intro _ member
    cases member
    refine ⟨(apart _ starts).2.1, fun level => ?_⟩
    have none : ∀ kind ∈ Boundary.starters.toList, level.operators.contains kind = false := by cases level <;> decide
    exact none _ starts
  have boundary : ∀ previous, Boundary.distance previous (next :: later) = 0 := by
    intro previous
    have resumes : Boundary.isBoundary previous next = true := by
      rw [Boundary.isBoundary, (apart _ starts).2.2, Bool.or_true]
    rw [Boundary.distance, if_pos resumes]
  exact @given_up stop before [] (next :: later) rest valued tail unclosed atEnd (fun _ => closes)
    (fun _ member => (by cases member; exact ⟨(apart _ starts).1, (apart _ starts).2.1⟩))
    (fun previous _ => boundary previous) others

/-- In front of an expression the unclosed declaration goes on, or both are given up. -/
private theorem UnclosedDeclaration.listed_expression {front : List Token} {value : Expr} {semicolon : Token}
    (unclosed : UnclosedDeclaration valued before) (atEnd : stop.kind = .eof) (derives : Expression front value)
    (ends : semicolon.kind = .semicolon) (settled : ∀ tree, Settled tree later)
    (others : Listed stop rest later tail) :
    ∃ batch, Listed stop rest (before ++ (front ++ [semicolon] ++ later)) batch ∧
      batch.errors.length ≤ 1 + tail.errors.length := by
  obtain ⟨next, more, rfl, member⟩ := derives.starts
  by_cases joins : valued = true ∧ next.kind = .minus
  · obtain ⟨tree, declaration⟩ := unclosed.joins joins.1 derives (fun _ same => by cases same; exact joins.2) ends
    rw [← List.append_assoc]
    refine ⟨_, declaration.listed (settled tree) others, ?_⟩
    show ([] ++ tail.errors).length ≤ _
    rw [List.nil_append]
    exact Nat.le_add_left _ _
  · have apart : ∀ kind ∈ starters .assignment, kind ≠ .semicolon ∧ kind ≠ .equal := by decide
    have closes : valued = true → Closes (next :: more ++ [semicolon] ++ later) := by
      intro ended _ same
      cases same
      refine ⟨(apart _ member).2, fun level => ?_⟩
      have none : ∀ kind ∈ starters .assignment, kind ≠ .minus → level.operators.contains kind = false := by
        cases level <;> decide
      exact none _ member fun minus => joins ⟨ended, minus⟩
    have inner : ∀ kind ∈ expressionKinds,
        kind ≠ .eof ∧ kind ≠ .semicolon ∧ Boundary.starters.contains kind = false := by decide
    have skips : ∀ previous, previous ≠ some Kind.semicolon →
        Boundary.distance previous (next :: more ++ [semicolon] ++ later) = (next :: more ++ [semicolon]).length := by
      intro previous other
      rw [List.append_assoc, List.singleton_append, Boundary.distance_clause ends later other, List.length_append]
      · rfl
      · exact fun token among => (inner _ (derives.kinds token among)).1
      · exact fun token among => (inner _ (derives.kinds token among)).2.1
      · exact fun token among => (inner _ (derives.kinds token among)).2.2
    exact unclosed.given_up atEnd closes (fun _ same => by cases same; exact apart _ member) skips others

/-- No error follows the one at the gap behind a declaration. -/
theorem UnclosedDeclaration.listed {trees : List Stmt} (unclosed : UnclosedDeclaration valued before)
    (atEnd : stop.kind = .eof) (others : Program after trees)
    (resumes : ∀ next ∈ (after ++ rest).head?, next.kind ≠ .leftBrace ∧ next.kind ≠ .rightBrace)
    (closes : ∀ next ∈ rest.head?, next.kind = .rightBrace) :
    ∃ batch, Listed stop rest (before ++ (after ++ rest)) batch ∧ batch.errors.length ≤ 1 := by
  cases others with
  | nil =>
    cases rest with
    | nil =>
      exact @given_up stop before [] [] [] valued .empty unclosed atEnd (fun _ _ member => (by cases member))
        (fun _ member => (by cases member)) (fun _ _ => rfl) .nil
    | cons next rest => exact absurd (closes next rfl) (resumes next rfl).2
  | @cons tokens tree others trees first program =>
    have listed : Listed stop rest (others ++ rest) (.done trees others.length) := program.listed closes
    have whole : Listed stop rest (tokens ++ (others ++ rest)) _ :=
      first.listed (program.settled tree closes) listed
    rw [List.append_assoc] at resumes ⊢
    rcases first.keyword_or_expression fun next member => (head_of_append resumes next member).1 with
      ⟨next, more, rfl, starts⟩ | ⟨front, value, semicolon, rfl, derives, ends⟩
    · exact unclosed.listed_keyword atEnd starts whole
    · exact unclosed.listed_expression atEnd derives ends (fun tree => program.settled tree closes) listed

end GivenUp

theorem read_block_yields {first last : Token} {tokens rest : List Token} {batch : Batch} {limit : Nat}
    (opens : first.kind = .leftBrace) (closes : last.kind = .rightBrace)
    (listed : Listed stop (last :: rest) (tokens ++ last :: rest) batch) (few : batch.errors.length ≤ limit) :
    (Stmt.read stop false (first :: (tokens ++ [last]) ++ rest)).Yields (first :: (tokens ++ [last])).length limit := by
  have width : batch.width = tokens.length := by
    have lengths := congrArg List.length listed.remains
    rw [List.length_drop, List.length_append, List.length_cons] at lengths
    omega
  have inner := listed.readBlock fun next member => (by cases member; exact closes)
  rw [List.cons_append, List.append_assoc, List.singleton_append, List.length_cons, List.length_append, ← width]
  refine ⟨.block batch.statements, batch.errors, ?_, few⟩
  simp only [Stmt.read, opens, inner, listed.remains, expect_cons rest closes]
  show (⟨_, _, batch.errors ++ [], _⟩ : Passage Stmt) = _
  rw [List.append_nil]
  rfl

/-- A statement with a gap in a block is read to its end, with one error at most. -/
def ReadsOn (stop : Token) (before after : List Token) (awaits : Bool) : Prop :=
  ∀ rest : List Token, (∀ next ∈ (after ++ rest).head?, next.kind ≠ .leftBrace ∧ next.kind ≠ .rightBrace) →
    (awaits = true → ∀ next ∈ rest.head?, next.kind ≠ .kwElse) →
    (Stmt.read stop false (before ++ after ++ rest)).Yields (before ++ after).length 1

/-- Declarations with a gap are all read or given up, with one error at most. -/
def GoesOn (stop : Token) (before after : List Token) : Prop :=
  ∀ rest : List Token, (∀ next ∈ (after ++ rest).head?, next.kind ≠ .leftBrace ∧ next.kind ≠ .rightBrace) →
    (∀ next ∈ rest.head?, next.kind = .rightBrace) →
    ∃ batch, Listed stop rest (before ++ after ++ rest) batch ∧ batch.errors.length ≤ 1

section Bodies
variable {keyword first middle last : Token} {tokens chosen other before after : List Token} {condition : Expr}
  {tree : Stmt} {awaits : Bool}

private theorem GoesOn.block (body : GoesOn stop before after) (opens : first.kind = .leftBrace)
    (closes : last.kind = .rightBrace) : ReadsOn stop (first :: before) (after ++ [last]) false := by
  intro rest resumes _
  rw [List.append_assoc, List.singleton_append] at resumes
  obtain ⟨batch, listed, few⟩ := body (last :: rest) resumes fun next member => (by cases member; exact closes)
  rw [List.cons_append, ← List.append_assoc]
  exact read_block_yields opens closes listed few

private theorem ReadsOn.whileLoop (body : ReadsOn stop before after awaits) (isWhile : keyword.kind = .kwWhile)
    (opens : first.kind = .leftParen) (test : Expression tokens condition) (closes : last.kind = .rightParen) :
    ReadsOn stop (keyword :: first :: (tokens ++ last :: before)) after awaits := by
  intro rest resumes settled
  have inner := body rest resumes settled
  rw [header_append]
  exact read_while_yields isWhile opens test closes inner

private theorem ReadsOn.ifThen (consequence : ReadsOn stop before after awaits) (isIf : keyword.kind = .kwIf)
    (opens : first.kind = .leftParen) (test : Expression tokens condition) (closes : last.kind = .rightParen) :
    ReadsOn stop (keyword :: first :: (tokens ++ last :: before)) after true := by
  intro rest resumes settled
  have alone := settled rfl
  have inner := consequence rest resumes fun _ => alone
  rw [header_append]
  exact read_if_yields isIf opens test closes inner alone

private theorem ReadsOn.consequence (consequence : ReadsOn stop before after false) (isIf : keyword.kind = .kwIf)
    (opens : first.kind = .leftParen) (test : Expression tokens condition) (closes : last.kind = .rightParen)
    (isElse : middle.kind = .kwElse) (alternative : Statement other tree) :
    ReadsOn stop (keyword :: first :: (tokens ++ last :: before)) (after ++ middle :: other) (awaitsElse tree) := by
  intro rest resumes settled
  rw [List.append_assoc, List.cons_append] at resumes
  have inner := consequence _ resumes fun never => absurd never Bool.false_ne_true
  rw [header_append, ← List.append_assoc]
  exact read_ifElse_yields isIf opens test closes inner isElse (alternative.read_yields settled)

private theorem ReadsOn.alternative (alternative : ReadsOn stop before after awaits) (isIf : keyword.kind = .kwIf)
    (opens : first.kind = .leftParen) (test : Expression tokens condition) (closes : last.kind = .rightParen)
    (consequence : Statement chosen tree) (complete : awaitsElse tree = false) (isElse : middle.kind = .kwElse) :
    ReadsOn stop (keyword :: first :: (tokens ++ last :: (chosen ++ middle :: before))) after awaits := by
  intro rest resumes settled
  have inner := alternative rest resumes settled
  rw [header_append, List.append_assoc, List.cons_append]
  exact read_ifElse_yields isIf opens test closes (consequence.read_yields (settled_of_complete complete _)) isElse
    inner

end Bodies

section Lists
variable {tokens before after others : List Token} {tree : Stmt} {trees : List Stmt} {awaits valued : Bool}

theorem ReadsOn.inside (reads : ReadsOn stop before after awaits) (gapped : Gapped before after awaits)
    (program : Program others trees) : GoesOn stop before (after ++ others) := by
  intro rest resumes closes
  have settled := program.settled (.ifThen default default) closes rfl
  rw [List.append_assoc] at resumes
  have yields := reads (others ++ rest) resumes fun _ => settled
  have behind : (before ++ after ++ (others ++ rest)).drop (before ++ after).length = others ++ rest := List.drop_left
  obtain ⟨next, more, rfl, member⟩ := gapped.starts
  rw [← List.append_assoc, List.append_assoc]
  exact listed_of_yields member yields behind (program.listed closes)

theorem UnclosedDeclaration.goes_on (unclosed : UnclosedDeclaration valued before) (atEnd : stop.kind = .eof)
    (program : Program others trees) : GoesOn stop before others := by
  intro rest resumes closes
  rw [List.append_assoc]
  exact unclosed.listed atEnd program resumes closes

private theorem GoesOn.later (goesOn : GoesOn stop before after) (gapped : GappedProgram before after)
    (first : Declaration tokens tree) : GoesOn stop (tokens ++ before) after := by
  intro rest resumes closes
  obtain ⟨batch, listed, few⟩ := goesOn rest resumes closes
  obtain ⟨next, more, rfl, member⟩ := gapped.starts
  have apart : ∀ kind ∈ Kind.kwVar :: statementStarters, kind ≠ .kwElse := by decide
  have settled : Settled tree (next :: more ++ after ++ rest) := by
    intro _ other same
    cases same
    exact apart _ member
  have whole := first.listed settled listed
  rw [List.append_assoc, List.append_assoc, ← List.append_assoc _ after]
  exact ⟨_, whole, few⟩

/-- A program with a gap is read with one error at most, unless a brace or an `else` follows the gap. -/
theorem GappedProgram.goes_on (gapped : GappedProgram before after) (atEnd : stop.kind = .eof) :
    GoesOn stop before after :=
  -- The induction is on a program and its statements at once.
  @GappedProgram.rec (fun before after awaits _ => ReadsOn stop before after awaits)
    (fun before after _ => GoesOn stop before after)
    (fun opens _ closes body => body.block opens closes)
    (fun isIf opens test closes _ reads => reads.ifThen isIf opens test closes)
    (fun isIf opens test closes _ isElse alternative reads =>
      reads.consequence isIf opens test closes isElse alternative)
    (fun isIf opens test closes consequence complete isElse _ reads =>
      reads.alternative isIf opens test closes consequence complete isElse)
    (fun isWhile opens test closes _ reads => reads.whileLoop isWhile opens test closes)
    (fun gapped program reads => reads.inside gapped program)
    (fun unclosed program => unclosed.goes_on atEnd program)
    (fun first gapped goesOn => goesOn.later gapped first)
    before after gapped

end Lists

end Grammar

section Costs
open Grammar
variable {tokens : List Token} {stop semicolon : Token} {index : Nat}

/-- Without one of its semicolons, an accepted program reports one error at most, unless a brace or
an `else` follows the gap. -/
theorem missing_semicolon_costs_one (unended : ∀ token ∈ tokens, token.kind ≠ .eof) (ends : stop.kind = .eof)
    (accepted : (parseProgram (tokens ++ [stop])).errors = []) (found : tokens[index]? = some semicolon)
    (closes : semicolon.kind = .semicolon)
    (resumes : ∀ next ∈ tokens[index + 1]?,
      next.kind ≠ .leftBrace ∧ next.kind ≠ .rightBrace ∧ next.kind ≠ .kwElse) :
    (parseProgram (tokens.eraseIdx index ++ [stop])).errors.length ≤ 1 := by
  obtain ⟨cut, ended⟩ := cut_before_stop unended ends
  have program := parseProgram_sound ended accepted
  rw [cut] at program
  obtain ⟨inside, same⟩ := List.getElem?_eq_some_iff.mp found
  have split : tokens = tokens.take index ++ semicolon :: tokens.drop (index + 1) := by
    rw [← same, List.getElem_cons_drop inside, List.take_append_drop]
  rw [← List.head?_drop] at resumes
  have gapped := program.gap closes split fun next member => (resumes next member).2.2
  obtain ⟨batch, listed, few⟩ := gapped.goes_on ends []
    (fun next member => by
      rw [List.append_nil] at member
      exact ⟨(resumes next member).1, (resumes next member).2.1⟩)
    (fun _ member => by cases member)
  rw [List.append_nil, ← List.eraseIdx_eq_take_drop_succ] at listed
  have remaining : ∀ token ∈ tokens.eraseIdx index, token.kind ≠ .eof :=
    fun token member => unended token (List.mem_of_mem_eraseIdx member)
  have feed : Feed.ofTokens (tokens.eraseIdx index ++ [stop]) = ⟨tokens.eraseIdx index, stop⟩ :=
    Feed.ofTokens_append remaining ends []
  rw [parseProgram, feed]
  show (Stmt.readAll stop (tokens.eraseIdx index)).errors.length ≤ 1
  rw [listed.readAll]
  exact few

/-- A gap in front of the end of a block costs two errors: the brace is given up as well. -/
theorem missing_semicolon_before_brace :
    let opening : Token := .simple .leftBrace "\x7b" 1
    let print : Token := .simple .kwPrint "print" 1
    let empty : Token := .simple .kwNil "nil" 1
    let semicolon : Token := .simple .semicolon ";" 1
    let closing : Token := .simple .rightBrace "\x7d" 1
    let stop : Token := .endOfFile 1
    let tokens := [opening, print, empty, semicolon, closing]
    (∀ token ∈ tokens, token.kind ≠ .eof) ∧ (parseProgram (tokens ++ [stop])).errors = [] ∧
      tokens[3]? = some semicolon ∧ semicolon.kind = .semicolon ∧
      (parseProgram (tokens.eraseIdx 3 ++ [stop])).errors = [⟨closing, .openPrint⟩, ⟨stop, .openBlock⟩] := by
  decide +kernel

/-- Inside a block, in front of another statement, the error at the gap is the only one. -/
theorem missing_semicolon_costs_one_in_block :
    let opening : Token := .simple .leftBrace "\x7b" 1
    let print : Token := .simple .kwPrint "print" 1
    let empty : Token := .simple .kwNil "nil" 1
    let semicolon : Token := .simple .semicolon ";" 1
    let closing : Token := .simple .rightBrace "\x7d" 1
    let stop : Token := .endOfFile 1
    let tokens := [opening, print, empty, semicolon, print, empty, semicolon, closing]
    (∀ token ∈ tokens, token.kind ≠ .eof) ∧ stop.kind = .eof ∧ (parseProgram (tokens ++ [stop])).errors = [] ∧
      tokens[3]? = some semicolon ∧ semicolon.kind = .semicolon ∧
      (∀ next ∈ tokens[4]?, next.kind ≠ .leftBrace ∧ next.kind ≠ .rightBrace ∧ next.kind ≠ .kwElse) ∧
      (parseProgram (tokens.eraseIdx 3 ++ [stop])).errors.length ≤ 1 := by
  intro opening print empty semicolon closing stop tokens
  have unended : ∀ token ∈ tokens, token.kind ≠ .eof := by decide
  have accepted : (parseProgram (tokens ++ [stop])).errors = [] := by decide +kernel
  have resumes : ∀ next ∈ tokens[4]?, next.kind ≠ .leftBrace ∧ next.kind ≠ .rightBrace ∧ next.kind ≠ .kwElse := by
    intro next member
    cases member
    decide
  exact ⟨unended, rfl, accepted, rfl, rfl, resumes,
    missing_semicolon_costs_one unended rfl accepted rfl rfl resumes⟩

end Costs

end Lox
