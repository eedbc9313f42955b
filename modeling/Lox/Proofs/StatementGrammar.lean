import Lox.Program
import Lox.Proofs.CleanPassage
import Lox.Proofs.ExpressionGrammar

/-! Reading statements and declarations follows the grammar, in both directions.
An `else` is read with the nearest `if`, and a declaration that reports no error
was derived as a whole. -/

namespace Lox.Grammar

private theorem Statement.nonempty {tokens : List Token} {tree : Stmt} (statement : Statement tokens tree) : tokens ≠ [] := by
  cases statement <;> simp

def Settled (tree : Stmt) (rest : List Token) : Prop :=
  awaitsElse tree = true → ∀ next ∈ rest.head?, next.kind ≠ .kwElse

theorem settled_of_complete {tree : Stmt} (complete : awaitsElse tree = false) (rest : List Token) :
    Settled tree rest :=
  fun awaits => absurd awaits (by rw [complete]; decide)

section Soundness
variable {stop : Token} (atEnd : stop.kind = .eof)
include atEnd

theorem read_sound {tokens : List Token} {value : Expr} {width : Nat}
    (clean : Expr.read stop tokens = .done value width) : Opens tokens width (Expression · value) :=
  (read_sound_each atEnd).1 tokens value width clean

private theorem readClosed_sound {fault : SyntaxFault} {tokens : List Token} {value : Expr} {width : Nat}
    (clean : Stmt.readClosed stop fault tokens = .done value width) :
    ∃ taken semicolon rest, tokens = taken ++ semicolon :: rest ∧ Expression taken value ∧
      semicolon.kind = .semicolon ∧ width = taken.length + 1 := by
  obtain ⟨width, semicolon, rest, read, follow, ends, rfl⟩ :=
    (Reading.closedBy_eq_done atEnd (by decide)).mp clean
  obtain ⟨taken, rest, rfl, rfl, derives⟩ := read_sound atEnd read
  rw [List.drop_left] at follow
  subst follow
  exact ⟨taken, semicolon, _, rfl, derives, ends, rfl⟩

private theorem readCondition_sound {unopened unclosed : SyntaxFault} {tokens : List Token} {value : Expr} {width : Nat}
    (clean : Stmt.readCondition stop unopened unclosed tokens = .done value width) :
    ∃ first taken last rest, tokens = first :: (taken ++ last :: rest) ∧ first.kind = .leftParen ∧
      Expression taken value ∧ last.kind = .rightParen ∧ width = taken.length + 2 := by
  obtain ⟨_, _, _, opening, inner, rfl⟩ := Reading.andThen_eq_done.mp clean
  obtain ⟨first, rest, rfl, opens, rfl⟩ := (Reading.expect_eq_done atEnd (by decide)).mp opening
  obtain ⟨width, last, more, read, follow, closes, rfl⟩ :=
    (Reading.closedBy_eq_done atEnd (by decide)).mp inner
  obtain ⟨taken, rest, split, rfl, derives⟩ := read_sound atEnd read
  rw [List.tail_cons] at split follow
  subst split
  rw [List.drop_left] at follow
  subst follow
  exact ⟨first, taken, last, more, rfl, opens, derives, closes, by omega⟩

private theorem readDeclaration_sound {keyword : Token} {tokens : List Token} {tree : Stmt} {width : Nat}
    (isVar : keyword.kind = .kwVar) (clean : Stmt.readDeclaration stop tokens = .done tree width) :
    Opens (keyword :: tokens) (width + 1) (Declaration · tree) := by
  cases tokens with
  | nil => cases clean
  | cons name rest =>
    simp only [Stmt.readDeclaration] at clean
    split at clean
    next isName =>
      obtain ⟨width, shifted, rfl⟩ := Reading.afterToken_eq_done.mp clean
      obtain ⟨initial, closed, rfl⟩ := Reading.map_eq_done.mp shifted
      obtain ⟨width, semicolon, more, read, follow, ends, rfl⟩ :=
        (Reading.closedBy_eq_done atEnd (by decide)).mp closed
      split at read
      next =>
        cases read
        cases follow
      next equals after =>
        split at read
        next isEqual =>
          obtain ⟨width, assigned, rfl⟩ := Reading.afterToken_eq_done.mp read
          obtain ⟨value, inner, rfl⟩ := Reading.map_eq_done.mp assigned
          obtain ⟨taken, rest, rfl, rfl, derives⟩ := read_sound atEnd inner
          rw [List.drop_succ_cons, List.drop_left] at follow
          subst follow
          exact ⟨keyword :: name :: equals :: (taken ++ [semicolon]), more, by simp, by simp,
            .withValue isVar isName isEqual derives ends⟩
        next =>
          cases read
          cases follow
          exact ⟨[keyword, name, semicolon], more, rfl, rfl, .declare isVar isName ends⟩
    next => cases clean

/-- A derived statement comes first, and after it no `else` that it awaits. -/
def Leads (tokens : List Token) (tree : Stmt) (width : Nat) : Prop :=
  ∃ taken rest, tokens = taken ++ rest ∧ taken.length = width ∧ Statement taken tree ∧ Settled tree rest

structure Follows (tokens : List Token) (passage : Passage Stmt) : Prop where
  candid : passage.Candid
  leads : ∀ tree width, passage = .done tree width → Leads tokens tree width

def Accounts (tokens : List Token) (batch : Batch) : Prop :=
  batch.errors = [] → Opens tokens batch.width (Program · batch.statements)

omit atEnd in
/-- A statement that holds no other statement at its end awaits no `else`. -/
private theorem Follows.ofReading {tokens : List Token} {reading : Reading Stmt}
    (derived : ∀ tree width, reading = .done tree width →
      Opens tokens width (Statement · tree) ∧ awaitsElse tree = false) :
    Follows tokens (.ofReading false reading) := by
  refine ⟨Passage.candid_ofReading reading, fun tree width clean => ?_⟩
  obtain ⟨⟨taken, rest, split, same, statement⟩, complete⟩ :=
    derived tree width (Passage.ofReading_eq_done.mp clean)
  exact ⟨taken, rest, split, same, statement, settled_of_complete complete rest⟩

private theorem follows_print {keyword : Token} {rest : List Token} (isPrint : keyword.kind = .kwPrint) :
    Follows (keyword :: rest)
      (.ofReading false ((Stmt.readClosed stop .openPrint rest).map .print).afterToken) := by
  refine .ofReading fun tree width clean => ?_
  obtain ⟨width, shifted, rfl⟩ := Reading.afterToken_eq_done.mp clean
  obtain ⟨value, closed, rfl⟩ := Reading.map_eq_done.mp shifted
  obtain ⟨taken, semicolon, more, rfl, derives, ends, rfl⟩ := readClosed_sound atEnd closed
  exact ⟨⟨keyword :: (taken ++ [semicolon]), more, by simp, by simp, .print isPrint derives ends⟩, rfl⟩

private theorem follows_expression {tokens : List Token} :
    Follows tokens (.ofReading false ((Stmt.readClosed stop .openExpression tokens).map .expression)) := by
  refine .ofReading fun tree width clean => ?_
  obtain ⟨value, closed, rfl⟩ := Reading.map_eq_done.mp clean
  obtain ⟨taken, semicolon, more, rfl, derives, ends, rfl⟩ := readClosed_sound atEnd closed
  exact ⟨⟨taken ++ [semicolon], more, by simp, by simp, .expression derives ends⟩, rfl⟩

private theorem follows_break {keyword : Token} {rest : List Token} (isBreak : keyword.kind = .kwBreak) :
    Follows (keyword :: rest) (.ofReading false
      ((Reading.expect stop .semicolon .openBreak rest).map fun _ => .breakLoop keyword).afterToken) := by
  refine .ofReading fun tree width clean => ?_
  obtain ⟨width, shifted, rfl⟩ := Reading.afterToken_eq_done.mp clean
  obtain ⟨_, closed, rfl⟩ := Reading.map_eq_done.mp shifted
  obtain ⟨semicolon, more, rfl, ends, rfl⟩ := (Reading.expect_eq_done atEnd (by decide)).mp closed
  exact ⟨⟨[keyword, semicolon], more, rfl, rfl, .breakLoop isBreak ends⟩, rfl⟩

private theorem follows_block {opening : Token} {rest : List Token} {body : Batch} (opens : opening.kind = .leftBrace)
    (inner : Accounts rest body) :
    Follows (opening :: rest)
      ((⟨.ok body.statements, body.width + 1, body.errors, false⟩ : Passage (List Stmt)).andThen
        fun statements pending => .ofReading pending
          ((Reading.expect stop .rightBrace .openBlock (rest.drop body.width)).map fun _ => .block statements)) := by
  have candid : (⟨.ok body.statements, body.width + 1, body.errors, false⟩ : Passage (List Stmt)).Candid :=
    fun _ => rfl
  refine ⟨candid.andThen fun _ => Passage.candid_ofReading _, fun tree width clean => ?_⟩
  obtain ⟨statements, taken, more, read, closed, rfl⟩ := (Passage.andThen_eq_done candid).mp clean
  obtain ⟨statements, width, errors⟩ := body
  cases read
  obtain ⟨taken, rest, rfl, rfl, derives⟩ := inner rfl
  obtain ⟨_, follow, rfl⟩ := Reading.map_eq_done.mp (Passage.ofReading_eq_done.mp closed)
  rw [List.drop_left] at follow
  obtain ⟨closing, more, rfl, closes, rfl⟩ := (Reading.expect_eq_done atEnd (by decide)).mp follow
  exact ⟨opening :: (taken ++ [closing]), more, by simp, by simp, .block opens derives closes, nofun⟩

omit atEnd in
private theorem drop_condition (first last : Token) (tokens rest : List Token) :
    (first :: (tokens ++ last :: rest)).drop (tokens.length + 2) = rest := by
  rw [List.drop_succ_cons, List.drop_length_add_append]
  rfl

private theorem follows_while {keyword : Token} {rest after : List Token} (isWhile : keyword.kind = .kwWhile)
    (same : after = rest.drop (Stmt.readCondition stop .noWhileCondition .openWhileCondition rest).width)
    (inner : Follows after (Stmt.read stop false after)) :
    Follows (keyword :: rest) (Stmt.read stop false (keyword :: rest)) := by
  simp only [Stmt.read, isWhile, ← same]
  have candid := Passage.candid_ofReading
    (Stmt.readCondition stop .noWhileCondition .openWhileCondition rest).afterToken
  refine ⟨candid.andThen fun _ => inner.candid.map _, fun tree width clean => ?_⟩
  obtain ⟨test, taken, more, tested, looped, rfl⟩ := (Passage.andThen_eq_done candid).mp clean
  obtain ⟨taken, condition, rfl⟩ := Reading.afterToken_eq_done.mp (Passage.ofReading_eq_done.mp tested)
  obtain ⟨body, read, rfl⟩ := Passage.map_eq_done.mp looped
  obtain ⟨round, last, rfl, rfl, derived, follow⟩ := inner.leads _ _ read
  rw [condition, Reading.done_width] at same
  obtain ⟨first, tokens, closing, after, rfl, opens, derives, closes, rfl⟩ := readCondition_sound atEnd condition
  rw [drop_condition] at same
  subst same
  exact ⟨keyword :: first :: (tokens ++ closing :: round), last, by simp, by simp; omega,
    .whileLoop isWhile opens derives closes derived, follow⟩

private theorem follows_if {keyword : Token} {rest after : List Token} (isIf : keyword.kind = .kwIf)
    (same : after = rest.drop (Stmt.readCondition stop .noIfCondition .openIfCondition rest).width)
    (chosen : Follows after (Stmt.read stop false after))
    (other : ∀ middle other, after.drop (Stmt.read stop false after).width = middle :: other →
      Follows other (Stmt.read stop false other)) :
    Follows (keyword :: rest) (Stmt.read stop false (keyword :: rest)) := by
  subst same
  simp only [Stmt.read, isIf]
  have candid := Passage.candid_ofReading
    (Stmt.readCondition stop .noIfCondition .openIfCondition rest).afterToken
  refine ⟨candid.andThen fun _ => chosen.candid.andThen fun _ => ?_, fun tree width clean => ?_⟩
  · split
    next => exact Passage.candid_ofReading _
    next middle last follow =>
      split
      next => exact ((other middle last follow).candid.map _).afterToken
      next => exact Passage.candid_ofReading _
  obtain ⟨test, taken, more, tested, branches, rfl⟩ := (Passage.andThen_eq_done candid).mp clean
  obtain ⟨taken, condition, rfl⟩ := Reading.afterToken_eq_done.mp (Passage.ofReading_eq_done.mp tested)
  obtain ⟨first, width, more, read, branch, rfl⟩ := (Passage.andThen_eq_done chosen.candid).mp branches
  obtain ⟨tokens, last, split, rfl, consequence, greedy⟩ := chosen.leads _ _ read
  have remains : ((rest.drop (Stmt.readCondition stop .noIfCondition .openIfCondition rest).width).drop
      (Stmt.read stop false (rest.drop
        (Stmt.readCondition stop .noIfCondition .openIfCondition rest).width)).width) = last := by
    rw [read, Passage.done_width, split, List.drop_left]
  rw [condition, Reading.done_width] at split
  obtain ⟨opening, conditionTokens, closing, after, rfl, opens, derives, closes, rfl⟩ :=
    readCondition_sound atEnd condition
  rw [drop_condition] at split
  subst split
  split at branch
  next follow =>
    obtain rfl : last = [] := remains.symm.trans follow
    cases branch
    exact ⟨keyword :: opening :: (conditionTokens ++ closing :: tokens), [], by simp, by simp; omega,
      .ifThen isIf opens derives closes consequence, fun _ _ member => by cases member⟩
  next middle rest follow =>
    obtain rfl : last = middle :: rest := remains.symm.trans follow
    split at branch
    next isElse =>
      have complete : awaitsElse first = false :=
        Bool.eq_false_iff.mpr fun awaits => greedy awaits middle rfl isElse
      obtain ⟨width, shifted, rfl⟩ := Passage.afterToken_eq_done.mp branch
      obtain ⟨second, inner, rfl⟩ := Passage.map_eq_done.mp shifted
      obtain ⟨others, last, rfl, rfl, alternative, follows⟩ := (other _ _ follow).leads _ _ inner
      exact ⟨keyword :: opening :: (conditionTokens ++ closing :: (tokens ++ middle :: others)), last, by simp,
        by simp; omega, .ifElse isIf opens derives closes consequence complete isElse alternative, follows⟩
    next notElse =>
      cases branch
      refine ⟨keyword :: opening :: (conditionTokens ++ closing :: tokens), middle :: rest, by simp, by simp; omega,
        .ifThen isIf opens derives closes consequence, fun _ next member => ?_⟩
      cases member
      exact notElse

/-- A declaration that reports no error was derived, and took at least one token. -/
def AccountsOne (tokens : List Token) (batch : Batch) : Prop :=
  batch.errors = [] → ∃ tree taken rest, batch = .done [tree] taken.length ∧ tokens = taken ++ rest ∧
    taken ≠ [] ∧ Declaration taken tree

omit atEnd in
/-- The declarations after the first one start where its derivation ends. -/
private theorem AccountsOne.split {first : Token} {rest : List Token} {head : Batch}
    (one : AccountsOne (first :: rest) head) (silent : head.errors = []) :
    ∃ tree taken, head = .done [tree] taken.length ∧ Declaration taken tree ∧
      first :: rest = taken ++ rest.drop (head.width - 1) := by
  obtain ⟨tree, taken, after, rfl, split, nonempty, declaration⟩ := one silent
  obtain ⟨keyword, taken, rfl⟩ := List.exists_cons_of_ne_nil nonempty
  obtain ⟨rfl, rfl⟩ := List.cons.inj split
  have remains : (taken ++ after).drop ((Batch.done [tree] (first :: taken).length).width - 1) = after :=
    List.drop_left
  exact ⟨tree, first :: taken, rfl, declaration, congrArg (first :: taken ++ ·) remains.symm⟩

omit atEnd in
private theorem AccountsOne.append {first : Token} {rest : List Token} {head tail : Batch}
    (one : AccountsOne (first :: rest) head) (others : Accounts (rest.drop (head.width - 1)) tail) :
    Accounts (first :: rest) (head ++ tail) := by
  intro silent
  obtain ⟨headSilent, tailSilent⟩ := List.append_eq_nil_iff.mp silent
  obtain ⟨tree, taken, same, declaration, split⟩ := one.split headSilent
  obtain ⟨more, last, remains, length, program⟩ := others tailSilent
  refine ⟨taken ++ more, last, by rw [split, remains, List.append_assoc], ?_, ?_⟩
  · rw [List.length_append, length, same]
    rfl
  · rw [same]
    exact .cons declaration program

omit atEnd in
private theorem accounts_statement {tokens : List Token} {passage : Passage Stmt} (follows : Follows tokens passage) :
    AccountsOne tokens (Batch.ofPassage tokens passage) := by
  intro silent
  obtain ⟨tree, width, read, same⟩ := Batch.ofPassage_silent follows.candid silent
  obtain ⟨taken, rest, split, rfl, statement, _⟩ := follows.leads _ _ read
  exact ⟨tree, taken, rest, same, split, statement.nonempty, .statement statement⟩

private theorem accounts_declaration {keyword : Token} {rest : List Token} (isVar : keyword.kind = .kwVar) :
    AccountsOne (keyword :: rest)
      (Batch.ofPassage (keyword :: rest) (.ofReading false (Stmt.readDeclaration stop rest).afterToken)) := by
  intro silent
  obtain ⟨tree, width, read, same⟩ := Batch.ofPassage_silent (Passage.candid_ofReading _) silent
  obtain ⟨width, clean, rfl⟩ := Reading.afterToken_eq_done.mp (Passage.ofReading_eq_done.mp read)
  obtain ⟨taken, more, split, length, declaration⟩ := readDeclaration_sound atEnd isVar clean
  refine ⟨tree, taken, more, by rw [same, length], split, ?_, declaration⟩
  rintro rfl
  cases length

/-- Statements, blocks and declarations are all read by the grammar. -/
theorem read_follows_each :
    (∀ pending tokens, pending = false → Follows tokens (Stmt.read stop pending tokens)) ∧
    (∀ pending tokens, pending = false → Accounts tokens (Stmt.readBlock stop pending tokens)) ∧
    ∀ pending first rest, pending = false →
      AccountsOne (first :: rest) (Stmt.readOne stop pending first rest) := by
  apply Stmt.read.mutual_induct stop
  case case1 =>
    rintro pending rfl
    rw [Stmt.read]
    exact .ofReading fun tree width clean => absurd clean Reading.fail_ne_done
  case case2 =>
    rintro pending keyword rest isPrint rfl
    simp only [Stmt.read, isPrint]
    exact follows_print atEnd isPrint
  case case3 =>
    rintro pending keyword rest isBreak rfl
    simp only [Stmt.read, isBreak]
    exact follows_break atEnd isBreak
  case case4 =>
    rintro pending opening rest opens inner rfl
    simp only [Stmt.read, opens]
    exact follows_block atEnd opens (inner rfl)
  case case5 =>
    rintro pending keyword rest isIf condition chosen _ other rfl
    exact follows_if atEnd isIf rfl (chosen false rfl) fun middle last follow => other false false middle last follow rfl
  case case6 =>
    rintro pending keyword rest isWhile condition inner rfl
    exact follows_while atEnd isWhile rfl (inner false rfl)
  case case7 =>
    rintro pending first rest notPrint notBreak notBlock notIf notWhile rfl
    rw [Stmt.read]
    split
    all_goals first | contradiction | exact follows_expression atEnd
  case case8 =>
    intro pending _ _
    rw [Stmt.readBlock]
    exact ⟨[], [], rfl, rfl, .nil⟩
  case case9 =>
    intro pending first rest closes _ _
    rw [Stmt.readBlock, if_pos closes]
    exact ⟨[], first :: rest, rfl, rfl, .nil⟩
  case case10 =>
    rintro pending first rest more head one inner rfl silent
    rw [Stmt.readBlock, if_neg more] at silent ⊢
    exact (one rfl).append (inner rfl) silent
  case case11 =>
    rintro pending first rest inner rfl
    rw [Stmt.readOne]
    split
    next isVar => exact accounts_declaration atEnd isVar
    next => exact accounts_statement (inner rfl)

/-- Declarations that report no error up to the end of the source were derived from all its tokens. -/
theorem readAll_sound (tokens : List Token) (silent : (Stmt.readAll stop tokens).errors = []) :
    Program tokens (Stmt.readAll stop tokens).statements := by
  induction tokens using Stmt.readAll.induct stop with
  | case1 =>
    rw [Stmt.readAll]
    exact .nil
  | case2 first rest head ih =>
    rw [Stmt.readAll] at silent ⊢
    obtain ⟨headSilent, tailSilent⟩ := List.append_eq_nil_iff.mp silent
    obtain ⟨tree, taken, same, declaration, split⟩ :=
      ((read_follows_each atEnd).2.2 false first rest rfl).split headSilent
    have program := ih tailSilent
    rw [split]
    show Program _ (head.statements ++ _)
    rw [show head.statements = [tree] from congrArg Batch.statements same]
    exact .cons declaration program

end Soundness

def statementStarters : List Kind :=
  [.kwPrint, .leftBrace, .kwIf, .kwWhile, .kwBreak] ++ starters .assignment

theorem Statement.starts {tokens : List Token} {tree : Stmt} (statement : Statement tokens tree) :
    ∃ first rest, tokens = first :: rest ∧ first.kind ∈ statementStarters := by
  cases statement with
  | expression value ends =>
    obtain ⟨first, rest, rfl, member⟩ := value.starts
    exact ⟨first, _, rfl, List.mem_append_right _ member⟩
  | print kind | block kind | ifThen kind | ifElse kind | whileLoop kind | breakLoop kind =>
    exact ⟨_, _, rfl, by rw [kind]; decide⟩

theorem Declaration.starts {tokens : List Token} {tree : Stmt} (declaration : Declaration tokens tree) :
    ∃ first rest, tokens = first :: rest ∧ first.kind ∈ Kind.kwVar :: statementStarters := by
  cases declaration with
  | declare kind | withValue kind => exact ⟨_, _, rfl, by rw [kind]; decide⟩
  | statement inner =>
    obtain ⟨first, rest, same, member⟩ := inner.starts
    exact ⟨first, rest, same, List.mem_cons_of_mem _ member⟩

section Completeness
variable {stop : Token}

private theorem readClosed_done {fault : SyntaxFault} {tokens : List Token} {value : Expr} {semicolon : Token}
    (derives : Expression tokens value) (ends : semicolon.kind = .semicolon) (rest : List Token) :
    Stmt.readClosed stop fault (tokens ++ semicolon :: rest) = .done value (tokens.length + 1) := by
  rw [Stmt.readClosed, derives.complete _ (closes_of_kind rest (.inl ends)), Reading.closedBy_done List.drop_left ends]

private theorem readCondition_done {unopened unclosed : SyntaxFault} {tokens : List Token} {value : Expr}
    {first last : Token} (opens : first.kind = .leftParen) (derives : Expression tokens value)
    (closes : last.kind = .rightParen) (rest : List Token) :
    Stmt.readCondition stop unopened unclosed (first :: (tokens ++ last :: rest)) =
      .done value (tokens.length + 2) := by
  rw [Stmt.readCondition, Reading.expect_cons _ opens, Reading.done_andThen, List.tail_cons,
    derives.complete _ (closes_of_kind rest (.inr closes)), Reading.closedBy_done List.drop_left closes, Reading.after_done]
  congr 1
  omega

/-- A statement that starts like an expression is read as one. -/
theorem read_of_expression {first : Token} (rest : List Token) (member : first.kind ∈ starters .assignment) :
    Stmt.read stop false (first :: rest) =
      .ofReading false ((Stmt.readClosed stop .openExpression (first :: rest)).map .expression) := by
  have apart : ∀ kind ∈ starters .assignment,
      kind ≠ .kwPrint ∧ kind ≠ .kwBreak ∧ kind ≠ .leftBrace ∧ kind ≠ .kwIf ∧ kind ≠ .kwWhile := by decide
  obtain ⟨notPrint, notBreak, notBlock, notIf, notWhile⟩ := apart _ member
  rw [Stmt.read]
  split
  all_goals first | contradiction | rfl

/-- No declaration starts with what would go on with the statement before it, or close the block. -/
theorem Declaration.apart {first : Token} {rest : List Token} {tree : Stmt}
    (declaration : Declaration (first :: rest) tree) : first.kind ≠ .rightBrace ∧ first.kind ≠ .kwElse := by
  obtain ⟨keyword, more, same, member⟩ := declaration.starts
  obtain ⟨rfl, rfl⟩ := List.cons.inj same
  have apart : ∀ kind ∈ Kind.kwVar :: statementStarters, kind ≠ .rightBrace ∧ kind ≠ .kwElse := by decide
  exact apart _ member

/-- An `else` after declarations in a row is the first token behind them, or there is none. -/
theorem Program.settled_before {tokens : List Token} {trees : List Stmt} (program : Program tokens trees)
    (tree : Stmt) {rest : List Token} (apart : ∀ next ∈ rest.head?, next.kind ≠ .kwElse) :
    Settled tree (tokens ++ rest) := by
  intro _ next member
  cases program with
  | nil => exact apart next member
  | cons first others =>
    obtain ⟨keyword, more, rfl, _⟩ := first.starts
    cases member
    exact first.apart.2

theorem Program.settled {tokens : List Token} {trees : List Stmt} (program : Program tokens trees)
    (tree : Stmt) {rest : List Token} (closes : ∀ next ∈ rest.head?, next.kind = .rightBrace) :
    Settled tree (tokens ++ rest) := by
  apply program.settled_before tree
  intro next member
  rw [closes next member]
  decide

private theorem read_expression_done {tokens : List Token} {value : Expr} {semicolon : Token}
    (derives : Expression tokens value) (ends : semicolon.kind = .semicolon) (rest : List Token) :
    Stmt.read stop false (tokens ++ semicolon :: rest) = .done (.expression value) (tokens.length + 1) := by
  obtain ⟨first, more, rfl, member⟩ := derives.starts
  rw [List.cons_append, read_of_expression _ member, ← List.cons_append, readClosed_done derives ends rest]
  rfl

private theorem read_print_done {keyword : Token} {tokens : List Token} {value : Expr} {semicolon : Token}
    (isPrint : keyword.kind = .kwPrint) (derives : Expression tokens value) (ends : semicolon.kind = .semicolon)
    (rest : List Token) :
    Stmt.read stop false (keyword :: (tokens ++ semicolon :: rest)) = .done (.print value) (tokens.length + 2) := by
  simp only [Stmt.read, isPrint, readClosed_done derives ends]
  rfl

private theorem read_break_done {keyword semicolon : Token} (isBreak : keyword.kind = .kwBreak)
    (ends : semicolon.kind = .semicolon) (rest : List Token) :
    Stmt.read stop false (keyword :: semicolon :: rest) = .done (.breakLoop keyword) 2 := by
  simp only [Stmt.read, isBreak, Reading.expect_cons rest ends]
  rfl

private theorem read_block_done {first last : Token} {tokens rest : List Token} {statements : List Stmt}
    (opens : first.kind = .leftBrace) (closes : last.kind = .rightBrace)
    (body : Stmt.readBlock stop false (tokens ++ last :: rest) = .done statements tokens.length) :
    Stmt.read stop false (first :: (tokens ++ last :: rest)) = .done (.block statements) (tokens.length + 2) := by
  simp only [Stmt.read, opens, body, Batch.done, List.drop_left, Reading.expect_cons rest closes]
  rfl

def elseBranch (stop : Token) (test : Expr) (rest : List Token) (chosen : Stmt) (pending : Bool) : Passage Stmt :=
  match rest with
  | [] => .ofReading pending (.done (.ifThen test chosen) 0)
  | keyword :: other =>
    if keyword.kind = .kwElse then ((Stmt.read stop pending other).map (.ifElse test chosen)).afterToken
    else .ofReading pending (.done (.ifThen test chosen) 0)

theorem elseBranch_alone {rest : List Token} (test : Expr) (chosen : Stmt)
    (alone : ∀ next ∈ rest.head?, next.kind ≠ .kwElse) :
    elseBranch stop test rest chosen false = .done (.ifThen test chosen) 0 := by
  cases rest with
  | nil => rfl
  | cons next rest =>
    rw [elseBranch, if_neg (alone next rfl)]
    rfl

/-- An `if` is its header, its consequence and what follows that. -/
theorem read_of_if {keyword : Token} (isIf : keyword.kind = .kwIf) (pending : Bool) (rest : List Token) :
    let condition := Stmt.readCondition stop .noIfCondition .openIfCondition rest
    let after := rest.drop condition.width
    Stmt.read stop pending (keyword :: rest) =
      (Passage.ofReading pending condition.afterToken).andThen fun test pending =>
        (Stmt.read stop pending after).andThen
          (elseBranch stop test (after.drop (Stmt.read stop pending after).width)) := by
  simp only [Stmt.read, isIf]
  congr 1
  funext test pending
  congr 1
  funext chosen pending
  split
  next follow =>
    rw [follow]
    rfl
  next middle other follow =>
    rw [follow]
    rfl

section Headers
variable {keyword first last middle : Token} {tokens after other : List Token} {condition : Expr}
  {body chosen second : Stmt} {width more : Nat}

/-- Behind its header, a loop is what is read of its body. -/
theorem read_while_eq (isWhile : keyword.kind = .kwWhile) (opens : first.kind = .leftParen)
    (test : Expression tokens condition) (closes : last.kind = .rightParen) :
    Stmt.read stop false (keyword :: first :: (tokens ++ last :: after)) =
      ((Stmt.read stop false after).map (.whileLoop condition)).after (tokens.length + 3) := by
  simp only [Stmt.read, isWhile, readCondition_done opens test closes after, Reading.done_width, drop_condition]
  rfl

/-- Behind its header, an `if` is what is read of its consequence and what follows that. -/
theorem read_if_eq (isIf : keyword.kind = .kwIf) (opens : first.kind = .leftParen)
    (test : Expression tokens condition) (closes : last.kind = .rightParen) :
    Stmt.read stop false (keyword :: first :: (tokens ++ last :: after)) =
      ((Stmt.read stop false after).andThen
        (elseBranch stop condition (after.drop (Stmt.read stop false after).width))).after (tokens.length + 3) := by
  rw [read_of_if isIf, readCondition_done opens test closes after, Reading.afterToken_done, ← Passage.done,
    Passage.done_andThen, Reading.done_width, drop_condition]

/-- Behind a consequence that was read, an `if` with an `else` is what is read of its alternative. -/
theorem read_ifElse_eq (isIf : keyword.kind = .kwIf) (opens : first.kind = .leftParen)
    (test : Expression tokens condition) (closes : last.kind = .rightParen)
    (inner : Stmt.read stop false after = .done chosen width) (follows : after.drop width = middle :: other)
    (isElse : middle.kind = .kwElse) :
    Stmt.read stop false (keyword :: first :: (tokens ++ last :: after)) =
      ((((Stmt.read stop false other).map (.ifElse condition chosen)).afterToken).after width).after
        (tokens.length + 3) := by
  rw [read_if_eq isIf opens test closes, inner, Passage.done_andThen, Passage.done_width, follows, elseBranch,
    if_pos isElse]

private theorem read_while_done (isWhile : keyword.kind = .kwWhile) (opens : first.kind = .leftParen)
    (test : Expression tokens condition) (closes : last.kind = .rightParen)
    (inner : Stmt.read stop false after = .done body width) :
    Stmt.read stop false (keyword :: first :: (tokens ++ last :: after)) =
      .done (.whileLoop condition body) (tokens.length + 3 + width) := by
  rw [read_while_eq isWhile opens test closes, inner]
  rfl

private theorem read_if_done (isIf : keyword.kind = .kwIf) (opens : first.kind = .leftParen)
    (test : Expression tokens condition) (closes : last.kind = .rightParen)
    (inner : Stmt.read stop false after = .done chosen width)
    (alone : ∀ next ∈ (after.drop width).head?, next.kind ≠ .kwElse) :
    Stmt.read stop false (keyword :: first :: (tokens ++ last :: after)) =
      .done (.ifThen condition chosen) (tokens.length + 3 + width) := by
  rw [read_if_eq isIf opens test closes, inner, Passage.done_andThen, Passage.done_width,
    elseBranch_alone condition chosen alone]
  rfl

private theorem read_ifElse_done (isIf : keyword.kind = .kwIf) (opens : first.kind = .leftParen)
    (test : Expression tokens condition) (closes : last.kind = .rightParen)
    (inner : Stmt.read stop false after = .done chosen width) (follows : after.drop width = middle :: other)
    (isElse : middle.kind = .kwElse) (alternative : Stmt.read stop false other = .done second more) :
    Stmt.read stop false (keyword :: first :: (tokens ++ last :: after)) =
      .done (.ifElse condition chosen second) (tokens.length + 3 + width + 1 + more) := by
  rw [read_ifElse_eq isIf opens test closes inner follows isElse, alternative, Passage.map_done,
    Passage.afterToken_done, Passage.after_done, Passage.after_done]
  congr 1
  omega

end Headers

private theorem readDeclaration_done {name semicolon : Token} (isName : name.kind = .identifier)
    (ends : semicolon.kind = .semicolon) (rest : List Token) :
    Stmt.readDeclaration stop (name :: semicolon :: rest) = .done (.declare name none) 2 := by
  have notEqual : ¬ semicolon.kind = .equal := by rw [ends]; decide
  simp only [Stmt.readDeclaration, if_pos isName, if_neg notEqual]
  rw [Reading.closedBy_done rfl ends]
  rfl

private theorem readDeclaration_done_value {name equals semicolon : Token} {tokens : List Token} {value : Expr}
    (isName : name.kind = .identifier) (isEqual : equals.kind = .equal) (derives : Expression tokens value)
    (ends : semicolon.kind = .semicolon) (rest : List Token) :
    Stmt.readDeclaration stop (name :: equals :: (tokens ++ semicolon :: rest)) =
      .done (.declare name (some value)) (tokens.length + 3) := by
  simp only [Stmt.readDeclaration, if_pos isName, if_pos isEqual,
    derives.complete _ (closes_of_kind rest (.inl ends)), Reading.map_done, Reading.afterToken_done]
  rw [Reading.closedBy_done (by rw [List.drop_succ_cons, List.drop_left]) ends]
  rfl

theorem readOne_of_statement {first : Token} {rest : List Token} {tree : Stmt} {width : Nat}
    (member : first.kind ∈ statementStarters) (read : Stmt.read stop false (first :: rest) = .done tree width) :
    Stmt.readOne stop false first rest = .done [tree] width := by
  have apart : ∀ kind ∈ statementStarters, kind ≠ .kwVar := by decide
  rw [Stmt.readOne, if_neg (apart _ member), read, Batch.ofPassage_done]

theorem readOne_of_declaration {first : Token} {rest : List Token} {tree : Stmt} {width : Nat}
    (isVar : first.kind = .kwVar) (read : Stmt.readDeclaration stop rest = .done tree width) :
    Stmt.readOne stop false first rest = .done [tree] (width + 1) := by
  rw [Stmt.readOne, if_pos isVar, read, Reading.afterToken_done, ← Passage.done, Batch.ofPassage_done]

mutual

theorem Statement.read_done {tokens : List Token} {tree : Stmt} (statement : Statement tokens tree)
    {rest : List Token} (settled : Settled tree rest) :
    Stmt.read stop false (tokens ++ rest) = .done tree tokens.length := by
  cases statement with
  | expression value ends =>
    rw [List.append_assoc, List.singleton_append, read_expression_done value ends, List.length_append]
    rfl
  | print isPrint value ends =>
    rw [List.cons_append, List.append_assoc, List.singleton_append, read_print_done isPrint value ends,
      List.length_cons, List.length_append]
    rfl
  | @block tokens statements first last opens body closes =>
    have inner : Stmt.readBlock stop false (tokens ++ last :: rest) = .done statements tokens.length :=
      body.readBlock_done (fun next member => by cases member; exact closes)
    rw [List.cons_append, List.append_assoc, List.singleton_append, read_block_done opens closes inner,
      List.length_cons, List.length_append]
    rfl
  | @ifThen tokens condition chosen tree keyword first last isIf opens test closes consequence =>
    have alone : ∀ next ∈ rest.head?, next.kind ≠ .kwElse := settled rfl
    have inner : Stmt.read stop false (chosen ++ rest) = .done tree chosen.length :=
      consequence.read_done fun _ => alone
    have follows : (chosen ++ rest).drop chosen.length = rest := List.drop_left
    rw [List.cons_append, List.cons_append, List.append_assoc, List.cons_append,
      read_if_done isIf opens test closes inner (by rwa [follows])]
    congr 1
    simp only [List.length_cons, List.length_append]
    omega
  | @ifElse tokens condition chosen tree other second keyword first last middle isIf opens test closes consequence
      complete isElse alternative =>
    have inner : Stmt.read stop false (chosen ++ middle :: (other ++ rest)) = .done tree chosen.length :=
      consequence.read_done (settled_of_complete complete _)
    have otherwise : Stmt.read stop false (other ++ rest) = .done second other.length :=
      alternative.read_done settled
    simp only [List.cons_append, List.append_assoc]
    rw [read_ifElse_done isIf opens test closes inner List.drop_left isElse otherwise]
    congr 1
    simp only [List.length_cons, List.length_append]
    omega
  | @whileLoop tokens condition round tree keyword first last isWhile opens test closes body =>
    have inner : Stmt.read stop false (round ++ rest) = .done tree round.length := body.read_done settled
    simp only [List.cons_append, List.append_assoc]
    rw [read_while_done isWhile opens test closes inner]
    congr 1
    simp only [List.length_cons, List.length_append]
    omega
  | breakLoop isBreak ends => exact read_break_done isBreak ends rest

theorem Declaration.readOne_done {tokens : List Token} {tree : Stmt}
    (declaration : Declaration tokens tree) {first : Token} {more : List Token} (same : tokens = first :: more)
    {rest : List Token} (settled : Settled tree rest) :
    Stmt.readOne stop false first (more ++ rest) = .done [tree] tokens.length := by
  cases declaration with
  | declare isVar isName ends =>
    cases same
    exact readOne_of_declaration isVar (readDeclaration_done isName ends rest)
  | withValue isVar isName isEqual value ends =>
    cases same
    simp only [List.cons_append, List.append_assoc, List.nil_append]
    rw [readOne_of_declaration isVar (readDeclaration_done_value isName isEqual value ends rest)]
    congr 1
    simp only [List.length_cons, List.length_append, List.length_nil]
  | statement inner =>
    have read := inner.read_done settled
    obtain ⟨keyword, others, split, member⟩ := inner.starts
    obtain ⟨rfl, rfl⟩ := List.cons.inj (same.symm.trans split)
    rw [same] at read ⊢
    exact readOne_of_statement member read

theorem Program.readBlock_done {tokens : List Token} {trees : List Stmt} (program : Program tokens trees)
    {rest : List Token} (closes : ∀ next ∈ rest.head?, next.kind = .rightBrace) :
    Stmt.readBlock stop false (tokens ++ rest) = .done trees tokens.length := by
  cases program with
  | nil =>
    cases rest with
    | nil =>
      rw [List.append_nil, Stmt.readBlock]
      rfl
    | cons next rest =>
      rw [List.nil_append, Stmt.readBlock, if_pos (closes next rfl)]
      rfl
  | @cons before tree after trees first others =>
    have tail : Stmt.readBlock stop false (after ++ rest) = .done trees after.length := others.readBlock_done closes
    obtain ⟨keyword, more, rfl, _⟩ := first.starts
    have head : Stmt.readOne stop false keyword (more ++ (after ++ rest)) = .done [tree] (more.length + 1) :=
      first.readOne_done rfl (others.settled tree closes)
    have remains : (more ++ (after ++ rest)).drop more.length = after ++ rest := List.drop_left
    rw [List.append_assoc, List.cons_append, Stmt.readBlock, if_neg first.apart.1]
    simp only [head, Batch.done, Nat.add_sub_cancel, remains, tail]
    rw [← Batch.done, ← Batch.done, Batch.done_append, List.length_append, List.length_cons]
    rfl

end

end Completeness

end Lox.Grammar
