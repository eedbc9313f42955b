import Lox.Proofs.ExpressionGrammar
import Lox.Stmt.Reader

/-! A clause ends with its first semicolon. Reading a statement without a body never
goes on after its clause, however it fails, and blames only tokens of the clause. -/

namespace Lox

theorem kind_apart {token : Token} {kind other : Kind} (same : token.kind = kind) (apart : kind ≠ other) :
    token.kind ≠ other :=
  fun equal => apart (same.symm.trans equal)

/-- The tokens up to the first semicolon, or up to the end if there is none. -/
def clause (stop : Token) : List Token → List Token
  | [] => [stop]
  | first :: rest => if first.kind = .semicolon then [first] else first :: clause stop rest

section Clause
variable {stop first : Token} {tokens rest : List Token} {width : Nat}

theorem clause_cons (apart : first.kind ≠ .semicolon) (rest : List Token) :
    clause stop (first :: rest) = first :: clause stop rest := if_neg apart

private theorem clause_pos (stop : Token) (tokens : List Token) : 0 < (clause stop tokens).length := by
  cases tokens with
  | nil => exact Nat.one_pos
  | cons first rest =>
    rw [clause]
    split
    next => exact Nat.one_pos
    next => exact Nat.succ_pos _

private theorem mem_clause_head (stop first : Token) (rest : List Token) : first ∈ clause stop (first :: rest) := by
  rw [clause]
  split
  next => exact List.mem_singleton_self first
  next => exact List.mem_cons_self

private theorem clause_drop (inside : width < (clause stop tokens).length) :
    clause stop (tokens.drop width) = (clause stop tokens).drop width := by
  induction tokens generalizing width with
  | nil =>
    obtain rfl := Nat.lt_one_iff.mp inside
    rfl
  | cons first rest ih =>
    cases width with
    | zero => rfl
    | succ width =>
      by_cases closes : first.kind = .semicolon
      · rw [clause, if_pos closes] at inside
        exact absurd inside (by simp)
      · rw [clause_cons closes] at inside ⊢
        exact ih (Nat.lt_of_succ_lt_succ inside)

private theorem mem_clause_of_drop (inside : width < (clause stop tokens).length) {token : Token}
    (member : token ∈ clause stop (tokens.drop width)) : token ∈ clause stop tokens := by
  rw [clause_drop inside] at member
  exact List.mem_of_mem_drop member

private theorem mem_clause_of_tail (apart : first.kind ≠ .semicolon) {token : Token} (member : token ∈ clause stop rest) :
    token ∈ clause stop (first :: rest) := by
  rw [clause_cons apart]
  exact List.mem_cons_of_mem first member

end Clause

namespace Reading
variable {α β : Type} {stop first : Token} {blamed tokens rest : List Token} {reading : Reading α} {fault : SyntaxFault}

/-- A reading that does not take the last token of its clause, and blames no other tokens than some. -/
structure Stays (stop : Token) (blamed tokens : List Token) (reading : Reading α) : Prop where
  inside : reading.width < (clause stop tokens).length
  fails : ∀ error, reading.result = .error error → error.token ∈ blamed
  notes : ∀ error, reading.note = some error → error.token ∈ blamed

private theorem Stays.weaken {others : List Token} (stays : Stays stop blamed tokens reading)
    (covers : ∀ token ∈ blamed, token ∈ others) : Stays stop others tokens reading :=
  ⟨stays.inside, fun error failed => covers _ (stays.fails error failed),
    fun error noticed => covers _ (stays.notes error noticed)⟩

theorem Stays.done (value : α) : Stays stop blamed tokens (done value 0) :=
  ⟨clause_pos stop tokens, fun _ failed => (by cases failed), fun _ noticed => (by cases noticed)⟩

private theorem Stays.one (apart : first.kind ≠ .semicolon) (value : α) :
    Stays stop blamed (first :: rest) (Reading.done value 1) := by
  refine ⟨?_, fun _ failed => (by cases failed), fun _ noticed => (by cases noticed)⟩
  rw [clause_cons apart]
  exact Nat.succ_lt_succ (clause_pos stop rest)

theorem Stays.fail {token : Token} (member : token ∈ blamed) :
    Stays stop blamed tokens (fail token fault : Reading α) := by
  refine ⟨clause_pos stop tokens, ?_, fun _ noticed => (by cases noticed)⟩
  intro error failed
  cases failed
  exact member

theorem Stays.noted {error : SyntaxError} (member : error.token ∈ blamed) (value : α) :
    Stays stop blamed tokens (noted value error) := by
  refine ⟨clause_pos stop tokens, fun _ failed => (by cases failed), ?_⟩
  intro other noticed
  cases noticed
  exact member

theorem Stays.map (stays : Stays stop blamed tokens reading) (change : α → β) :
    Stays stop blamed tokens (reading.map change) := by
  refine ⟨stays.inside, ?_, stays.notes⟩
  intro error failed
  obtain ⟨result, width, note⟩ := reading
  cases result with
  | ok => cases failed
  | error =>
    cases failed
    exact stays.fails error rfl

theorem Stays.afterToken (stays : Stays stop blamed rest reading) (apart : first.kind ≠ .semicolon) :
    Stays stop blamed (first :: rest) reading.afterToken := by
  refine ⟨?_, stays.fails, stays.notes⟩
  rw [clause_cons apart]
  exact Nat.succ_lt_succ stays.inside

theorem Stays.andThen {next : α → Reading β} (stays : Stays stop blamed tokens reading)
    (further : ∀ value, Stays stop blamed (tokens.drop reading.width) (next value)) :
    Stays stop blamed tokens (reading.andThen next) := by
  obtain ⟨result, width, note⟩ := reading
  cases result with
  | error error =>
    refine ⟨stays.inside, ?_, stays.notes⟩
    intro other failed
    cases failed
    exact stays.fails error rfl
  | ok value =>
    refine ⟨?_, (further value).fails, ?_⟩
    · have inside : width < (clause stop tokens).length := stays.inside
      have more : (next value).width < (clause stop (tokens.drop width)).length := (further value).inside
      rw [clause_drop inside, List.length_drop] at more
      show width + (next value).width < _
      omega
    · intro error noticed
      obtain before | ⟨_, after⟩ := Option.or_eq_some_iff.mp noticed
      · exact stays.notes error before
      · exact (further value).notes error after

theorem Stays.next (stays : Stays stop (clause stop rest) rest reading) (apart : first.kind ≠ .semicolon) :
    Stays stop (clause stop (first :: rest)) (first :: rest) reading.afterToken :=
  (stays.weaken fun _ => mem_clause_of_tail apart).afterToken apart

private theorem Stays.further {width : Nat} (stays : Stays stop (clause stop (tokens.drop width)) (tokens.drop width) reading)
    (inside : width < (clause stop tokens).length) : Stays stop (clause stop tokens) (tokens.drop width) reading :=
  stays.weaken fun _ => mem_clause_of_drop inside

private theorem expect_stays {kind : Kind} (apart : kind ≠ .semicolon)
    (covers : ∀ token ∈ clause stop tokens, token ∈ blamed) :
    Stays stop blamed tokens (expect stop kind fault tokens) := by
  cases tokens with
  | nil =>
    rw [expect]
    split
    next => exact .done ()
    next => exact .fail (covers stop (List.mem_singleton_self stop))
  | cons first rest =>
    rw [expect]
    split
    next same => exact .one (by rw [same]; exact apart) ()
    next => exact .fail (covers first (mem_clause_head stop first rest))

theorem Stays.closedBy {kind : Kind} (stays : Stays stop blamed tokens reading) (apart : kind ≠ .semicolon)
    (covers : ∀ token ∈ clause stop tokens, token ∈ blamed) :
    Stays stop blamed tokens (reading.closedBy stop kind fault tokens) :=
  stays.andThen fun value => (expect_stays apart fun token member =>
    covers token (mem_clause_of_drop stays.inside member)).map fun _ => value

end Reading

open Reading

private theorem Expr.assignTo_stays {stop equals : Token} {blamed : List Token} (member : equals ∈ blamed) (left value : Expr)
    (tokens : List Token) : Stays stop blamed tokens (Expr.assignTo left equals value) := by
  cases left with
  | var name => exact .done _
  | _ => exact .noted member _

private theorem not_semicolon_of_operator {level : Level} {kind : Kind} (isOperator : level.operators.contains kind = true) :
    kind ≠ .semicolon := by
  intro same
  subst same
  cases level <;> exact absurd isOperator (by decide)

private theorem not_semicolon_of_dangling {level : Level} {kind : Kind} (dangles : level.dangles kind = true) : kind ≠ .semicolon := by
  intro same
  subst same
  cases level <;> exact absurd dangles (by decide)

private theorem not_semicolon_of_unary {kind : Kind} (isOperator : Level.unaryOperators.contains kind = true) : kind ≠ .semicolon := by
  intro same
  subst same
  exact absurd isOperator (by decide)

private theorem Expr.assign_stays {stop equals : Token} {rest : List Token} {value : Reading Expr} (left : Expr)
    (isEqual : equals.kind = .equal) (stays : Stays stop (clause stop rest) rest value) :
    Stays stop (clause stop (equals :: rest)) (equals :: rest) (value.afterToken.andThen (assignTo left equals)) := by
  have apart : equals.kind ≠ .semicolon := kind_apart isEqual (by decide)
  exact (stays.next apart).andThen fun value => assignTo_stays (mem_clause_head stop equals rest) left value _

private theorem Expr.dangling_stays {stop first : Token} {rest : List Token} {right : Reading Expr}
    {chain : Expr → Reading Expr} (apart : first.kind ≠ .semicolon) (stays : Stays stop (clause stop rest) rest right)
    (further : ∀ left, Stays stop (clause stop (rest.drop right.width)) (rest.drop right.width) (chain left)) :
    Stays stop (clause stop (first :: rest)) (first :: rest)
      ((right.afterToken.andThen fun operand => noted (.dangling first operand) ⟨first, .noLeftOperand⟩).andThen
        chain) := by
  have opening : Stays stop (clause stop (first :: rest)) (first :: rest)
      (right.afterToken.andThen fun operand => noted (Expr.dangling first operand) ⟨first, .noLeftOperand⟩) :=
    (stays.next apart).andThen fun operand => .noted (mem_clause_head stop first rest) _
  have width : (right.afterToken.andThen fun operand =>
      noted (Expr.dangling first operand) ⟨first, .noLeftOperand⟩).width = right.width + 1 := by
    obtain ⟨result, width, note⟩ := right
    cases result <;> rfl
  refine opening.andThen fun left => ?_
  have inside := opening.inside
  rw [width] at inside ⊢
  have chained : Stays stop (clause stop ((first :: rest).drop (right.width + 1)))
      ((first :: rest).drop (right.width + 1)) (chain left) := further left
  exact chained.further inside

/-- No part of an expression is read beyond its clause. -/
theorem Expr.read_stays_each (stop : Token) :
    (∀ tokens, Stays stop (clause stop tokens) tokens (Expr.read stop tokens)) ∧
    (∀ level tokens, Stays stop (clause stop tokens) tokens (Expr.readLevel stop level tokens)) ∧
    (∀ level left tokens, Stays stop (clause stop tokens) tokens (Expr.readChain stop level left tokens)) ∧
    ∀ first rest, Stays stop (clause stop (first :: rest)) (first :: rest) (Expr.readPrimary stop first rest) := by
  -- Only operators, parentheses, equals signs and operands are taken, and a failing reading takes nothing more.
  apply Expr.read.mutual_induct stop
  case case1 =>
    intro tokens target inner value
    rw [Expr.read]
    refine inner.andThen fun left => ?_
    split
    next => exact .done left
    next equals rest follow =>
      split
      next isEqual =>
        have assigned := assign_stays left isEqual (value equals rest follow)
        rw [← follow] at assigned
        exact assigned.further inner.inside
      next => exact .done left
  case case2 =>
    intro level
    rw [Expr.readLevel]
    exact .fail (List.mem_singleton_self stop)
  case case3 =>
    intro first rest isOperator inner
    rw [Expr.readLevel, if_pos isOperator]
    exact (inner.next (not_semicolon_of_unary isOperator)).map _
  case case4 =>
    intro first rest noOperator inner
    rw [Expr.readLevel, if_neg noOperator]
    exact inner
  case case5 =>
    intro level first rest dangles right inner chain
    rw [Expr.readLevel, if_pos dangles]
    exact dangling_stays (not_semicolon_of_dangling dangles) inner chain
  case case6 =>
    intro level first rest regular operand inner chain
    rw [Expr.readLevel, if_neg regular]
    exact inner.andThen fun left => (chain left).further inner.inside
  case case7 =>
    intro level left
    rw [Expr.readChain]
    exact .done left
  case case8 =>
    intro level left operator rest isOperator right inner chain
    rw [Expr.readChain, if_pos isOperator]
    have operand := inner.next (not_semicolon_of_operator isOperator)
    refine operand.andThen fun value => ?_
    have chained : Stays stop (clause stop ((operator :: rest).drop (right.width + 1)))
        ((operator :: rest).drop (right.width + 1)) _ := chain value
    exact chained.further operand.inside
  case case9 =>
    intro level left operator rest noOperator
    rw [Expr.readChain, if_neg noOperator]
    exact .done left
  case case16 =>
    intro first rest opens inner
    rw [Expr.readPrimary, opens]
    have apart : first.kind ≠ .semicolon := kind_apart opens (by decide)
    exact ((inner.closedBy (by decide) fun _ => id).map _).next apart
  case case17 =>
    intro first rest notFalse notTrue notNil notNumber notString notName notOpening
    rw [Expr.readPrimary]
    split
    all_goals first | contradiction | exact .fail (mem_clause_head stop first rest)
  all_goals
    intro first rest isAtom
    rw [Expr.readPrimary, isAtom]
    exact .one (by rw [isAtom]; decide) _

namespace Reading
variable {α β : Type} {stop first : Token} {tokens rest : List Token} {reading : Reading α} {fault : SyntaxFault}

structure Closing (stop : Token) (tokens : List Token) (reading : Reading α) : Prop where
  ends : ∀ value, reading.result = .ok value → reading.width = (clause stop tokens).length
  fails : ∀ error, reading.result = .error error →
    reading.width < (clause stop tokens).length ∧ error.token ∈ clause stop tokens
  notes : ∀ error, reading.note = some error → error.token ∈ clause stop tokens

private theorem Closing.fail {token : Token} (member : token ∈ clause stop tokens) :
    Closing stop tokens (fail token fault : Reading α) := by
  refine ⟨fun _ ok => (by cases ok), ?_, fun _ noticed => (by cases noticed)⟩
  intro error failed
  cases failed
  exact ⟨clause_pos stop tokens, member⟩

private theorem Closing.map (closing : Closing stop tokens reading) (change : α → β) :
    Closing stop tokens (reading.map change) := by
  obtain ⟨result, width, note⟩ := reading
  cases result with
  | error error =>
    refine ⟨fun _ ok => (by cases ok), ?_, closing.notes⟩
    intro other failed
    cases failed
    exact closing.fails error rfl
  | ok value => exact ⟨fun _ _ => closing.ends value rfl, fun _ failed => (by cases failed), closing.notes⟩

private theorem Closing.next (closing : Closing stop rest reading) (apart : first.kind ≠ .semicolon) :
    Closing stop (first :: rest) reading.afterToken := by
  have length : (clause stop (first :: rest)).length = (clause stop rest).length + 1 :=
    congrArg List.length (clause_cons apart rest)
  refine ⟨?_, ?_, ?_⟩
  · intro value ok
    rw [length, ← closing.ends value ok]
    rfl
  · intro error failed
    obtain ⟨inside, member⟩ := closing.fails error failed
    exact ⟨length ▸ Nat.succ_lt_succ inside, mem_clause_of_tail apart member⟩
  · intro error noticed
    exact mem_clause_of_tail apart (closing.notes error noticed)

private theorem Stays.close {next : α → Reading β} (stays : Stays stop (clause stop tokens) tokens reading)
    (closing : ∀ value, Closing stop (tokens.drop reading.width) (next value)) :
    Closing stop tokens (reading.andThen next) := by
  obtain ⟨result, width, note⟩ := reading
  cases result with
  | error error =>
    refine ⟨fun _ ok => (by cases ok), ?_, stays.notes⟩
    intro other failed
    cases failed
    exact ⟨stays.inside, stays.fails error rfl⟩
  | ok value =>
    have inside : width < (clause stop tokens).length := stays.inside
    have length : (clause stop (tokens.drop width)).length = (clause stop tokens).length - width := by
      rw [clause_drop inside, List.length_drop]
    refine ⟨?_, ?_, ?_⟩
    · intro last ok
      have more : (next value).width = (clause stop (tokens.drop width)).length := (closing value).ends last ok
      show width + (next value).width = _
      omega
    · intro error failed
      have more : (next value).width < (clause stop (tokens.drop width)).length := ((closing value).fails error failed).1
      refine ⟨?_, mem_clause_of_drop inside ((closing value).fails error failed).2⟩
      show width + (next value).width < _
      omega
    · intro error noticed
      obtain before | ⟨_, after⟩ := Option.or_eq_some_iff.mp noticed
      · exact stays.notes error before
      · exact mem_clause_of_drop inside ((closing value).notes error after)

private theorem expect_closing (atEnd : stop.kind = .eof) (tokens : List Token) :
    Closing stop tokens (expect stop .semicolon fault tokens) := by
  cases tokens with
  | nil =>
    rw [expect, if_neg (by rw [atEnd]; decide)]
    exact .fail (List.mem_singleton_self stop)
  | cons first rest =>
    rw [expect]
    split
    next same =>
      refine ⟨fun _ _ => ?_, fun _ failed => (by cases failed), fun _ noticed => (by cases noticed)⟩
      rw [clause, if_pos same]
      rfl
    next => exact .fail (mem_clause_head stop first rest)

/-- A semicolon is taken only at the end of the clause. -/
private theorem Stays.closedBySemicolon (stays : Stays stop (clause stop tokens) tokens reading) (atEnd : stop.kind = .eof) :
    Closing stop tokens (reading.closedBy stop .semicolon fault tokens) :=
  stays.close fun value => (expect_closing atEnd _).map fun _ => value

end Reading

section Statements
variable {stop : Token} (atEnd : stop.kind = .eof)
include atEnd

theorem Stmt.readClosed_closing (fault : SyntaxFault) (tokens : List Token) :
    Closing stop tokens (Stmt.readClosed stop fault tokens) :=
  ((Expr.read_stays_each stop).1 tokens).closedBySemicolon atEnd

theorem Stmt.readDeclaration_closing (tokens : List Token) :
    Closing stop tokens (Stmt.readDeclaration stop tokens) := by
  unfold Stmt.readDeclaration
  cases tokens with
  | nil => exact .fail (List.mem_singleton_self stop)
  | cons name rest =>
    dsimp only
    split
    next isName =>
      have apart : name.kind ≠ .semicolon := kind_apart isName (by decide)
      refine Closing.next ((Stays.closedBySemicolon ?_ atEnd).map _) apart
      split
      next => exact .done none
      next equals after =>
        split
        next isEqual =>
          have assigns : equals.kind ≠ .semicolon := kind_apart isEqual (by decide)
          exact (((Expr.read_stays_each stop).1 after).map some).next assigns
        next => exact .done none
    next => exact .fail (mem_clause_head stop name rest)

/-- A declaration without a body is one reading, which ends with its clause or fails inside it. -/
theorem Stmt.readOne_closing {first : Token} (rest : List Token)
    (simple : first.kind ≠ .leftBrace ∧ first.kind ≠ .kwIf ∧ first.kind ≠ .kwWhile) :
    ∃ reading, Stmt.readOne stop false first rest = .ofPassage (first :: rest) (.ofReading false reading) ∧
      Closing stop (first :: rest) reading := by
  obtain ⟨notBlock, notIf, notWhile⟩ := simple
  rw [Stmt.readOne]
  split
  next isVar =>
    have apart : first.kind ≠ .semicolon := kind_apart isVar (by decide)
    exact ⟨_, rfl, (readDeclaration_closing atEnd rest).next apart⟩
  next =>
    rw [Stmt.read]
    split
    next isPrint =>
      have apart : first.kind ≠ .semicolon := kind_apart isPrint (by decide)
      exact ⟨_, rfl, ((readClosed_closing atEnd _ rest).map _).next apart⟩
    next isBreak =>
      have apart : first.kind ≠ .semicolon := kind_apart isBreak (by decide)
      exact ⟨_, rfl, ((expect_closing atEnd rest).map _).next apart⟩
    next opens => exact absurd opens notBlock
    next isIf => exact absurd isIf notIf
    next isWhile => exact absurd isWhile notWhile
    next => exact ⟨_, rfl, (readClosed_closing atEnd _ (first :: rest)).map _⟩

end Statements

end Lox
