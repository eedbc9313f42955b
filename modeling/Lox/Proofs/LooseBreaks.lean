import Lox.Proofs.ConsistentRuns
import Lox.Proofs.ExecutionRefinement

/-! A `break` ends the innermost loop around it, and only one that stands in no loop
of its program can find none running. Loops are counted while a program runs, but
which loop a `break` ends can be seen from the program text. -/

namespace Lox

namespace Stmt

mutual

/-- The keywords of the breaks in a statement that stand in the body of no loop in it. -/
def looseBreaks : Stmt → List Token
  | breakLoop keyword => [keyword]
  | block body => looseBreaksAll body
  | ifThen _ consequence => consequence.looseBreaks
  | ifElse _ consequence alternative => consequence.looseBreaks ++ alternative.looseBreaks
  | whileLoop _ _ | expression _ | print _ | declare _ _ => []

def looseBreaksAll : List Stmt → List Token
  | [] => []
  | first :: rest => first.looseBreaks ++ looseBreaksAll rest

end

end Stmt

namespace Semantics

/-- How a statement may end in some depth of loops, if `loose` are the breaks that stand in no loop
of the statement. -/
inductive Outcome.Allowed (loops : Nat) (loose : List Token) : Outcome → Prop where
  | normal : Allowed loops loose .normal
  | broke (inside : 0 < loops) (present : loose ≠ []) : Allowed loops loose .broke
  | outside (noLoop : loops = 0) (present : keyword ∈ loose) :
      Allowed loops loose (.failed ⟨.breakOutsideLoop, keyword.line⟩)
  | failed (other : error.fault ≠ .breakOutsideLoop) : Allowed loops loose (.failed error)

namespace Outcome.Allowed
variable {loops : Nat} {loose more : List Token} {outcome : Outcome} {error : RuntimeError}

private theorem widen (allowed : outcome.Allowed loops loose) (among : loose ⊆ more) : outcome.Allowed loops more := by
  cases allowed with
  | normal => exact .normal
  | broke inside present =>
    refine .broke inside ?_
    rintro rfl
    exact present (List.subset_nil.mp among)
  | outside noLoop present => exact .outside noLoop (among present)
  | failed other => exact .failed other

private theorem inside_loop (allowed : (Outcome.failed error).Allowed loops loose) (inside : 0 < loops) :
    error.fault ≠ .breakOutsideLoop := by
  cases allowed with
  | outside noLoop present => exact absurd noLoop (Nat.ne_of_gt inside)
  | failed other => exact other

/-- An error of a `break` is one outside all loops, at a `break` that stands in none. -/
private theorem outside_loop (allowed : (Outcome.failed error).Allowed loops loose) (escaped : error.fault = .breakOutsideLoop) :
    loops = 0 ∧ ∃ keyword ∈ loose, error.line = keyword.line := by
  cases allowed with
  | @outside keyword noLoop present => exact ⟨noLoop, keyword, present, rfl⟩
  | failed other => exact absurd escaped other

end Outcome.Allowed

private theorem Prefixes.no_break {operator : Token} {operand : Value} {error : RuntimeError}
    (rule : Prefixes operator operand (.error error)) : error.fault ≠ .breakOutsideLoop := by
  cases rule with
  | notNumber kind other => exact nofun

private theorem Joins.no_break {operator : Token} {left right : Value} {error : RuntimeError}
    (rule : Joins operator left right (.error error)) : error.fault ≠ .breakOutsideLoop := by
  cases rule with
  | unlike kind notNumbers notStrings => exact nofun
  | notNumbers rule others => exact nofun

theorem Evaluates.no_break {before after : Scopes} {tree : Expr} {result : Except RuntimeError Value}
    (derives : Evaluates before tree result after) :
    ∀ error, result = .error error → error.fault ≠ .breakOutsideLoop := by
  induction derives with
  | literal | var | assign | decided => exact nofun
  | grouping inner ih | unaryFails inner ih | leftFails first ih | logicalFails first ih | assignFails inner ih => exact ih
  | rightFails first second _ ih | deferred first rule second _ ih => exact ih
  | unary inner rule =>
    rintro error rfl
    exact rule.no_break
  | binary first second rule =>
    rintro error rfl
    exact rule.no_break
  | unbound | assignUnbound =>
    rintro error same
    cases same
    exact nofun

theorem Evaluates.allowed {before after : Scopes} {tree : Expr} {error : RuntimeError}
    (derives : Evaluates before tree (.error error) after) (loops : Nat) (loose : List Token) :
    (Outcome.failed error).Allowed loops loose :=
  .failed (derives.no_break error rfl)

mutual

/-- A statement breaks off, or fails for want of a loop, only at a `break` in no loop of its own. -/
theorem Executes.allowed {loops : Nat} {before after : Scopes} {tree : Stmt} {outcome : Outcome} {printed : String} :
    Executes loops before tree outcome printed after → outcome.Allowed loops tree.looseBreaks
  | .expression _ | .print _ | .declare | .declareValue _ | .ifFalse _ _ => .normal
  | .expressionFails inner | .printFails inner | .declareFails inner | .ifFails inner | .elseFails inner =>
    inner.allowed _ _
  | .block inner => by
    rw [Stmt.looseBreaks]
    exact ExecutesAll.allowed inner
  | .ifTrue _ _ inner => by
    rw [Stmt.looseBreaks]
    exact Executes.allowed inner
  | .elseTrue _ _ inner => by
    rw [Stmt.looseBreaks]
    exact (Executes.allowed inner).widen (List.subset_append_left _ _)
  | .elseFalse _ _ inner => by
    rw [Stmt.looseBreaks]
    exact (Executes.allowed inner).widen (List.subset_append_right _ _)
  | .whileLoop inner => by
    rw [Stmt.looseBreaks]
    exact Repeats.allowed inner (Nat.succ_pos _) _
  | .breakLoop inside => .broke inside (by rw [Stmt.looseBreaks]; exact List.cons_ne_nil _ _)
  | .breakOutside => .outside rfl (by rw [Stmt.looseBreaks]; exact List.mem_singleton_self _)

theorem ExecutesAll.allowed {loops : Nat} {before after : Scopes} {body : List Stmt} {outcome : Outcome}
    {printed : String} :
    ExecutesAll loops before body outcome printed after → outcome.Allowed loops (Stmt.looseBreaksAll body)
  | .nil => .normal
  | .cons _ others => by
    rw [Stmt.looseBreaksAll]
    exact (ExecutesAll.allowed others).widen (List.subset_append_right _ _)
  | .stop first _ => by
    rw [Stmt.looseBreaksAll]
    exact (Executes.allowed first).widen (List.subset_append_left _ _)

/-- To what is around it, a loop is like a statement without a `break`, whatever its body holds. -/
theorem Repeats.allowed {loops : Nat} {before after : Scopes} {condition : Expr} {body : Stmt} {outcome : Outcome}
    {printed : String} :
    Repeats loops before condition body outcome printed after → 0 < loops → ∀ around, outcome.Allowed around []
  | .ends _ _, _, _ | .breaks _ _ _, _, _ => .normal
  | .testFails test, _, _ => test.allowed _ _
  | .fails _ _ round, inside, _ => .failed ((Executes.allowed round).inside_loop inside)
  | .again _ _ _ others, inside, around => Repeats.allowed others inside around

end

end Semantics

open Semantics

/-- What is derived of a statement holds of its runs, which come back to the loops they started in. -/
theorem Stmt.exec_allowed {tree : Stmt} {fuel : Nat} {state after : State} (outcome : Outcome)
    (run : tree.exec fuel state = outcome.run after) :
    outcome.Allowed state.loops tree.looseBreaks ∧ after.loops = state.loops := by
  obtain ⟨printed, last, derives, stands⟩ := exec_sound tree fuel _ _ _ _ _ _ ⟨rfl, rfl, rfl⟩ run
  exact ⟨derives.allowed, stands.loops⟩

/-- A program is like a block of its statements. -/
theorem State.execProgram_allowed {program : List Stmt} {fuel : Nat} {state after : State} {error : RuntimeError}
    (fails : state.execProgram fuel program = .failed error after) :
    (Outcome.failed error).Allowed state.loops (Stmt.looseBreaksAll program) := by
  induction program generalizing state with
  | nil => cases fails
  | cons first rest ih =>
    rw [Stmt.looseBreaksAll]
    rw [execProgram] at fails
    split at fails
    next middle run =>
      have kept := (Stmt.exec_allowed .normal run).2
      have others := ih fails
      rw [kept] at others
      exact others.widen (List.subset_append_right _ _)
    next => cases fails
    next other stopped run =>
      cases fails
      have allowed := (Stmt.exec_allowed (.failed error) run).1
      exact allowed.widen (List.subset_append_left _ _)
    next => cases fails

/-- A `break` ends the innermost loop around it: none gets out of a loop, none fails in a loop, and one
that fails stands in no loop of its program. Between top-level runs no loop is running, also after
a failure in one. -/
theorem breaks_end_innermost_loops (state after : State) (fuel : Nat) :
    (∀ condition body, (Stmt.whileLoop condition body).exec fuel state ≠ .done .broke after) ∧
    (∀ tree : Stmt, tree.exec fuel state = .done .broke after → tree.looseBreaks ≠ [] ∧ 1 ≤ state.loops) ∧
    (state.loops = 0 → ∀ tree : Stmt, tree.exec fuel state ≠ .done .broke after) ∧
    (1 ≤ state.loops → ∀ (tree : Stmt) (error : RuntimeError), tree.exec fuel state = .failed error after →
      error.fault ≠ .breakOutsideLoop) ∧
    (∀ program, Stmt.looseBreaksAll program = [] → ∀ error, state.execProgram fuel program = .failed error after →
      error.fault ≠ .breakOutsideLoop) ∧
    (∀ program error, state.execProgram fuel program = .failed error after → error.fault = .breakOutsideLoop →
      ∃ keyword ∈ Stmt.looseBreaksAll program, error.line = keyword.line) ∧
    (Reachable state → state.loops = 0) := by
  have breaks : ∀ tree : Stmt, tree.exec fuel state = .done .broke after → tree.looseBreaks ≠ [] ∧ 1 ≤ state.loops := by
    intro tree run
    cases (Stmt.exec_allowed .broke run).1 with
    | broke inside present => exact ⟨present, inside⟩
  refine ⟨fun condition body run => ?_, breaks, fun noLoop tree run => ?_, fun inside tree error run => ?_,
    fun program tight error run escaped => ?_, fun program error run escaped => ?_, Reachable.outside⟩
  · exact (breaks _ run).1 (by rw [Stmt.looseBreaks])
  · exact absurd noLoop (Nat.ne_of_gt (breaks tree run).2)
  · exact (Stmt.exec_allowed (.failed error) run).1.inside_loop inside
  · obtain ⟨_, keyword, present, _⟩ := (State.execProgram_allowed run).outside_loop escaped
    rw [tight] at present
    cases present
  · exact ((State.execProgram_allowed run).outside_loop escaped).2

/-- A block in which one `break` ends a loop of the block and another one stands in an `if`. The block
is run in a loop, as a program of its own, and as the body of a loop in one that fails otherwise. -/
theorem breaks_end_innermost_loops_of_block :
    let keyword : Token := .simple .kwBreak "break" 2
    let yes : Expr := .literal (.bool true)
    let loop : Stmt := .whileLoop yes (.breakLoop (.simple .kwBreak "break" 1))
    let tree : Stmt := .block [loop, .ifThen yes (.breakLoop keyword)]
    let fails : Stmt := .expression (.unary (.simple .minus "-" 3) (.literal .nil))
    let unknown : Stmt := .print (.var (.simple .identifier "a" 4))
    let inside := State.new.enterLoop
    let error : RuntimeError := ⟨.operandMustBeNumber, 3⟩
    let other : RuntimeError := ⟨.undefinedVariable "a", 4⟩
    Reachable .new ∧ State.new.loops = 0 ∧ tree.exec 1 State.new ≠ .done .broke .new ∧
      tree.exec 1 inside = .done .broke inside ∧ tree.looseBreaks ≠ [] ∧ 1 ≤ inside.loops ∧
      fails.exec 1 inside = .failed error inside ∧ error.fault ≠ .breakOutsideLoop ∧
      Stmt.looseBreaksAll [.whileLoop yes tree, unknown] = [] ∧
      State.new.execProgram 1 [.whileLoop yes tree, unknown] = .failed other .new ∧ other.fault ≠ .breakOutsideLoop ∧
      State.new.execProgram 1 [tree] = .failed ⟨.breakOutsideLoop, 2⟩ .new ∧
      ∃ loose ∈ Stmt.looseBreaksAll [tree], 2 = loose.line := by
  intro keyword yes loop tree fails unknown inside error other
  have reachable : Reachable .new := .new
  have broke : tree.exec 1 inside = .done .broke inside := by decide +kernel
  have failed : fails.exec 1 inside = .failed error inside := by decide +kernel
  have tight : Stmt.looseBreaksAll [.whileLoop yes tree, unknown] = [] := by decide +kernel
  have stopped : State.new.execProgram 1 [.whileLoop yes tree, unknown] = .failed other .new := by decide +kernel
  have escaped : State.new.execProgram 1 [tree] = .failed ⟨.breakOutsideLoop, 2⟩ .new := by decide +kernel
  obtain ⟨_, _, quiet, _, whole, blamed, outside⟩ := breaks_end_innermost_loops .new .new 1
  obtain ⟨_, breaks, _, safe, _⟩ := breaks_end_innermost_loops inside inside 1
  obtain ⟨present, running⟩ := breaks tree broke
  exact ⟨reachable, outside reachable, quiet (outside reachable) tree, broke, present, running, failed,
    safe running fails error failed, tight, stopped, whole _ tight other stopped, escaped, blamed [tree] _ escaped rfl⟩

end Lox
