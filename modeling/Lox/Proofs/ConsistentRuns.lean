import Lox.Proofs.AcceptedPrograms
import Lox.Proofs.ComposedRuns
import Lox.Proofs.RuledTrees

/-! What the parser accepts never runs into a contradiction. Operators are known
to have rules, and no statement breaks off outside a loop, since every run comes
back to the loops that it started in. -/

namespace Lox

namespace Run
variable {σ τ α β : Type}

def reached? : Run σ α → Option σ
  | .done _ state | .failed _ state => some state
  | .halted _ => none

def Consistent (run : Run σ α) : Prop := ∀ cause, run ≠ .contradicted cause

theorem Consistent.done {value : α} {state : σ} : (done value state).Consistent := nofun

theorem Consistent.failed {error : RuntimeError} {state : σ} : (failed error state : Run σ α).Consistent := nofun

private theorem Consistent.ofExcept {result : Except RuntimeError α} {state : σ} : (ofExcept result state).Consistent := by
  cases result <;> exact nofun

theorem Consistent.andThen {run : Run σ α} {next : α → σ → Run σ β} (first : run.Consistent)
    (rest : ∀ value state, (next value state).Consistent) : (run.andThen next).Consistent := by
  intro cause same
  cases run with
  | done value state => exact rest value state cause same
  | failed error state => cases same
  | halted halt =>
    cases same
    exact first cause rfl

theorem Consistent.composes : Composes fun run : Run σ _ => run.Consistent := ⟨.done, nofun, .andThen⟩

theorem Consistent.mapState {run : Run σ α} (first : run.Consistent) (change : σ → τ) :
    (run.mapState change).Consistent := by
  intro cause same
  cases run with
  | done value state | failed error state => cases same
  | halted halt =>
    cases same
    exact first cause rfl

end Run

namespace Operation
variable {σ : Type} {operator : Token}

private theorem unary_consistent (rule : operator.kind ∈ unaryRules) (operand : Value) (state : σ) :
    (unary operator operand state).Consistent := by
  simp only [unaryRules, List.mem_cons, List.not_mem_nil, or_false] at rule
  rcases rule with kind | kind <;> simp only [unary, kind]
  · exact .done
  · cases operand with
    | number => exact .done
    | nil | bool | string => exact .failed

private theorem add_consistent (left right : Value) (state : σ) : (add operator left right state).Consistent := by
  unfold add
  split
  · exact .done
  · exact .done
  · exact .failed

private theorem binary_consistent (rule : operator.kind ∈ binaryRules) (left right : Value) (state : σ) :
    (binary operator left right state).Consistent := by
  simp only [binaryRules, List.mem_cons, List.not_mem_nil, or_false] at rule
  rcases rule with kind | kind | kind | kind | kind | kind | kind | kind | kind | kind <;>
    simp only [binary, kind]
  · exact add_consistent left right state
  case inr.inr.inr.inr.inr.inr.inr.inr.inl => exact .done
  case inr.inr.inr.inr.inr.inr.inr.inr.inr => exact .done
  all_goals
    rw [calculate]
    cases numbers operator left right with
    | ok both => simp only [numeric, kind]; exact .done
    | error error => exact .failed

private theorem decides_of_ruled (rule : operator.kind ∈ logicalRules) (left : Value) :
    ∃ decided, decides? operator left = some decided := by
  simp only [logicalRules, List.mem_cons, List.not_mem_nil, or_false] at rule
  rcases rule with kind | kind <;> exact ⟨_, by rw [decides?, kind]⟩

end Operation

theorem Expr.eval_consistent {tree : Expr} (ruled : tree.Ruled) (environment : Environment) :
    (tree.eval environment).Consistent := by
  induction ruled generalizing environment with
  | literal => exact .done
  | grouping inner ih => exact ih environment
  | unary rule inner ih => exact (ih environment).andThen fun value after => Operation.unary_consistent rule value after
  | binary rule first second left right =>
    exact (left environment).andThen fun one after => (right after).andThen fun other last =>
      Operation.binary_consistent rule one other last
  | logical rule first second left right =>
    refine (left environment).andThen fun one after => ?_
    obtain ⟨decided, same⟩ := Operation.decides_of_ruled rule one
    rw [same]
    cases decided with
    | true => exact .done
    | false => exact right after
  | var => exact .ofExcept
  | @assign value name inner ih =>
    refine (ih environment).andThen fun result after => ?_
    cases after.assign name result with
    | ok changed => exact .done
    | error error => exact .failed

private theorem State.eval_consistent {tree : Expr} (ruled : tree.Ruled) (state : State) : (state.eval tree).Consistent :=
  (Expr.eval_consistent ruled state.environment).mapState _

namespace Stmt

theorem exec_consistent {tree : Stmt} (ruled : tree.Ruled) (fuel : Nat) (state : State) :
    (tree.exec fuel state).Consistent := by
  induction ruled generalizing state with
  | expression inner => exact (state.eval_consistent inner).andThen fun _ _ => .done
  | print inner => exact (state.eval_consistent inner).andThen fun _ _ => .done
  | @declare initial name inner =>
    cases initial with
    | none => exact .done
    | some value => exact (state.eval_consistent (inner value rfl)).andThen fun _ _ => .done
  | block inner ih => exact (Run.Consistent.composes.execAll ih _).mapState _
  | ifThen test first ih =>
    refine (state.eval_consistent test).andThen fun value after => ?_
    split
    · exact ih after
    · exact .done
  | ifElse test first second ih other =>
    refine (state.eval_consistent test).andThen fun value after => ?_
    split
    · exact ih after
    · exact other after
  | whileLoop test inner ih =>
    exact (Run.Consistent.composes.repeatWhile (State.eval_consistent test) ih fuel _).mapState _
  | breakLoop =>
    rw [exec]
    split
    · exact .failed
    · exact .done

end Stmt

namespace Run
variable {α β : Type} {loops : Nat}

/-- A run that reaches a state comes back to as many loops as it started in. -/
def Keeps (loops : Nat) : Run State α → Prop
  | .done _ after | .failed _ after => after.loops = loops
  | .halted _ => True

/-- A run of a statement keeps its loops, and breaks off only where that is allowed. -/
def Encloses (loops : Nat) (breaks : Prop) : Run State Completion → Prop
  | .done .normal after | .failed _ after => after.loops = loops
  | .done .broke after => after.loops = loops ∧ breaks
  | .halted _ => True

private theorem Keeps.reached {run : Run State α} (keeps : run.Keeps loops) {after : State}
    (ends : run.reached? = some after) : after.loops = loops := by
  cases run with
  | done value state | failed error state =>
    cases ends
    exact keeps
  | halted cause => cases ends

private theorem Encloses.keeps {breaks : Prop} {run : Run State Completion} (encloses : run.Encloses loops breaks) :
    run.Keeps loops := by
  cases run with
  | done completion after =>
    cases completion with
    | normal => exact encloses
    | broke => exact encloses.1
  | failed error after => exact encloses
  | halted cause => exact encloses

theorem Keeps.andThen {run : Run State α} {next : α → State → Run State β} (first : run.Keeps loops)
    (rest : ∀ value after, after.loops = loops → (next value after).Keeps loops) :
    (run.andThen next).Keeps loops := by
  cases run with
  | done value after => exact rest value after first
  | failed error after => exact first
  | halted cause => exact first

private theorem Keeps.andThen_encloses {breaks : Prop} {run : Run State α} {next : α → State → Run State Completion}
    (first : run.Keeps loops) (rest : ∀ value after, after.loops = loops → (next value after).Encloses loops breaks) :
    (run.andThen next).Encloses loops breaks := by
  cases run with
  | done value after => exact rest value after first
  | failed error after => exact first
  | halted cause => exact first

/-- Statements in a row: whatever comes after a `break` is left out. -/
theorem Encloses.andThen {breaks other : Prop} {run : Run State Completion}
    {next : Completion → State → Run State Completion} (first : run.Encloses loops breaks)
    (normal : ∀ after, after.loops = loops → (next .normal after).Encloses loops other)
    (broke : ∀ after, after.loops = loops → breaks → (next .broke after).Encloses loops other) :
    (run.andThen next).Encloses loops other := by
  cases run with
  | done completion after =>
    cases completion with
    | normal => exact normal after first
    | broke => exact broke after first.1 first.2
  | failed error after => exact first
  | halted cause => exact first

theorem Encloses.mapState {other : Nat} {breaks allowed : Prop} {run : Run State Completion} {change : State → State}
    (inner : run.Encloses loops breaks) (same : ∀ after, after.loops = loops → (change after).loops = other)
    (passes : breaks → allowed) : (run.mapState change).Encloses other allowed := by
  cases run with
  | done completion after =>
    cases completion with
    | normal => exact same after inner
    | broke => exact ⟨same after inner.1, passes inner.2⟩
  | failed error after => exact same after inner
  | halted cause => exact inner

end Run

private theorem State.eval_keeps (state : State) (tree : Expr) : (state.eval tree).Keeps state.loops := by
  rw [eval]
  cases tree.eval state.environment with
  | done value environment => exact rfl
  | failed error environment => exact rfl
  | halted cause => exact trivial

/-- A `break` in a round ends the loop, and nothing more. -/
private theorem repeatWhile_encloses {loops : Nat} {breaks : Prop} {test : State → Run State Value}
    {round : State → Run State Completion} (tested : ∀ state, state.loops = loops → (test state).Keeps loops)
    (rounds : ∀ state, state.loops = loops → (round state).Encloses loops breaks) (fuel : Nat) (state : State)
    (same : state.loops = loops) : (repeatWhile test round fuel state).Encloses loops False := by
  induction fuel generalizing state with
  | zero => exact trivial
  | succ fuel ih =>
    rw [repeatWhile_succ]
    refine (tested state same).andThen_encloses fun value after kept => ?_
    split
    · exact (rounds after kept).andThen (fun next => ih next) fun next last _ => last
    · exact kept

namespace Stmt

private theorem execAll_encloses {fuel : Nat} {body : List Stmt}
    (each : ∀ statement ∈ body, ∀ state, (statement.exec fuel state).Encloses state.loops (state.loops ≠ 0))
    (state : State) : (execAll fuel state body).Encloses state.loops (state.loops ≠ 0) := by
  induction body generalizing state with
  | nil => exact rfl
  | cons first rest ih =>
    rw [List.forall_mem_cons] at each
    refine (each.1 state).andThen (fun after kept => ?_) fun after kept inLoop => ⟨kept, inLoop⟩
    have others := ih each.2 after
    rwa [kept] at others

/-- A statement comes back to the loops around it, and breaks off only if there are any. -/
theorem exec_encloses (tree : Stmt) (fuel : Nat) (state : State) :
    (tree.exec fuel state).Encloses state.loops (state.loops ≠ 0) := by
  induction tree generalizing state with
  | expression value | print value =>
    exact (state.eval_keeps value).andThen_encloses fun result after kept => kept
  | declare name initial =>
    cases initial with
    | none => exact rfl
    | some value => exact (state.eval_keeps value).andThen_encloses fun result after kept => kept
  | block body ih =>
    exact (execAll_encloses ih state.enter).mapState (fun _ kept => kept) id
  | ifThen condition consequence ih =>
    refine (state.eval_keeps condition).andThen_encloses fun value after kept => ?_
    have inner := ih after
    rw [kept] at inner
    split
    · exact inner
    · exact kept
  | ifElse condition consequence alternative ih other =>
    refine (state.eval_keeps condition).andThen_encloses fun value after kept => ?_
    have inner := ih after
    have second := other after
    rw [kept] at inner second
    split
    · exact inner
    · exact second
  | whileLoop condition body ih =>
    have tested : ∀ before : State, before.loops = state.loops + 1 → (before.eval condition).Keeps (state.loops + 1) :=
      fun before same => same ▸ before.eval_keeps condition
    have rounds : ∀ before : State, before.loops = state.loops + 1 →
        (body.exec fuel before).Encloses (state.loops + 1) (state.loops + 1 ≠ 0) :=
      fun before same => same ▸ ih before
    have inner := repeatWhile_encloses tested rounds fuel state.enterLoop rfl
    exact inner.mapState (fun _ kept => congrArg (· - 1) kept) False.elim
  | breakLoop keyword =>
    rw [exec]
    split
    next => exact rfl
    next inLoop => exact ⟨rfl, inLoop⟩

end Stmt

theorem State.execProgram_keeps (program : List Stmt) (fuel : Nat) (state : State) :
    (state.execProgram fuel program).Keeps state.loops := by
  induction program generalizing state with
  | nil => exact rfl
  | cons first rest ih =>
    rw [execProgram_cons]
    refine (first.exec_encloses fuel state).keeps.andThen fun completion after kept => ?_
    cases completion with
    | normal =>
      have others := ih after
      rwa [kept] at others
    | broke => exact trivial

private theorem State.printValue_keeps (value : Expr) (state : State) : (state.printValue value).Keeps state.loops :=
  (state.eval_keeps value).andThen fun _ _ kept => kept

/-- The states that a sequence of top-level runs passes through. What was printed
may be taken away or added to between them. -/
inductive Reachable : State → Prop where
  | new : Reachable .new
  | shown (before : Reachable state) (output : String) : Reachable { state with output }
  | evaluated (before : Reachable state) (value : Expr) (ends : (state.eval value).reached? = some after) :
      Reachable after
  | printed (before : Reachable state) (value : Expr) (ends : (state.printValue value).reached? = some after) :
      Reachable after
  | executed (before : Reachable state) (fuel : Nat) (tree : Stmt)
      (ends : (tree.exec fuel state).reached? = some after) : Reachable after
  | ran (before : Reachable state) (fuel : Nat) (program : List Stmt)
      (ends : (state.execProgram fuel program).reached? = some after) : Reachable after

/-- No loop is running between top-level runs, even after an error in a loop. -/
theorem Reachable.outside {state : State} (reachable : Reachable state) : state.loops = 0 := by
  induction reachable with
  | new => rfl
  | shown before output ih => exact ih
  | @evaluated state after before value ends ih => exact ((state.eval_keeps value).reached ends).trans ih
  | @printed state after before value ends ih => exact ((state.printValue_keeps value).reached ends).trans ih
  | @executed state after before fuel tree ends ih =>
    exact ((tree.exec_encloses fuel state).keeps.reached ends).trans ih
  | @ran state after before fuel program ends ih =>
    exact ((state.execProgram_keeps program fuel).reached ends).trans ih

theorem State.execProgram_consistent {program : List Stmt} (ruled : ∀ tree ∈ program, tree.Ruled) (fuel : Nat)
    {state : State} (outside : state.loops = 0) : (state.execProgram fuel program).Consistent := by
  induction program generalizing state with
  | nil => exact .done
  | cons first rest ih =>
    rw [List.forall_mem_cons] at ruled
    have encloses := first.exec_encloses fuel state
    have consistent := Stmt.exec_consistent ruled.1 fuel state
    rw [execProgram_cons]
    cases run : first.exec fuel state with
    | done completion after =>
      rw [run] at encloses
      cases completion with
      | normal => exact ih ruled.2 (Eq.trans encloses outside)
      | broke => exact absurd outside encloses.2
    | failed error after => exact .failed
    | halted cause =>
      rw [run] at consistent
      intro reason same
      cases same
      exact consistent reason rfl

theorem State.printValue_consistent {value : Expr} (ruled : value.Ruled) (state : State) :
    (state.printValue value).Consistent :=
  (state.eval_consistent ruled).andThen fun _ _ => .done

/-- What the parser hands out is run, from any state between top-level runs, without a contradiction. -/
theorem accepted_never_contradicts (tokens : List Token) (ended : Ended tokens) (state : State)
    (reachable : Reachable state) :
    (∀ program, (parseProgram tokens).accepted = .ok program →
      ∀ fuel cause, state.execProgram fuel program ≠ .contradicted cause) ∧
    ∀ value, parseExpression tokens = .ok value → ∀ cause, state.printValue value ≠ .contradicted cause := by
  constructor
  · intro program accepted fuel
    rw [ParsedProgram.accepted] at accepted
    split at accepted
    next silent =>
      cases accepted
      have derived := parseProgram_sound ended (List.isEmpty_iff.mp silent)
      exact State.execProgram_consistent derived.ruled fuel reachable.outside
    next => cases accepted
  · intro value accepted
    exact state.printValue_consistent (parseExpression_sound ended accepted).ruled

open Grammar in
theorem accepted_never_contradicts_break :
    let escape : Token := .simple .kwBreak "break" 1
    let semicolon : Token := .simple .semicolon ";" 1
    let yes : Token := .simple .kwTrue "true" 1
    let loop := [.simple .kwWhile "while" 1, .simple .leftParen "(" 1, yes, .simple .rightParen ")" 1, escape, semicolon]
    let tokens := loop ++ [.endOfFile 1]
    let program := [.whileLoop (.literal (.bool true)) (.breakLoop escape)]
    Ended tokens ∧ Ended [yes, .endOfFile 1] ∧ Reachable .new ∧ (parseProgram tokens).accepted = .ok program ∧
      (∀ fuel cause, State.new.execProgram fuel program ≠ .contradicted cause) ∧
      parseExpression [yes, .endOfFile 1] = .ok (.literal (.bool true)) ∧
      ∀ cause, State.new.printValue (.literal (.bool true)) ≠ .contradicted cause := by
  intro escape semicolon yes loop tokens program
  have ended : Ended tokens := ⟨.endOfFile 1, by decide, rfl⟩
  have endedValue : Ended [yes, .endOfFile 1] := ⟨.endOfFile 1, by decide, rfl⟩
  have test : Expression [yes] (.literal (.bool true)) := (Derives.primary (.truth rfl)).expression
  have body : Statement [escape, semicolon] (.breakLoop escape) := .breakLoop rfl rfl
  have derived : Program (loop ++ []) program := .cons (.statement (.whileLoop rfl rfl test rfl body)) .nil
  have accepted : (parseProgram tokens).accepted = .ok program := by
    rw [parseProgram_complete (show Program (Feed.ofTokens tokens).tokens program from derived)]
    rfl
  have value : parseExpression [yes, .endOfFile 1] = .ok (.literal (.bool true)) :=
    parseExpression_complete endedValue test
  exact ⟨ended, endedValue, .new, accepted, (accepted_never_contradicts tokens ended .new .new).1 program accepted,
    value, (accepted_never_contradicts _ endedValue .new .new).2 _ value⟩

end Lox
