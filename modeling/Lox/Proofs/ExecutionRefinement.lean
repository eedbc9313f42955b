import Lox.Proofs.EvaluationRefinement
import Lox.Stmt.Execution

/-! Executing a statement ends exactly in what its meaning derives. Fuel only
decides how long a run may take: once there is enough, more changes nothing. -/

namespace Lox.Semantics

def Outcome.run (outcome : Outcome) (state : State) : Run State Completion :=
  match outcome with
  | normal => .done .normal state
  | broke => .done .broke state
  | failed error => .failed error state

section Inversion
variable {outcome : Outcome} {state after : State}

private theorem normal_eq_run : Run.done .normal state = outcome.run after ↔ outcome = .normal ∧ after = state := by
  cases outcome <;> simp [Outcome.run, eq_comm]

private theorem broke_eq_run : Run.done .broke state = outcome.run after ↔ outcome = .broke ∧ after = state := by
  cases outcome <;> simp [Outcome.run, eq_comm]

private theorem failed_eq_run {error : RuntimeError} :
    Run.failed error state = outcome.run after ↔ outcome = .failed error ∧ after = state := by
  cases outcome <;> simp [Outcome.run, eq_comm]

private theorem halted_ne_run {cause : Halt} : Run.halted cause ≠ outcome.run after := by
  cases outcome <;> exact nofun

/-- What comes after a value ends the run, unless there was no value. -/
private theorem andThen_eq_run {run : Run State Value} {next : Value → State → Run State Completion}
    (ends : run.andThen next = outcome.run after) :
    (∃ value middle, run = .ofExcept (.ok value) middle ∧ next value middle = outcome.run after) ∨
    ∃ error, run = .ofExcept (.error error) after ∧ outcome = .failed error := by
  cases run with
  | done value middle => exact .inl ⟨value, middle, rfl, ends⟩
  | failed error middle =>
    obtain ⟨rfl, rfl⟩ := failed_eq_run.mp ends
    exact .inr ⟨error, rfl, rfl⟩
  | halted cause => exact absurd ends halted_ne_run

private theorem sequence_eq_run {run : Run State Completion} {next : Completion → State → Run State Completion}
    (ends : run.andThen next = outcome.run after) :
    (∃ middle, run = Outcome.normal.run middle ∧ next .normal middle = outcome.run after) ∨
    (∃ middle, run = Outcome.broke.run middle ∧ next .broke middle = outcome.run after) ∨
    ∃ error, run = (Outcome.failed error).run after ∧ outcome = .failed error := by
  cases run with
  | done completion middle =>
    cases completion with
    | normal => exact .inl ⟨middle, rfl, ends⟩
    | broke => exact .inr (.inl ⟨middle, rfl, ends⟩)
  | failed error middle =>
    obtain ⟨rfl, rfl⟩ := failed_eq_run.mp ends
    exact .inr (.inr ⟨error, rfl, rfl⟩)
  | halted cause => exact absurd ends halted_ne_run

private theorem mapState_eq_run {run : Run State Completion} {change : State → State}
    (ends : run.mapState change = outcome.run after) : ∃ before, run = outcome.run before ∧ after = change before := by
  cases run with
  | done completion before =>
    cases completion with
    | normal =>
      obtain ⟨rfl, rfl⟩ := normal_eq_run.mp ends
      exact ⟨before, rfl, rfl⟩
    | broke =>
      obtain ⟨rfl, rfl⟩ := broke_eq_run.mp ends
      exact ⟨before, rfl, rfl⟩
  | failed error before =>
    obtain ⟨rfl, rfl⟩ := failed_eq_run.mp ends
    exact ⟨before, rfl, rfl⟩
  | halted cause => exact absurd ends halted_ne_run

private theorem run_mapState (outcome : Outcome) (state : State) (change : State → State) :
    (outcome.run state).mapState change = outcome.run (change state) := by
  cases outcome <;> rfl

end Inversion

/-- A state of the interpreter stands for a depth of loops, a text and a stack of maps. -/
structure Stands (state : State) (loops : Nat) (output : String) (scopes : Scopes) : Prop where
  loops : state.loops = loops
  output : state.output = output
  scopes : state.environment.scopes = scopes

namespace Stands
variable {state : State} {loops : Nat} {output : String} {scopes : Scopes}

private theorem enter (stands : Stands state loops output scopes) : Stands state.enter loops output scopes.enter :=
  ⟨stands.loops, stands.output, (Environment.push_scopes _).trans (congrArg Scopes.enter stands.scopes)⟩

private theorem leave (stands : Stands state loops output scopes) : Stands state.leave loops output scopes.leave :=
  ⟨stands.loops, stands.output, (Environment.pop_scopes _).trans (congrArg Scopes.leave stands.scopes)⟩

private theorem enterLoop (stands : Stands state loops output scopes) : Stands state.enterLoop (loops + 1) output scopes :=
  ⟨congrArg (· + 1) stands.loops, stands.output, stands.scopes⟩

private theorem leaveLoop (stands : Stands state (loops + 1) output scopes) : Stands state.leaveLoop loops output scopes :=
  ⟨congrArg (· - 1) stands.loops, stands.output, stands.scopes⟩

private theorem define (stands : Stands state loops output scopes) (name : Token) (value : Value) :
    Stands (state.define name value) loops output (scopes.define name.lexeme value) :=
  ⟨stands.loops, stands.output,
    (Environment.define_scopes _ _ _).trans (congrArg (·.define name.lexeme value) stands.scopes)⟩

private theorem printLine (stands : Stands state loops output scopes) (text : String) :
    Stands (state.printLine text) loops (output ++ (text ++ "\n")) scopes :=
  ⟨stands.loops, (String.append_assoc ..).trans (congrArg (· ++ (text ++ "\n")) stands.output), stands.scopes⟩

private theorem silent (stands : Stands state loops output scopes) : Stands state loops (output ++ "") scopes := by
  rwa [String.append_empty]

theorem eval_sound (stands : Stands state loops output scopes) {tree : Expr} {result : Except RuntimeError Value}
    {after : State} (run : state.eval tree = .ofExcept result after) :
    ∃ last, Evaluates scopes tree result last ∧ Stands after loops output last := by
  rw [State.eval] at run
  cases ends : tree.eval state.environment with
  | done value environment =>
    rw [ends] at run
    obtain ⟨rfl, rfl⟩ := Run.done_eq_ofExcept.mp run
    have derives : Evaluates _ _ (.ok value) _ := Semantics.eval_sound ends
    rw [stands.scopes] at derives
    exact ⟨_, derives, stands.loops, stands.output, rfl⟩
  | failed error environment =>
    rw [ends] at run
    obtain ⟨rfl, rfl⟩ := Run.failed_eq_ofExcept.mp run
    have derives : Evaluates _ _ (.error error) _ := Semantics.eval_sound ends
    rw [stands.scopes] at derives
    exact ⟨_, derives, stands.loops, stands.output, rfl⟩
  | halted cause =>
    rw [ends] at run
    exact absurd run Run.halted_ne_ofExcept

/-- A run that begins with an expression goes on after its value, or ends in its error. -/
private theorem andThen_sound (stands : Stands state loops output scopes) {tree : Expr}
    {next : Value → State → Run State Completion} {outcome : Outcome} {after : State}
    (run : (state.eval tree).andThen next = outcome.run after) :
    (∃ value middle reached, Evaluates scopes tree (.ok value) reached ∧ Stands middle loops output reached ∧
      next value middle = outcome.run after) ∨
    ∃ error last, outcome = .failed error ∧ Evaluates scopes tree (.error error) last ∧
      Stands after loops (output ++ "") last := by
  obtain ⟨value, middle, first, rest⟩ | ⟨error, first, rfl⟩ := andThen_eq_run run
  · obtain ⟨reached, derives, stands⟩ := stands.eval_sound first
    exact .inl ⟨value, middle, reached, derives, stands, rest⟩
  · obtain ⟨last, derives, stands⟩ := stands.eval_sound first
    exact .inr ⟨error, last, rfl, derives, stands.silent⟩

theorem eval_complete (stands : Stands state loops output scopes) {tree : Expr} {result : Except RuntimeError Value}
    {last : Scopes} (derives : Evaluates scopes tree result last) :
    ∃ after, state.eval tree = .ofExcept result after ∧ Stands after loops output last := by
  obtain ⟨environment, run, seen⟩ := Semantics.eval_complete derives stands.scopes
  refine ⟨{ state with environment }, ?_, stands.loops, stands.output, seen⟩
  rw [State.eval, run]
  cases result <;> rfl

end Stands

/-- Whatever a run ends in, from a state that stands for a stack of maps, has been derived for that stack, and
the text that was printed with it. -/
def Sound (run : State → Run State Completion) (derives : Nat → Scopes → Outcome → String → Scopes → Prop) : Prop :=
  ∀ state loops output scopes outcome after, Stands state loops output scopes → run state = outcome.run after →
    ∃ printed last, derives loops scopes outcome printed last ∧ Stands after loops (output ++ printed) last

private theorem execAll_sound {fuel : Nat} {body : List Stmt}
    (each : ∀ tree ∈ body, Sound (tree.exec fuel) (Executes · · tree)) :
    Sound (Stmt.execAll fuel · body) (ExecutesAll · · body) := by
  induction body with
  | nil =>
    intro state loops output scopes outcome after stands run
    obtain ⟨rfl, rfl⟩ := normal_eq_run.mp run
    exact ⟨"", scopes, .nil, stands.silent⟩
  | cons tree rest ih =>
    rw [List.forall_mem_cons] at each
    intro state loops output scopes outcome after stands run
    obtain ⟨middle, first, others⟩ | ⟨middle, first, others⟩ | ⟨error, first, rfl⟩ := sequence_eq_run run
    · obtain ⟨printed, reached, begun, stands⟩ := each.1 _ _ _ _ _ _ stands first
      obtain ⟨more, last, derived, stands⟩ := ih each.2 _ _ _ _ _ _ stands others
      rw [String.append_assoc] at stands
      exact ⟨printed ++ more, last, .cons begun derived, stands⟩
    · obtain ⟨rfl, rfl⟩ := broke_eq_run.mp others
      obtain ⟨printed, last, begun, stands⟩ := each.1 _ _ _ _ _ _ stands first
      exact ⟨printed, last, .stop begun nofun, stands⟩
    · obtain ⟨printed, last, begun, stands⟩ := each.1 _ _ _ _ _ _ stands first
      exact ⟨printed, last, .stop begun nofun, stands⟩

private theorem repeatWhile_sound {condition : Expr} {body : Stmt} {round : State → Run State Completion}
    (derived : Sound round (Executes · · body)) (fuel : Nat) :
    Sound (repeatWhile (·.eval condition) round fuel) (Repeats · · condition body) := by
  induction fuel with
  | zero =>
    intro state loops output scopes outcome after stands run
    exact absurd run halted_ne_run
  | succ fuel ih =>
    intro state loops output scopes outcome after stands run
    rw [repeatWhile_succ] at run
    obtain ⟨value, middle, reached, test, stands, rest⟩ | ⟨error, last, rfl, test, stands⟩ := stands.andThen_sound run
    · split at rest
      next truthy =>
        have truthy := not_falsy_iff.mpr truthy
        obtain ⟨next, first, others⟩ | ⟨next, first, others⟩ | ⟨error, first, rfl⟩ := sequence_eq_run rest
        · obtain ⟨printed, reached, begun, stands⟩ := derived _ _ _ _ _ _ stands first
          obtain ⟨more, last, ended, stands⟩ := ih _ _ _ _ _ _ stands others
          rw [String.append_assoc] at stands
          exact ⟨printed ++ more, last, .again test truthy begun ended, stands⟩
        · obtain ⟨rfl, rfl⟩ := normal_eq_run.mp others
          obtain ⟨printed, last, begun, stands⟩ := derived _ _ _ _ _ _ stands first
          exact ⟨printed, last, .breaks test truthy begun, stands⟩
        · obtain ⟨printed, last, begun, stands⟩ := derived _ _ _ _ _ _ stands first
          exact ⟨printed, last, .fails test truthy begun, stands⟩
      next falsy =>
        obtain ⟨rfl, rfl⟩ := normal_eq_run.mp rest
        exact ⟨"", reached, .ends test (falsy_of_not falsy), stands.silent⟩
    · exact ⟨"", last, .testFails test, stands⟩

/-- Every outcome of a statement is derived, whatever the fuel. -/
theorem exec_sound (tree : Stmt) (fuel : Nat) : Sound (tree.exec fuel) (Executes · · tree) := by
  induction tree with
  | expression value =>
    intro state loops output scopes outcome after stands run
    obtain ⟨value, middle, last, inner, stands, rest⟩ | ⟨error, last, rfl, inner, stands⟩ := stands.andThen_sound run
    · obtain ⟨rfl, rfl⟩ := normal_eq_run.mp rest
      exact ⟨"", last, .expression inner, stands.silent⟩
    · exact ⟨"", last, .expressionFails inner, stands⟩
  | print value =>
    intro state loops output scopes outcome after stands run
    obtain ⟨value, middle, last, inner, stands, rest⟩ | ⟨error, last, rfl, inner, stands⟩ := stands.andThen_sound run
    · obtain ⟨rfl, rfl⟩ := normal_eq_run.mp rest
      exact ⟨_, last, .print inner, stands.printLine value.text⟩
    · exact ⟨"", last, .printFails inner, stands⟩
  | declare name initial =>
    intro state loops output scopes outcome after stands run
    cases initial with
    | none =>
      obtain ⟨rfl, rfl⟩ := normal_eq_run.mp run
      exact ⟨"", _, .declare, (stands.define name .nil).silent⟩
    | some initial =>
      obtain ⟨value, middle, last, inner, stands, rest⟩ | ⟨error, last, rfl, inner, stands⟩ :=
        stands.andThen_sound run
      · obtain ⟨rfl, rfl⟩ := normal_eq_run.mp rest
        exact ⟨"", _, .declareValue inner, (stands.define name value).silent⟩
      · exact ⟨"", last, .declareFails inner, stands⟩
  | block body ih =>
    intro state loops output scopes outcome after stands run
    obtain ⟨before, inner, rfl⟩ := mapState_eq_run run
    obtain ⟨printed, last, derives, stands⟩ := execAll_sound ih _ _ _ _ _ _ stands.enter inner
    exact ⟨printed, last.leave, .block derives, stands.leave⟩
  | ifThen condition consequence ih =>
    intro state loops output scopes outcome after stands run
    obtain ⟨value, middle, reached, test, stands, rest⟩ | ⟨error, last, rfl, test, stands⟩ := stands.andThen_sound run
    · split at rest
      next truthy =>
        obtain ⟨printed, last, inner, stands⟩ := ih _ _ _ _ _ _ stands rest
        exact ⟨printed, last, .ifTrue test (not_falsy_iff.mpr truthy) inner, stands⟩
      next falsy =>
        obtain ⟨rfl, rfl⟩ := normal_eq_run.mp rest
        exact ⟨"", reached, .ifFalse test (falsy_of_not falsy), stands.silent⟩
    · exact ⟨"", last, .ifFails test, stands⟩
  | ifElse condition consequence alternative ih other =>
    intro state loops output scopes outcome after stands run
    obtain ⟨value, middle, reached, test, stands, rest⟩ | ⟨error, last, rfl, test, stands⟩ := stands.andThen_sound run
    · split at rest
      next truthy =>
        obtain ⟨printed, last, inner, stands⟩ := ih _ _ _ _ _ _ stands rest
        exact ⟨printed, last, .elseTrue test (not_falsy_iff.mpr truthy) inner, stands⟩
      next falsy =>
        obtain ⟨printed, last, inner, stands⟩ := other _ _ _ _ _ _ stands rest
        exact ⟨printed, last, .elseFalse test (falsy_of_not falsy) inner, stands⟩
    · exact ⟨"", last, .elseFails test, stands⟩
  | whileLoop condition body ih =>
    intro state loops output scopes outcome after stands run
    obtain ⟨before, inner, rfl⟩ := mapState_eq_run run
    obtain ⟨printed, last, derives, stands⟩ := repeatWhile_sound ih fuel _ _ _ _ _ _ stands.enterLoop inner
    exact ⟨printed, last, .whileLoop derives, stands.leaveLoop⟩
  | breakLoop keyword =>
    intro state loops output scopes outcome after stands run
    simp only [Stmt.exec] at run
    split at run
    next outside =>
      obtain ⟨rfl, rfl⟩ := failed_eq_run.mp run
      obtain rfl : loops = 0 := stands.loops.symm.trans outside
      exact ⟨"", scopes, .breakOutside, stands.silent⟩
    next inside =>
      obtain ⟨rfl, rfl⟩ := broke_eq_run.mp run
      rw [stands.loops] at inside
      exact ⟨"", scopes, .breakLoop (Nat.pos_of_ne_zero inside), stands.silent⟩

/-- From some amount on, fuel lets a run end in what was derived. How much is needed depends on the
derivation. -/
def Reaches (run : Nat → Run State Completion) (outcome : Outcome) (loops : Nat) (output : String) (scopes : Scopes) :
    Prop :=
  ∃ after enough, Stands after loops output scopes ∧ ∀ fuel, enough ≤ fuel → run fuel = outcome.run after

private theorem Reaches.always {run : Nat → Run State Completion} {outcome : Outcome} {state : State} {loops : Nat}
    {output : String} {scopes : Scopes} (stands : Stands state loops output scopes)
    (ends : ∀ fuel, run fuel = outcome.run state) : Reaches run outcome loops output scopes :=
  ⟨state, 0, stands, fun fuel _ => ends fuel⟩

mutual

theorem Executes.complete {loops : Nat} {scopes last : Scopes} {tree : Stmt} {outcome : Outcome} {printed : String} :
    Executes loops scopes tree outcome printed last → ∀ {state output}, Stands state loops output scopes →
      Reaches (fun fuel => tree.exec fuel state) outcome loops (output ++ printed) last
  | .expression inner, _, _, stands => by
    obtain ⟨after, run, stands⟩ := stands.eval_complete inner
    refine .always stands.silent fun fuel => ?_
    rw [Stmt.exec, run]
    rfl
  | .print inner, _, _, stands => by
    obtain ⟨after, run, stands⟩ := stands.eval_complete inner
    refine .always (stands.printLine _) fun fuel => ?_
    rw [Stmt.exec, run]
    rfl
  | .declare, _, _, stands => by
    refine .always (stands.define _ .nil).silent fun fuel => ?_
    simp only [Stmt.exec]
    rfl
  | .expressionFails inner, _, _, stands | .printFails inner, _, _, stands | .declareFails inner, _, _, stands
  | .ifFails inner, _, _, stands | .elseFails inner, _, _, stands => by
    obtain ⟨after, run, stands⟩ := stands.eval_complete inner
    refine .always stands.silent fun fuel => ?_
    rw [Stmt.exec, run]
    rfl
  | .declareValue inner, _, _, stands => by
    obtain ⟨after, run, stands⟩ := stands.eval_complete inner
    refine .always (stands.define _ _).silent fun fuel => ?_
    rw [Stmt.exec, run]
    rfl
  | .block inner, _, _, stands => by
    obtain ⟨after, enough, stands, ends⟩ := ExecutesAll.complete inner stands.enter
    refine ⟨after.leave, enough, stands.leave, fun fuel bound => ?_⟩
    simp only [Stmt.exec, ends fuel bound, run_mapState]
  | .ifTrue test truthy inner, _, _, stands => by
    obtain ⟨middle, run, stands⟩ := stands.eval_complete test
    obtain ⟨after, enough, stands, ends⟩ := Executes.complete inner stands
    refine ⟨after, enough, stands, fun fuel bound => ?_⟩
    simp only [Stmt.exec, run, Run.ofExcept, Run.andThen, not_falsy_iff.mp truthy, if_true]
    exact ends fuel bound
  | .ifFalse test falsy, _, _, stands => by
    obtain ⟨middle, run, stands⟩ := stands.eval_complete test
    refine .always stands.silent fun fuel => ?_
    simp only [Stmt.exec, run, Run.ofExcept, Run.andThen, falsy_iff.mp falsy, Bool.false_eq_true, if_false]
    rfl
  | .elseTrue test truthy inner, _, _, stands => by
    obtain ⟨middle, run, stands⟩ := stands.eval_complete test
    obtain ⟨after, enough, stands, ends⟩ := Executes.complete inner stands
    refine ⟨after, enough, stands, fun fuel bound => ?_⟩
    simp only [Stmt.exec, run, Run.ofExcept, Run.andThen, not_falsy_iff.mp truthy, if_true]
    exact ends fuel bound
  | .elseFalse test falsy inner, _, _, stands => by
    obtain ⟨middle, run, stands⟩ := stands.eval_complete test
    obtain ⟨after, enough, stands, ends⟩ := Executes.complete inner stands
    refine ⟨after, enough, stands, fun fuel bound => ?_⟩
    simp only [Stmt.exec, run, Run.ofExcept, Run.andThen, falsy_iff.mp falsy, Bool.false_eq_true, if_false]
    exact ends fuel bound
  | .whileLoop inner, _, _, stands => by
    obtain ⟨after, enough, stands, ends⟩ := Repeats.complete inner stands.enterLoop
    refine ⟨after.leaveLoop, enough, stands.leaveLoop, fun fuel bound => ?_⟩
    simp only [Stmt.exec, ends fuel fuel bound bound, run_mapState]
  | .breakLoop inside, state, _, stands => by
    refine .always stands.silent fun fuel => ?_
    have running : ¬ state.loops = 0 := by rw [stands.loops]; exact Nat.pos_iff_ne_zero.mp inside
    simp only [Stmt.exec, if_neg running]
    rfl
  | .breakOutside, _, _, stands => by
    refine .always stands.silent fun fuel => ?_
    simp only [Stmt.exec, if_pos stands.loops]
    rfl

theorem ExecutesAll.complete {loops : Nat} {scopes last : Scopes} {body : List Stmt} {outcome : Outcome}
    {printed : String} :
    ExecutesAll loops scopes body outcome printed last → ∀ {state output}, Stands state loops output scopes →
      Reaches (fun fuel => Stmt.execAll fuel state body) outcome loops (output ++ printed) last
  | .nil, _, _, stands => by
    refine .always stands.silent fun fuel => ?_
    simp only [Stmt.execAll]
    rfl
  | .cons first others, _, _, stands => by
    obtain ⟨middle, one, stands, begins⟩ := Executes.complete first stands
    obtain ⟨after, other, stands, ends⟩ := ExecutesAll.complete others stands
    rw [String.append_assoc] at stands
    refine ⟨after, max one other, stands, fun fuel bound => ?_⟩
    obtain ⟨left, right⟩ := Nat.max_le.mp bound
    simp only [Stmt.execAll, begins fuel left]
    exact ends fuel right
  | .stop first abrupt, _, _, stands => by
    obtain ⟨after, enough, stands, begins⟩ := Executes.complete first stands
    refine ⟨after, enough, stands, fun fuel bound => ?_⟩
    simp only [Stmt.execAll, begins fuel bound]
    cases outcome with
    | normal => exact absurd rfl abrupt
    | broke | failed error => rfl

theorem Repeats.complete {loops : Nat} {scopes last : Scopes} {condition : Expr} {body : Stmt} {outcome : Outcome}
    {printed : String} :
    Repeats loops scopes condition body outcome printed last → ∀ {state output}, Stands state loops output scopes →
      ∃ after enough, Stands after loops (output ++ printed) last ∧ ∀ rounds fuel, enough ≤ rounds → enough ≤ fuel →
        repeatWhile (·.eval condition) (body.exec fuel) rounds state = outcome.run after
  | .ends test falsy, _, _, stands => by
    obtain ⟨after, run, stands⟩ := stands.eval_complete test
    refine ⟨after, 1, stands.silent, fun rounds fuel bound _ => ?_⟩
    obtain ⟨rounds, rfl⟩ := Nat.exists_eq_add_of_le' bound
    simp only [repeatWhile_succ, run, Run.ofExcept, Run.andThen, falsy_iff.mp falsy, Bool.false_eq_true, if_false]
    rfl
  | .testFails test, _, _, stands => by
    obtain ⟨after, run, stands⟩ := stands.eval_complete test
    refine ⟨after, 1, stands.silent, fun rounds fuel bound _ => ?_⟩
    obtain ⟨rounds, rfl⟩ := Nat.exists_eq_add_of_le' bound
    simp only [repeatWhile_succ, run, Run.ofExcept, Run.andThen]
    rfl
  | .breaks test truthy round, _, _, stands => by
    obtain ⟨middle, run, stands⟩ := stands.eval_complete test
    obtain ⟨after, enough, stands, ends⟩ := Executes.complete round stands
    refine ⟨after, enough + 1, stands, fun rounds fuel bound more => ?_⟩
    obtain ⟨rounds, rfl⟩ := Nat.exists_eq_add_of_le' (Nat.le_of_add_left_le bound)
    simp only [repeatWhile_succ, run, Run.ofExcept, Run.andThen, not_falsy_iff.mp truthy, if_true,
      ends fuel (Nat.le_of_succ_le more)]
    rfl
  | .fails test truthy round, _, _, stands => by
    obtain ⟨middle, run, stands⟩ := stands.eval_complete test
    obtain ⟨after, enough, stands, ends⟩ := Executes.complete round stands
    refine ⟨after, enough + 1, stands, fun rounds fuel bound more => ?_⟩
    obtain ⟨rounds, rfl⟩ := Nat.exists_eq_add_of_le' (Nat.le_of_add_left_le bound)
    simp only [repeatWhile_succ, run, Run.ofExcept, Run.andThen, not_falsy_iff.mp truthy, if_true,
      ends fuel (Nat.le_of_succ_le more)]
    rfl
  | .again test truthy round others, _, _, stands => by
    obtain ⟨middle, run, stands⟩ := stands.eval_complete test
    obtain ⟨next, one, stands, begins⟩ := Executes.complete round stands
    obtain ⟨after, other, stands, ends⟩ := Repeats.complete others stands
    rw [String.append_assoc] at stands
    refine ⟨after, max one other + 1, stands, fun rounds fuel bound more => ?_⟩
    obtain ⟨rounds, rfl⟩ := Nat.exists_eq_add_of_le' (Nat.le_of_add_left_le bound)
    have within : one ≤ fuel := by omega
    simp only [repeatWhile_succ, run, Run.ofExcept, Run.andThen, not_falsy_iff.mp truthy, if_true, begins fuel within]
    exact ends rounds fuel (by omega) (by omega)

end

theorem Executes.of_exec {tree : Stmt} {fuel : Nat} {state after : State} {outcome : Outcome} {printed : String}
    (run : tree.exec fuel state = outcome.run after) (output : after.output = state.output ++ printed) :
    Executes state.loops state.environment.scopes tree outcome printed after.environment.scopes := by
  obtain ⟨more, last, derives, stands⟩ := exec_sound tree fuel _ _ _ _ _ _ ⟨rfl, rfl, rfl⟩ run
  obtain rfl : more = printed := String.append_right_inj _ |>.mp (stands.output.symm.trans output)
  rwa [stands.scopes]

/-- Running a tree ends in an outcome exactly when that outcome is derived for the
stack of maps that the environment stands for. It holds of all trees: one with an
operator that has no rule neither ends nor has a derivation from there on. -/
theorem run_iff_derived :
    (∀ (tree : Expr) (environment : Environment) (result : Except RuntimeError Value) (scopes : Scopes),
      (∃ after, tree.eval environment = .ofExcept result after ∧ after.scopes = scopes) ↔
        Evaluates environment.scopes tree result scopes) ∧
    ∀ (tree : Stmt) (state : State) (outcome : Outcome) (printed : String) (scopes : Scopes),
      (∃ fuel after, tree.exec fuel state = outcome.run after ∧ after.output = state.output ++ printed ∧
        after.environment.scopes = scopes) ↔
        Executes state.loops state.environment.scopes tree outcome printed scopes := by
  refine ⟨fun tree environment result scopes => ⟨?_, fun derives => eval_complete derives rfl⟩,
    fun tree state outcome printed scopes => ⟨?_, fun derives => ?_⟩⟩
  · rintro ⟨after, run, rfl⟩
    exact eval_sound run
  · rintro ⟨fuel, after, run, output, rfl⟩
    exact .of_exec run output
  · obtain ⟨after, enough, stands, ends⟩ := derives.complete ⟨rfl, rfl, rfl⟩
    exact ⟨enough, after, ends enough (Nat.le_refl enough), stands.output, stands.scopes⟩

end Lox.Semantics
