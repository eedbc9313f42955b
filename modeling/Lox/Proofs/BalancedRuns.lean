import Lox.Proofs.BalancedScopes
import Lox.Proofs.ConsistentRuns

/-! Running a statement leaves the interpreter balanced, however the run ends. The
states may also lie inside blocks and loops, where runs begin and end as well. -/

namespace Lox

namespace Expr

def targets : Expr → List String
  | literal _ | var _ => []
  | grouping inner => inner.targets
  | unary _ operand => operand.targets
  | binary left _ right | logical left _ right => left.targets ++ right.targets
  | dangling _ right => right.targets
  | assign name value => name.lexeme :: value.targets

end Expr

namespace Stmt

mutual

def targets : Stmt → List String
  | expression value | print value => value.targets
  | declare _ none | breakLoop _ => []
  | declare _ (some initial) => initial.targets
  | block body => targetsAll body
  | ifThen condition consequence => condition.targets ++ consequence.targets
  | ifElse condition consequence alternative => condition.targets ++ (consequence.targets ++ alternative.targets)
  | whileLoop condition body => condition.targets ++ body.targets

def targetsAll : List Stmt → List String
  | [] => []
  | first :: rest => first.targets ++ targetsAll rest

end

/-- The names that a statement may declare in the scope around it, so none of those in its blocks. -/
def declared : Stmt → List String
  | declare name _ => [name.lexeme]
  | ifThen _ consequence => consequence.declared
  | ifElse _ consequence alternative => consequence.declared ++ alternative.declared
  | whileLoop _ body => body.declared
  | expression _ | print _ | block _ | breakLoop _ => []

end Stmt

/-- What a run may leave of a state, however it ends: the scopes are balanced, as many loops are running as
before, and what was printed is still there, maybe with more behind it. -/
structure State.Balanced (targets declared : List String) (before after : State) : Prop where
  environment : before.environment.Balanced targets declared after.environment
  loops : after.loops = before.loops
  output : ∃ printed, after.output = before.output ++ printed

namespace State.Balanced
variable {targets declared wider more : List String} {before middle after : State}

theorem refl (targets declared : List String) (state : State) : Balanced targets declared state state :=
  ⟨.refl _ _ _, rfl, "", String.append_empty.symm⟩

theorem trans (first : Balanced targets declared before middle) (second : Balanced targets declared middle after) :
    Balanced targets declared before after := by
  obtain ⟨one, begun⟩ := first.output
  obtain ⟨other, printed⟩ := second.output
  refine ⟨first.environment.trans second.environment, second.loops.trans first.loops, one ++ other, ?_⟩
  rw [printed, begun, String.append_assoc]

theorem mono (balanced : Balanced targets declared before after) (assigns : targets ⊆ wider)
    (declares : declared ⊆ more) : Balanced wider more before after :=
  ⟨balanced.environment.mono assigns declares, balanced.loops, balanced.output⟩

private theorem leave (inner : Balanced targets declared before.enter after) : Balanced targets [] before after.leave :=
  ⟨inner.environment.leave, inner.loops, inner.output⟩

private theorem leaveLoop (inner : Balanced targets declared before.enterLoop after) :
    Balanced targets declared before after.leaveLoop :=
  ⟨inner.environment, congrArg (· - 1) inner.loops, inner.output⟩

private theorem printLine (state : State) (text : String) : Balanced targets declared state (state.printLine text) :=
  ⟨.refl _ _ _, rfl, text ++ "\n", String.append_assoc ..⟩

private theorem define (state : State) (name : Token) (value : Value) :
    Balanced [] [name.lexeme] state (state.define name value) :=
  ⟨state.environment.define_balanced name.lexeme value, rfl, "", String.append_empty.symm⟩

end State.Balanced

namespace Run
variable {σ τ α β : Type}

/-- Every state that the run reaches, with or without an error, has a property. Of a run that is halted
nothing is said. -/
def Attains (run : Run σ α) (property : σ → Prop) : Prop := ∀ after, run.reached? = some after → property after

theorem Attains.done {property : σ → Prop} {value : α} {state : σ} (holds : property state) :
    (done value state).Attains property := by
  intro after ends
  cases ends
  exact holds

theorem Attains.failed {property : σ → Prop} {error : RuntimeError} {state : σ} (holds : property state) :
    (failed error state : Run σ α).Attains property := by
  intro after ends
  cases ends
  exact holds

theorem Attains.halted {property : σ → Prop} {cause : Halt} : (halted cause : Run σ α).Attains property := nofun

theorem Attains.mono {run : Run σ α} {property weaker : σ → Prop} (attains : run.Attains property)
    (implies : ∀ after, property after → weaker after) : run.Attains weaker :=
  fun after ends => implies after (attains after ends)

theorem Attains.andThen {run : Run σ α} {next : α → σ → Run σ β} {property : σ → Prop} (first : run.Attains property)
    (rest : ∀ value middle, property middle → (next value middle).Attains property) :
    (run.andThen next).Attains property := by
  cases run with
  | done value middle => exact rest value middle (first middle rfl)
  | failed error after => exact .failed (first after rfl)
  | halted cause => exact .halted

theorem Attains.mapState {run : Run σ α} {change : σ → τ} {property : σ → Prop} {changed : τ → Prop}
    (inner : run.Attains property) (same : ∀ after, property after → changed (change after)) :
    (run.mapState change).Attains changed := by
  cases run with
  | done value after => exact .done (same after (inner after rfl))
  | failed error after => exact .failed (same after (inner after rfl))
  | halted cause => exact .halted

private theorem Attains.mapState_const {outcome : Run Unit α} {property : σ → Prop} {state : σ} (holds : property state) :
    (outcome.mapState fun _ => state).Attains property := by
  cases outcome with
  | done value _ => exact .done holds
  | failed error _ => exact .failed holds
  | halted cause => exact .halted

end Run

namespace Operation
variable {σ : Type} {property : σ → Prop} (operator : Token)

/-! Operators on values neither look at a state nor change it. -/

theorem unary_mapState (operand : Value) (state : σ) :
    unary operator operand state = (unary operator operand ()).mapState fun _ => state := by
  unfold unary
  split
  · cases operand <;> rfl
  · rfl
  · rfl

private theorem add_mapState (left right : Value) (state : σ) :
    add operator left right state = (add operator left right ()).mapState fun _ => state := by
  cases left <;> cases right <;> rfl

private theorem numeric_mapState (kind : Kind) (left right : Float) (state : σ) :
    numeric kind left right state = (numeric kind left right ()).mapState fun _ => state := by
  unfold numeric
  split <;> rfl

private theorem calculate_mapState (left right : Value) (state : σ) :
    calculate operator left right state = (calculate operator left right ()).mapState fun _ => state := by
  unfold calculate
  split
  · exact numeric_mapState operator.kind _ _ state
  · rfl

theorem binary_mapState (left right : Value) (state : σ) :
    binary operator left right state = (binary operator left right ()).mapState fun _ => state := by
  unfold binary
  split
  case h_1 => exact add_mapState operator left right state
  case h_2 | h_3 | h_11 => rfl
  all_goals exact calculate_mapState operator left right state

variable {operator} {state : σ}

private theorem unary_attains (holds : property state) (operand : Value) : (unary operator operand state).Attains property := by
  rw [unary_mapState]
  exact .mapState_const holds

private theorem binary_attains (holds : property state) (left right : Value) :
    (binary operator left right state).Attains property := by
  rw [binary_mapState]
  exact .mapState_const holds

end Operation

/-- What may have changed in a run, for the names that it may assign and declare: no less with more of
them, and of two runs in a row what may have changed in either. -/
structure Run.Bounds {σ : Type} (bound : List String → List String → σ → σ → Prop) : Prop where
  mono : ∀ {targets declared wider more : List String} {before after : σ}, bound targets declared before after →
    targets ⊆ wider → declared ⊆ more → bound wider more before after
  trans : ∀ {targets declared : List String} {before middle after : σ}, bound targets declared before middle →
    bound targets declared middle after → bound targets declared before after

namespace Run.Bounds
variable {σ α : Type} {bound : List String → List String → σ → σ → Prop} (bounds : Bounds bound)
  {targets declared wider more narrower fewer : List String} {before middle : σ} {run : Run σ α}
include bounds

private theorem widened (attains : run.Attains (bound targets declared before)) (assigns : targets ⊆ wider)
    (declares : declared ⊆ more) : run.Attains (bound wider more before) :=
  attains.mono fun _ changed => bounds.mono changed assigns declares

/-- What runs on from a state that was reached, and does no more than was allowed, keeps to the same bound. -/
private theorem followed (reached : bound targets declared before middle) (assigns : narrower ⊆ targets)
    (declares : fewer ⊆ declared) (attains : run.Attains (bound narrower fewer middle)) :
    run.Attains (bound targets declared before) :=
  attains.mono fun _ further => bounds.trans reached (bounds.mono further assigns declares)

end Run.Bounds

private theorem Environment.Balanced.bounds : Run.Bounds Environment.Balanced := ⟨mono, trans⟩

private theorem State.Balanced.bounds : Run.Bounds State.Balanced := ⟨mono, trans⟩

theorem Expr.eval_balanced (tree : Expr) (environment : Environment) :
    (tree.eval environment).Attains (environment.Balanced tree.targets []) := by
  induction tree generalizing environment with
  | literal value => exact .done (.refl _ _ _)
  | grouping inner ih => exact ih environment
  | unary operator operand ih =>
    exact (ih environment).andThen fun value after balanced => Operation.unary_attains balanced value
  | binary left operator right first second =>
    have begun := Environment.Balanced.bounds.widened (first environment) (List.subset_append_left _ right.targets)
      (List.Subset.refl [])
    refine begun.andThen fun one middle kept => ?_
    have others := Environment.Balanced.bounds.followed kept (List.subset_append_right left.targets _) (List.Subset.refl []) (second middle)
    exact others.andThen fun other after balanced => Operation.binary_attains balanced one other
  | dangling operator right => exact .halted
  | logical left operator right first second =>
    have begun := Environment.Balanced.bounds.widened (first environment) (List.subset_append_left _ right.targets)
      (List.Subset.refl [])
    refine begun.andThen fun one middle kept => ?_
    split
    · exact .halted
    · exact .done kept
    · exact Environment.Balanced.bounds.followed kept (List.subset_append_right left.targets _) (List.Subset.refl []) (second middle)
  | var name =>
    rw [eval]
    cases environment.get name with
    | ok value => exact .done (.refl _ _ _)
    | error error => exact .failed (.refl _ _ _)
  | assign name value ih =>
    have begun := Environment.Balanced.bounds.widened (ih environment) (List.subset_cons_self name.lexeme _)
      (List.Subset.refl [])
    refine begun.andThen fun result middle kept => ?_
    split
    next changed assigned =>
      have balanced := Environment.assign_balanced assigned
      exact .done (kept.trans (balanced.mono (List.cons_subset_cons _ (List.nil_subset _)) (List.Subset.refl [])))
    next => exact .failed kept

theorem State.eval_silent (tree : Expr) (state : State) :
    (state.eval tree).Attains fun after => state.Balanced tree.targets [] after ∧ after.output = state.output :=
  (tree.eval_balanced state.environment).mapState fun _ balanced =>
    ⟨⟨balanced, rfl, "", String.append_empty.symm⟩, rfl⟩

/-- An expression in a statement that assigns and declares what the expression does, and maybe more. -/
theorem State.eval_balanced {tree : Expr} {wider : List String} (assigns : tree.targets ⊆ wider) (more : List String)
    (state : State) : (state.eval tree).Attains (state.Balanced wider more) :=
  (state.eval_silent tree).mono fun _ both => both.1.mono assigns (List.nil_subset more)

private theorem repeatWhile_balanced {targets declared : List String} {test : State → Run State Value}
    {round : State → Run State Completion} (tested : ∀ state, (test state).Attains (state.Balanced targets declared))
    (rounds : ∀ state, (round state).Attains (state.Balanced targets declared)) (fuel : Nat) (state : State) :
    (repeatWhile test round fuel state).Attains (state.Balanced targets declared) := by
  induction fuel generalizing state with
  | zero => exact .halted
  | succ fuel ih =>
    rw [repeatWhile_succ]
    refine (tested state).andThen fun value middle tested => ?_
    split
    · have ran := (rounds middle).mono fun _ more => tested.trans more
      refine ran.andThen fun completion next kept => ?_
      cases completion with
      | normal => exact (ih next).mono fun _ more => kept.trans more
      | broke => exact .done kept
    · exact .done tested

namespace Stmt

theorem execAll_balanced {fuel : Nat} {body : List Stmt}
    (each : ∀ tree ∈ body, ∀ state, (tree.exec fuel state).Attains (state.Balanced tree.targets tree.declared))
    (state : State) :
    (execAll fuel state body).Attains (state.Balanced (targetsAll body) (body.flatMap declared)) := by
  induction body generalizing state with
  | nil => exact .done (.refl _ _ _)
  | cons first rest ih =>
    rw [List.forall_mem_cons] at each
    have begun := State.Balanced.bounds.widened (each.1 state) (List.subset_append_left _ (targetsAll rest))
      (List.subset_append_left _ (rest.flatMap declared))
    refine begun.andThen fun completion middle kept => ?_
    cases completion with
    | normal =>
      exact State.Balanced.bounds.followed kept (List.subset_append_right first.targets _) (List.subset_append_right first.declared _)
        (ih each.2 middle)
    | broke => exact .done kept

theorem exec_balanced (tree : Stmt) (fuel : Nat) (state : State) :
    (tree.exec fuel state).Attains (state.Balanced tree.targets tree.declared) := by
  induction tree generalizing state with
  | expression value =>
    have begun := state.eval_balanced (List.Subset.refl value.targets) []
    exact begun.andThen fun _ _ kept => .done kept
  | print value =>
    have begun := state.eval_balanced (List.Subset.refl value.targets) []
    exact begun.andThen fun result middle kept => .done (kept.trans (.printLine middle result.text))
  | declare name initial =>
    cases initial with
    | none => exact .done (.define state name .nil)
    | some value =>
      have begun := state.eval_balanced (List.Subset.refl value.targets) [name.lexeme]
      refine begun.andThen fun result middle kept => ?_
      have defined := State.Balanced.define middle name result
      exact .done (kept.trans (defined.mono (List.nil_subset _) (List.Subset.refl _)))
  | block body ih => exact (execAll_balanced ih state.enter).mapState fun _ inner => inner.leave
  | ifThen condition consequence ih =>
    have begun := state.eval_balanced (List.subset_append_left condition.targets consequence.targets) consequence.declared
    refine begun.andThen fun value middle kept => ?_
    split
    · exact State.Balanced.bounds.followed kept (List.subset_append_right condition.targets _) (List.Subset.refl _) (ih middle)
    · exact .done kept
  | ifElse condition consequence alternative first second =>
    have begun := state.eval_balanced
      (List.subset_append_left condition.targets (consequence.targets ++ alternative.targets))
      (consequence.declared ++ alternative.declared)
    refine begun.andThen fun value middle kept => ?_
    have either := List.subset_append_right condition.targets (consequence.targets ++ alternative.targets)
    split
    · exact State.Balanced.bounds.followed kept (List.Subset.trans (List.subset_append_left _ _) either) (List.subset_append_left _ _)
        (first middle)
    · exact State.Balanced.bounds.followed kept (List.Subset.trans (List.subset_append_right _ _) either) (List.subset_append_right _ _)
        (second middle)
  | whileLoop condition body ih =>
    have tested := State.eval_balanced (List.subset_append_left condition.targets body.targets) body.declared
    have rounds : ∀ before : State, (body.exec fuel before).Attains
        (before.Balanced (condition.targets ++ body.targets) body.declared) := fun before =>
      State.Balanced.bounds.widened (ih before) (List.subset_append_right _ _) (List.Subset.refl _)
    exact (repeatWhile_balanced tested rounds fuel state.enterLoop).mapState fun _ inner => inner.leaveLoop
  | breakLoop keyword =>
    rw [exec]
    split
    · exact .failed (.refl _ _ _)
    · exact .done (.refl _ _ _)

end Stmt

/-- Statements and expressions leave the interpreter balanced, from any state and however they end. -/
theorem runs_leave_balance (before after : State) :
    (∀ (tree : Stmt) (fuel : Nat), (tree.exec fuel before).reached? = some after →
      before.Balanced tree.targets tree.declared after) ∧
    (∀ (body : List Stmt) (fuel : Nat), ((Stmt.block body).exec fuel before).reached? = some after →
      ∀ position name, after.environment.Binds position name ↔ before.environment.Binds position name) ∧
    ∀ tree : Expr, (before.eval tree).reached? = some after →
      before.Balanced tree.targets [] after ∧ after.output = before.output ∧
        ∀ position name, after.environment.Binds position name ↔ before.environment.Binds position name := by
  refine ⟨fun tree fuel ends => tree.exec_balanced fuel before after ends, fun body fuel ends => ?_, fun tree ends => ?_⟩
  · have balanced := (Stmt.block body).exec_balanced fuel before after ends
    exact balanced.environment.binds_iff
  · obtain ⟨balanced, silent⟩ := before.eval_silent tree after ends
    exact ⟨balanced, silent, balanced.environment.binds_iff⟩

/-- A run that starts in a block and a loop, and is ended by an error two blocks and a loop further
in. It declares variables in the inner blocks and assigns one of the outermost scope. -/
theorem runs_leave_balance_nested_error :
    let name (text : String) : Token := .simple .identifier text 1
    let started (value : Value) : State :=
      (((State.new.define (name "a") value).enter.define (name "b") .nil).enterLoop).print "start"
    let fails : Expr := .unary (.simple .minus "-" 3) (.assign (name "a") (.literal (.string "x")))
    let inner : Stmt := .block [.declare (name "c") none, .print (.var (name "b")), .expression fails]
    let body : List Stmt := [.declare (name "b") none, .expression (.assign (name "b") (.literal (.bool true))), inner]
    let tree : Stmt := .whileLoop (.literal (.bool true)) (.ifThen (.literal (.bool true)) (.block body))
    let before := started .nil
    let middle := started (.string "x")
    let after := middle.print "true\n"
    (tree.exec 1 before).reached? = some after ∧ before.Balanced tree.targets tree.declared after ∧
      ((Stmt.block body).exec 1 before).reached? = some after ∧
      (∀ position name, after.environment.Binds position name ↔ before.environment.Binds position name) ∧
      (before.eval fails).reached? = some middle ∧ before.Balanced fails.targets [] middle := by
  intro name started fails inner body tree before middle after
  have run : (tree.exec 1 before).reached? = some after := by decide +kernel
  have block : ((Stmt.block body).exec 1 before).reached? = some after := by decide +kernel
  have value : (before.eval fails).reached? = some middle := by decide +kernel
  have balance := runs_leave_balance before
  exact ⟨run, (balance after).1 tree 1 run, block, (balance after).2.1 body 1 block, value,
    ((balance middle).2.2 fails value).1⟩

end Lox
