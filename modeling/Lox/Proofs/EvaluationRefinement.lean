import Lox.Expr.Evaluation
import Lox.Proofs.Semantics

/-! Evaluating an expression gives what its meaning says, and never anything else.
The frames of an environment count only as the stack of maps that they stand for. -/

namespace Lox

namespace Run
variable {σ α β : Type}

theorem done_eq_ofExcept {value : α} {state after : σ} {result : Except RuntimeError α} :
    done value state = ofExcept result after ↔ result = .ok value ∧ after = state := by
  cases result with
  | ok => simp only [ofExcept, done.injEq, Except.ok.injEq, eq_comm]
  | error => simp only [ofExcept, reduceCtorEq, false_and]

theorem failed_eq_ofExcept {error : RuntimeError} {state after : σ} {result : Except RuntimeError α} :
    failed error state = ofExcept result after ↔ result = .error error ∧ after = state := by
  cases result with
  | ok => simp only [ofExcept, reduceCtorEq, false_and]
  | error => simp only [ofExcept, failed.injEq, Except.error.injEq, eq_comm]

theorem halted_ne_ofExcept {cause : Halt} {after : σ} {result : Except RuntimeError α} :
    halted cause ≠ ofExcept result after := by
  cases result <;> exact nofun

private theorem ofExcept_eq_ofExcept {first second : Except RuntimeError α} {state after : σ} :
    ofExcept first state = ofExcept second after ↔ second = first ∧ after = state := by
  cases first with
  | ok => exact done_eq_ofExcept
  | error => exact failed_eq_ofExcept

/-- Two runs in a row end in the second one, or in an error of the first. -/
private theorem andThen_eq_ofExcept {run : Run σ α} {next : α → σ → Run σ β} {result : Except RuntimeError β} {after : σ}
    (ends : run.andThen next = ofExcept result after) :
    (∃ value middle, run = ofExcept (.ok value) middle ∧ next value middle = ofExcept result after) ∨
    ∃ error, run = ofExcept (.error error) after ∧ result = .error error := by
  cases run with
  | done value middle => exact .inl ⟨value, middle, rfl, ends⟩
  | failed error middle =>
    obtain ⟨rfl, rfl⟩ := failed_eq_ofExcept.mp ends
    exact .inr ⟨error, rfl, rfl⟩
  | halted cause => exact absurd ends halted_ne_ofExcept

end Run

namespace Semantics

theorem falsy_iff {value : Value} : Falsy value ↔ value.isTruthy = false := by
  constructor
  · rintro (_ | _) <;> rfl
  · intro falsy
    cases value with
    | nil => exact .nil
    | bool flag =>
      cases flag with
      | false => exact .false
      | true => cases falsy
    | number | string => cases falsy

theorem not_falsy_iff {value : Value} : ¬ Falsy value ↔ value.isTruthy = true := by
  rw [falsy_iff, Bool.not_eq_false]

theorem falsy_of_not {value : Value} (untrue : ¬ value.isTruthy = true) : Falsy value :=
  falsy_iff.mpr (Bool.eq_false_iff.mpr untrue)

theorem same_iff {left right : Value} : Same left right ↔ left.equals right = true := by
  constructor
  · rintro (_ | _ | equal | _)
    · rfl
    · exact beq_self_eq_true _
    · exact equal
    · exact beq_self_eq_true _
  · intro equal
    cases left <;> cases right <;> try contradiction
    · exact .nil
    · obtain rfl := eq_of_beq equal
      exact .bool
    · exact .number equal
    · obtain rfl := eq_of_beq equal
      exact .string

section Operators
variable {σ : Type} {operator : Token} {state after : σ} {result : Except RuntimeError Value}

private theorem unary_eq_ofExcept {operand : Value} :
    Operation.unary operator operand state = .ofExcept result after ↔
      Prefixes operator operand result ∧ after = state := by
  constructor
  · intro ends
    unfold Operation.unary at ends
    split at ends
    next kind =>
      split at ends
      next =>
        obtain ⟨rfl, rfl⟩ := Run.done_eq_ofExcept.mp ends
        exact ⟨.negation kind, rfl⟩
      next other =>
        obtain ⟨rfl, rfl⟩ := Run.failed_eq_ofExcept.mp ends
        exact ⟨.notNumber kind other, rfl⟩
    next kind =>
      obtain ⟨rfl, rfl⟩ := Run.done_eq_ofExcept.mp ends
      refine ⟨.inversion kind ?_, rfl⟩
      rw [falsy_iff, Bool.not_eq_true']
    next => exact absurd ends Run.halted_ne_ofExcept
  · rintro ⟨rule, rfl⟩
    cases rule with
    | negation kind => simp only [Operation.unary, kind, Run.ofExcept]
    | notNumber kind other =>
      simp only [Operation.unary, kind]
      rfl
    | @inversion truth _ kind decides =>
      simp only [Operation.unary, kind, Run.ofExcept]
      rw [falsy_iff] at decides
      congr 2
      cases truth <;> simp_all

private theorem add_eq_ofExcept {left right : Value} (kind : operator.kind = .plus) :
    Operation.add operator left right state = .ofExcept result after ↔
      Joins operator left right result ∧ after = state := by
  constructor
  · intro ends
    unfold Operation.add at ends
    split at ends
    next =>
      obtain ⟨rfl, rfl⟩ := Run.done_eq_ofExcept.mp ends
      exact ⟨.sum kind, rfl⟩
    next =>
      obtain ⟨rfl, rfl⟩ := Run.done_eq_ofExcept.mp ends
      exact ⟨.concatenation kind, rfl⟩
    next notNumbers notStrings =>
      obtain ⟨rfl, rfl⟩ := Run.failed_eq_ofExcept.mp ends
      exact ⟨.unlike kind (fun first second both => notNumbers first second both.1 both.2)
        (fun first second both => notStrings first second both.1 both.2), rfl⟩
  · rintro ⟨rule, rfl⟩
    cases rule with
    | sum | concatenation => rfl
    | unlike _ notNumbers notStrings =>
      unfold Operation.add
      split
      next => exact absurd ⟨rfl, rfl⟩ (notNumbers _ _)
      next => exact absurd ⟨rfl, rfl⟩ (notStrings _ _)
      next => rfl
    | equality other | inequality other => cases kind.symm.trans other
    | calculation calculates =>
      rw [kind] at calculates
      cases calculates
    | notNumbers rule =>
      rw [kind] at rule
      obtain ⟨_, calculates⟩ := rule
      cases calculates

private theorem numeric_eq_ofExcept {kind : Kind} {left right : Float} :
    Operation.numeric kind left right state = .ofExcept result after ↔
      ∃ value, Calculates left right kind value ∧ result = .ok value ∧ after = state := by
  constructor
  · intro ends
    unfold Operation.numeric at ends
    split at ends
    all_goals first
      | exact absurd ends Run.halted_ne_ofExcept
      | obtain ⟨rfl, rfl⟩ := Run.done_eq_ofExcept.mp ends
        exact ⟨_, by constructor, rfl, rfl⟩
  · rintro ⟨value, calculates, rfl, rfl⟩
    cases calculates <;> rfl

private theorem numbers_eq_ok {left right : Value} {first second : Float} :
    Operation.numbers operator left right = .ok (first, second) ↔ left = .number first ∧ right = .number second := by
  cases left <;> cases right <;>
    simp only [Operation.numbers, reduceCtorEq, Except.ok.injEq, Prod.mk.injEq, Value.number.injEq, false_and, and_false]

private theorem numbers_eq_error {left right : Value} {error : RuntimeError}
    (others : Operation.numbers operator left right = .error error) :
    error = ⟨.operandsMustBeNumbers, operator.line⟩ := by
  unfold Operation.numbers at others
  split at others
  next => cases others
  next => exact (Except.error.inj others).symm

private theorem binary_of_calculates {left right : Value} (rule : ∃ value, Calculates 0 0 operator.kind value) :
    Operation.binary operator left right state = Operation.calculate operator left right state := by
  obtain ⟨value, calculates⟩ := rule
  generalize kind : operator.kind = sign at calculates
  cases calculates <;> simp only [Operation.binary, kind]

private theorem calculate_eq_ofExcept {left right : Value} (rule : ∃ value, Calculates 0 0 operator.kind value) :
    Operation.calculate operator left right state = .ofExcept result after ↔ Joins operator left right result ∧ after = state := by
  have numeric : ∀ kind value, Calculates 0 0 kind value → kind ≠ .plus ∧ kind ≠ .equalEqual ∧ kind ≠ .bangEqual := by
    intro kind value calculates
    cases calculates <;> decide
  constructor
  · intro ends
    unfold Operation.calculate at ends
    split at ends
    next both =>
      obtain ⟨rfl, rfl⟩ := numbers_eq_ok.mp both
      obtain ⟨value, calculates, rfl, rfl⟩ := numeric_eq_ofExcept.mp ends
      exact ⟨.calculation calculates, rfl⟩
    next error others =>
      obtain ⟨rfl, rfl⟩ := Run.failed_eq_ofExcept.mp ends
      obtain rfl := numbers_eq_error others
      refine ⟨.notNumbers rule fun first second both => ?_, rfl⟩
      rw [numbers_eq_ok.mpr both] at others
      cases others
  · rintro ⟨joins, rfl⟩
    obtain ⟨value, calculates⟩ := rule
    obtain ⟨notPlus, notEqual, notUnequal⟩ := numeric _ value calculates
    cases joins with
    | sum kind | concatenation kind | unlike kind => exact absurd kind notPlus
    | equality kind => exact absurd kind notEqual
    | inequality kind => exact absurd kind notUnequal
    | calculation result => exact numeric_eq_ofExcept.mpr ⟨_, result, rfl, rfl⟩
    | notNumbers _ others =>
      unfold Operation.calculate
      split
      next both => exact absurd (numbers_eq_ok.mp both) (others _ _)
      next error same =>
        rw [numbers_eq_error same]
        rfl

private theorem calculates_any {left right first second : Float} {kind : Kind} {value : Value}
    (calculates : Calculates left right kind value) : ∃ other, Calculates first second kind other := by
  cases calculates <;> exact ⟨_, by constructor⟩

private theorem binary_eq_ofExcept {left right : Value} :
    Operation.binary operator left right state = .ofExcept result after ↔
      Joins operator left right result ∧ after = state := by
  constructor
  · intro ends
    unfold Operation.binary at ends
    split at ends
    next kind => exact (add_eq_ofExcept kind).mp ends
    next kind =>
      obtain ⟨rfl, rfl⟩ := Run.done_eq_ofExcept.mp ends
      exact ⟨.equality kind same_iff.symm, rfl⟩
    next kind =>
      obtain ⟨rfl, rfl⟩ := Run.done_eq_ofExcept.mp ends
      refine ⟨.inequality kind ?_, rfl⟩
      rw [same_iff, Bool.not_eq_true', Bool.not_eq_true]
    all_goals first
      | exact absurd ends Run.halted_ne_ofExcept
      | exact (calculate_eq_ofExcept ⟨_, by rw [‹operator.kind = _›]; constructor⟩).mp ends
  · rintro ⟨joins, rfl⟩
    cases joins with
    | sum kind | concatenation kind =>
      simp only [Operation.binary, kind]
      rfl
    | unlike kind notNumbers notStrings =>
      simp only [Operation.binary, kind]
      exact (add_eq_ofExcept kind).mpr ⟨.unlike kind notNumbers notStrings, rfl⟩
    | @equality truth _ _ kind decides =>
      simp only [Operation.binary, kind, Run.ofExcept]
      rw [same_iff] at decides
      congr 2
      exact Bool.eq_iff_iff.mpr decides.symm
    | @inequality truth _ _ kind decides =>
      simp only [Operation.binary, kind, Run.ofExcept]
      rw [same_iff, Bool.not_eq_true] at decides
      congr 2
      exact Bool.eq_iff_iff.mpr (by rw [decides, Bool.not_eq_true'])
    | calculation calculates =>
      have rule : ∃ other, Calculates 0 0 operator.kind other := calculates_any calculates
      rw [binary_of_calculates rule]
      exact (calculate_eq_ofExcept rule).mpr ⟨.calculation calculates, rfl⟩
    | notNumbers rule others =>
      rw [binary_of_calculates rule]
      exact (calculate_eq_ofExcept rule).mpr ⟨.notNumbers rule others, rfl⟩

private theorem decides?_eq_true {left : Value} : Operation.decides? operator left = some true ↔ Decides operator.kind left := by
  constructor
  · intro same
    unfold Operation.decides? at same
    split at same
    next kind =>
      rw [kind]
      exact .disjunction (not_falsy_iff.mpr (Option.some.inj same))
    next kind =>
      rw [kind]
      have falsy : left.isTruthy = false := by simpa using same
      exact .conjunction (falsy_iff.mpr falsy)
    next => cases same
  · intro rule
    generalize kind : operator.kind = sign at rule
    cases rule with
    | disjunction truthy => rw [Operation.decides?, kind, not_falsy_iff.mp truthy]
    | conjunction falsy => rw [Operation.decides?, kind, falsy_iff.mp falsy]; rfl

private theorem decides?_eq_false {left : Value} : Operation.decides? operator left = some false ↔ Defers operator.kind left := by
  constructor
  · intro same
    unfold Operation.decides? at same
    split at same
    next kind =>
      rw [kind]
      exact .disjunction (falsy_iff.mpr (Option.some.inj same))
    next kind =>
      rw [kind]
      have truthy : left.isTruthy = true := by simpa using same
      exact .conjunction (not_falsy_iff.mpr truthy)
    next => cases same
  · intro rule
    generalize kind : operator.kind = sign at rule
    cases rule with
    | disjunction falsy => rw [Operation.decides?, kind, falsy_iff.mp falsy]
    | conjunction truthy => rw [Operation.decides?, kind, not_falsy_iff.mp truthy]; rfl

end Operators

private theorem assign_eq_ok {environment changed : Environment} {name : Token} {value : Value}
    (assigned : environment.assign name value = .ok changed) :
    environment.scopes.assign? name.lexeme value = some changed.scopes := by
  rw [← Environment.resolve?_scopes]
  unfold Environment.assign at assigned
  split at assigned
  next resolved =>
    cases assigned
    rw [resolved]
    rfl
  next => cases assigned

private theorem assign_eq_error {environment : Environment} {name : Token} {value : Value} {error : RuntimeError}
    (unbound : environment.assign name value = .error error) :
    environment.scopes.assign? name.lexeme value = none ∧ error = .undefined name := by
  rw [← Environment.resolve?_scopes]
  unfold Environment.assign at unbound
  split at unbound
  next => cases unbound
  next resolved =>
    cases unbound
    rw [resolved]
    exact ⟨rfl, rfl⟩

theorem eval_sound {tree : Expr} {environment after : Environment} {result : Except RuntimeError Value}
    (run : tree.eval environment = .ofExcept result after) :
    Evaluates environment.scopes tree result after.scopes := by
  induction tree generalizing environment after result with
  | literal value =>
    obtain ⟨rfl, rfl⟩ := Run.done_eq_ofExcept.mp run
    exact .literal
  | grouping inner ih => exact .grouping (ih run)
  | unary operator operand ih =>
    obtain ⟨value, middle, first, rest⟩ | ⟨error, first, rfl⟩ := Run.andThen_eq_ofExcept run
    · obtain ⟨rule, rfl⟩ := unary_eq_ofExcept.mp rest
      exact .unary (ih first) rule
    · exact .unaryFails (ih first)
  | binary left operator right first second =>
    obtain ⟨one, middle, begun, rest⟩ | ⟨error, begun, rfl⟩ := Run.andThen_eq_ofExcept run
    · obtain ⟨other, last, finished, rest⟩ | ⟨error, finished, rfl⟩ := Run.andThen_eq_ofExcept rest
      · obtain ⟨rule, rfl⟩ := binary_eq_ofExcept.mp rest
        exact .binary (first begun) (second finished) rule
      · exact .rightFails (first begun) (second finished)
    · exact .leftFails (first begun)
  | dangling operator right => exact absurd run Run.halted_ne_ofExcept
  | logical left operator right first second =>
    obtain ⟨one, middle, begun, rest⟩ | ⟨error, begun, rfl⟩ := Run.andThen_eq_ofExcept run
    · split at rest
      next => exact absurd rest Run.halted_ne_ofExcept
      next decided =>
        obtain ⟨rfl, rfl⟩ := Run.done_eq_ofExcept.mp rest
        exact .decided (first begun) (decides?_eq_true.mp decided)
      next deferred => exact .deferred (first begun) (decides?_eq_false.mp deferred) (second rest)
    · exact .logicalFails (first begun)
  | var name =>
    obtain ⟨rfl, rfl⟩ := Run.ofExcept_eq_ofExcept.mp run
    cases found : after.get name with
    | ok value => exact .var (Environment.get_eq_ok.mp found)
    | error error =>
      obtain ⟨missing, rfl⟩ := Environment.get_eq_error.mp found
      exact .unbound missing
  | assign name value ih =>
    obtain ⟨value, middle, first, rest⟩ | ⟨error, first, rfl⟩ := Run.andThen_eq_ofExcept run
    · split at rest
      next changed assigned =>
        obtain ⟨rfl, rfl⟩ := Run.done_eq_ofExcept.mp rest
        exact .assign (ih first) (assign_eq_ok assigned)
      next error unbound =>
        obtain ⟨rfl, rfl⟩ := Run.failed_eq_ofExcept.mp rest
        obtain ⟨missing, rfl⟩ := assign_eq_error unbound
        exact .assignUnbound (ih first) missing
    · exact .assignFails (ih first)

theorem eval_complete {scopes last : Scopes} {tree : Expr} {result : Except RuntimeError Value}
    (derives : Evaluates scopes tree result last) {environment : Environment} (same : environment.scopes = scopes) :
    ∃ after, tree.eval environment = .ofExcept result after ∧ after.scopes = last := by
  induction derives generalizing environment with
  | literal => exact ⟨environment, rfl, same⟩
  | grouping inner ih => exact ih same
  | unary inner rule ih =>
    obtain ⟨after, run, seen⟩ := ih same
    refine ⟨after, ?_, seen⟩
    rw [Expr.eval, run]
    exact unary_eq_ofExcept.mpr ⟨rule, rfl⟩
  | unaryFails inner ih | leftFails first ih | logicalFails first ih | assignFails inner ih =>
    obtain ⟨after, run, seen⟩ := ih same
    refine ⟨after, ?_, seen⟩
    rw [Expr.eval, run]
    rfl
  | binary first second rule begins ends =>
    obtain ⟨middle, begun, seen⟩ := begins same
    obtain ⟨after, ended, seen⟩ := ends seen
    refine ⟨after, ?_, seen⟩
    rw [Expr.eval, begun]
    show (Expr.eval _ _).andThen _ = _
    rw [ended]
    exact binary_eq_ofExcept.mpr ⟨rule, rfl⟩
  | rightFails first second begins ends =>
    obtain ⟨middle, begun, seen⟩ := begins same
    obtain ⟨after, ended, seen⟩ := ends seen
    refine ⟨after, ?_, seen⟩
    rw [Expr.eval, begun]
    show (Expr.eval _ _).andThen _ = _
    rw [ended]
    rfl
  | decided first rule ih =>
    obtain ⟨after, run, seen⟩ := ih same
    refine ⟨after, ?_, seen⟩
    rw [Expr.eval, run]
    simp only [Run.ofExcept, Run.andThen, decides?_eq_true.mpr rule]
  | deferred first rule second begins ends =>
    obtain ⟨middle, begun, seen⟩ := begins same
    obtain ⟨after, ended, seen⟩ := ends seen
    refine ⟨after, ?_, seen⟩
    rw [Expr.eval, begun]
    simp only [Run.ofExcept, Run.andThen, decides?_eq_false.mpr rule]
    exact ended
  | var bound =>
    subst same
    refine ⟨environment, ?_, rfl⟩
    rw [Expr.eval, Environment.get_eq_ok.mpr bound]
  | unbound missing =>
    subst same
    refine ⟨environment, ?_, rfl⟩
    rw [Expr.eval, Environment.get_eq_error.mpr ⟨missing, rfl⟩]
    rfl
  | @assign scopes tree value middle last name inner bound ih =>
    obtain ⟨after, run, rfl⟩ := ih same
    cases assigned : after.assign name value with
    | ok changed =>
      refine ⟨changed, ?_, Option.some.inj ((assign_eq_ok assigned).symm.trans bound)⟩
      rw [Expr.eval, run]
      simp only [Run.ofExcept, Run.andThen, assigned]
    | error error => cases (assign_eq_error assigned).1.symm.trans bound
  | @assignUnbound scopes tree value last name inner missing ih =>
    obtain ⟨after, run, rfl⟩ := ih same
    cases assigned : after.assign name value with
    | ok changed => cases missing.symm.trans (assign_eq_ok assigned)
    | error error =>
      obtain ⟨_, rfl⟩ := assign_eq_error assigned
      refine ⟨after, ?_, rfl⟩
      rw [Expr.eval, run]
      simp only [Run.ofExcept, Run.andThen, assigned]
      rfl

end Semantics

end Lox
