import Lox.Stmt.Execution

/-! More fuel never changes a run that ended with less. Whatever did not run out
of fuel is the same from there on. -/

namespace Lox

namespace Run
variable {σ τ α β : Type}

/-- The second run is the first one, unless that was cut off. Then nothing is said of it, as more fuel may
lead anywhere. -/
def Extends (run other : Run σ α) : Prop := run ≠ .halted .outOfFuel → other = run

theorem Extends.refl (run : Run σ α) : run.Extends run := fun _ => rfl

theorem Extends.andThen {run other : Run σ α} {next last : α → σ → Run σ β} (first : run.Extends other)
    (rest : ∀ value state, (next value state).Extends (last value state)) :
    (run.andThen next).Extends (other.andThen last) := by
  intro ends
  have began : run ≠ .halted .outOfFuel := by
    rintro rfl
    exact ends rfl
  rw [first began]
  cases run with
  | done value state => exact rest value state ends
  | failed error state => rfl
  | halted cause => rfl

theorem Extends.mapState {run other : Run σ α} (first : run.Extends other) (change : σ → τ) :
    (run.mapState change).Extends (other.mapState change) := by
  intro ends
  have began : run ≠ .halted .outOfFuel := by
    rintro rfl
    exact ends rfl
  rw [first began]

end Run

private theorem repeatWhile_extends {test : State → Run State Value} {round next : State → Run State Completion}
    (rounds : ∀ state, (round state).Extends (next state)) {fuel more : Nat} (enough : fuel ≤ more) (state : State) :
    (repeatWhile test round fuel state).Extends (repeatWhile test next more state) := by
  induction fuel generalizing more state with
  | zero => exact fun ends => absurd rfl ends
  | succ fuel ih =>
    obtain ⟨more, rfl⟩ := Nat.exists_eq_add_of_le' (Nat.le_of_add_left_le enough)
    rw [repeatWhile_succ, repeatWhile_succ]
    refine (Run.Extends.refl (test state)).andThen fun value after => ?_
    split
    · refine (rounds after).andThen fun completion last => ?_
      cases completion with
      | normal => exact ih (Nat.le_of_succ_le_succ enough) last
      | broke => exact .refl _
    · exact .refl _

namespace Stmt

private theorem execAll_extends {fuel more : Nat} {body : List Stmt}
    (each : ∀ tree ∈ body, ∀ state, (tree.exec fuel state).Extends (tree.exec more state)) (state : State) :
    (execAll fuel state body).Extends (execAll more state body) := by
  induction body generalizing state with
  | nil => exact .refl _
  | cons first rest ih =>
    rw [List.forall_mem_cons] at each
    refine (each.1 state).andThen fun completion after => ?_
    cases completion with
    | normal => exact ih each.2 after
    | broke => exact .refl _

theorem exec_extends (tree : Stmt) {fuel more : Nat} (enough : fuel ≤ more) (state : State) :
    (tree.exec fuel state).Extends (tree.exec more state) := by
  induction tree generalizing state with
  | expression | print | breakLoop => exact .refl _
  | declare name initial => cases initial <;> exact .refl _
  | block body ih => exact (execAll_extends ih state.enter).mapState _
  | ifThen condition consequence ih =>
    refine (Run.Extends.refl (state.eval condition)).andThen fun value after => ?_
    split
    · exact ih after
    · exact .refl _
  | ifElse condition consequence alternative ih other =>
    refine (Run.Extends.refl (state.eval condition)).andThen fun value after => ?_
    split
    · exact ih after
    · exact other after
  | whileLoop condition body ih => exact (repeatWhile_extends ih enough state.enterLoop).mapState _

end Stmt

theorem State.execProgram_extends (program : List Stmt) {fuel more : Nat} (enough : fuel ≤ more) (state : State) :
    (state.execProgram fuel program).Extends (state.execProgram more program) := by
  induction program generalizing state with
  | nil => exact .refl _
  | cons first rest ih =>
    rw [execProgram_cons, execProgram_cons]
    refine (first.exec_extends enough state).andThen fun completion after => ?_
    cases completion with
    | normal => exact ih after
    | broke => exact .refl _

end Lox
