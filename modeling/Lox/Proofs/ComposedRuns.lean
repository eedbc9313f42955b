import Lox.Stmt.Execution

/-! Properties that a run has if the runs that it is composed of have them. A loop is composed of its
tests and rounds, and a row of statements of the runs of each. -/

namespace Lox

/-- The property is kept by composition, whatever the values of the runs are. Of runtime errors nothing is
asked here, as those come with the operators, names and keywords that raise them. -/
structure Run.Composes {σ : Type} (property : ∀ {α : Type}, Run σ α → Prop) : Prop where
  done : ∀ {α : Type} {value : α} {state : σ}, property (.done value state)
  outOfFuel : ∀ {α : Type}, property (.halted .outOfFuel : Run σ α)
  andThen : ∀ {α β : Type} {run : Run σ α} {next : α → σ → Run σ β}, property run →
    (∀ value state, property (next value state)) → property (run.andThen next)

namespace Run.Composes
variable {property : ∀ {α : Type}, Run State α → Prop} (composes : Composes property)
include composes

theorem repeatWhile {test : State → Run State Value} {round : State → Run State Completion}
    (tested : ∀ state, property (test state)) (rounds : ∀ state, property (round state)) (fuel : Nat) (state : State) :
    property (Lox.repeatWhile test round fuel state) := by
  induction fuel generalizing state with
  | zero => exact composes.outOfFuel
  | succ fuel ih =>
    rw [repeatWhile_succ]
    refine composes.andThen (tested state) fun value after => ?_
    split
    · refine composes.andThen (rounds after) fun completion next => ?_
      cases completion with
      | normal => exact ih next
      | broke => exact composes.done
    · exact composes.done

theorem execAll {fuel : Nat} {body : List Stmt}
    (each : ∀ statement ∈ body, ∀ state, property (statement.exec fuel state)) (state : State) :
    property (Stmt.execAll fuel state body) := by
  induction body generalizing state with
  | nil => exact composes.done
  | cons first rest ih =>
    rw [List.forall_mem_cons] at each
    refine composes.andThen (each.1 state) fun completion after => ?_
    cases completion with
    | normal => exact ih each.2 after
    | broke => exact composes.done

end Run.Composes

end Lox
