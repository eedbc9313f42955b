import Lox.Proofs.ConsistentRuns
import Lox.Proofs.JoinedSources

/-! Sessions as they come about: between two sources the interpreter is always in a
state between top-level runs. So a source that is read without errors either comes
to its end or runs for ever. -/

namespace Lox

namespace Session

/-- The sessions that can come about. What was written may be taken away at any time. -/
inductive Reachable : Session → Prop where
  | new (showTokens showTrees : Bool) : Reachable (.new showTokens showTrees)
  | prompt (before : Reachable session) : Reachable session.prompt
  | written (before : Reachable session) (output written : String) :
      Reachable { session with
        state := { session.state with output }, reporter := { session.reporter with written } }
  | source (before : Reachable session) (fuel : Nat) (text : String) (result : session.runSource fuel text = .ok after) :
      Reachable after
  | line (before : Reachable session) (fuel : Nat) (text : String) (result : session.runLine fuel text = .ok after) :
      Reachable after

theorem list_reachable {session : Session} (before : Lox.Reachable session.state) (wanted : Bool) (texts : List String) :
    Lox.Reachable (session.list wanted texts).state := by
  cases wanted with
  | false => exact before
  | true =>
    have printed : ∀ state, Lox.Reachable state → Lox.Reachable (texts.foldl State.printLine state) := by
      induction texts with
      | nil => exact fun state reachable => reachable
      | cons text rest ih => exact fun state reachable => ih _ (reachable.shown _)
    exact printed session.state before

theorem scanned_reachable {session : Session} (before : Lox.Reachable session.state) (result : Scan) :
    Lox.Reachable (session.scanned result).state :=
  list_reachable before session.showTokens (result.tokens.map Token.text)

private theorem conclude_reached {α : Type} {session after : Session} {run : Run State α} (result : session.conclude run = .ok after) :
    run.reached? = some after.state := by
  cases run with
  | done value state | failed error state =>
    cases result
    rfl
  | halted cause => cases result

private theorem runTokens_reachable {session after : Session} (before : Lox.Reachable session.state) {fuel : Nat}
    {tokens : List Token} (result : session.runTokens fuel tokens = .ok after) : Lox.Reachable after.state := by
  rw [runTokens] at result
  split at result
  next =>
    cases result
    exact before
  next program accepted =>
    exact (list_reachable before session.showTrees _).ran fuel program (conclude_reached result)

/-- Sources and lines leave the interpreter between top-level runs. -/
theorem Reachable.state {session : Session} (reachable : session.Reachable) : Lox.Reachable session.state := by
  induction reachable with
  | new => exact .new
  | prompt before ih => exact ih.shown _
  | written before output written ih => exact ih.shown output
  | source before fuel text result ih =>
    rw [runSource] at result
    split at result
    next =>
      cases result
      exact scanned_reachable ih _
    next => exact runTokens_reachable (scanned_reachable ih _) result
  | @line session after before fuel text result ih =>
    have begun : Lox.Reachable ({ session with reporter := session.reporter.reset }.scanned (scan text)).state :=
      @scanned_reachable { session with reporter := session.reporter.reset } ih (scan text)
    rw [runLine] at result
    split at result
    next =>
      cases result
      exact begun
    next =>
      split at result
      next value accepted =>
        exact (list_reachable begun _ _).printed value (conclude_reached result)
      next => exact runTokens_reachable begun result

/-- No third thing can happen to a source that is read without errors. -/
theorem ends_or_diverges {session : Session} {source : String} (reachable : session.Reachable) (quiet : session.Quiet)
    (clean : Clean source) : (∃ error? after, session.Ends source error? after) ∨ session.Diverges source := by
  by_cases runs : ∃ fuel, session.state.execProgram fuel (statements source) ≠ .halted .outOfFuel
  · obtain ⟨fuel, ends⟩ := runs
    have consistent := State.execProgram_consistent clean.derived.ruled fuel reachable.state.outside
    refine .inl ?_
    cases run : session.state.execProgram fuel (statements source) with
    | done value state => exact ⟨none, _, (ends_iff quiet clean).mpr ⟨fuel, state, run, rfl⟩⟩
    | failed error state => exact ⟨some error, _, (ends_iff quiet clean).mpr ⟨fuel, state, run, rfl⟩⟩
    | halted cause =>
      cases cause with
      | contradiction reason => exact absurd run (consistent reason)
      | outOfFuel => exact absurd run ends
  · refine .inr ((diverges_iff quiet clean).mpr fun fuel => ?_)
    exact Decidable.not_not.mp fun ends => runs ⟨fuel, ends⟩

end Session

end Lox
