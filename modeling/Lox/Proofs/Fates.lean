import Lox.Proofs.ReachableSessions
import Lox.Proofs.WrittenNotices

/-! What becomes of a text that a session takes. A text with lexical or syntax errors
is only reported; any other is evaluated, and then a runtime error can be the only
thing to report. -/

namespace Lox

inductive Entry where
  | source
  | line

namespace Entry

def run (entry : Entry) (session : Session) (fuel : Nat) (text : String) : Except Halt Session :=
  match entry with
  | source => session.runSource fuel text
  | line => session.runLine fuel text

def opening (entry : Entry) (reporter : Reporter) : Reporter :=
  match entry with
  | source => reporter
  | line => reporter.reset

/-- The counts on which the errors of the text are counted: a source goes on with those of the texts before
it, and a line begins with none. -/
def counted (entry : Entry) (reporter : Reporter) : Counts :=
  match entry with
  | source => reporter.counts
  | line => ⟨0, 0⟩

/-- The expression that a text is, if it is taken as a line and is one. -/
def expression? (entry : Entry) (text : String) : Option Expr :=
  match entry with
  | source => none
  | line => (parseExpression (scan text).tokens).toOption

def evaluation (entry : Entry) (text : String) (fuel : Nat) (state : State) : Run State Unit :=
  match entry.expression? text with
  | some value => (state.printValue value).andThen fun _ after => .done () after
  | none => state.execProgram fuel (statements text)

def trees (entry : Entry) (text : String) : List String :=
  match entry.expression? text with
  | some value => [value.text]
  | none => (statements text).map Stmt.text

end Entry

/-- How far a text comes. One that was not scanned or not read without errors goes no further than to be
reported. -/
inductive Fate where
  | unscanned
  | unread
  | evaluated
deriving DecidableEq

def Entry.fate (entry : Entry) (text : String) : Fate :=
  if (scan text).errors ≠ [] then .unscanned
  else if (parseProgram (scan text).tokens).errors ≠ [] ∧ entry.expression? text = none then .unread
  else .evaluated

section Decided
variable {entry : Entry} {text : String}

theorem Entry.fate_eq_unscanned : entry.fate text = .unscanned ↔ (scan text).errors ≠ [] := by
  rw [fate]
  split
  next faulty => exact iff_of_true rfl faulty
  next silent => exact iff_of_false (by split <;> exact nofun) silent

theorem Entry.fate_eq_unread :
    entry.fate text = .unread ↔
      (scan text).errors = [] ∧ (parseProgram (scan text).tokens).errors ≠ [] ∧ entry.expression? text = none := by
  rw [fate]
  split
  next faulty => exact iff_of_false nofun fun unread => faulty unread.1
  next silent =>
    rw [and_iff_right (Decidable.not_not.mp silent)]
    split
    next unread => exact iff_of_true rfl unread
    next reads => exact iff_of_false nofun reads

theorem Entry.fate_eq_evaluated :
    entry.fate text = .evaluated ↔
      (scan text).errors = [] ∧ ((parseProgram (scan text).tokens).errors = [] ∨ entry.expression? text ≠ none) := by
  rw [fate]
  split
  next faulty => exact iff_of_false nofun fun evaluated => faulty evaluated.1
  next silent =>
    rw [and_iff_right (Decidable.not_not.mp silent)]
    split
    next unread => exact iff_of_false nofun fun reads => reads.elim unread.1 fun some => some unread.2
    next reads =>
      refine iff_of_true rfl ?_
      by_cases other : entry.expression? text = none
      · exact .inl (Decidable.not_not.mp fun faulty => reads ⟨faulty, other⟩)
      · exact .inr other

end Decided

namespace Session

/-- The notice is given, and nothing else happens: nothing is printed, and no variable changes. -/
def Refuses (session : Session) (entry : Entry) (text : String) (notice : Notice) : Prop :=
  ∀ fuel, ∃ reporter, entry.run session fuel text = .ok { session with reporter } ∧
    Reporter.Gives (entry.counted session.reporter) notice session.reporter reporter

/-- The text is evaluated for as long as it takes. What is written at the end is the notice of a runtime
error, if there is one, and nothing otherwise. -/
def Evaluates (session : Session) (entry : Entry) (text : String) : Prop :=
  ∀ fuel, match entry.evaluation text fuel session.state with
    | .done _ state => ∃ reporter, entry.run session fuel text = .ok { session with state, reporter } ∧
      Reporter.Gives (entry.counted session.reporter) .none session.reporter reporter
    | .failed error state => ∃ reporter, entry.run session fuel text = .ok { session with state, reporter } ∧
      Reporter.Gives (entry.counted session.reporter) (.ofRuntime error) session.reporter reporter
    | .halted cause => cause = .outOfFuel ∧ entry.run session fuel text = .error cause

end Session

/-- A session brings the fate about. The text has the errors that lead to it, and the session gives notice of
these or evaluates the text. -/
def Fate.Holds (fate : Fate) (entry : Entry) (session : Session) (text : String) : Prop :=
  match fate with
  | unscanned =>
    (scan text).errors ≠ [] ∧ session.Refuses entry text (.ofLexical (scan text).errors)
  | unread =>
    (scan text).errors = [] ∧ (parseProgram (scan text).tokens).errors ≠ [] ∧ entry.expression? text = none ∧
      session.Refuses entry text (.ofSyntax (parseProgram (scan text).tokens).errors)
  | evaluated =>
    (scan text).errors = [] ∧ ((parseProgram (scan text).tokens).errors = [] ∨ entry.expression? text ≠ none) ∧
      session.Evaluates entry text

namespace Session
variable {session : Session} {entry : Entry} {text : String}

def opened (session : Session) (entry : Entry) : Session :=
  { session with reporter := entry.opening session.reporter }

private theorem opened_eq (session : Session) (entry : Entry) :
    session.opened entry =
      { session with reporter := { session.reporter with counts := entry.counted session.reporter } } := by
  cases entry <;> rfl

theorem list_reporter (session : Session) (wanted : Bool) (texts : List String) :
    (session.list wanted texts).reporter = session.reporter := by
  cases wanted <;> rfl

def tokensListed (session : Session) (entry : Entry) (text : String) : Session :=
  (session.opened entry).list session.showTokens ((scan text).tokens.map Token.text)

/-- The same with the trees listed, too, as they are when they are about to be evaluated. -/
def treesListed (session : Session) (entry : Entry) (text : String) : Session :=
  (session.tokensListed entry text).list session.showTrees (entry.trees text)

private theorem list_showTrees (session : Session) (wanted : Bool) (texts : List String) :
    (session.list wanted texts).showTrees = session.showTrees := by
  cases wanted <;> rfl

private theorem tokensListed_quiet (quiet : session.Quiet) : session.tokensListed entry text = session.opened entry := by
  rw [tokensListed, quiet.tokens, list_false]

theorem treesListed_quiet (quiet : session.Quiet) : session.treesListed entry text = session.opened entry := by
  rw [treesListed, quiet.trees, list_false, tokensListed_quiet quiet]

private theorem runTokens_refused {tokens : List Token} (faulty : (parseProgram tokens).errors ≠ []) (fuel : Nat) :
    session.runTokens fuel tokens = .ok (session.report ((parseProgram tokens).errors.map SyntaxError.diagnostic)) := by
  have refused : (parseProgram tokens).errors.isEmpty = false := by
    cases same : (parseProgram tokens).errors with
    | nil => exact absurd same faulty
    | cons => rfl
  simp only [runTokens, ParsedProgram.accepted, refused, Bool.false_eq_true, if_false]

private theorem conclude_andThen {α β : Type} (run : Run State α) (value : β) :
    session.conclude (run.andThen fun _ after => .done value after) = session.conclude run := by
  cases run <;> rfl

theorem tokensListed_reporter : (session.tokensListed entry text).reporter = entry.opening session.reporter :=
  list_reporter _ _ _

theorem treesListed_reporter : (session.treesListed entry text).reporter = entry.opening session.reporter :=
  (list_reporter _ _ _).trans tokensListed_reporter

theorem run_listing_unscanned (faulty : (scan text).errors ≠ []) (fuel : Nat) :
    entry.run session fuel text =
      .ok ((session.tokensListed entry text).report ((scan text).errors.map LexicalError.diagnostic)) := by
  have refused : (scan text).hasErrors = true := by
    rw [Scan.hasErrors]
    cases same : (scan text).errors with
    | nil => exact absurd same faulty
    | cons => rfl
  cases entry with
  | source => exact if_pos refused
  | line => exact if_pos refused

/-- A text without lexical errors is evaluated if it is an expression, and read as a program if not. -/
private theorem run_listing_scanned (silent : (scan text).errors = []) (fuel : Nat) :
    entry.run session fuel text =
      match entry.expression? text with
      | some value => (session.treesListed entry text).conclude ((session.treesListed entry text).state.printValue value)
      | none => (session.tokensListed entry text).runTokens fuel (scan text).tokens := by
  have noErrors : (scan text).hasErrors = false := by
    rw [Scan.hasErrors, silent]
    rfl
  have scanned : (session.opened entry).scanned (scan text) = session.tokensListed entry text := by
    rw [Session.scanned, silent]
    rfl
  cases entry with
  | source =>
    have same : session.scanned (scan text) = session.tokensListed .source text := scanned
    simp only [Entry.run, runSource, noErrors, same, Entry.expression?]
    rfl
  | line =>
    have same : ({ session with reporter := session.reporter.reset } : Session).scanned (scan text) =
        session.tokensListed .line text := scanned
    have flag : (session.tokensListed .line text).showTrees = session.showTrees := list_showTrees _ _ _
    simp only [Entry.run, runLine, noErrors, same, treesListed, Entry.trees, Entry.expression?, flag]
    cases parseExpression (scan text).tokens <;> rfl

theorem run_listing_unread (unread : entry.fate text = .unread) (fuel : Nat) :
    entry.run session fuel text = .ok ((session.tokensListed entry text).report
      ((parseProgram (scan text).tokens).errors.map SyntaxError.diagnostic)) := by
  obtain ⟨silent, faulty, other⟩ := Entry.fate_eq_unread.mp unread
  rw [run_listing_scanned silent, other]
  exact runTokens_refused faulty fuel

theorem run_listing_evaluated (evaluated : entry.fate text = .evaluated) (fuel : Nat) :
    entry.run session fuel text = (session.treesListed entry text).conclude
      (entry.evaluation text fuel (session.treesListed entry text).state) := by
  obtain ⟨scanned, reads⟩ := Entry.fate_eq_evaluated.mp evaluated
  rw [run_listing_scanned scanned, Entry.evaluation]
  cases same : entry.expression? text with
  | some value => rw [conclude_andThen]
  | none =>
    have accepted : (parseProgram (scan text).tokens).errors = [] := reads.elim id fun some => absurd same some
    have flag : (session.tokensListed entry text).showTrees = session.showTrees := list_showTrees _ _ _
    simp only [runTokens, ParsedProgram.accepted, accepted, List.isEmpty_nil, if_true, flag, treesListed,
      Entry.trees, same]
    rfl

theorem run_unscanned (quiet : session.Quiet) (faulty : (scan text).errors ≠ []) (fuel : Nat) :
    entry.run session fuel text =
      .ok ((session.opened entry).report ((scan text).errors.map LexicalError.diagnostic)) := by
  rw [run_listing_unscanned faulty, tokensListed_quiet quiet]

theorem run_unread (quiet : session.Quiet) (unread : entry.fate text = .unread) (fuel : Nat) :
    entry.run session fuel text =
      .ok ((session.opened entry).report ((parseProgram (scan text).tokens).errors.map SyntaxError.diagnostic)) := by
  rw [run_listing_unread unread, tokensListed_quiet quiet]

theorem run_evaluated (quiet : session.Quiet) (evaluated : entry.fate text = .evaluated) (fuel : Nat) :
    entry.run session fuel text = (session.opened entry).conclude (entry.evaluation text fuel session.state) := by
  rw [run_listing_evaluated evaluated, treesListed_quiet quiet]
  rfl

private theorem conclude_halts {α : Type} {run : Run State α} {cause : Halt} (consistent : run.Consistent)
    (halts : session.conclude run = .error cause) : cause = .outOfFuel := by
  cases run with
  | done value state | failed error state => cases halts
  | halted reason =>
    cases halts
    cases cause with
    | contradiction reason => exact absurd rfl (consistent reason)
    | outOfFuel => rfl

private theorem runTokens_halts (reachable : Lox.Reachable session.state) {tokens : List Token} (ended : Ended tokens)
    {fuel : Nat} {cause : Halt} (halts : session.runTokens fuel tokens = .error cause) : cause = .outOfFuel := by
  rw [runTokens, ParsedProgram.accepted] at halts
  split at halts
  next => cases halts
  next statements accepted =>
    split at accepted
    next silent =>
      cases accepted
      have derived := parseProgram_sound ended (List.isEmpty_iff.mp silent)
      have listed := list_reachable reachable session.showTrees ((parseProgram tokens).statements.map Stmt.text)
      exact conclude_halts (State.execProgram_consistent derived.ruled fuel listed.outside) halts
    next => cases accepted

/-- No text drives a session into a contradiction, whatever it lists. -/
theorem run_halts (reachable : session.Reachable) {fuel : Nat} {cause : Halt}
    (halts : entry.run session fuel text = .error cause) : cause = .outOfFuel := by
  cases entry with
  | source =>
    simp only [Entry.run, runSource] at halts
    split at halts
    next => cases halts
    next => exact runTokens_halts (scanned_reachable reachable.state _) (scan_ended text) halts
  | line =>
    simp only [Entry.run, runLine] at halts
    split at halts
    next => cases halts
    next =>
      split at halts
      next value accepted =>
        have ruled := (expression_derived accepted).ruled
        exact conclude_halts (State.printValue_consistent ruled _) halts
      next =>
        have begun : Lox.Reachable (session.opened .line).state := reachable.state
        exact runTokens_halts (scanned_reachable begun _) (scan_ended text) halts

private theorem refuses_unscanned (quiet : session.Quiet) (faulty : (scan text).errors ≠ []) :
    session.Refuses entry text (.ofLexical (scan text).errors) := by
  intro fuel
  have run : entry.run session fuel text = _ := run_unscanned quiet faulty fuel
  rw [opened_eq] at run
  exact ⟨_, run, .ofLexical _⟩

private theorem refuses_unread (quiet : session.Quiet) (unread : entry.fate text = .unread) :
    session.Refuses entry text (.ofSyntax (parseProgram (scan text).tokens).errors) := by
  intro fuel
  have run := run_unread quiet unread fuel
  rw [opened_eq] at run
  exact ⟨_, run, .ofSyntax _⟩

private theorem evaluates_of_fate (reachable : session.Reachable) (quiet : session.Quiet)
    (evaluated : entry.fate text = .evaluated) : session.Evaluates entry text := by
  intro fuel
  have run := run_evaluated quiet evaluated fuel
  rw [opened_eq] at run
  cases same : entry.evaluation text fuel session.state with
  | done value state =>
    rw [same] at run
    exact ⟨_, run, .none⟩
  | failed error state =>
    rw [same] at run
    exact ⟨_, run, .ofRuntime error⟩
  | halted cause =>
    have halts : entry.run session fuel text = .error cause := by rw [run, same]; rfl
    exact ⟨run_halts reachable halts, halts⟩

/-- The fate of a text is the one that its errors decide, and no other. -/
theorem holds_iff_fate (reachable : session.Reachable) (quiet : session.Quiet) (entry : Entry) (text : String)
    (fate : Fate) : fate.Holds entry session text ↔ fate = entry.fate text := by
  cases fate with
  | unscanned =>
    rw [eq_comm, Entry.fate_eq_unscanned]
    exact ⟨fun holds => holds.1, fun faulty => ⟨faulty, refuses_unscanned quiet faulty⟩⟩
  | unread =>
    rw [eq_comm, Entry.fate_eq_unread]
    exact ⟨fun ⟨silent, faulty, other, _⟩ => ⟨silent, faulty, other⟩,
      fun unread => ⟨unread.1, unread.2.1, unread.2.2, refuses_unread quiet (Entry.fate_eq_unread.mpr unread)⟩⟩
  | evaluated =>
    rw [eq_comm, Entry.fate_eq_evaluated]
    refine ⟨fun ⟨silent, reads, _⟩ => ⟨silent, reads⟩, fun ⟨silent, reads⟩ => ⟨silent, reads, ?_⟩⟩
    exact evaluates_of_fate reachable quiet (Entry.fate_eq_evaluated.mpr ⟨silent, reads⟩)

end Session

end Lox
