import Lox.Proofs.AcceptedPrograms
import Lox.Proofs.EnoughFuel
import Lox.Proofs.RaisedLines
import Lox.Session

/-! A script may be run in pieces. Two sources that are each read without errors do,
joined by a line break, what they do one after the other, and an error of the
second one is only reported further down. -/

namespace Lox
open Grammar

def statements (source : String) : List Stmt := (parseProgram (scan source).tokens).statements

/-- The source is scanned and read without errors, so that it is run as it stands. -/
structure Clean (source : String) : Prop where
  scanned : (scan source).errors = []
  parsed : (parseProgram (scan source).tokens).errors = []

private theorem scan_feed (source : String) : (Feed.ofTokens (scan source).tokens).tokens = lexemes source := by
  rw [scan_tokens, Feed.ofTokens_append (lexemes_unended source) rfl]

theorem scan_ended (source : String) : Ended (scan source).tokens := by
  rw [scan_tokens]
  exact ⟨_, List.mem_append_right _ (List.mem_singleton_self _), rfl⟩

/-- What is read of a source without errors was derived from all its lexemes. -/
theorem statements_derived {source : String} (silent : (parseProgram (scan source).tokens).errors = []) :
    Program (lexemes source) (statements source) := by
  have derived := parseProgram_sound (scan_ended source) silent
  rwa [scan_feed] at derived

theorem expression_derived {source : String} {tree : Expr} (accepted : parseExpression (scan source).tokens = .ok tree) :
    Expression (lexemes source) tree := by
  have derived := parseExpression_sound (scan_ended source) accepted
  rwa [scan_feed] at derived

theorem Clean.derived {source : String} (clean : Clean source) : Program (lexemes source) (statements source) :=
  statements_derived clean.parsed

section Joined
variable {first second : String}

private theorem Clean.parse_joined (begins : Clean first) (ends : Clean second) :
    parseProgram (scan (first ++ "\n" ++ second)).tokens =
      ⟨statements first ++ Stmt.raiseAll (lineBreaks first + 1) (statements second), []⟩ := by
  apply parseProgram_complete
  rw [scan_feed, lexemes_joined (closed_of_silent begins.scanned)]
  exact begins.derived.append ends.derived.raise

theorem Clean.joined (begins : Clean first) (ends : Clean second) : Clean (first ++ "\n" ++ second) :=
  ⟨scan_joined_silent begins.scanned ends.scanned, congrArg ParsedProgram.errors (begins.parse_joined ends)⟩

private theorem Clean.statements_joined (begins : Clean first) (ends : Clean second) :
    statements (first ++ "\n" ++ second) =
      statements first ++ Stmt.raiseAll (lineBreaks first + 1) (statements second) :=
  congrArg ParsedProgram.statements (begins.parse_joined ends)

end Joined

namespace Session

def raised? (session : Session) (fuel : Nat) (source : String) : Option RuntimeError :=
  match session.state.execProgram fuel (statements source) with
  | .failed error _ => some error
  | _ => none

/-- A source is run to its end: the session that is left, and the runtime error, if
any, that was raised and is the only one reported. -/
def Ends (session : Session) (source : String) (error? : Option RuntimeError) (after : Session) : Prop :=
  ∃ fuel, session.runSource fuel source = .ok after ∧ session.raised? fuel source = error? ∧
    after.reporter = session.reporter.reportAll (error?.toList.map RuntimeError.diagnostic)

/-- A source never comes to its end: every amount of fuel is used up, so that nothing is said of a run that is
given too little. -/
def Diverges (session : Session) (source : String) : Prop :=
  ∀ fuel, session.runSource fuel source = .error .outOfFuel

structure Quiet (session : Session) : Prop where
  tokens : session.showTokens = false
  trees : session.showTrees = false

def stopped (error? : Option RuntimeError) (state : State) : Run State Unit :=
  match error? with
  | none => .done () state
  | some error => .failed error state

def left (session : Session) (error? : Option RuntimeError) (state : State) : Session :=
  { session with state }.report (error?.toList.map RuntimeError.diagnostic)

private theorem stopped_ne_outOfFuel (error? : Option RuntimeError) (state : State) :
    stopped error? state ≠ .halted .outOfFuel := by
  cases error? <;> exact nofun

private theorem conclude_stopped (session : Session) (error? : Option RuntimeError) (state : State) :
    session.conclude (stopped error? state) = .ok (session.left error? state) := by
  cases error? <;> rfl

private theorem stopped_raise (error? : Option RuntimeError) (state : State) (lines : Nat) :
    (stopped error? state).raise lines = stopped (error?.map (·.raise lines)) state := by
  cases error? <;> rfl

section Runs
variable {session after : Session} {source : String} {error? : Option RuntimeError}

theorem list_false (session : Session) (texts : List String) : session.list false texts = session := rfl

private theorem runSource_clean (quiet : session.Quiet) (clean : Clean source) (fuel : Nat) :
    session.runSource fuel source = session.conclude (session.state.execProgram fuel (statements source)) := by
  have accepted : (parseProgram (scan source).tokens).accepted = .ok (statements source) := by
    rw [ParsedProgram.accepted, clean.parsed]
    rfl
  have scanned : session.scanned (scan source) = session := by
    rw [Session.scanned, quiet.tokens, clean.scanned]
    rfl
  have noErrors : (scan source).hasErrors = false := by
    rw [Scan.hasErrors, clean.scanned]
    rfl
  simp only [runSource, scanned, noErrors, runTokens, accepted, quiet.trees, list_false, Bool.false_eq_true, if_false]

theorem ends_iff (quiet : session.Quiet) (clean : Clean source) :
    session.Ends source error? after ↔
      ∃ fuel state, session.state.execProgram fuel (statements source) = stopped error? state ∧
        after = session.left error? state := by
  constructor
  · rintro ⟨fuel, returns, rfl, _⟩
    rw [runSource_clean quiet clean] at returns
    rw [raised?]
    cases run : session.state.execProgram fuel (statements source) with
    | done value state =>
      rw [run] at returns
      exact ⟨fuel, state, run, (Except.ok.inj returns).symm⟩
    | failed error state =>
      rw [run] at returns
      exact ⟨fuel, state, run, (Except.ok.inj returns).symm⟩
    | halted cause =>
      rw [run] at returns
      cases returns
  · rintro ⟨fuel, state, run, rfl⟩
    refine ⟨fuel, ?_, ?_, rfl⟩
    · rw [runSource_clean quiet clean, run, conclude_stopped]
    · rw [raised?, run]
      cases error? <;> rfl

theorem diverges_iff (quiet : session.Quiet) (clean : Clean source) :
    session.Diverges source ↔ ∀ fuel, session.state.execProgram fuel (statements source) = .halted .outOfFuel := by
  constructor
  · intro diverges fuel
    have halts := diverges fuel
    rw [runSource_clean quiet clean] at halts
    cases run : session.state.execProgram fuel (statements source) with
    | done value state | failed error state =>
      rw [run] at halts
      cases halts
    | halted cause =>
      rw [run] at halts
      cases halts
      rfl
  · intro halts fuel
    rw [runSource_clean quiet clean, halts fuel]
    rfl

end Runs

section Joined
variable {session middle after : Session} {first second : String}

private theorem execProgram_joined (begins : Clean first) (ends : Clean second) (fuel : Nat) (state : State) :
    state.execProgram fuel (statements (first ++ "\n" ++ second)) =
      (state.execProgram fuel (statements first)).andThen fun _ middle =>
        (middle.execProgram fuel (statements second)).raise (lineBreaks first + 1) := by
  simp only [begins.statements_joined ends, State.execProgram_append, State.execProgram_raise]

private theorem execProgram_joined_done (begins : Clean first) (ends : Clean second) {fuel : Nat} {state next : State}
    (run : state.execProgram fuel (statements first) = .done () next) :
    state.execProgram fuel (statements (first ++ "\n" ++ second)) =
      (next.execProgram fuel (statements second)).raise (lineBreaks first + 1) := by
  rw [execProgram_joined begins ends, run]
  rfl

theorem Ends.joined (quiet : session.Quiet) (begins : Clean first) (ends : Clean second)
    (one : session.Ends first none middle) {error? : Option RuntimeError} (other : middle.Ends second error? after) :
    ∃ last, session.Ends (first ++ "\n" ++ second) (error?.map (·.raise (lineBreaks first + 1))) last ∧
      last.state = after.state := by
  obtain ⟨fuel, next, run, rfl⟩ := (ends_iff quiet begins).mp one
  have quietly : (session.left none next).Quiet := ⟨quiet.tokens, quiet.trees⟩
  obtain ⟨more, state, finish, rfl⟩ := (ends_iff quietly ends).mp other
  have runs : session.state.execProgram (max fuel more) (statements first) = .done () next := by
    have further := session.state.execProgram_extends (statements first) (Nat.le_max_left fuel more)
    rw [run] at further
    exact further (stopped_ne_outOfFuel none next)
  have finishes : next.execProgram (max fuel more) (statements second) = stopped error? state := by
    have further := next.execProgram_extends (statements second) (Nat.le_max_right fuel more)
    rw [show next.execProgram more (statements second) = stopped error? state from finish] at further
    exact further (stopped_ne_outOfFuel error? state)
  refine ⟨_, (ends_iff quiet (begins.joined ends)).mpr ⟨max fuel more, state, ?_, rfl⟩, rfl⟩
  rw [execProgram_joined_done begins ends runs, finishes, stopped_raise]

theorem Ends.cut_off (quiet : session.Quiet) (begins : Clean first) (ends : Clean second) {error : RuntimeError}
    (one : session.Ends first (some error) middle) : session.Ends (first ++ "\n" ++ second) (some error) middle := by
  obtain ⟨fuel, state, run, rfl⟩ := (ends_iff quiet begins).mp one
  refine (ends_iff quiet (begins.joined ends)).mpr ⟨fuel, state, ?_, rfl⟩
  rw [execProgram_joined begins ends, run]
  rfl

theorem Diverges.joined (quiet : session.Quiet) (begins : Clean first) (ends : Clean second)
    (one : session.Diverges first) : session.Diverges (first ++ "\n" ++ second) := by
  refine (diverges_iff quiet (begins.joined ends)).mpr fun fuel => ?_
  rw [execProgram_joined begins ends, (diverges_iff quiet begins).mp one fuel]
  rfl

theorem Diverges.joined_after (quiet : session.Quiet) (begins : Clean first) (ends : Clean second)
    (one : session.Ends first none middle) (other : middle.Diverges second) :
    session.Diverges (first ++ "\n" ++ second) := by
  obtain ⟨enough, next, run, rfl⟩ := (ends_iff quiet begins).mp one
  have quietly : (session.left none next).Quiet := ⟨quiet.tokens, quiet.trees⟩
  refine (diverges_iff quiet (begins.joined ends)).mpr fun fuel => ?_
  by_cases cut : session.state.execProgram fuel (statements first) = .halted .outOfFuel
  · rw [execProgram_joined begins ends, cut]
    rfl
  -- Both this fuel and the fuel known to be enough lead to the run with the larger of them.
  have further := session.state.execProgram_extends (statements first) (Nat.le_max_left fuel enough) cut
  have known := session.state.execProgram_extends (statements first) (Nat.le_max_right fuel enough)
  rw [run] at known
  have same := further.symm.trans (known (stopped_ne_outOfFuel none next))
  rw [execProgram_joined_done begins ends same]
  exact congrArg (Run.raise _) ((diverges_iff quietly ends).mp other fuel)

/-- Running two sources joined by a line break agrees with running one after the other. -/
theorem runSource_joined (session : Session) (quiet : session.Quiet) (first second : String) (begins : Clean first)
    (ends : Clean second) :
    (∀ middle, session.Ends first none middle →
      (∀ error? after, middle.Ends second error? after → ∃ last, last.state = after.state ∧
        session.Ends (first ++ "\n" ++ second) (error?.map (·.raise (lineBreaks first + 1))) last) ∧
      (middle.Diverges second → session.Diverges (first ++ "\n" ++ second))) ∧
    (∀ error middle, session.Ends first (some error) middle →
      session.Ends (first ++ "\n" ++ second) (some error) middle) ∧
    (session.Diverges first → session.Diverges (first ++ "\n" ++ second)) := by
  refine ⟨fun middle one => ⟨fun error? after other => ?_, ?_⟩, fun error middle one => ?_, ?_⟩
  · obtain ⟨last, run, same⟩ := one.joined quiet begins ends other
    exact ⟨last, same, run⟩
  · exact .joined_after quiet begins ends one
  · exact one.cut_off quiet begins ends
  · exact .joined quiet begins ends

theorem runSource_joined_negated_string :
    let session := Session.new false false
    let first := "var a = \"x\";\nprint a;"
    let second := "print -a;"
    let error : RuntimeError := ⟨.operandMustBeNumber, 1⟩
    session.Quiet ∧ Clean first ∧ Clean second ∧ ∃ middle after last, session.Ends first none middle ∧
      middle.Ends second (some error) after ∧ last.state = after.state ∧
      session.Ends (first ++ "\n" ++ second) (some ⟨.operandMustBeNumber, 3⟩) last := by
  intro session first second error
  have quiet : session.Quiet := ⟨rfl, rfl⟩
  have begins : Clean first := ⟨by decide +kernel, by decide +kernel⟩
  have ends : Clean second := ⟨by decide +kernel, by decide +kernel⟩
  let bound : State := State.new.define (.simple .identifier "a" 1) (.string "x")
  let state := bound.printLine "x"
  have run : session.state.execProgram 0 (statements first) = stopped none state := by decide +kernel
  have fails : state.execProgram 0 (statements second) = stopped (some error) state := by decide +kernel
  have one : session.Ends first none (session.left none state) := (ends_iff quiet begins).mpr ⟨0, state, run, rfl⟩
  have quietly : (session.left none state).Quiet := ⟨rfl, rfl⟩
  have other : (session.left none state).Ends second (some error) ((session.left none state).left (some error) state) :=
    (ends_iff quietly ends).mpr ⟨0, state, fails, rfl⟩
  obtain ⟨last, same, joined⟩ := ((runSource_joined session quiet first second begins ends).1 _ one).1 _ _ other
  have further : error.raise (lineBreaks first + 1) = ⟨.operandMustBeNumber, 3⟩ := by decide +kernel
  rw [Option.map_some, further] at joined
  exact ⟨quiet, begins, ends, _, _, last, one, other, same, joined⟩

end Joined

end Session

end Lox
