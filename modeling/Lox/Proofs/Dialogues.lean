import Mathlib.Data.List.Forall2
import Lox.CommandLine.Transcript
import Lox.Proofs.Fates

/-! Lines of a dialogue, one after another. A line that is not evaluated might as well
not have been given, as far as all other lines go. -/

namespace Lox

structure Exchange where
  line : String
  before : Session
  after : Session

namespace Exchange

def evaluated (exchange : Exchange) : Bool := Entry.line.fate exchange.line = .evaluated

/-- The same line does the same: from the same variables and output it leads to the same ones, and the
same notice is given of it, with errors counted from zero. -/
structure Same (first second : Exchange) : Prop where
  line : first.line = second.line
  begins : first.before.state = second.before.state
  ends : first.after.state = second.after.state
  gives : ∃ notice, Reporter.Gives ⟨0, 0⟩ notice first.before.reporter first.after.reporter ∧
    Reporter.Gives ⟨0, 0⟩ notice second.before.reporter second.after.reporter

end Exchange

namespace Session

def dialogue (fuel : Nat) (session : Session) : List String → Except Halt (List Exchange)
  | [] => .ok []
  | line :: rest =>
    match session.runLine fuel line with
    | .error cause => .error cause
    | .ok after => (after.dialogue fuel rest).map (⟨line, session, after⟩ :: ·)

/-- The lines that the two dialogues have in common are those evaluated in the first one, they do
the same in both, and if one dialogue is cut off so is the other. -/
def Agree (full kept : Except Halt (List Exchange)) : Prop :=
  match full, kept with
  | .ok exchanges, .ok others => List.Forall₂ Exchange.Same (exchanges.filter Exchange.evaluated) others
  | .error cause, .error other => cause = other
  | _, _ => False

section Agreement
variable {full kept : Except Halt (List Exchange)} {exchange : Exchange}

private theorem Agree.skip (agree : Agree full kept) (idle : exchange.evaluated = false) :
    Agree (full.map (exchange :: ·)) kept := by
  cases full with
  | error cause => exact agree
  | ok exchanges =>
    cases kept with
    | error other => exact agree
    | ok others =>
      show List.Forall₂ Exchange.Same ((exchange :: exchanges).filter Exchange.evaluated) others
      rw [List.filter_cons, idle]
      exact agree

private theorem Agree.keep {other : Exchange} (agree : Agree full kept) (busy : exchange.evaluated = true)
    (same : exchange.Same other) : Agree (full.map (exchange :: ·)) (kept.map (other :: ·)) := by
  cases full with
  | error cause =>
    cases kept with
    | error reason => exact agree
    | ok others => exact agree
  | ok exchanges =>
    cases kept with
    | error reason => exact agree
    | ok others =>
      show List.Forall₂ Exchange.Same ((exchange :: exchanges).filter Exchange.evaluated) (other :: others)
      rw [List.filter_cons, if_pos busy]
      exact .cons same agree

end Agreement

section Lines
variable {session other : Session} {line : String}

private theorem runLine_idle (quiet : session.Quiet) (idle : Entry.line.fate line ≠ .evaluated) (fuel : Nat) :
    ∃ reporter, session.runLine fuel line = .ok { session with reporter } := by
  cases fate : Entry.line.fate line with
  | unscanned =>
    have run : Entry.line.run session fuel line = _ := run_unscanned quiet (Entry.fate_eq_unscanned.mp fate) fuel
    exact ⟨_, run⟩
  | unread =>
    have run : Entry.line.run session fuel line = _ := run_unread quiet fate fuel
    exact ⟨_, run⟩
  | evaluated => exact absurd fate idle

/-- What an evaluated line does depends on the state alone. -/
private theorem runLine_evaluated (quiet : session.Quiet) (evaluated : Entry.line.fate line = .evaluated) (fuel : Nat) :
    match Entry.line.evaluation line fuel session.state with
    | .halted cause => session.runLine fuel line = .error cause
    | .done _ state => session.runLine fuel line = .ok { session with state, reporter := session.reporter.reset }
    | .failed error state => session.runLine fuel line =
        .ok { session with state, reporter := session.reporter.reset.report error.diagnostic } := by
  have run : session.runLine fuel line = _ := run_evaluated quiet evaluated fuel
  cases same : Entry.line.evaluation line fuel session.state with
  | done value state | failed error state | halted cause =>
    rw [same] at run
    exact run

theorem dialogue_agrees (fuel : Nat) (lines : List String) (quiet : session.Quiet) (begun : other.Quiet)
    (same : session.state = other.state) :
    Agree (session.dialogue fuel lines)
      (other.dialogue fuel (lines.filter fun line => Entry.line.fate line = .evaluated)) := by
  induction lines generalizing session other with
  | nil => exact .nil
  | cons line rest ih =>
    by_cases evaluated : Entry.line.fate line = .evaluated
    · rw [List.filter_cons, if_pos (decide_eq_true evaluated)]
      have first := runLine_evaluated quiet evaluated fuel
      have second := runLine_evaluated begun evaluated fuel
      rw [← same] at second
      cases run : Entry.line.evaluation line fuel session.state with
      | done value state =>
        rw [run] at first second
        simp only [dialogue, first, second]
        have others := @ih { session with state, reporter := session.reporter.reset }
          { other with state, reporter := other.reporter.reset } ⟨quiet.tokens, quiet.trees⟩ ⟨begun.tokens, begun.trees⟩ rfl
        exact others.keep (decide_eq_true evaluated) ⟨rfl, same, rfl, .none, .none, .none⟩
      | failed error state =>
        rw [run] at first second
        simp only [dialogue, first, second]
        have others := @ih { session with state, reporter := session.reporter.reset.report error.diagnostic }
          { other with state, reporter := other.reporter.reset.report error.diagnostic }
          ⟨quiet.tokens, quiet.trees⟩ ⟨begun.tokens, begun.trees⟩ rfl
        exact others.keep (decide_eq_true evaluated) ⟨rfl, same, rfl, .ofRuntime error, .ofRuntime error, .ofRuntime error⟩
      | halted cause =>
        rw [run] at first second
        simp only [dialogue, first, second]
        rfl
    · rw [List.filter_cons, if_neg (by simpa using evaluated)]
      obtain ⟨reporter, idle⟩ := runLine_idle quiet evaluated fuel
      simp only [dialogue, idle]
      have others := @ih { session with reporter } other ⟨quiet.tokens, quiet.trees⟩ begun same
      exact others.skip (decide_eq_false evaluated)

end Lines

end Session

namespace Transcript

def Ends (result : Except Halt Transcript) (code : Nat) (output errors : String) : Prop :=
  ∃ status : ExitStatus, result = .ok ⟨status, output, errors⟩ ∧ status.code = code

end Transcript

/-- How the command ends for a script that it could read: with 65 if there is something to be written of
errors, and only then. -/
def Fate.Ends (fate : Fate) (session : Session) (source : String) (fuel : Nat) (result : Except Halt Transcript) :
    Prop :=
  match fate with
  | unscanned =>
    Transcript.Ends result 65 (session.tokensListed .source source).state.output (Notice.ofLexical (scan source).errors).text
  | unread =>
    Transcript.Ends result 65 (session.tokensListed .source source).state.output
      (Notice.ofSyntax (parseProgram (scan source).tokens).errors).text
  | evaluated =>
    match Entry.source.evaluation source fuel (session.treesListed .source source).state with
    | .done _ state => Transcript.Ends result 0 state.output ""
    | .failed error state => Transcript.Ends result 65 state.output (Notice.ofRuntime error).text
    | .halted cause => cause = .outOfFuel ∧ result = .error cause

namespace Notice

private theorem ofLexical_text_ne_empty {errors : List LexicalError} (some : errors ≠ []) : (ofLexical errors).text ≠ "" :=
  listed_ne_empty (mt List.map_eq_nil_iff.mp some)

private theorem ofSyntax_text_ne_empty {errors : List SyntaxError} (some : errors ≠ []) : (ofSyntax errors).text ≠ "" :=
  listed_ne_empty (mt List.map_eq_nil_iff.mp some)

private theorem ofRuntime_text_ne_empty (error : RuntimeError) : (ofRuntime error).text ≠ "" := by
  intro empty
  have ending := (String.append_eq_empty_iff.mp empty).2
  exact absurd ending (by decide)

end Notice

private theorem Transcript.Ends.faulty {result : Except Halt Transcript} {output errors : String}
    (ends : Ends result 65 output errors) (some : errors ≠ "") :
    ∃ transcript, result = .ok transcript ∧ transcript.status.code = if transcript.errors = "" then 0 else 65 := by
  obtain ⟨status, same, code⟩ := ends
  exact ⟨_, same, by rw [if_neg some, code]⟩

theorem Fate.Ends.code {session : Session} {source : String} {fuel : Nat} {result : Except Halt Transcript}
    (ends : (Entry.source.fate source).Ends session source fuel result) :
    result = .error .outOfFuel ∨
      ∃ transcript, result = .ok transcript ∧ transcript.status.code = if transcript.errors = "" then 0 else 65 := by
  cases fate : Entry.source.fate source with
  | unscanned =>
    rw [fate] at ends
    exact .inr (ends.faulty (Notice.ofLexical_text_ne_empty (Entry.fate_eq_unscanned.mp fate)))
  | unread =>
    rw [fate] at ends
    exact .inr (ends.faulty (Notice.ofSyntax_text_ne_empty (Entry.fate_eq_unread.mp fate).2.1))
  | evaluated =>
    rw [fate, Fate.Ends] at ends
    split at ends
    next =>
      obtain ⟨status, same, code⟩ := ends
      exact .inr ⟨_, same, code⟩
    next error _ _ => exact .inr (ends.faulty (Notice.ofRuntime_text_ne_empty error))
    next =>
      obtain ⟨rfl, same⟩ := ends
      exact .inl same

namespace Transcript
variable {showTokens showTrees : Bool} {source : String} {fuel : Nat} {after : Session} {notice : Notice}

private theorem ofScript_ends (ran : (Session.new showTokens showTrees).runSource fuel source = .ok after)
    (gives : Reporter.Gives ⟨0, 0⟩ notice .new after.reporter) :
    Ends (ofScript fuel (.new showTokens showTrees) source) (if notice.reading + notice.running = 0 then 0 else 65)
      after.state.output notice.text := by
  have written : after.reporter.written = notice.text := gives.written.trans String.empty_append
  have counted : after.reporter.counts.any = true ↔ notice.reading + notice.running ≠ 0 := by
    rw [Counts.any, gives.reading, gives.running]
    simp only [Nat.zero_add, Bool.or_eq_true, decide_eq_true_iff]
    omega
  refine ⟨if after.reporter.counts.any then .dataError else .success, ?_, ?_⟩
  · rw [ofScript, ran, ← written]
    rfl
  · simp only [counted]
    by_cases silent : notice.reading + notice.running = 0
    · rw [if_pos silent, if_neg (not_not_intro silent)]
      rfl
    · rw [if_neg silent, if_pos silent]
      rfl

theorem ofScript_fate (showTokens showTrees : Bool) (source : String) (fuel : Nat) :
    (Entry.source.fate source).Ends (.new showTokens showTrees) source fuel
      (ofScript fuel (.new showTokens showTrees) source) := by
  set session := Session.new showTokens showTrees
  cases fate : Entry.source.fate source with
  | unscanned =>
    have faulty := Entry.fate_eq_unscanned.mp fate
    have ran : Entry.source.run session fuel source = _ := Session.run_listing_unscanned faulty fuel
    have gives : Reporter.Gives ⟨0, 0⟩ (.ofLexical (scan source).errors) .new
        (Reporter.new.reportAll ((scan source).errors.map LexicalError.diagnostic)) := .ofLexical _
    rw [Session.report, Session.tokensListed_reporter] at ran
    have ends := ofScript_ends ran gives
    rwa [if_neg (by simpa [Notice.ofLexical] using faulty)] at ends
  | unread =>
    have faulty := (Entry.fate_eq_unread.mp fate).2.1
    have ran : Entry.source.run session fuel source = _ := Session.run_listing_unread fate fuel
    have gives : Reporter.Gives ⟨0, 0⟩ (.ofSyntax (parseProgram (scan source).tokens).errors) .new
        (Reporter.new.reportAll ((parseProgram (scan source).tokens).errors.map SyntaxError.diagnostic)) := .ofSyntax _
    rw [Session.report, Session.tokensListed_reporter] at ran
    have ends := ofScript_ends ran gives
    rwa [if_neg (by simpa [Notice.ofSyntax] using faulty)] at ends
  | evaluated =>
    have ran : Entry.source.run session fuel source = _ := Session.run_listing_evaluated fate fuel
    have reporter : (session.treesListed .source source).reporter = .new := Session.treesListed_reporter
    rw [Fate.Ends]
    cases same : Entry.source.evaluation source fuel (session.treesListed .source source).state with
    | done value state =>
      have gives : Reporter.Gives ⟨0, 0⟩ .none .new .new := .none
      rw [same, Session.conclude, reporter] at ran
      exact ofScript_ends ran gives
    | failed error state =>
      have gives : Reporter.Gives ⟨0, 0⟩ (.ofRuntime error) .new (Reporter.new.report error.diagnostic) := .ofRuntime error
      rw [same, Session.conclude, Session.report, reporter] at ran
      exact ofScript_ends ran gives
    | halted cause =>
      rw [same] at ran
      have halts : session.runSource fuel source = .error cause := ran
      refine ⟨Session.run_halts (.new showTokens showTrees) ran, ?_⟩
      rw [ofScript, halts]
      rfl

end Transcript

theorem Transcript.decode_toUTF8 (text : String) : decode text.toUTF8.data.toList = .ok text := by
  have found : String.fromUTF8? text.toUTF8 = some text := dif_pos text.isValidUTF8
  rw [decode, Array.toArray_toList, found]

/-- Texts with lexical or syntax errors are reported and do nothing else. Each text has exactly one
fate, lines with errors may be left out of any dialogue, and a script that was read ends as its fate has
it, with a code that tells whether anything was written of errors. -/
theorem faulty_texts_do_nothing (session : Session) (reachable : session.Reachable) (quiet : session.Quiet) :
    (∀ entry text, ∃ fate : Fate, fate.Holds entry session text ∧
      ∀ other : Fate, other.Holds entry session text → other = fate) ∧
    (∀ fuel lines, Session.Agree (session.dialogue fuel lines)
      (session.dialogue fuel (lines.filter fun line => Entry.line.fate line = .evaluated))) ∧
    ∀ fuel arguments options path bytes source input read, Options.ofArguments? arguments = some options →
      options.script = some path → read path = .ok bytes → Transcript.decode bytes = .ok source →
      let result := Transcript.run fuel arguments read input
      (Entry.source.fate source).Ends (.new options.showTokens options.showTrees) source fuel result ∧
        (result = .error .outOfFuel ∨
          ∃ transcript, result = .ok transcript ∧ transcript.status.code = if transcript.errors = "" then 0 else 65) := by
  have decides := fun entry text => Session.holds_iff_fate reachable quiet entry text
  refine ⟨fun entry text => ⟨entry.fate text, (decides entry text _).mpr rfl, fun other => (decides entry text other).mp⟩,
    fun fuel lines => Session.dialogue_agrees fuel lines quiet quiet rfl, ?_⟩
  intro fuel arguments options path bytes source input read asked script found decoded result
  have same : result = Transcript.ofScript fuel (.new options.showTokens options.showTrees) source := by
    have contents : (read path >>= Transcript.decode) = .ok source := by
      rw [found]
      exact decoded
    simp only [result, Transcript.run, asked, script, contents]
  rw [same]
  have ends := Transcript.ofScript_fate options.showTokens options.showTrees source fuel
  exact ⟨ends, ends.code⟩

/-- Of five lines, one lacks its semicolon, one its value and one is no token; the script that is read
fails at a variable that none of them declares, after its tree was listed. -/
theorem faulty_texts_do_nothing_five_lines :
    let session := Session.new false false
    let lines := ["var a = \"x\";", "print a", "a = ;", "#", "a"]
    let arguments := ["--ast", "a.lox"]
    let bytes := "print a;".toUTF8.data.toList
    let read : String → Except ReadFault (List UInt8) := fun _ => .ok bytes
    let result := Transcript.run 0 arguments read []
    session.Reachable ∧ session.Quiet ∧ Fate.unread.Holds .line session "print a" ∧
      Session.Agree (session.dialogue 0 lines) (session.dialogue 0 ["var a = \"x\";", "a"]) ∧
      Options.ofArguments? arguments = some ⟨true, false, some "a.lox"⟩ ∧ Transcript.decode bytes = .ok "print a;" ∧
      result = .ok ⟨.dataError, "(print a)\n", "Undefined variable 'a'.\n[line 1]\n"⟩ ∧
      Fate.evaluated.Ends (.new false true) "print a;" 0 result ∧
      (result = .error .outOfFuel ∨
        ∃ transcript, result = .ok transcript ∧ transcript.status.code = if transcript.errors = "" then 0 else 65) := by
  intro session lines arguments bytes read result
  have reachable : session.Reachable := .new false false
  have quiet : session.Quiet := ⟨rfl, rfl⟩
  have effects := faulty_texts_do_nothing session reachable quiet
  have unread : Fate.unread.Holds .line session "print a" := by
    obtain ⟨fate, holds, _⟩ := effects.1 .line "print a"
    have decided : fate = .unread := by
      rw [(Session.holds_iff_fate reachable quiet .line "print a" fate).mp holds]
      decide +kernel
    rwa [decided] at holds
  have kept : (lines.filter fun line => Entry.line.fate line = .evaluated) = ["var a = \"x\";", "a"] := by decide +kernel
  have agree := effects.2.1 0 lines
  rw [kept] at agree
  have asked : Options.ofArguments? arguments = some ⟨true, false, some "a.lox"⟩ := by decide +kernel
  have decoded : Transcript.decode bytes = .ok "print a;" := Transcript.decode_toUTF8 _
  have found : read "a.lox" = .ok bytes := rfl
  have ends := effects.2.2 0 arguments ⟨true, false, some "a.lox"⟩ "a.lox" bytes "print a;" [] read asked rfl found decoded
  have evaluated : Entry.source.fate "print a;" = .evaluated := by decide +kernel
  have fails : result = .ok ⟨.dataError, "(print a)\n", "Undefined variable 'a'.\n[line 1]\n"⟩ := by decide +kernel
  rw [evaluated] at ends
  exact ⟨reachable, quiet, unread, agree, asked, decoded, fails, ends⟩

end Lox
