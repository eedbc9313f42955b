import Mathlib.Data.Fintype.EquivFin
import Lox.Proofs.Fates
import Lox.Proofs.UnmentionedNames

/-! Sessions may list the tokens and the trees of the texts that they take. A listing stands
in front of what the text prints itself, and nothing else comes of it. -/

namespace Lox

theorem Environment.mirror_self (hidden : String) : Mirror hidden id Eq where
  current same := congrArg current same.symm
  find same _ := congrArg (Environment.find? · _) same.symm
  resolve same _ := congrArg (Environment.resolve? · _) same.symm
  unbound _ _ _ := rfl
  set value same _ _ := congrArg (Environment.setAt · _ _ value) same
  push same := congrArg push same
  pop _ inner _ _ := congrArg pop inner

section Printed
variable {first second : String} {one other : State}

/-- No statement can tell what was printed before. -/
theorem Stmt.exec_alike (tree : Stmt) (fuel : Nat) (alike : State.Alike Eq first second one other) :
    (tree.exec fuel one).Matches (State.Alike Eq first second) (tree.exec fuel other) := by
  obtain ⟨hidden, fresh⟩ := Infinite.exists_notMem_finset tree.names.toFinset
  have unused : hidden ∉ tree.names := mt List.mem_toFinset.mpr fresh
  have runs := exec_matches (Environment.mirror_self hidden) unused fuel alike
  rwa [rename_id] at runs

theorem State.eval_alike (tree : Expr) (alike : Alike Eq first second one other) :
    (one.eval tree).Matches (Alike Eq first second) (other.eval tree) := by
  obtain ⟨hidden, fresh⟩ := Infinite.exists_notMem_finset tree.names.toFinset
  have unused : hidden ∉ tree.names := mt List.mem_toFinset.mpr fresh
  have runs := eval_matches (Environment.mirror_self hidden) unused alike
  rwa [Expr.rename_id] at runs

theorem State.execProgram_alike (program : List Stmt) (fuel : Nat) (alike : Alike Eq first second one other) :
    (one.execProgram fuel program).Matches (Alike Eq first second) (other.execProgram fuel program) := by
  induction program generalizing one other with
  | nil => exact .done alike
  | cons tree rest ih =>
    rw [execProgram_cons, execProgram_cons]
    refine (tree.exec_alike fuel alike).andThen fun completion _ _ states => ?_
    cases completion with
    | normal => exact ih states
    | broke => exact .halted

theorem Entry.evaluation_alike (entry : Entry) (text : String) (fuel : Nat)
    (alike : State.Alike Eq first second one other) :
    (entry.evaluation text fuel one).Matches (State.Alike Eq first second) (entry.evaluation text fuel other) := by
  rw [evaluation, evaluation]
  split
  next value _ =>
    have printed : (one.printValue value).Matches (State.Alike Eq first second) (other.printValue value) :=
      (State.eval_alike value alike).andThen fun result _ _ states => .done (states.printLine result.text)
    exact printed.andThen fun _ _ _ states => .done states
  next => exact State.execProgram_alike (statements text) fuel alike

end Printed

/-- What is listed of a text: its tokens, and then its trees if they are about to be evaluated. -/
def Entry.listing (entry : Entry) (showTokens showTrees : Bool) (text : String) : String :=
  listed (if showTokens then (scan text).tokens.map Token.text else []) ++
    listed (if showTrees ∧ entry.fate text = .evaluated then entry.trees text else [])

structure Turn where
  entry : Entry
  text : String
  before : Session
  after : Session

namespace Session

/-- Take texts one after another: the turns that come to their ends, and what halts the one after them. -/
def turns (fuel : Nat) (session : Session) : List (Entry × String) → List Turn × Option Halt
  | [] => ([], none)
  | (entry, text) :: rest =>
    match entry.run session fuel text with
    | .ok after => ((after.turns fuel rest).map (⟨entry, text, session, after⟩ :: ·) id)
    | .error cause => ([], some cause)

/-- The second session lists nothing; else the two differ in nothing but what they have printed. -/
structure Lists (showTokens showTrees : Bool) (listing plain : Session) : Prop where
  tokens : listing.showTokens = showTokens
  trees : listing.showTrees = showTrees
  quiet : plain.Quiet
  environment : listing.state.environment = plain.state.environment
  loops : listing.state.loops = plain.state.loops
  reporter : listing.reporter = plain.reporter

end Session

/-- The turns do the same, but that the first one has its listing in front of what it prints. -/
structure Turn.Lists (showTokens showTrees : Bool) (listing plain : Turn) : Prop where
  entry : listing.entry = plain.entry
  text : listing.text = plain.text
  begins : listing.before.Lists showTokens showTrees plain.before
  ends : listing.after.Lists showTokens showTrees plain.after
  output : ∃ printed, plain.after.state.output = plain.before.state.output ++ printed ∧
    listing.after.state.output =
      listing.before.state.output ++ (listing.entry.listing showTokens showTrees listing.text ++ printed)

namespace Session
variable {showTokens showTrees : Bool} {session listing plain : Session} {entry : Entry} {text : String}

private theorem list_eq (session : Session) (wanted : Bool) (texts : List String) :
    session.list wanted texts =
      { session with state := session.state.print (listed (if wanted then texts else [])) } := by
  cases wanted with
  | false => simp [list, listed, State.print]
  | true =>
    have printed : ∀ state, texts.foldl State.printLine state = state.print (listed texts) := by
      induction texts with
      | nil => simp [listed, State.print]
      | cons text rest ih => simp [listed, ih, State.print, State.printLine, String.append_assoc]
    simp [list, printed]

private theorem treesListed_eq (evaluated : entry.fate text = .evaluated) :
    session.treesListed entry text = { session.opened entry with
      state := session.state.print (entry.listing session.showTokens session.showTrees text) } := by
  simp [treesListed, tokensListed, list_eq, Entry.listing, evaluated, State.print, opened, String.append_assoc]

private theorem tokensListed_eq (stuck : entry.fate text ≠ .evaluated) :
    session.tokensListed entry text = { session.opened entry with
      state := session.state.print (entry.listing session.showTokens session.showTrees text) } := by
  simp [tokensListed, list_eq, Entry.listing, stuck, listed, opened]

section Beside
variable (beside : listing.Lists showTokens showTrees plain)
include beside

/-- With its listing printed, a session is about to do what the other one does. -/
private theorem Lists.alike (text : String) :
    State.Alike Eq plain.state.output (listing.state.output ++ text) plain.state (listing.state.print text) :=
  ⟨beside.environment.symm, beside.loops, "", String.append_empty.symm, String.append_empty.symm⟩

private theorem Lists.refused (stuck : entry.fate text ≠ .evaluated) (diagnostics : List Diagnostic) :
    Turn.Lists showTokens showTrees
      ⟨entry, text, listing, (listing.tokensListed entry text).report diagnostics⟩
      ⟨entry, text, plain, (plain.opened entry).report diagnostics⟩ := by
  rw [tokensListed_eq stuck, beside.tokens, beside.trees]
  refine ⟨rfl, rfl, beside, ⟨beside.tokens, beside.trees, ⟨beside.quiet.tokens, beside.quiet.trees⟩,
    beside.environment, beside.loops, ?_⟩, "", String.append_empty.symm, ?_⟩
  · simp only [report, opened, beside.reporter]
  · exact congrArg (listing.state.output ++ ·) String.append_empty.symm

/-- The turn of a text that was evaluated, up to a runtime error if there is one. -/
private theorem Lists.evaluated {one other : State} (states : State.Alike Eq plain.state.output
      (listing.state.output ++ entry.listing showTokens showTrees text) one other) (error? : Option RuntimeError) :
    Turn.Lists showTokens showTrees
      ⟨entry, text, listing, (listing.opened entry).left error? other⟩
      ⟨entry, text, plain, (plain.opened entry).left error? one⟩ := by
  obtain ⟨printed, begun, same⟩ := states.output
  refine ⟨rfl, rfl, beside, ⟨beside.tokens, beside.trees, ⟨beside.quiet.tokens, beside.quiet.trees⟩,
    states.environment.symm, states.loops, ?_⟩, printed, begun, ?_⟩
  · show (entry.opening listing.reporter).reportAll _ = (entry.opening plain.reporter).reportAll _
    rw [beside.reporter]
  · exact same.trans (String.append_assoc ..)

theorem Lists.run (entry : Entry) (text : String) (fuel : Nat) :
    (∃ cause, entry.run listing fuel text = .error cause ∧ entry.run plain fuel text = .error cause) ∨
      ∃ after last, entry.run listing fuel text = .ok after ∧ entry.run plain fuel text = .ok last ∧
        Turn.Lists showTokens showTrees ⟨entry, text, listing, after⟩ ⟨entry, text, plain, last⟩ := by
  cases fate : entry.fate text with
  | unscanned =>
    have faulty := Entry.fate_eq_unscanned.mp fate
    exact .inr ⟨_, _, run_listing_unscanned faulty fuel, run_unscanned beside.quiet faulty fuel,
      beside.refused (fate ▸ nofun) _⟩
  | unread =>
    exact .inr ⟨_, _, run_listing_unread fate fuel, run_unread beside.quiet fate fuel,
      beside.refused (fate ▸ nofun) _⟩
  | evaluated =>
    have runs := entry.evaluation_alike text fuel (beside.alike (entry.listing showTokens showTrees text))
    have one := run_evaluated beside.quiet fate fuel
    have other : entry.run listing fuel text = _ := run_listing_evaluated fate fuel
    rw [treesListed_eq fate, beside.tokens, beside.trees] at other
    generalize entry.evaluation text fuel plain.state = run at runs one
    generalize same : entry.evaluation text fuel (listing.state.print (entry.listing showTokens showTrees text)) =
      last at runs
    simp only [same] at other
    cases runs with
    | done states => exact .inr ⟨_, _, other, one, beside.evaluated states none⟩
    | failed states => exact .inr ⟨_, _, other, one, beside.evaluated states (some _)⟩
    | halted => exact .inl ⟨_, other, one⟩

end Beside

/-- Every turn is followed by sessions that differ as those before it did. -/
theorem Lists.turns (beside : listing.Lists showTokens showTrees plain) (fuel : Nat) (texts : List (Entry × String)) :
    List.Forall₂ (Turn.Lists showTokens showTrees) (listing.turns fuel texts).1 (plain.turns fuel texts).1 ∧
      (listing.turns fuel texts).2 = (plain.turns fuel texts).2 := by
  induction texts generalizing listing plain with
  | nil => exact ⟨.nil, rfl⟩
  | cons first rest ih =>
    obtain ⟨entry, text⟩ := first
    obtain ⟨cause, one, other⟩ | ⟨after, last, one, other, turn⟩ := beside.run entry text fuel
    · simp only [Session.turns, one, other]
      exact ⟨.nil, trivial⟩
    · simp only [Session.turns, one, other]
      obtain ⟨turns, halts⟩ := ih turn.ends
      exact ⟨.cons turn turns, halts⟩

end Session

/-- Sessions that list tokens or trees only observe what is done anyway: turn by turn they leave the same
variables, count and write the same diagnostics, and print the listing and then what is printed without it. -/
theorem listings_only_observe (session : Session) (showTokens showTrees : Bool) (fuel : Nat)
    (texts : List (Entry × String)) :
    let listing := { session with showTokens, showTrees }
    let plain := { session with showTokens := false, showTrees := false }
    List.Forall₂ (Turn.Lists showTokens showTrees) (listing.turns fuel texts).1 (plain.turns fuel texts).1 ∧
      (listing.turns fuel texts).2 = (plain.turns fuel texts).2 := by
  intro listing plain
  have beside : listing.Lists showTokens showTrees plain := ⟨rfl, rfl, ⟨rfl, rfl⟩, rfl, rfl, rfl⟩
  exact beside.turns fuel texts

example : Entry.source.listing true true "print -a;" =
    "Print print\nMinus -\nIdentifier a\nSemicolon ;\nEof \n(print (- a))\n" := by decide +kernel

end Lox
