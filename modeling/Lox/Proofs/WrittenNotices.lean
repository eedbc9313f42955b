import Lox.Session

/-! What is written of errors. Each of them stands on lines of its own, in the order in which they
are reported, and each is counted in the phase in which it was found. -/

namespace Lox

def listed : List String → String
  | [] => ""
  | first :: rest => first ++ "\n" ++ listed rest

theorem listed_ne_empty {texts : List String} (some : texts ≠ []) : listed texts ≠ "" := by
  cases texts with
  | nil => exact absurd rfl some
  | cons first rest =>
    intro empty
    have ending := (String.append_eq_empty_iff.mp (String.append_eq_empty_iff.mp empty).1).2
    exact absurd ending (by decide)

namespace Reporter
variable (reporter : Reporter) (diagnostics : List Diagnostic)

theorem written_reportAll :
    (reporter.reportAll diagnostics).written = reporter.written ++ listed (diagnostics.map Diagnostic.text) := by
  induction diagnostics generalizing reporter with
  | nil => exact String.append_empty.symm
  | cons first rest ih =>
    have step : reporter.reportAll (first :: rest) = (reporter.report first).reportAll rest := rfl
    rw [step, ih, List.map_cons, listed, report]
    simp only [String.append_assoc]

theorem counts_reportAll :
    (reporter.reportAll diagnostics).counts =
      ⟨reporter.counts.reading + diagnostics.countP (·.phase = .reading),
        reporter.counts.running + diagnostics.countP (·.phase = .running)⟩ := by
  induction diagnostics generalizing reporter with
  | nil => rfl
  | cons first rest ih =>
    have step : reporter.reportAll (first :: rest) = (reporter.report first).reportAll rest := rfl
    rw [step, ih, List.countP_cons, List.countP_cons]
    cases found : first.phase with
    | reading | running => simp [report, Counts.add, found, Nat.add_assoc, Nat.add_comm 1]

end Reporter

/-- What is written of some errors, and how many of them were found while reading and while running. The
texts are spelled out here, so that a notice says what is to be read without a look at the reporter. -/
structure Notice where
  text : String
  reading : Nat
  running : Nat

namespace Notice

def none : Notice := ⟨"", 0, 0⟩

def ofLexical (errors : List LexicalError) : Notice :=
  ⟨listed (errors.map fun error => "[" ++ toString error.line ++ "] Error: " ++ error.fault.message), errors.length, 0⟩

def ofSyntax (errors : List SyntaxError) : Notice :=
  ⟨listed (errors.map fun error =>
      "[" ++ toString error.token.line ++ "] Error" ++
        (if error.token.kind = .eof then " at end" else " at '" ++ error.token.lexeme ++ "'") ++ ": " ++
        error.fault.message),
    errors.length, 0⟩

def ofRuntime (error : RuntimeError) : Notice :=
  ⟨error.fault.message ++ "\n[line " ++ toString error.line ++ "]\n", 0, 1⟩

end Notice

/-- From one reporter to another a notice was given: its text was written, and its errors were counted on
from the counts with which the run began. -/
structure Reporter.Gives (counts : Counts) (notice : Notice) (before after : Reporter) : Prop where
  written : after.written = before.written ++ notice.text
  reading : after.counts.reading = counts.reading + notice.reading
  running : after.counts.running = counts.running + notice.running

private theorem LexicalError.text_diagnostic (error : LexicalError) :
    error.diagnostic.text = "[" ++ toString error.line ++ "] Error: " ++ error.fault.message := by
  have joined : "] Error: " = "] Error" ++ "" ++ ": " := by decide
  show "[" ++ toString error.line ++ "] Error" ++ "" ++ ": " ++ error.fault.message = _
  rw [joined]
  simp only [String.append_assoc]

private theorem SyntaxError.text_diagnostic (error : SyntaxError) :
    error.diagnostic.text =
      "[" ++ toString error.token.line ++ "] Error" ++
        (if error.token.kind = .eof then " at end" else " at '" ++ error.token.lexeme ++ "'") ++ ": " ++
        error.fault.message := by
  have place : error.context = if error.token.kind = .eof then " at end" else " at '" ++ error.token.lexeme ++ "'" := by
    simp only [context, Diagnostic.position, Token.isEof, beq_iff_eq]
  rw [← place]
  rfl

namespace Reporter.Gives
variable {counts : Counts} {before : Reporter}

theorem none : Gives counts .none before { before with counts } := ⟨String.append_empty.symm, rfl, rfl⟩

/-- Errors found while reading give a notice of their texts and their number. -/
private theorem read {diagnostics : List Diagnostic} (reading : ∀ diagnostic ∈ diagnostics, diagnostic.phase = .reading) :
    Gives counts ⟨listed (diagnostics.map Diagnostic.text), diagnostics.length, 0⟩ before
      ({ before with counts }.reportAll diagnostics) := by
  have all : diagnostics.countP (·.phase = .reading) = diagnostics.length :=
    List.countP_eq_length.mpr fun diagnostic member => decide_eq_true (reading diagnostic member)
  have none : diagnostics.countP (·.phase = .running) = 0 :=
    List.countP_eq_zero.mpr fun diagnostic member => by rw [reading diagnostic member]; decide
  exact ⟨written_reportAll _ _, by rw [counts_reportAll, all], by rw [counts_reportAll, none]⟩

theorem ofLexical (errors : List LexicalError) :
    Gives counts (.ofLexical errors) before
      ({ before with counts }.reportAll (errors.map LexicalError.diagnostic)) := by
  have reading : ∀ diagnostic ∈ errors.map LexicalError.diagnostic, diagnostic.phase = .reading :=
    List.forall_mem_map.mpr fun error _ => rfl
  have gives : Gives counts _ before _ := read reading
  rw [List.map_map, List.length_map, Function.comp_def, funext LexicalError.text_diagnostic] at gives
  exact gives

theorem ofSyntax (errors : List SyntaxError) :
    Gives counts (.ofSyntax errors) before
      ({ before with counts }.reportAll (errors.map SyntaxError.diagnostic)) := by
  have reading : ∀ diagnostic ∈ errors.map SyntaxError.diagnostic, diagnostic.phase = .reading :=
    List.forall_mem_map.mpr fun error _ => rfl
  have gives : Gives counts _ before _ := read reading
  rw [List.map_map, List.length_map, Function.comp_def, funext SyntaxError.text_diagnostic] at gives
  exact gives

theorem ofRuntime (error : RuntimeError) :
    Gives counts (.ofRuntime error) before ({ before with counts }.report error.diagnostic) := by
  refine ⟨?_, rfl, rfl⟩
  show before.written ++ (error.fault.message ++ "\n[line " ++ toString error.line ++ "]") ++ "\n" = _
  have joined : "]\n" = "]" ++ "\n" := by decide
  rw [Notice.ofRuntime, joined]
  simp only [String.append_assoc]

end Reporter.Gives

end Lox
