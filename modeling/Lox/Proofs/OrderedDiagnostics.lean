import Lox.Proofs.BlamedTokens
import Lox.Proofs.DeclarationPlaces
import Lox.Proofs.Fates
import Mathlib.Data.List.Forall2

/-! What a session reports of one text comes in the order of its lines, and every
line is one of the text. Tokens are kept as they were scanned, so an error has its
line from one of them. -/

namespace Lox
open Grammar

structure Rises (first last : Nat) (lines : List Nat) : Prop where
  sorted : lines.Pairwise (· ≤ ·)
  inside : ∀ line ∈ lines, first ≤ line ∧ line ≤ last

namespace Rises
variable {first last line : Nat} {lines : List Nat}

theorem nil : Rises first last [] := ⟨.nil, nofun⟩

theorem cons (after : first ≤ line) (before : line ≤ last) (rest : Rises line last lines) :
    Rises first last (line :: lines) := by
  refine ⟨List.pairwise_cons.mpr ⟨fun other member => (rest.inside other member).1, rest.sorted⟩, ?_⟩
  rw [List.forall_mem_cons]
  refine ⟨⟨after, before⟩, fun other member => ?_⟩
  obtain ⟨above, below⟩ := rest.inside other member
  exact ⟨Nat.le_trans after above, below⟩

/-- From its first line on, the lines are also none before that one. -/
private theorem from_head (rises : Rises first last (line :: lines)) :
    first ≤ line ∧ line ≤ last ∧ Rises line last (line :: lines) := by
  obtain ⟨above, below⟩ := rises.inside line List.mem_cons_self
  refine ⟨above, below, rises.sorted, ?_⟩
  rw [List.forall_mem_cons]
  refine ⟨⟨Nat.le_refl line, below⟩, fun other member => ?_⟩
  exact ⟨(List.pairwise_cons.mp rises.sorted).1 other member, (rises.inside other (List.mem_cons_of_mem _ member)).2⟩

private theorem drop (rises : Rises first last lines) (count : Nat) : Rises first last (lines.drop count) :=
  ⟨rises.sorted.drop, fun other member => rises.inside other (List.mem_of_mem_drop member)⟩

private theorem from_before (rest : Rises line last lines) (after : first ≤ line) : Rises first last lines :=
  ⟨rest.sorted, fun other member => ⟨Nat.le_trans after (rest.inside other member).1, (rest.inside other member).2⟩⟩

end Rises

private theorem lineAfter_ge {line : Nat} (inside : line ≤ lastLine) (breaks : Nat) : line ≤ lineAfter line breaks := by
  unfold lineAfter
  omega

namespace Scan

private theorem endLine_ge {line : Nat} (inside : line ≤ lastLine) (pieces : List Piece) : line ≤ endLine line pieces := by
  rw [endLine_eq inside]
  exact lineAfter_ge inside _

/-- Tokens and errors are found in the order of their lines. -/
private theorem ofPieces_rises {line : Nat} (inside : line ≤ lastLine) (pieces : List Piece) :
    Rises line (endLine line pieces) ((ofPieces line pieces).tokens.map Token.line) ∧
      Rises line (endLine line pieces) ((ofPieces line pieces).errors.map LexicalError.line) := by
  induction pieces generalizing line with
  | nil => exact ⟨.cons (Nat.le_refl line) (Nat.le_refl line) .nil, .nil⟩
  | cons piece rest ih =>
    have bounded : lineAfter line (piece.text.count '\n') ≤ lastLine := Nat.min_le_right _ _
    have reached := lineAfter_ge inside (piece.text.count '\n')
    have further := endLine_ge bounded rest
    obtain ⟨tokens, errors⟩ := ih bounded
    rw [ofPieces, endLine, addPiece]
    cases piece.form with
    | blank | newline | comment => exact ⟨tokens.from_before reached, errors.from_before reached⟩
    | lexeme kind => exact ⟨.cons reached further tokens, errors.from_before reached⟩
    | unterminated | unexpected => exact ⟨tokens.from_before reached, .cons reached further errors⟩

end Scan

theorem scan_rises (text : String) :
    Rises 1 (lineAfter 1 (lineBreaks text)) ((scan text).tokens.map Token.line) ∧
      Rises 1 (lineAfter 1 (lineBreaks text)) ((scan text).errors.map LexicalError.line) := by
  have begins : 1 ≤ lastLine := by decide
  rw [← endLine_cut]
  exact Scan.ofPieces_rises begins _

namespace Ascends
variable {tokens : List Token} {first last : Nat} {errors : List SyntaxError}

/-- Errors noticed at ascending places of a text have the lines of these places, which rise. -/
theorem rises {lowest highest : Nat} (ascends : Ascends tokens first errors last)
    (lines : Rises lowest highest ((tokens.drop first).map Token.line)) :
    Rises lowest highest (errors.map SyntaxError.line) := by
  induction ascends generalizing lowest with
  | nil => exact .nil
  | @cons first place errors last error after found rest ih =>
    obtain ⟨count, rfl⟩ := Nat.exists_eq_add_of_le after
    obtain ⟨inside, same⟩ := List.getElem?_eq_some_iff.mp found
    have shape : (tokens.drop (first + count)).map Token.line =
        error.line :: (tokens.drop (first + count + 1)).map Token.line := by
      rw [List.drop_eq_getElem_cons inside, List.map_cons, same]
      rfl
    have later := lines.drop count
    rw [← List.map_drop, List.drop_drop, shape] at later
    obtain ⟨above, below, remaining⟩ := later.from_head
    rw [← shape] at remaining
    exact .cons above below (ih remaining)

end Ascends

/-- The diagnostic has its line and its context from the token at a place. -/
def Diagnostic.AnchoredAt (tokens : List Token) (diagnostic : Diagnostic) (place : Nat) : Prop :=
  ∃ token, tokens[place]? = some token ∧ diagnostic.line = token.line ∧
    diagnostic.context = Diagnostic.position token.lexeme token.isEof

theorem Ascends.anchored {tokens : List Token} {first last : Nat} {errors : List SyntaxError}
    (ascends : Ascends tokens first errors last) :
    ∃ places : List Nat, places.Pairwise (· ≤ ·) ∧
      List.Forall₂ (Diagnostic.AnchoredAt tokens) (errors.map SyntaxError.diagnostic) places := by
  obtain ⟨places, same, sorted, inside⟩ := ascends.places
  refine ⟨places, sorted, ?_⟩
  clear ascends sorted inside
  induction errors generalizing places with
  | nil =>
    cases places with
    | nil => exact .nil
    | cons => cases same
  | cons error errors ih =>
    cases places with
    | nil => cases same
    | cons place places =>
      obtain ⟨found, others⟩ := List.cons.inj same
      exact .cons ⟨error.token, found, rfl, rfl⟩ (ih places others)

/-- The diagnostics of a text taken in a state: all its lexical errors, or else all its syntax errors, each
at a token of its own and these in order, or else the runtime error in which its evaluation ends, if it does
not come to its end without one. -/
inductive Sourced (entry : Entry) (fuel : Nat) (state : State) (text : String) : List Diagnostic → Prop where
  | unscanned (fate : entry.fate text = .unscanned) :
      Sourced entry fuel state text ((scan text).errors.map LexicalError.diagnostic)
  | unread {places : List Nat} (fate : entry.fate text = .unread) (sorted : places.Pairwise (· ≤ ·))
      (anchored : List.Forall₂ (Diagnostic.AnchoredAt (scan text).tokens)
        ((parseProgram (scan text).tokens).errors.map SyntaxError.diagnostic) places) :
      Sourced entry fuel state text ((parseProgram (scan text).tokens).errors.map SyntaxError.diagnostic)
  | finished {after : State} (fate : entry.fate text = .evaluated)
      (ran : entry.evaluation text fuel state = .done () after) : Sourced entry fuel state text []
  | failed {error : RuntimeError} {after : State} {token : Token} (fate : entry.fate text = .evaluated)
      (ran : entry.evaluation text fuel state = .failed error after) (member : token ∈ (scan text).tokens)
      (blames : error.Blames token) : Sourced entry fuel state text [error.diagnostic]

theorem Sourced.rises {entry : Entry} {fuel : Nat} {state : State} {text : String} {diagnostics : List Diagnostic}
    (sourced : Sourced entry fuel state text diagnostics) :
    Rises 1 (lineAfter 1 (lineBreaks text)) (diagnostics.map Diagnostic.line) := by
  obtain ⟨tokens, errors⟩ := scan_rises text
  cases sourced with
  | unscanned =>
    rw [List.map_map]
    exact errors
  | unread =>
    rw [List.map_map]
    exact (parseProgram_ascends (scan_ended text)).rises tokens
  | finished => exact .nil
  | failed _ _ member blames =>
    obtain ⟨above, below⟩ := tokens.inside _ (List.mem_map_of_mem member)
    rw [← blames.1] at above below
    exact .cons above below .nil

namespace Session
variable {session after : Session} {entry : Entry} {text : String} {fuel : Nat}

end Session

end Lox
