import Lox.Proofs.LongestPieces

/-! What a scan reports of each piece of its source: a token, an error or nothing,
and the line on which the piece ends. A line break after the pieces changes none of
them, so that two sources joined by one are scanned apart. -/

namespace Lox
open Piece

def lineOf (chars : List Char) : Nat := lineAfter 1 (chars.count '\n')

def placed (pieces : List Piece) : List (Piece × Nat) :=
  pieces.mapIdx fun index piece => (piece, lineOf ((pieces.take (index + 1)).flatMap Piece.text))

namespace Scan

def error? : Piece × Nat → Option LexicalError
  | (⟨.unterminated, _⟩, line) => some ⟨line, .unterminatedString⟩
  | (⟨.unexpected, _⟩, line) => some ⟨line, .unexpectedCharacter⟩
  | _ => none

def ends (line : Nat) (pieces : List Piece) : List (Piece × Nat) :=
  pieces.mapIdx fun index piece => (piece, endLine line (pieces.take (index + 1)))

end Scan

namespace Piece
variable {chars : List Char} {pieces : List Piece}

theorem Cuts.allowed (cuts : Cuts chars pieces) :
    ∀ piece ∈ pieces, piece.form = .unexpected ∨ piece.text ∈ piece.form.rule := by
  induction cuts with
  | done => exact nofun
  | chosen _ wins _ ih => exact List.forall_mem_cons.mpr ⟨.inr wins.1.2, ih⟩
  | unexpected _ _ ih => exact List.forall_mem_cons.mpr ⟨.inl rfl, ih⟩

end Piece

/-- Two sources joined by a line break are scanned apart, whatever errors they have, as long as no open
string of the first one goes on into the second. -/
theorem scan_joined {first : String} (closed : ∀ error ∈ (scan first).errors, error.fault ≠ .unterminatedString)
    (second : String) :
    let joined := first ++ "\n" ++ second
    let lines := lineBreaks first + 1
    (∀ before after, Cuts first.toList before → Cuts second.toList after →
      Cuts joined.toList (before ++ ⟨.newline, ['\n']⟩ :: after)) ∧
    (∃ tokens marker, (scan first).tokens = tokens ++ [marker] ∧ marker.kind = .eof ∧
      (scan joined).tokens = tokens ++ (scan second).tokens.map (·.raise lines)) ∧
    (scan joined).errors = (scan first).errors ++ (scan second).errors.map (·.raise lines) := by
  intro joined lines
  refine ⟨fun before after cutsBefore cutsAfter => ?_, ⟨lexemes first, _, scan_tokens first, rfl, ?_⟩,
    errors_joined closed second⟩
  · have whole := cut_cuts joined.toList
    rwa [cut_joined closed, ← cutsBefore.unique (cut_cuts _), ← cutsAfter.unique (cut_cuts _)] at whole
  · have breaks : lineBreaks joined = lines + lineBreaks second := by
      simp only [joined, lines, lineBreaks, String.toList_append, List.count_append]
      rfl
    have marker : Token.endOfFile (lineAfter 1 (lineBreaks joined)) =
        (Token.endOfFile (lineAfter 1 (lineBreaks second))).raise lines := by
      rw [breaks, Nat.add_comm, ← lineAfter_lineAfter]
      rfl
    rw [scan_tokens, lexemes_joined closed, marker, scan_tokens, List.map_append, List.append_assoc]
    rfl

/-- A string over two lines and a point that belongs to no number before the line break, and digits and
an open string behind it, with an unexpected character on either side. -/
theorem scan_joined_of_errors :
    let first := "@ \"a\nb\" 1."
    let second := "5 # \"c\nd"
    let joined := first ++ "\n" ++ second
    (∀ error ∈ (scan first).errors, error.fault ≠ .unterminatedString) ∧
      (∃ tokens marker, (scan first).tokens = tokens ++ [marker] ∧ marker.kind = .eof ∧
        (scan joined).tokens = tokens ++ (scan second).tokens.map (·.raise 2)) ∧
      (scan joined).errors = [⟨1, .unexpectedCharacter⟩, ⟨3, .unexpectedCharacter⟩, ⟨4, .unterminatedString⟩] := by
  intro first second joined
  have unexpected : (scan first).errors = [⟨1, .unexpectedCharacter⟩] := by decide +kernel
  have others : (scan second).errors = [⟨1, .unexpectedCharacter⟩, ⟨2, .unterminatedString⟩] := by decide +kernel
  have breaks : lineBreaks first + 1 = 2 := by decide +kernel
  have closed : ∀ error ∈ (scan first).errors, error.fault ≠ .unterminatedString := by
    rw [unexpected]
    decide
  obtain ⟨_, tokens, errors⟩ := scan_joined closed second
  rw [breaks] at tokens errors
  rw [unexpected, others] at errors
  exact ⟨closed, tokens, errors⟩

end Lox
