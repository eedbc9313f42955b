import Mathlib.Computability.Language
import Lox.Source.Scan

/-! Each form of piece has a rule, the language of the texts that it may have. At
every place of a source the longest text that some rule allows is chosen, and a
reserved word before an identifier. -/

namespace Lox
open Computability Piece

def charOf (test : Char → Bool) : Language Char := {word | ∃ char, test char = true ∧ word = [char]}

def digitRun : Language Char := charOf Char.isDigit * (charOf Char.isDigit)∗

def Kind.rule : Kind → Language Char
  | .identifier => charOf startsWord * (charOf continuesWord)∗
  | .string => {['"']} * ((charOf (· != '"'))∗ * {['"']})
  | .number => digitRun * (1 + {['.']} * digitRun)
  | .eof => 0
  | kind => {kind.displayName.toList}

def Form.rule : Form → Language Char
  | .blank => charOf isBlank * (charOf isBlank)∗
  | .newline => {['\n']}
  | .comment => {['/', '/']} * (charOf (· != '\n'))∗
  | .lexeme kind => kind.rule
  | .unterminated => {['"']} * (charOf (· != '"'))∗
  | .unexpected => 0

private theorem mem_many {test : Char → Bool} {word : List Char} : word ∈ (charOf test)∗ ↔ word.all test = true := by
  rw [Language.mem_kstar]
  constructor
  · intro made
    obtain ⟨parts, rfl, single⟩ := made
    rw [List.all_eq_true]
    intro char member
    obtain ⟨part, inside, member⟩ := List.mem_flatten.mp member
    obtain ⟨other, passes, rfl⟩ := single part inside
    rwa [List.mem_singleton.mp member]
  · intro pass
    refine ⟨word.map fun char => [char], ?_, ?_⟩
    · induction word with
      | nil => rfl
      | cons first rest ih =>
        rw [List.all_cons, Bool.and_eq_true] at pass
        rw [List.map_cons, List.flatten_cons, ← ih pass.2]
        rfl
    · intro part member
      obtain ⟨char, inside, rfl⟩ := List.mem_map.mp member
      exact ⟨char, List.all_eq_true.mp pass char inside, rfl⟩

theorem mem_started {start test : Char → Bool} {word : List Char} :
    word ∈ charOf start * (charOf test)∗ ↔ ∃ first rest, word = first :: rest ∧ start first = true ∧ rest.all test = true := by
  rw [Language.mem_mul]
  constructor
  · intro made
    obtain ⟨_, ⟨first, starts, rfl⟩, rest, many, rfl⟩ := made
    exact ⟨first, rest, rfl, starts, mem_many.mp many⟩
  · intro made
    obtain ⟨first, rest, rfl, starts, pass⟩ := made
    exact ⟨[first], ⟨first, starts, rfl⟩, rest, mem_many.mpr pass, rfl⟩

private theorem mem_headed {head word : List Char} {rule : Language Char} :
    word ∈ ({head} : Language Char) * rule ↔ ∃ rest ∈ rule, word = head ++ rest := by
  rw [Language.mem_mul]
  constructor
  · intro made
    obtain ⟨_, rfl, rest, member, rfl⟩ := made
    exact ⟨rest, member, rfl⟩
  · intro made
    obtain ⟨rest, member, rfl⟩ := made
    exact ⟨head, rfl, rest, member, rfl⟩

theorem mem_string {word : List Char} :
    word ∈ Kind.rule .string ↔ ∃ inside, inside.all (· != '"') = true ∧ word = '"' :: (inside ++ ['"']) := by
  unfold Kind.rule
  rw [mem_headed]
  constructor
  · intro made
    obtain ⟨rest, closed, rfl⟩ := made
    obtain ⟨inside, many, _, rfl, rfl⟩ := Language.mem_mul.mp closed
    exact ⟨inside, mem_many.mp many, rfl⟩
  · intro made
    obtain ⟨inside, free, rfl⟩ := made
    exact ⟨inside ++ ['"'], Language.mem_mul.mpr ⟨inside, mem_many.mpr free, ['"'], rfl, rfl⟩, rfl⟩

def Fraction (chars : List Char) : Prop :=
  chars = [] ∨ ∃ digit rest, chars = '.' :: digit :: rest ∧ digit.isDigit = true ∧ rest.all Char.isDigit = true

theorem mem_number {word : List Char} :
    word ∈ Kind.rule .number ↔ ∃ first whole fraction, word = first :: (whole ++ fraction) ∧
      first.isDigit = true ∧ whole.all Char.isDigit = true ∧ Fraction fraction := by
  unfold Kind.rule
  rw [Language.mem_mul]
  constructor
  · intro made
    obtain ⟨_, before, fraction, after, rfl⟩ := made
    obtain ⟨first, whole, rfl, starts, pass⟩ := mem_started.mp before
    refine ⟨first, whole, fraction, rfl, starts, pass, ?_⟩
    rw [Language.mem_add, Language.mem_one, mem_headed] at after
    obtain rfl | ⟨rest, member, rfl⟩ := after
    · exact .inl rfl
    · obtain ⟨digit, rest, rfl, holds, others⟩ := mem_started.mp member
      exact .inr ⟨digit, rest, rfl, holds, others⟩
  · intro made
    obtain ⟨first, whole, fraction, rfl, starts, pass, after⟩ := made
    refine ⟨first :: whole, mem_started.mpr ⟨first, whole, rfl, starts, pass⟩, fraction, ?_, rfl⟩
    rw [Language.mem_add, Language.mem_one, mem_headed]
    obtain rfl | ⟨digit, rest, rfl, holds, others⟩ := after
    · exact .inl rfl
    · exact .inr ⟨digit :: rest, mem_started.mpr ⟨digit, rest, rfl, holds, others⟩, rfl⟩

theorem mem_comment {word : List Char} :
    word ∈ Form.rule .comment ↔ ∃ rest, rest.all (· != '\n') = true ∧ word = '/' :: '/' :: rest := by
  unfold Form.rule
  rw [mem_headed]
  simp only [mem_many, List.cons_append, List.nil_append]

theorem mem_unterminated {word : List Char} :
    word ∈ Form.rule .unterminated ↔ ∃ rest, rest.all (· != '"') = true ∧ word = '"' :: rest := by
  unfold Form.rule
  rw [mem_headed]
  simp only [mem_many, List.cons_append, List.nil_append]

private theorem Kind.displayName_ne (kind : Kind) : kind.displayName.toList ≠ [] := by
  cases kind <;> decide

def Kind.isFixed (kind : Kind) : Bool := kind != .identifier && kind != .string && kind != .number && kind != .eof

theorem Kind.isFixed_of_keyword {kind : Kind} (reserved : kind ∈ keywords) : kind.isFixed = true := by
  have fixed : ∀ kind ∈ keywords, kind.isFixed = true := by decide
  exact fixed kind reserved

theorem mem_fixed {kind : Kind} (fixed : kind.isFixed = true) {word : List Char} :
    word ∈ kind.rule ↔ word = kind.displayName.toList := by
  cases kind with
  | identifier | string | number | eof => cases fixed
  | _ => exact Iff.rfl

namespace Piece

/-- A piece that may start a text, as far as the rule for its form goes. -/
def Fits (chars : List Char) (piece : Piece) : Prop := piece.text <+: chars ∧ piece.text ∈ piece.form.rule

/-- The longer piece wins, and of two equally long ones the reserved word. -/
def Beats (piece other : Piece) : Prop :=
  other.text.length < piece.text.length ∨
    other.text.length = piece.text.length ∧
      other.form = .lexeme .identifier ∧ ∃ kind ∈ Kind.keywords, piece.form = .lexeme kind

/-- A piece that may start a text and beats all others that may. There is at most one, whatever the text is.
-/
def Chosen (chars : List Char) (piece : Piece) : Prop :=
  Fits chars piece ∧ ∀ other, Fits chars other → other = piece ∨ Beats piece other

/-- A text as consecutive pieces, each of them chosen where it starts. A character that no piece
may start with is a piece by itself. -/
inductive Cuts : List Char → List Piece → Prop where
  | done : Cuts [] []
  | chosen {chars after : List Char} {piece : Piece} {pieces : List Piece} (split : chars = piece.text ++ after)
      (wins : Chosen chars piece) (further : Cuts after pieces) : Cuts chars (piece :: pieces)
  | unexpected {first : Char} {after : List Char} {pieces : List Piece}
      (nothing : ∀ piece, ¬ Fits (first :: after) piece) (further : Cuts after pieces) :
      Cuts (first :: after) (⟨.unexpected, [first]⟩ :: pieces)

variable {chars : List Char} {piece other : Piece} {pieces others : List Piece}

theorem rule_nonempty {form : Form} : [] ∉ form.rule := by
  intro member
  cases form with
  | blank =>
    obtain ⟨_, _, same, _⟩ := mem_started.mp member
    cases same
  | newline => cases member
  | comment =>
    obtain ⟨_, _, same⟩ := mem_comment.mp member
    cases same
  | unterminated =>
    obtain ⟨_, _, same⟩ := mem_unterminated.mp member
    cases same
  | unexpected => exact Language.notMem_zero _ member
  | lexeme kind =>
    by_cases fixed : kind.isFixed = true
    · exact kind.displayName_ne ((mem_fixed fixed).mp member).symm
    cases kind with
    | identifier =>
      obtain ⟨_, _, same, _⟩ := mem_started.mp member
      cases same
    | string =>
      obtain ⟨_, _, same⟩ := mem_string.mp member
      cases same
    | number =>
      obtain ⟨_, _, _, same, _⟩ := mem_number.mp member
      cases same
    | eof => exact Language.notMem_zero _ member
    | _ => exact fixed rfl

theorem Fits.nonempty (fits : Fits [] piece) : False :=
  rule_nonempty (List.prefix_nil.mp fits.1 ▸ fits.2)

theorem Beats.asymmetric (beats : Beats piece other) (reverse : Beats other piece) : False := by
  obtain longer | ⟨same, identifier, _⟩ := beats
  · obtain shorter | ⟨same, _⟩ := reverse <;> omega
  · obtain shorter | ⟨_, _, kind, keyword, form⟩ := reverse
    · omega
    · cases form.symm.trans identifier
      exact absurd keyword (by decide)

theorem Chosen.unique (left : Chosen chars piece) (right : Chosen chars other) : piece = other := by
  -- Each of the two fits where the other one was chosen, so neither beats the other.
  obtain same | beaten := left.2 other right.1
  · exact same.symm
  obtain same | beats := right.2 piece left.1
  · exact same
  · exact (beaten.asymmetric beats).elim

theorem Cuts.unique (left : Cuts chars pieces) (right : Cuts chars others) : pieces = others := by
  induction left generalizing others with
  | done =>
    cases right with
    | done => rfl
    | chosen split wins further => exact wins.1.nonempty.elim
  | chosen split wins further ih =>
    cases right with
    | done => exact wins.1.nonempty.elim
    | chosen otherSplit otherWins otherFurther =>
      cases wins.unique otherWins
      rw [split] at otherSplit
      cases List.append_cancel_left otherSplit
      rw [ih otherFurther]
    | unexpected nothing _ => exact (nothing _ wins.1).elim
  | unexpected nothing further ih =>
    cases right with
    | chosen _ wins _ => exact (nothing _ wins.1).elim
    | unexpected _ otherFurther => rw [ih otherFurther]

end Piece

end Lox
