import Lox.Diagnostic
import Lox.Source.Piece
import Lox.Token

/-! Scanning: the tokens and the lexical errors of a source text. Every lexeme becomes one token,
every unexpected character and every unterminated string one error, and each carries the line on
which its piece ends. -/

namespace Lox

/-- Why a piece of source is no token. -/
inductive LexicalFault where
  | unexpectedCharacter
  | unterminatedString
deriving DecidableEq, Repr

def LexicalFault.message : LexicalFault → String
  | unexpectedCharacter => "Unexpected character."
  | unterminatedString => "Unterminated string."

/-- A lexical fault and the line on which its piece ends. -/
structure LexicalError where
  line : Nat
  fault : LexicalFault
deriving DecidableEq, Repr

/-- The error as a diagnostic; its line says all about its place. -/
def LexicalError.diagnostic (error : LexicalError) : Diagnostic := .reading error.line "" error.fault.message

/-- The tokens of a source, the last one marking its end, and its errors, each in source order. -/
structure Scan where
  tokens : List Token
  errors : List LexicalError
deriving DecidableEq

namespace Scan

/-- Whether any piece of the source was no token. -/
def hasErrors (scan : Scan) : Bool := !scan.errors.isEmpty

/-- The value of a lexeme: a number by its digits, a string without its quotes. -/
def literal? (kind : Kind) (lexeme : List Char) : Option Value :=
  match kind with
  | .number => some (.number (Decimal.ofChars lexeme).toFloat)
  | .string => some (.string (String.ofList lexeme.tail.dropLast))
  | _ => none

def token (kind : Kind) (lexeme : List Char) (line : Nat) : Token :=
  ⟨kind, String.ofList lexeme, literal? kind lexeme, line⟩

def addToken (first : Token) (scan : Scan) : Scan := { scan with tokens := first :: scan.tokens }

def addError (first : LexicalError) (scan : Scan) : Scan := { scan with errors := first :: scan.errors }

/-- What one piece that ends on `line` contributes. -/
def addPiece (piece : Piece) (line : Nat) (scan : Scan) : Scan :=
  match piece.form with
  | .blank | .newline | .comment => scan
  | .lexeme kind => scan.addToken (token kind piece.text line)
  | .unterminated => scan.addError ⟨line, .unterminatedString⟩
  | .unexpected => scan.addError ⟨line, .unexpectedCharacter⟩

/-- The scan of pieces that start on `line`. -/
def ofPieces (line : Nat) : List Piece → Scan
  | [] => ⟨[Token.endOfFile line], []⟩
  | piece :: rest =>
    let reached := lineAfter line (piece.text.count '\n')
    (ofPieces reached rest).addPiece piece reached

end Scan

/-- Scan a source text, which starts on line 1. -/
def scan (source : String) : Scan := Scan.ofPieces 1 (Piece.cut source.toList)

end Lox
