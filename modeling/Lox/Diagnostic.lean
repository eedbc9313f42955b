/-! Diagnostics: what is said about an error, whether it was found while reading the source or while
running the program. -/

namespace Lox

/-- When an error is found. -/
inductive Phase where
  | reading
  | running
deriving DecidableEq, Repr

/-- An error with its line and, while reading, where on the line it was noticed. -/
structure Diagnostic where
  phase : Phase
  line : Nat
  context : String
  message : String
deriving DecidableEq, Repr

namespace Diagnostic

def reading (line : Nat) (context message : String) : Diagnostic := ⟨.reading, line, context, message⟩

def running (line : Nat) (message : String) : Diagnostic := ⟨.running, line, "", message⟩

/-- Where an error was noticed: at a lexeme, or at the end of the source. -/
def position (lexeme : String) (atEnd : Bool) : String :=
  if atEnd then " at end" else " at '" ++ lexeme ++ "'"

def readingText (line : Nat) (context message : String) : String :=
  "[" ++ toString line ++ "] Error" ++ context ++ ": " ++ message

/-- The text of a diagnostic: the line comes first while reading and last while running. -/
def text (diagnostic : Diagnostic) : String :=
  match diagnostic.phase with
  | .reading => readingText diagnostic.line diagnostic.context diagnostic.message
  | .running => diagnostic.message ++ "\n[line " ++ toString diagnostic.line ++ "]"

end Diagnostic

end Lox
