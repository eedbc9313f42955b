/-! The forty kinds of token, with their two spellings: the label that token listings show and the
name that stands for the kind in running text. -/

namespace Lox

/-- The kind of a token, in the fixed order that numbers them from 0. -/
inductive Kind where
  | leftParen | rightParen | leftBrace | rightBrace | comma | dot | minus | plus | semicolon | slash | star
  | bang | bangEqual | equal | equalEqual | greater | greaterEqual | less | lessEqual
  | identifier | string | number
  | kwAnd | kwBreak | kwClass | kwElse | kwFalse | kwFor | kwFun | kwIf | kwNil | kwOr | kwPrint | kwReturn
  | kwSuper | kwThis | kwTrue | kwVar | kwWhile
  | eof
deriving DecidableEq, Repr, Inhabited

namespace Kind

/-- Every kind, in order. -/
def all : List Kind :=
  [leftParen, rightParen, leftBrace, rightBrace, comma, dot, minus, plus, semicolon, slash, star,
    bang, bangEqual, equal, equalEqual, greater, greaterEqual, less, lessEqual,
    identifier, string, number,
    kwAnd, kwBreak, kwClass, kwElse, kwFalse, kwFor, kwFun, kwIf, kwNil, kwOr, kwPrint, kwReturn,
    kwSuper, kwThis, kwTrue, kwVar, kwWhile, eof]

def count : Nat := 40

def index (kind : Kind) : Nat := kind.ctorIdx

def label : Kind → String
  | leftParen => "LeftParen"
  | rightParen => "RightParen"
  | leftBrace => "LeftBrace"
  | rightBrace => "RightBrace"
  | comma => "Comma"
  | dot => "Dot"
  | minus => "Minus"
  | plus => "Plus"
  | semicolon => "Semicolon"
  | slash => "Slash"
  | star => "Star"
  | bang => "Bang"
  | bangEqual => "BangEqual"
  | equal => "Equal"
  | equalEqual => "EqualEqual"
  | greater => "Greater"
  | greaterEqual => "GreaterEqual"
  | less => "Less"
  | lessEqual => "LessEqual"
  | identifier => "Identifier"
  | string => "String"
  | number => "Number"
  | kwAnd => "And"
  | kwBreak => "Break"
  | kwClass => "Class"
  | kwElse => "Else"
  | kwFalse => "False"
  | kwFor => "For"
  | kwFun => "Fun"
  | kwIf => "If"
  | kwNil => "Nil"
  | kwOr => "Or"
  | kwPrint => "Print"
  | kwReturn => "Return"
  | kwSuper => "Super"
  | kwThis => "This"
  | kwTrue => "True"
  | kwVar => "Var"
  | kwWhile => "While"
  | eof => "Eof"

/-- The name of a kind in running text: its spelling where it has only one. -/
def displayName : Kind → String
  | leftParen => "("
  | rightParen => ")"
  | leftBrace => "\x7b"
  | rightBrace => "\x7d"
  | comma => ","
  | dot => "."
  | minus => "-"
  | plus => "+"
  | semicolon => ";"
  | slash => "/"
  | star => "*"
  | bang => "!"
  | bangEqual => "!="
  | equal => "="
  | equalEqual => "=="
  | greater => ">"
  | greaterEqual => ">="
  | less => "<"
  | lessEqual => "<="
  | identifier => "identifier"
  | string => "string"
  | number => "number"
  | kwAnd => "and"
  | kwBreak => "break"
  | kwClass => "class"
  | kwElse => "else"
  | kwFalse => "false"
  | kwFor => "for"
  | kwFun => "fun"
  | kwIf => "if"
  | kwNil => "nil"
  | kwOr => "or"
  | kwPrint => "print"
  | kwReturn => "return"
  | kwSuper => "super"
  | kwThis => "this"
  | kwTrue => "true"
  | kwVar => "var"
  | kwWhile => "while"
  | eof => "end of file"

/-- The reserved words, each spelled by its display name. -/
def keywords : List Kind :=
  [kwAnd, kwBreak, kwClass, kwElse, kwFalse, kwFor, kwFun, kwIf, kwNil, kwOr, kwPrint, kwReturn, kwSuper,
    kwThis, kwTrue, kwVar, kwWhile]

/-- The kind of a whole word: a reserved word, or else an identifier. -/
def ofWord (word : String) : Kind :=
  (keywords.find? (fun keyword => keyword.displayName == word)).getD identifier

theorem all_getElem? (kind : Kind) : all[kind.index]? = some kind := by
  cases kind <;> rfl

theorem index_injective {left right : Kind} (same : left.index = right.index) : left = right := by
  have found := all_getElem? left
  rw [same, all_getElem? right] at found
  exact (Option.some.inj found).symm

theorem index_lt_count (kind : Kind) : kind.index < count := by
  cases kind <;> decide

end Kind

end Lox
