import Lox.Decimal.Shortest

/-! The values of the language, which are also the literals of its source. -/

namespace Lox

/-- A value. Strings hold any text, quotes and line breaks included. -/
inductive Value where
  | nil
  | bool (flag : Bool)
  | number (number : Float)
  | string (text : String)
deriving DecidableEq, Inhabited

namespace Value

/-- Everything but `nil` and `false` counts as true. -/
def isTruthy : Value → Bool
  | .nil | .bool false => false
  | _ => true

/-- Equality inside the language: values of two types differ, and numbers compare as IEEE floats, so
that NaN differs from itself and the two zeros agree. -/
def equals : Value → Value → Bool
  | .nil, .nil => true
  | .bool left, .bool right => left == right
  | .number left, .number right => left.beq right
  | .string left, .string right => left == right
  | _, _ => false

/-- The text that printing a value shows. -/
def text : Value → String
  | .nil => "nil"
  | .bool true => "true"
  | .bool false => "false"
  | .number value => numberText value
  | .string value => value

end Value

end Lox
