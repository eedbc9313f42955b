/-! Decimal numerals: a whole number of units of some power of ten. A numeral is read from digits
with an optional fraction, written back without an exponent, and rounded to the nearest float. -/

namespace Lox

/-- The non-negative number `digits / 10 ^ scale`. -/
structure Decimal where
  digits : Nat
  scale : Nat
deriving DecidableEq, Repr

namespace Decimal

/-- Read `whole` or `whole.fraction`; every character but the point is a decimal digit. -/
def ofChars (chars : List Char) : Decimal :=
  let whole := chars.takeWhile Char.isDigit
  let fraction := chars.drop (whole.length + 1)
  ⟨Nat.ofDigitChars 10 (whole ++ fraction) 0, fraction.length⟩

/-- The digits with the point before the last `scale` of them, and at least one digit before it. -/
def toChars (number : Decimal) : List Char :=
  let written := Nat.toDigits 10 number.digits
  if number.scale = 0 then written
  else
    let padded := List.replicate (number.scale + 1 - written.length) '0' ++ written
    let wholeLength := padded.length - number.scale
    padded.take wholeLength ++ '.' :: padded.drop wholeLength

/-- The nearest float, ties to even; infinite when the number is too large. -/
def toFloat (number : Decimal) : Float :=
  Float.ofModel (Float.Model.ofScientific number.digits (-number.scale))

end Decimal

end Lox
