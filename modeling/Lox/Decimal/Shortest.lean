import Lox.Decimal

/-! The text of a float: the shortest numeral that rounds to it. Grids of decimal numerals are tried
from the coarsest to the finest, and on each grid only the two neighbours of the exact value can be
nearest, so every accepted numeral reads back as the same float. -/

namespace Lox

namespace Decimal

/-- `count` units of `10 ^ grid`. -/
def onGrid (grid : Int) (count : Nat) : Decimal := ⟨count * Nat.pow 10 grid.toNat, (-grid).toNat⟩

/-- The grid points on either side of `numerator / denominator`, the nearer first; midway, the
upper one is first. -/
def neighbours (numerator denominator : Nat) (grid : Int) : List Decimal :=
  let scaled := numerator * Nat.pow 10 (-grid).toNat
  let unit := denominator * Nat.pow 10 grid.toNat
  let below := onGrid grid (scaled / unit)
  let above := onGrid grid (scaled / unit + 1)
  if unit ≤ 2 * (scaled % unit) then [above, below] else [below, above]

/-- All the digits of `mantissa * 2 ^ exponent`. -/
def exact (mantissa : Nat) (exponent : Int) : Decimal :=
  ⟨mantissa * Nat.pow 2 exponent.toNat * Nat.pow 5 (-exponent).toNat, (-exponent).toNat⟩

/-- A power of ten no smaller than `mantissa * 2 ^ exponent`, and within a few of it; 0.30103 is
the decimal logarithm of 2. -/
def coarsestGrid (mantissa : Nat) (exponent : Int) : Int :=
  Float.Model.totalExponent mantissa exponent * 30103 / 100000 + 1

/-- How many grids can be needed: 17 digits tell all floats apart, and the first grid may be
coarser than the leading digit. -/
def gridCount : Nat := 20

/-- The numeral with the fewest digits that rounds to `target`, which is the positive float
`mantissa * 2 ^ exponent`; of two such numerals, the nearer. -/
def shortest (target : Float) (mantissa : Nat) (exponent : Int) : Decimal :=
  let numerator := mantissa * Nat.pow 2 exponent.toNat
  let denominator := Nat.pow 2 (-exponent).toNat
  let coarsest := coarsestGrid mantissa exponent
  let found := (List.range gridCount).findSome? fun (step : Nat) =>
    (neighbours numerator denominator (coarsest - step)).find? (fun number => number.toFloat = target)
  found.getD (exact mantissa exponent)

end Decimal

/-- A minus sign in front of the text of a negative number. -/
def signed (sign : Float.Model.UnpackedFloat.Sign) (text : String) : String :=
  match sign with
  | .positive => text
  | .negative => "-" ++ text

/-- A number in the shortest digits that read back as it, never with an exponent. Zero keeps its
sign; no value has a fraction of zeros. -/
def numberText (number : Float) : String :=
  match number.toModel.unpack with
  | .notANumber => "NaN"
  | .infinity sign => signed sign "inf"
  | .zero sign => signed sign "0"
  | .finite sign mantissa exponent _ =>
    signed sign (String.ofList (Decimal.shortest number.abs mantissa exponent).toChars)

end Lox
