import CoopScript.Number.Binary64

/-!
The shortest decimal that reads back as a given binary64 number, and its text without an exponent.
A decimal reads back when it lies in the interval of reals that round to the number.
-/

namespace CoopScript.Shortest

/-- The decimal `digits * 10 ^ exponent`. -/
structure Decimal where
  digits : Nat
  exponent : Int
  deriving DecidableEq, Inhabited

/-- The reals that round to a number, in quarters of the unit of its last place: from `lower` to
`upper`, around `center`. The ends belong to it when the significand is even. -/
structure Interval where
  lower : Nat
  center : Nat
  upper : Nat
  closed : Bool
  exponent : Int
  deriving DecidableEq, Inhabited

/-- Below a power of two the numbers lie twice as dense, so the lower half is half as wide there. -/
def Interval.around (significand : Nat) (exponent : Int) : Interval where
  lower := if significand = Nat.pow 2 52 ∧ -1074 < exponent then 4 * significand - 1
    else 4 * significand - 2
  center := 4 * significand
  upper := 4 * significand + 2
  closed := significand % 2 == 0
  exponent := exponent - 2

/-- Two scales that compare multiples of `10 ^ place` with multiples of `2 ^ exponent`:
`count * 10 ^ place < quarters * 2 ^ exponent` says `count * scales.1 < quarters * scales.2`. -/
def scales (place exponent : Int) : Nat × Nat :=
  (Nat.pow 10 place.toNat * Nat.pow 2 (-exponent).toNat,
    Nat.pow 10 (-place).toNat * Nat.pow 2 exponent.toNat)

/-- The multiple of `10 ^ place` in the interval that is nearest to its center, if there is one.
The neighbours below and above the center are the only candidates; the upper one wins a tie. -/
def Interval.nearest? (interval : Interval) (place : Int) : Option Decimal :=
  let (decimalScale, binaryScale) := scales place interval.exponent
  let center := interval.center * binaryScale
  let below := center / decimalScale
  let above := below + 1
  let lower := interval.lower * binaryScale
  let upper := interval.upper * binaryScale
  let fitsBelow := lower < below * decimalScale ||
    (interval.closed && lower == below * decimalScale)
  let fitsAbove := above * decimalScale < upper ||
    (interval.closed && above * decimalScale == upper)
  if fitsBelow then
    if fitsAbove && above * decimalScale - center ≤ center - below * decimalScale then
      some ⟨above, place⟩
    else
      some ⟨below, place⟩
  else if fitsAbove then
    some ⟨above, place⟩
  else
    none

/-- The first decimal found on grids that are finer and finer. -/
def Interval.search (interval : Interval) : Nat → Int → Decimal
  | 0, place => ⟨interval.center * (scales place interval.exponent).2 /
      (scales place interval.exponent).1, place⟩
  | grids + 1, place =>
    match interval.nearest? place with
    | some decimal => decimal
    | none => interval.search grids (place - 1)

/-- The search starts on a grid too coarse for the number. Seventeen digits always suffice, and
the start is off by two places at most. -/
def ofMagnitude (significand : Nat) (exponent : Int) : Decimal :=
  let bits : Int := significand.log2 + 1
  (Interval.around significand exponent).search 22 ((bits + exponent) * 30103 / 100000 + 2)

/-- Positional text: zeros fill the places down to the units and up to the first digit. -/
def Decimal.text (decimal : Decimal) : String :=
  let digits := toString decimal.digits
  if 0 ≤ decimal.exponent then
    digits ++ "".pushn '0' decimal.exponent.toNat
  else
    let places := (-decimal.exponent).toNat
    let padded := ("".pushn '0' (places + 1 - digits.length) ++ digits).toList
    let units := padded.length - places
    String.ofList (padded.take units) ++ "." ++ String.ofList (padded.drop units)

/-- The fewest digits that read back, written without an exponent. -/
def text (number : Float) : String :=
  match Binary64.decode number with
  | .nan => "NaN"
  | .infinite negative => if negative then "-inf" else "inf"
  | .finite negative significand exponent =>
    let magnitude := if significand = 0 then "0" else (ofMagnitude significand exponent).text
    if negative then "-" ++ magnitude else magnitude

end CoopScript.Shortest
