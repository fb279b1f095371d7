/-!
Binary64 numbers as exact integers and powers of two. On this footing the remainder of a division
is computed without rounding.
-/

namespace CoopScript.Binary64

/-- A finite number is the significand times that power of two, with its sign apart. -/
inductive Decoded where
  | nan
  | infinite (negative : Bool)
  | finite (negative : Bool) (significand : Nat) (exponent : Int)
  deriving DecidableEq, Inhabited

/-- The three fields of the bits; a zero exponent field marks a number without a leading one. -/
def decodeBits (bits : Nat) : Decoded :=
  let negative := bits.testBit 63
  let exponent : Nat := bits / Nat.pow 2 52 % Nat.pow 2 11
  let fraction : Nat := bits % Nat.pow 2 52
  if exponent = 2047 then
    if fraction = 0 then .infinite negative else .nan
  else if exponent = 0 then
    .finite negative fraction (-1074)
  else
    .finite negative (Nat.pow 2 52 + fraction) (exponent - 1075)

def decode (number : Float) : Decoded := decodeBits number.toBits.toNat

/-- The bits of a number with this sign and magnitude, for a significand below `2 ^ 53` and an
exponent of at least -1074. The significand is shifted up as far as its 53 places and the least
exponent allow; only with the least exponent may its leading place stay zero. -/
def encodeBits (negative : Bool) (significand : Nat) (exponent : Int) : Nat :=
  let sign := if negative then Nat.pow 2 63 else 0
  if significand = 0 then sign
  else
    let shift := min (52 - significand.log2) (exponent + 1074).toNat
    let field := (exponent + 1074).toNat - shift
    sign + field * Nat.pow 2 52 + significand * Nat.pow 2 shift

def compose (negative : Bool) (significand : Nat) (exponent : Int) : Float :=
  Float.ofBits (encodeBits negative significand exponent).toUInt64

/-- The remainder of the division that truncates its quotient; it has the dividend's sign. -/
def remainder (dividend divisor : Float) : Float :=
  match decode dividend, decode divisor with
  | .finite negative left leftExponent, .finite _ right rightExponent =>
    if right = 0 then 0.0 / 0.0
    else
      let exponent := min leftExponent rightExponent
      let left := left * Nat.pow 2 (leftExponent - exponent).toNat
      let right := right * Nat.pow 2 (rightExponent - exponent).toNat
      compose negative (left % right) exponent
  | .finite _ _ _, .infinite _ => dividend
  | _, _ => 0.0 / 0.0

/-- The order of two numbers. A number that is no number counts as equal to every number. -/
def order (left right : Float) : Ordering :=
  if left < right then .lt else if right < left then .gt else .eq

/-- Whether the number has no fractional part; false of infinities and of what is no number. -/
def isIntegral (number : Float) : Bool :=
  match decode number with
  | .finite _ significand exponent => significand % Nat.pow 2 (-exponent).toNat == 0
  | _ => false

end CoopScript.Binary64
