import CoopScript.Ty
import CoopScript.Number.Shortest
import CoopScript.Value.Error

/-!
Scalars and the conversions between their kinds.
-/

namespace CoopScript

inductive Scalar where
  | real (value : Float)
  | char (value : Char)
  | boolean (value : Bool)
  deriving Inhabited

namespace Scalar

def kind : Scalar → ScalarKind
  | real _ => .real
  | char _ => .char
  | boolean _ => .boolean

/-- A character counts as its code point, a boolean as one or zero. -/
def toReal : Scalar → Float
  | real value => value
  | char value => Float.ofNat value.toNat
  | boolean value => if value then 1.0 else 0.0

/-- The character at a code point, which no surrogate and nothing above the last plane has. -/
def charAt? (code : Nat) : Option Char :=
  if code.isValidChar then some (Char.ofNat code) else none

/-- A real is truncated to a code point between zero and `2 ^ 32 - 1`. -/
def toChar : Scalar → Except ValueError Char
  | real value =>
    match charAt? value.toUInt32.toNat with
    | some character => .ok character
    | none => .error (.kindMismatch "char" (Shortest.text value))
  | char value => .ok value
  | boolean value => .ok (if value then '1' else '0')

/-- Only zero and the null character are false. -/
def toBoolean : Scalar → Bool
  | real value => value != 0.0
  | char value => value != '\x00'
  | boolean value => value

def text : Scalar → String
  | real value => Shortest.text value
  | char value => value.toString
  | boolean value => if value then "true" else "false"

/-- Scalars of one kind are ordered by their payload, false before true. -/
def order? : Scalar → Scalar → Option Ordering
  | real left, real right => some (Binary64.order left right)
  | char left, char right => some (Ord.compare left.toNat right.toNat)
  | boolean left, boolean right => some (Ord.compare left.toNat right.toNat)
  | _, _ => none

end Scalar

end CoopScript
