/-!
The ways in which an operation on values fails, and their wording.
-/

namespace CoopScript

inductive ValueError where
  | empty
  | kindMismatch (expected found : String)
  | notAnArray (type : String)
  | indexOutOfRange (index : Int) (length : Nat)
  | elementTypeMismatch (expected found : String)
  | lengthMismatch (left right : Nat)
  | typeMismatch (left right : String)
  deriving DecidableEq, Inhabited

def ValueError.message : ValueError → String
  | .empty => "value has no data"
  | .kindMismatch expected found => s!"expected {expected}, got {found}"
  | .notAnArray type => s!"value of type {type} is not an array"
  | .indexOutOfRange index length => s!"index {index} out of range for array of length {length}"
  | .elementTypeMismatch expected found =>
    s!"element type mismatch: expected {expected}, got {found}"
  | .lengthMismatch left right => s!"array length mismatch: {left} and {right}"
  | .typeMismatch left right => s!"incompatible types {left} and {right}"

end CoopScript
