import CoopScript.Value.Datum

/-!
Bodies, in which values with identity keep what they hold, and what becomes of one body when it is
changed.
-/

namespace CoopScript

structure BodyId where
  index : Nat
  deriving DecidableEq, Inhabited

/-- A handle on a body; `none` is the empty value. -/
abbrev Value := Option BodyId

inductive Data where
  | scalar (payload : Scalar)
  | array (elements : Array Value)
  deriving Inhabited

structure Body where
  type : Ty
  data : Data
  deriving Inhabited

namespace Body

@[inline] def elements? (body : Body) : Option (Array Value) :=
  match body.data with
  | .scalar _ => none
  | .array elements => some elements

/-- Aliases of the elements of an array. -/
def elements (body : Body) : Except ValueError (Array Value) :=
  match body.data with
  | .scalar _ => .error (.notAnArray body.type.display)
  | .array elements => .ok elements

/-- An array with another element in place of one of its elements. -/
def setElement (body : Body) (index : Nat) (element : Value) : Body :=
  match body with
  | ⟨type, .array elements⟩ => ⟨type, .array (elements.setIfInBounds index element)⟩
  | scalar => scalar

/-- The array with an element of the found type added at its end. An empty array adopts that
type. -/
def append (body : Body) (found : Ty) (element : Value) : Except ValueError Body := do
  let elements ← body.elements
  if elements.isEmpty then
    return ⟨.array found, .array #[element]⟩
  else if body.type.element? = some found then
    return { body with data := .array (elements.push element) }
  else
    let expected := (body.type.element?.map Ty.display).getD ""
    throw (.elementTypeMismatch expected found.display)

/-- The array with elements of an array of the source type added at its end. An empty array adopts
the type of the elements it receives. -/
def concatenate (body : Body) (sourceType : Ty) (incoming : Array Value) :
    Except ValueError Body := do
  let elements ← body.elements
  if incoming.isEmpty then
    return body
  else if elements.isEmpty then
    return ⟨sourceType, .array incoming⟩
  else if body.type = sourceType then
    return { body with data := .array (elements ++ incoming) }
  else
    throw (.elementTypeMismatch body.type.display sourceType.display)

end Body

end CoopScript
