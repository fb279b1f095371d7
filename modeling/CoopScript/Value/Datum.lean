import CoopScript.Value.Scalar

/-!
Values as plain trees: what a value holds once aliasing is forgotten. Literals are written as
trees, and whatever only reads a value is defined on its tree.
-/

namespace CoopScript

/-- Every scalar and every array carries its type. -/
inductive Datum where
  | empty
  | scalar (type : Ty) (payload : Scalar)
  | array (type : Ty) (elements : List Datum)
  deriving Inhabited

namespace Datum

def real (value : Float) : Datum := scalar .real (.real value)

def char (value : Char) : Datum := scalar .char (.char value)

def boolean (value : Bool) : Datum := scalar .boolean (.boolean value)

def string (text : String) : Datum := array .string (text.toList.map char)

def reals (values : List Float) : Datum := array (.array .real) (values.map real)

def type? : Datum → Option Ty
  | empty => none
  | scalar type _ => some type
  | array type _ => some type

/-- The display of the type, also for the empty value. -/
def typeName (datum : Datum) : String := (datum.type?.map Ty.display).getD "<empty>"

/-- An array whose elements all carry its element type. -/
def makeArray (type : Ty) (elements : List Datum) : Except ValueError Datum :=
  match type with
  | .scalar _ => .error (.notAnArray type.display)
  | .array expected => do
    elements.forM fun element => do
      match element.type? with
      | none => throw .empty
      | some found =>
        if found ≠ expected then throw (.elementTypeMismatch expected.display found.display)
    return .array type elements

/-- The scalar of a value from which the caller expects a scalar. -/
def payload (expected : String) : Datum → Except ValueError Scalar
  | empty => .error .empty
  | scalar _ payload => .ok payload
  | array type _ => .error (.kindMismatch expected type.display)

def toReal (datum : Datum) : Except ValueError Float := do
  return (← datum.payload "real").toReal

def toChar (datum : Datum) : Except ValueError Char := do
  (← datum.payload "char").toChar

def toBoolean (datum : Datum) : Except ValueError Bool := do
  return (← datum.payload "bool").toBoolean

/-- The characters of a string, whose elements need not be characters any more. -/
def characters (elements : List Datum) : Except ValueError String := do
  return String.ofList (← elements.mapM toChar)

mutual

/-- A string is written as its characters, any other array as a bracketed list. -/
def text : Datum → Except ValueError String
  | empty => .error .empty
  | scalar _ payload => .ok payload.text
  | array type elements =>
    if type.isString then characters elements
    else do
      let items ← texts elements []
      return "[" ++ String.intercalate ", " items ++ "]"

/-- The texts of values one after the other, behind those done before, the last of which comes
first. -/
def texts : List Datum → List String → Except ValueError (List String)
  | [], done => .ok done.reverse
  | element :: rest, done => do
    let item ← text element
    texts rest (item :: done)

end

/-- The text of a value, or a placeholder where it has none. -/
def display (datum : Datum) : String :=
  match datum.text with
  | .ok text => text
  | .error _ => "<empty>"

/-- The type and the display of a value. -/
def debug (datum : Datum) : String :=
  match datum.type? with
  | some type => "Value(" ++ type.display ++ ": " ++ datum.display ++ ")"
  | none => "Value(<empty>)"

mutual

/-- Scalars of one kind compare by payload, arrays of one type element by element and then by
length. An empty array compares with an array of any type. -/
def compare : Datum → Datum → Except ValueError Ordering
  | empty, _ => .error .empty
  | scalar _ _, empty => .error .empty
  | array _ _, empty => .error .empty
  | scalar leftType left, scalar rightType right =>
    match left.order? right with
    | some ordering => .ok ordering
    | none => .error (.typeMismatch leftType.display rightType.display)
  | array leftType left, array rightType right =>
    if left.isEmpty || right.isEmpty || leftType = rightType then compareElements left right
    else .error (.typeMismatch leftType.display rightType.display)
  | scalar leftType _, array rightType _ =>
    .error (.typeMismatch leftType.display rightType.display)
  | array leftType _, scalar rightType _ =>
    .error (.typeMismatch leftType.display rightType.display)

/-- A list that ends first comes first. -/
def compareElements : List Datum → List Datum → Except ValueError Ordering
  | [], [] => .ok .eq
  | [], _ :: _ => .ok .lt
  | _ :: _, [] => .ok .gt
  | left :: leftRest, right :: rightRest =>
    match compare left right with
    | .ok .eq => compareElements leftRest rightRest
    | other => other

end

/-- Values of one type that compare as equal are equal, and so are two empty values. -/
def equal (left right : Datum) : Bool :=
  match left.type?, right.type? with
  | none, none => true
  | some leftType, some rightType =>
    leftType = rightType &&
      match compare left right with
      | .ok .eq => true
      | _ => false
  | _, _ => false

end Datum

end CoopScript
