/-!
The types of script values: three kinds of scalar, and arrays of a type.
A string is an array of characters.
-/

namespace CoopScript

inductive ScalarKind where
  | real
  | char
  | boolean
  deriving DecidableEq, Inhabited

def ScalarKind.name : ScalarKind → String
  | .real => "real"
  | .char => "char"
  | .boolean => "bool"

/-- The outermost shape of a type. -/
inductive Kind where
  | real
  | char
  | boolean
  | array
  deriving DecidableEq, Inhabited

def Kind.name : Kind → String
  | .real => "real"
  | .char => "char"
  | .boolean => "bool"
  | .array => "array"

def ScalarKind.toKind : ScalarKind → Kind
  | .real => .real
  | .char => .char
  | .boolean => .boolean

inductive Ty where
  | scalar (kind : ScalarKind)
  | array (element : Ty)
  deriving DecidableEq, Inhabited

namespace Ty

abbrev real : Ty := .scalar .real

abbrev char : Ty := .scalar .char

abbrev boolean : Ty := .scalar .boolean

abbrev string : Ty := .array char

def kind : Ty → Kind
  | scalar kind => kind.toKind
  | array _ => .array

def element? : Ty → Option Ty
  | scalar _ => none
  | array element => some element

def isArray : Ty → Bool
  | scalar _ => false
  | array _ => true

def isString : Ty → Bool
  | array (.scalar .char) => true
  | _ => false

/-- An array is written as its element type and a pair of brackets, a string by its own name. -/
def display : Ty → String
  | scalar kind => kind.name
  | array (.scalar .char) => "string"
  | array element => element.display ++ "[]"

instance : ToString Ty := ⟨display⟩

@[simp] theorem element?_eq_some_iff {type element : Ty} :
    type.element? = some element ↔ type = .array element := by
  cases type <;> simp [element?]

end Ty

end CoopScript
