import CoopScript.Value.Datum

/-!
The form in which values are handed to a serializer: like the tree of a value, but with strings as
texts and without types.
-/

namespace CoopScript

inductive Serial where
  | null
  | real (value : Float)
  | text (value : String)
  | boolean (value : Bool)
  | list (items : List Serial)
  deriving Inhabited

namespace Datum

mutual

def serialize : Datum → Except ValueError Serial
  | empty => .ok .null
  | scalar _ (.real value) => .ok (.real value)
  | scalar _ (.char value) => .ok (.text value.toString)
  | scalar _ (.boolean value) => .ok (.boolean value)
  | array type elements =>
    if type.isString then do
      let text ← characters elements
      return .text text
    else do
      let items ← serializeAll elements []
      return .list items

/-- The forms of values one after the other, behind those done before, the last of which comes
first. -/
def serializeAll : List Datum → List Serial → Except ValueError (List Serial)
  | [], done => .ok done.reverse
  | element :: rest, done => do
    let item ← serialize element
    serializeAll rest (item :: done)

end

end Datum

end CoopScript
