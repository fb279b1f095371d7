import CoopScript.Value.Body

/-!
Values with identity. A value is a handle on a body that other handles may share, and a heap holds
the bodies. The view of a value is its tree; building a tree makes a value of new bodies with that
view.
-/

namespace CoopScript

/-- Bodies are only ever added. One that no handle names any more stays without effect. -/
structure Heap where
  bodies : Array Body
  deriving Inhabited

namespace Heap

def empty : Heap := ⟨#[]⟩

def size (heap : Heap) : Nat := heap.bodies.size

@[inline] def body? (heap : Heap) : Value → Option Body
  | none => none
  | some id => heap.bodies[id.index]?

def get (heap : Heap) (value : Value) : Except ValueError Body :=
  match heap.body? value with
  | some body => .ok body
  | none => .error .empty

def allocate (heap : Heap) (body : Body) : Value × Heap :=
  (some ⟨heap.size⟩, ⟨heap.bodies.push body⟩)

/-- Every handle on the body sees the replacement. -/
def write (heap : Heap) (id : BodyId) (body : Body) : Heap :=
  ⟨heap.bodies.setIfInBounds id.index body⟩

@[simp] theorem body?_empty (heap : Heap) : heap.body? none = none := rfl

theorem lt_size_of_body? {heap : Heap} {id : BodyId} {body : Body}
    (found : heap.body? (some id) = some body) : id.index < heap.size :=
  (Array.getElem?_eq_some_iff.mp found).1

@[simp] theorem size_allocate (heap : Heap) (body : Body) :
    (heap.allocate body).2.size = heap.size + 1 := by
  simp [allocate, size]

@[simp] theorem body?_allocate (heap : Heap) (body : Body) :
    (heap.allocate body).2.body? (heap.allocate body).1 = some body := by
  simp [allocate, body?, size]

/-- The bodies that were there before stay as they were. -/
theorem body?_allocate_of_body? {heap : Heap} {value : Value} {body : Body}
    (added : Body) (found : heap.body? value = some body) :
    (heap.allocate added).2.body? value = some body := by
  cases value with
  | none => simp at found
  | some id =>
      have inRange : id.index < heap.bodies.size := lt_size_of_body? found
      simpa [allocate, body?, Array.getElem?_push, Nat.ne_of_lt inRange] using found

@[simp] theorem size_write (heap : Heap) (id : BodyId) (body : Body) :
    (heap.write id body).size = heap.size := by
  simp [write, size]

theorem body?_write_self {heap : Heap} {id : BodyId} (body : Body)
    (inRange : id.index < heap.size) : (heap.write id body).body? (some id) = some body := by
  simp only [size] at inRange
  simp [write, body?, inRange]

theorem body?_write_of_ne {heap : Heap} {id : BodyId} {value : Value} (body : Body)
    (different : value ≠ some id) : (heap.write id body).body? value = heap.body? value := by
  cases value with
  | none => rfl
  | some other =>
      have indices : id.index ≠ other.index := by
        intro same
        cases id; cases other; simp_all
      simp [write, body?, Array.getElem?_setIfInBounds_ne indices]

def type? (heap : Heap) (value : Value) : Option Ty := (heap.body? value).map Body.type

def kind? (heap : Heap) (value : Value) : Option Kind := (heap.type? value).map Ty.kind

def isArray (heap : Heap) (value : Value) : Bool := heap.kind? value = some .array

def typeOf (heap : Heap) (value : Value) : Except ValueError Ty :=
  return (← heap.get value).type

/-- Aliases of the elements of an array. -/
def elements (heap : Heap) (value : Value) : Except ValueError (Array Value) := do
  (← heap.get value).elements

def length (heap : Heap) (value : Value) : Except ValueError Nat :=
  return (← heap.elements value).size

/-- A failing index is reported as a signed number of 64 bits. -/
def indexError (index length : Nat) : ValueError :=
  .indexOutOfRange (Int.bmod index (Nat.pow 2 64)) length

/-- An alias of one element. -/
def index (heap : Heap) (value : Value) (index : Nat) : Except ValueError Value := do
  let elements ← heap.elements value
  match elements[index]? with
  | some element => return element
  | none => throw (indexError index elements.size)

/-- The tree of a value, down to the given depth. -/
def viewWithin (heap : Heap) : Nat → Value → Datum
  | 0, _ => .empty
  | depth + 1, value =>
    match heap.body? value with
    | none => .empty
    | some ⟨type, .scalar payload⟩ => .scalar type payload
    | some ⟨type, .array elements⟩ => .array type (elements.toList.map (heap.viewWithin depth))

/-- The tree of a value. No path that meets a body only once is longer than the heap's size. -/
def view (heap : Heap) (value : Value) : Datum := heap.viewWithin heap.size value

/-- The tree of a value cut off at its own body. It shows as much as the conversions to a scalar
need, and takes no longer however many values share the elements. -/
def surface (heap : Heap) (value : Value) : Datum := heap.viewWithin 1 value

theorem body?_of_size_eq_zero {heap : Heap} (value : Value) (empty : heap.size = 0) :
    heap.body? value = none := by
  cases value with
  | none => rfl
  | some id => exact Array.getElem?_eq_none (by simp only [size] at empty; omega)

theorem payload_surface (heap : Heap) (value : Value) (expected : String) :
    (heap.surface value).payload expected = (heap.view value).payload expected := by
  unfold surface view
  cases size : heap.size with
  | zero => simp [viewWithin, heap.body?_of_size_eq_zero value size]
  | succ depth =>
      simp only [viewWithin]
      split <;> rfl

theorem type?_view (heap : Heap) (value : Value) : (heap.view value).type? = heap.type? value := by
  unfold view
  cases size : heap.size with
  | zero => simp [viewWithin, type?, heap.body?_of_size_eq_zero value size, Datum.type?]
  | succ depth =>
      simp only [viewWithin, type?]
      split <;> simp_all [Datum.type?]

mutual

/-- A value of new bodies, each with one handle on it. -/
def build : Datum → Heap → Value × Heap
  | .empty, heap => (none, heap)
  | .scalar type payload, heap => heap.allocate ⟨type, .scalar payload⟩
  | .array type elements, heap =>
    let (values, heap) := buildAll elements #[] heap
    heap.allocate ⟨type, .array values⟩

/-- Builds values one after the other and puts them behind those built before. -/
def buildAll : List Datum → Array Value → Heap → Array Value × Heap
  | [], built, heap => (built, heap)
  | element :: rest, built, heap =>
    let (value, heap) := build element heap
    buildAll rest (built.push value) heap

end

/-- A copy that shares no body with anything. -/
def deepCopy (heap : Heap) (value : Value) : Value × Heap := build (heap.view value) heap

/-- A copy of the body alone: the elements of an array stay shared. -/
def copy (heap : Heap) (value : Value) : Value × Heap :=
  match heap.body? value with
  | some body => heap.allocate body
  | none => (none, heap)

end Heap

end CoopScript
