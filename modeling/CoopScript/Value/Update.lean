import CoopScript.Value.Sharing

/-!
Operations that make or change bodies. Those in place are seen through every handle on the body;
those that copy leave all bodies as they were.
-/

namespace CoopScript.Heap

def makeScalar (heap : Heap) (type : Ty) (payload : Scalar) : Except ValueError (Value × Heap) :=
  if type = .scalar payload.kind then .ok (heap.allocate ⟨type, .scalar payload⟩)
  else .error (.kindMismatch type.kind.name payload.kind.name)

/-- Every element has to carry the expected type. -/
def checkElements (heap : Heap) (expected : Ty) (elements : List Value) : Except ValueError Unit :=
  elements.forM fun element => do
    let found ← heap.typeOf element
    if found ≠ expected then throw (.elementTypeMismatch expected.display found.display)

/-- The body of an array of the given elements, which it aliases. -/
def arrayBody (heap : Heap) (type : Ty) (elements : List Value) : Except ValueError Body :=
  match type with
  | .scalar _ => .error (.notAnArray type.display)
  | .array expected => do
    heap.checkElements expected elements
    return ⟨type, .array elements.toArray⟩

def makeArray (heap : Heap) (type : Ty) (elements : List Value) :
    Except ValueError (Value × Heap) :=
  return heap.allocate (← heap.arrayBody type elements)

/-- A handle of its own on the body: a shared body is copied, its elements stay shared. -/
def uniquify (heap : Heap) (roots : List Value) (value : Value) : Value × Heap :=
  if heap.isShared roots value then heap.copy value else (value, heap)

/-- The body that an overwriting changes. Neither the target nor the source may be empty. -/
def overwritten (heap : Heap) (target source : Value) : Except ValueError BodyId :=
  match target with
  | none => .error .empty
  | some id => do
    let _ ← heap.get source
    return id

/-- The body takes over type and payload of the source. If the source holds the body, it is copied
first, since the body would come to contain itself. -/
def takeOver (heap : Heap) (id : BodyId) (source : Value) : Heap :=
  if source = some id then heap
  else
    let (source, heap) := if heap.reaches source id then heap.deepCopy source else (source, heap)
    match heap.body? source with
    | some body => heap.write id body
    | none => heap

/-- The body behind the target takes over type and payload of the source. -/
def overwrite (heap : Heap) (target source : Value) : Except ValueError Heap :=
  return heap.takeOver (← heap.overwritten target source) source

/-- Puts another element in place of one of an array. -/
def setElement (heap : Heap) (array : Value) (index : Nat) (element : Value) : Heap :=
  match array with
  | some id => ⟨heap.bodies.modify id.index (·.setElement index element)⟩
  | none => heap

/-- A handle on the element at an index of an array. An element that another position shares is
copied into the array before. -/
def claim (heap : Heap) (roots : List Value) (array : Value) (index : Nat) (element : Value) :
    Value × Heap :=
  if heap.isShared roots element then
    let (copy, heap) := heap.copy element
    (copy, heap.setElement array index copy)
  else (element, heap)

/-- A handle on an element that no other position shares, so that writing through it changes this
array alone. -/
def indexWritable (heap : Heap) (roots : List Value) (array : Value) (index : Nat) :
    Except ValueError (Value × Heap) :=
  return heap.claim roots array index (← heap.index array index)

/-- Adds an element at the end of an array in place. -/
def append (heap : Heap) (target element : Value) : Except ValueError Heap := do
  let found ← heap.typeOf element
  match target with
  | none => throw .empty
  | some id =>
    let (element, heap) := if heap.reaches element id then heap.deepCopy element
      else (element, heap)
    return heap.write id (← (← heap.get target).append found element)

/-- Adds the elements of one array at the end of another in place. -/
def concatenate (heap : Heap) (target source : Value) : Except ValueError Heap := do
  let incoming ← heap.elements source
  let sourceType ← heap.typeOf source
  match target with
  | none => throw .empty
  | some id => return heap.write id (← (← heap.get target).concatenate sourceType incoming)

/-- The body of an array with the element added at the end. -/
def appendedBody (heap : Heap) (array element : Value) : Except ValueError Body := do
  let found ← heap.typeOf element
  (← heap.get array).append found element

/-- A new array with the element added at the end. Nothing that was there before leads to the new body,
so it is not looked for in the element. -/
def appended (heap : Heap) (array element : Value) : Except ValueError (Value × Heap) :=
  return heap.allocate (← heap.appendedBody array element)

/-- The body of an array with the elements of both. -/
def concatenatedBody (heap : Heap) (first second : Value) : Except ValueError Body := do
  let incoming ← heap.elements second
  let sourceType ← heap.typeOf second
  (← heap.get first).concatenate sourceType incoming

/-- A new array with the elements of both. -/
def concatenated (heap : Heap) (first second : Value) : Except ValueError (Value × Heap) :=
  return heap.allocate (← heap.concatenatedBody first second)

end CoopScript.Heap
