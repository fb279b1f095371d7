import CoopScript.Ty

/-!
Interned types. A registry hands out one handle for each type it is asked for, so that equal
requests are answered by equal handles, numbered in the order of their first request.
-/

namespace CoopScript

/-- A handle names the registry that made it and its number there. -/
inductive TypeHandle where
  | scalar (registry : Nat) (id : UInt32) (kind : ScalarKind)
  | array (registry : Nat) (id : UInt32) (element : TypeHandle)
  deriving DecidableEq, Inhabited

/-- What a registry is asked for. The element of an array may come from any registry. -/
inductive TypeRequest where
  | scalar (kind : ScalarKind)
  | array (element : TypeHandle)
  deriving DecidableEq, Inhabited

namespace TypeHandle

def registry : TypeHandle → Nat
  | scalar registry _ _ => registry
  | array registry _ _ => registry

def id : TypeHandle → UInt32
  | scalar _ id _ => id
  | array _ id _ => id

def request : TypeHandle → TypeRequest
  | scalar _ _ kind => .scalar kind
  | array _ _ element => .array element

def element? : TypeHandle → Option TypeHandle
  | scalar _ _ _ => none
  | array _ _ element => some element

/-- The type that a handle stands for, without its numbering. -/
def type : TypeHandle → Ty
  | scalar _ _ kind => .scalar kind
  | array _ _ element => .array element.type

def kind (handle : TypeHandle) : Kind := handle.type.kind

def isArray (handle : TypeHandle) : Bool := handle.type.isArray

def isString (handle : TypeHandle) : Bool := handle.type.isString

def display (handle : TypeHandle) : String := handle.type.display

/-- The display of the type followed by the handle's number. -/
def debug (handle : TypeHandle) : String :=
  "Type(" ++ handle.display ++ "#" ++ toString handle.id.toNat ++ ")"

end TypeHandle

/-- The answer to a request that a registry has not seen before. -/
def TypeRequest.handle (registry : Nat) (id : UInt32) : TypeRequest → TypeHandle
  | scalar kind => .scalar registry id kind
  | array element => .array registry id element

@[simp] theorem TypeRequest.request_handle (registry : Nat) (id : UInt32)
    (request : TypeRequest) : (request.handle registry id).request = request := by
  cases request <;> rfl

/-- The handles made so far, in the order of their numbers. The name sets the handles of one
registry apart from those of another. -/
structure TypeRegistry where
  name : Nat
  handles : Array TypeHandle

namespace TypeRegistry

def empty (name : Nat) : TypeRegistry := ⟨name, #[]⟩

def size (registry : TypeRegistry) : Nat := registry.handles.size

def isEmpty (registry : TypeRegistry) : Bool := registry.handles.isEmpty

def find? (registry : TypeRegistry) (request : TypeRequest) : Option TypeHandle :=
  registry.handles.find? fun handle => handle.request = request

theorem request_of_find? {registry : TypeRegistry} {request : TypeRequest} {handle : TypeHandle}
    (found : registry.find? request = some handle) : handle.request = request := by
  simpa using Array.find?_some found

/-- A request seen before gets its old handle; any other gets the next number. -/
def intern (registry : TypeRegistry) (request : TypeRequest) : TypeHandle × TypeRegistry :=
  match registry.find? request with
  | some handle => (handle, registry)
  | none =>
    let handle := request.handle registry.name registry.size.toUInt32
    (handle, { registry with handles := registry.handles.push handle })

/-- The answer to a request is a handle for it. -/
@[simp] theorem request_intern (registry : TypeRegistry) (request : TypeRequest) :
    (registry.intern request).1.request = request := by
  unfold intern
  split
  · exact request_of_find? (by assumption)
  · simp

def scalar (registry : TypeRegistry) (kind : ScalarKind) : TypeHandle × TypeRegistry :=
  registry.intern (.scalar kind)

def array (registry : TypeRegistry) (element : TypeHandle) : TypeHandle × TypeRegistry :=
  registry.intern (.array element)

/-- A string is the array of this registry's characters, which are interned first. -/
def string (registry : TypeRegistry) : TypeHandle × TypeRegistry :=
  let (character, registry) := registry.scalar .char
  registry.array character

end TypeRegistry

end CoopScript
