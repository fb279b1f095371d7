import CoopScript.Ty.Registry
import Mathlib.Data.Set.Function

/-!
Types from a registry that several users share. Each gets the handles that a registry of its own
would give it, but for their numbers.
-/

namespace CoopScript

namespace TypeHandle

variable {handle element : TypeHandle} {kind : ScalarKind}

end TypeHandle

namespace TypeRegistry

/-- The handle for a type, with the handles for its parts before. -/
def ofType (registry : TypeRegistry) : Ty → TypeHandle × TypeRegistry
  | .scalar kind => registry.scalar kind
  | .array element =>
    let (handle, registry) := registry.ofType element
    registry.array handle

/-- The handles for types that are asked for one after the other. -/
def ofTypes (registry : TypeRegistry) : List Ty → List TypeHandle × TypeRegistry
  | [] => ([], registry)
  | type :: rest =>
    let (handle, registry) := registry.ofType type
    let (handles, registry) := registry.ofTypes rest
    (handle :: handles, registry)

/-- What was answered once is answered so later. -/
def Keeps (registry later : TypeRegistry) : Prop :=
  ∀ request handle, registry.find? request = some handle → later.find? request = some handle

variable {registry later last : TypeRegistry} {request : TypeRequest}

theorem Keeps.refl (registry : TypeRegistry) : registry.Keeps registry := fun _ _ => id

theorem Keeps.trans (early : registry.Keeps later) (late : later.Keeps last) : registry.Keeps last :=
  fun request handle found => late request handle (early request handle found)

end TypeRegistry

end CoopScript
