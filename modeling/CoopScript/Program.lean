import CoopScript.Machine.Native

/-!
A program: a script with the native functions that it may call.
-/

namespace CoopScript

structure Program where
  script : Script := {}
  natives : Natives := #[]

namespace Program

def native? (program : Program) (id : NativeId) : Option NativeFunction :=
  program.natives[id.index]?

/-- The identifier of the native function that is added next. -/
def nextNative (program : Program) : NativeId := ⟨program.natives.size⟩

def addNative (program : Program) (native : NativeFunction) : Program :=
  { program with natives := program.natives.push native }

/-- The first native function of that name. -/
def findNative? (program : Program) (name : String) : Option NativeId :=
  (program.natives.findIdx? fun native => native.name = name).map fun index => ⟨index⟩

/-- A machine that has not started yet. -/
def machine (program : Program) (limits : Limits) : Machine :=
  { script := program.script, limits }

end Program

end CoopScript
