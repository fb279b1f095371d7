import CoopScript.Value.Update

/-!
A bench of numbered values over one heap, with a command for each operation on values.
-/

namespace CoopScript

structure Registers where
  heap : Heap
  values : Array Value

/-- The first number of a command is the register that it changes. -/
inductive Command where
  | literal (target : Nat) (datum : Datum)
  | makeScalar (target : Nat) (type : Ty) (payload : Scalar)
  | makeArray (target : Nat) (type : Ty) (sources : List Nat)
  | alias (target source : Nat)
  | overwrite (target source : Nat)
  | uniquify (target : Nat)
  | deepCopy (target source : Nat)
  | index (target source : Nat) (index : Nat)
  | indexWritable (target source : Nat) (index : Nat)
  | append (target source : Nat)
  | concatenate (target source : Nat)
  | appended (target source element : Nat)
  | concatenated (target first second : Nat)

namespace Registers

def empty (count : Nat) : Registers := ⟨.empty, Array.replicate count none⟩

def get (registers : Registers) (register : Nat) : Value :=
  (registers.values[register]?).getD none

def set (registers : Registers) (register : Nat) (value : Value) : Registers :=
  { registers with values := registers.values.setIfInBounds register value }

/-- The handles from which a body is kept alive. -/
def roots (registers : Registers) : List Value := registers.values.toList

def view (registers : Registers) (register : Nat) : Datum :=
  registers.heap.view (registers.get register)

/-- Puts a value into a register, together with the heap it was made in. -/
def store (registers : Registers) (register : Nat) (made : Value × Heap) : Registers :=
  { registers with heap := made.2 }.set register made.1

/-- A command that fails changes nothing. -/
def perform (registers : Registers) : Command → Except ValueError Registers
  | .literal target datum => .ok (registers.store target (Heap.build datum registers.heap))
  | .makeScalar target type payload =>
    return registers.store target (← registers.heap.makeScalar type payload)
  | .makeArray target type sources =>
    return registers.store target (← registers.heap.makeArray type (sources.map registers.get))
  | .alias target source => .ok (registers.set target (registers.get source))
  | .overwrite target source => do
    let heap ← registers.heap.overwrite (registers.get target) (registers.get source)
    return { registers with heap }
  | .uniquify target =>
    .ok (registers.store target (registers.heap.uniquify registers.roots (registers.get target)))
  | .deepCopy target source =>
    .ok (registers.store target (registers.heap.deepCopy (registers.get source)))
  | .index target source index =>
    return registers.set target (← registers.heap.index (registers.get source) index)
  | .indexWritable target source index =>
    return registers.store target
      (← registers.heap.indexWritable registers.roots (registers.get source) index)
  | .append target source => do
    let heap ← registers.heap.append (registers.get target) (registers.get source)
    return { registers with heap }
  | .concatenate target source => do
    let heap ← registers.heap.concatenate (registers.get target) (registers.get source)
    return { registers with heap }
  | .appended target source element =>
    return registers.store target
      (← registers.heap.appended (registers.get source) (registers.get element))
  | .concatenated target first second =>
    return registers.store target
      (← registers.heap.concatenated (registers.get first) (registers.get second))

end Registers

end CoopScript
