import CoopScript.Proofs.Heap.Dependable
import CoopScript.Proofs.Machine.Homogeneous

/-!
The types and payloads of machines. No machine and no sequence of operations takes the two apart, so
that readers of values can depend on either.
-/

namespace CoopScript

open Machine (Invokes)

variable {machine : Machine} {program : Program} {limits : Limits}

namespace Machine

/-- The heap is sound, its bodies are tagged, and readers can depend on that. -/
structure Tagged (machine : Machine) : Prop where
  sound : machine.heap.Sound
  tagged : machine.heap.Tagged
  dependable : machine.heap.Dependable

end Machine

end CoopScript
