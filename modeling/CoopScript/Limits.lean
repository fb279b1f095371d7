/-!
The limits that a machine keeps to.
-/

namespace CoopScript

/-- Nested calls in one thread, instructions in one run of the ready threads, and live threads. -/
structure Limits where
  maxCallDepth : Nat := 256
  instructionLimit : Option Nat := none
  maxThreads : Option Nat := none
  deriving DecidableEq, Inhabited

end CoopScript
