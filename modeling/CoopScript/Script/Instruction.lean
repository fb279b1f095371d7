import CoopScript.Value.Datum

/-!
The instructions of the stack machine. A jump target is a position in the code of the current
block; the position after the last instruction leaves the block.
-/

namespace CoopScript

/-- The position of a block in its script. -/
structure BlockId where
  index : Nat
  deriving DecidableEq, Inhabited

/-- The position of a native function in its program. -/
structure NativeId where
  index : Nat
  deriving DecidableEq, Inhabited

/-- A variable is addressed by a lexical level and a slot of the frame at that level. -/
structure Variable where
  level : Nat
  slot : Nat
  deriving DecidableEq, Inhabited

inductive ArithOp where
  | add
  | sub
  | mul
  | div
  | rem
  | pow
  deriving DecidableEq, Inhabited

def ArithOp.name : ArithOp → String
  | .add => "Add"
  | .sub => "Sub"
  | .mul => "Mul"
  | .div => "Div"
  | .rem => "Rem"
  | .pow => "Pow"

inductive UnaryOp where
  | neg
  | not
  | abs
  deriving DecidableEq, Inhabited

inductive CompareOp where
  | eq
  | ne
  | lt
  | le
  | gt
  | ge
  deriving DecidableEq, Inhabited

def CompareOp.test : CompareOp → Ordering → Bool
  | .eq => Ordering.isEq
  | .ne => Ordering.isNe
  | .lt => Ordering.isLT
  | .le => Ordering.isLE
  | .gt => Ordering.isGT
  | .ge => Ordering.isGE

inductive Callee where
  | block (id : BlockId)
  | native (id : NativeId)
  deriving DecidableEq, Inhabited

/-- An operator with two operands takes the second one from the top of the stack. -/
inductive Instruction where
  | nop
  | pushValue (literal : Datum)
  | pushVariable (place : Variable)
  | pushVariableWritable (place : Variable)
  | assign (place : Variable)
  | assignWritable
  | dup
  | swap
  | pop
  | arith (operator : ArithOp)
  | unary (operator : UnaryOp)
  | compare (operator : CompareOp)
  | logicAnd
  | logicOr
  | constructArray (count : Nat)
  | index
  | indexWritable
  | append
  | concatenate
  | jump (target : Nat)
  | jumpIf (target : Nat)
  | jumpIfNot (target : Nat)
  | jumpIfNoPop (target : Nat)
  | jumpIfNotNoPop (target : Nat)
  | loopBack (target : Nat)
  | loopCount
  | loopForEach
  | breakLoop
  | breakRoutine
  | setResult
  | call (callee : Callee) (arguments : Nat)
  | callAndPushResult (callee : Callee) (arguments : Nat)
  | yield
  | wait
  | inlineInc (place : Variable)
  | inlineDec (place : Variable)
  | inlineAssign (operator : ArithOp) (place : Variable)
  deriving Inhabited

/-- An instruction with the source line it comes from. -/
structure Code where
  line : Nat
  instruction : Instruction
  deriving Inhabited

end CoopScript
