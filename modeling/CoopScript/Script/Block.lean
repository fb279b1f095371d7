import CoopScript.Script.Instruction

/-!
Blocks: a piece of code with its arguments and slots, as the unit that is called.
-/

namespace CoopScript

/-- A loop block is what a break of a loop leaves, a routine what a break of a routine leaves; a
function has a result, and a microthread runs in a thread of its own. -/
inductive BlockKind where
  | normal
  | loop
  | sub
  | function
  | microthread
  deriving DecidableEq, Inhabited

def BlockKind.isRoutine : BlockKind → Bool
  | .normal => false
  | .loop => false
  | .sub => true
  | .function => true
  | .microthread => true

/-- The entry block is at level zero. Arguments are bound to the first slots. -/
structure Block where
  kind : BlockKind
  level : Nat
  name : Option String := none
  arguments : Nat := 0
  slots : Nat := 0
  codes : Array Code := #[]
  deriving Inhabited

namespace Block

def named (block : Block) (name : String) : Block := { block with name := some name }

/-- There is a slot for every argument. -/
def withArguments (block : Block) (arguments : Nat) : Block :=
  { block with arguments, slots := max block.slots arguments }

def withSlots (block : Block) (slots : Nat) : Block :=
  { block with slots := max slots block.arguments }

def push (block : Block) (code : Code) : Block := { block with codes := block.codes.push code }

def size (block : Block) : Nat := block.codes.size

def displayName (block : Block) : String := block.name.getD "<anonymous>"

end Block

end CoopScript
