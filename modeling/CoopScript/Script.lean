import CoopScript.Script.Block

/-!
A script: its blocks, the block it starts with, and the blocks that handle events.
-/

namespace CoopScript

/-- The events are in the order of their names. -/
structure Script where
  blocks : Array Block := #[]
  main : Option BlockId := none
  events : List (String × BlockId) := []
  deriving Inhabited

namespace Script

def block? (script : Script) (id : BlockId) : Option Block := script.blocks[id.index]?

/-- The identifier of the block that is added next. -/
def nextBlock (script : Script) : BlockId := ⟨script.blocks.size⟩

def addBlock (script : Script) (block : Block) : Script :=
  { script with blocks := script.blocks.push block }

def setMain (script : Script) (id : BlockId) : Script := { script with main := some id }

/-- Puts a handler in its place by name, where it takes over from an earlier one. -/
def insertEvent (name : String) (id : BlockId) :
    List (String × BlockId) → List (String × BlockId)
  | [] => [(name, id)]
  | (other, otherId) :: rest =>
    if name < other then (name, id) :: (other, otherId) :: rest
    else if name = other then (name, id) :: rest
    else (other, otherId) :: insertEvent name id rest

def addEvent (script : Script) (name : String) (id : BlockId) : Script :=
  { script with events := insertEvent name id script.events }

def event? (script : Script) (name : String) : Option BlockId := script.events.lookup name

end Script

end CoopScript
