import CoopScript.Script.Block
import CoopScript.Machine.Error
import CoopScript.Value.Heap

/-!
Frames and the arena that keeps them. A frame names the frame that entered it as its parent, and
variables are looked up along the chain of parents. A frame stays alive while it executes or a live
frame names it, so that a thread can use the slots of the frames around it after those returned.
-/

namespace CoopScript

/-- A place in the arena. Places are used again once their frame is gone. -/
structure FrameId where
  index : Nat
  deriving DecidableEq, Inhabited

instance : ToString FrameId := ⟨fun id => "f" ++ toString id.index⟩

def MachineError.frameNotLive (id : FrameId) : MachineError :=
  .runtime ("frame " ++ toString id ++ " is not live")

def MachineError.frameWithoutCaller (id : FrameId) : MachineError :=
  .runtime ("frame " ++ toString id ++ " has no caller")

/-- One activation of a block. Its serial number is greater than its parent's. The next instruction
is the one at `position`, and a frame at `finish` is done. The top of the stack comes first. -/
structure Frame where
  parent : Option FrameId
  block : BlockId
  kind : BlockKind
  level : Nat
  finish : Nat
  slots : Array Value
  activation : Nat := 0
  position : Nat := 0
  stack : List Value := []
  returnsResult : Bool := false
  result : Value := none
  pins : Nat := 0
  retired : Bool := false
  deriving Inhabited

namespace Frame

/-- A new activation of a block. Its first slots hold the arguments, the others are empty. -/
def activate (parent : Option FrameId) (id : BlockId) (block : Block) (arguments : List Value) :
    Frame :=
  let count := max block.slots block.arguments
  let slots := ((arguments ++ List.replicate count none).take count).toArray
  { parent, block := id, kind := block.kind, level := block.level, finish := block.size, slots }

def push (frame : Frame) (value : Value) : Frame := { frame with stack := value :: frame.stack }

def peek (frame : Frame) : Except MachineError Value :=
  match frame.stack with
  | [] => .error .stackUnderflow
  | value :: _ => .ok value

def pop (frame : Frame) : Except MachineError (Value × Frame) :=
  match frame.stack with
  | [] => .error .stackUnderflow
  | value :: rest => .ok (value, { frame with stack := rest })

/-- The values on top of the stack in the order in which they were pushed. -/
def popMany (frame : Frame) (count : Nat) : Except MachineError (List Value × Frame) :=
  if frame.stack.length < count then .error .stackUnderflow
  else .ok ((frame.stack.take count).reverse, { frame with stack := frame.stack.drop count })

/-- Exchanges the two values on top of the stack. -/
def swap (frame : Frame) : Except MachineError Frame :=
  match frame.stack with
  | first :: second :: rest => .ok { frame with stack := second :: first :: rest }
  | _ => .error .stackUnderflow

/-- The values that a frame holds. -/
def values (frame : Frame) : List Value := frame.slots.toList ++ frame.stack ++ [frame.result]

end Frame

/-- The pins of a frame count what keeps it alive after it retired: the live frames that name it as
their parent, and whoever else pinned it. -/
structure FrameArena where
  cells : Array (Option Frame) := #[]
  free : List FrameId := []
  liveCount : Nat := 0
  activations : Nat := 0
  deriving Inhabited

namespace FrameArena

def frame? (arena : FrameArena) (id : FrameId) : Option Frame := (arena.cells[id.index]?).join

def get (arena : FrameArena) (id : FrameId) : Except MachineError Frame :=
  match arena.frame? id with
  | some frame => .ok frame
  | none => .error (.frameNotLive id)

/-- Stores a frame in a place that is in use. -/
def set (arena : FrameArena) (id : FrameId) (frame : Frame) : FrameArena :=
  { arena with cells := arena.cells.setIfInBounds id.index (some frame) }

theorem frame?_set_self {arena : FrameArena} {id : FrameId} (frame : Frame)
    (inRange : id.index < arena.cells.size) : (arena.set id frame).frame? id = some frame := by
  simp [set, frame?, inRange]

theorem frame?_set_of_ne {arena : FrameArena} {id other : FrameId} (frame : Frame)
    (different : other ≠ id) : (arena.set id frame).frame? other = arena.frame? other := by
  have indices : id.index ≠ other.index := by
    intro same
    cases id; cases other; simp_all
  simp [set, frame?, Array.getElem?_setIfInBounds_ne indices]

@[simp] theorem get_eq_ok_iff {arena : FrameArena} {id : FrameId} {frame : Frame} :
    arena.get id = .ok frame ↔ arena.frame? id = some frame := by
  unfold get
  split <;> simp_all

def pin (arena : FrameArena) (id : FrameId) : FrameArena :=
  match arena.frame? id with
  | some frame => arena.set id { frame with pins := frame.pins + 1 }
  | none => arena

/-- Takes in a frame as a new activation. The place freed last is used first. -/
def store (arena : FrameArena) (frame : Frame) : FrameId × FrameArena :=
  let frame := { frame with activation := arena.activations }
  let arena :=
    { arena with liveCount := arena.liveCount + 1, activations := arena.activations + 1 }
  match arena.free with
  | id :: free => (id, { arena with free }.set id frame)
  | [] => (⟨arena.cells.size⟩, { arena with cells := arena.cells.push (some frame) })

/-- Takes in a frame and pins its parent for as long as it lives. -/
def allocate (arena : FrameArena) (frame : Frame) : FrameId × FrameArena :=
  match frame.parent with
  | some parent => (arena.pin parent).store frame
  | none => arena.store frame

/-- Empties a place for later use. -/
def remove (arena : FrameArena) (id : FrameId) : FrameArena :=
  { arena with
    cells := arena.cells.setIfInBounds id.index none
    free := id :: arena.free
    liveCount := arena.liveCount - 1 }

/-- Drops one pin. A retired frame without pins goes, and drops its pin on its parent. The serial
number of a frame bounds the number of its ancestors. -/
def release : Nat → FrameArena → FrameId → FrameArena
  | 0, arena, _ => arena
  | fuel + 1, arena, id =>
    match arena.frame? id with
    | none => arena
    | some frame =>
      let frame := { frame with pins := frame.pins - 1 }
      if frame.retired && frame.pins = 0 then
        match frame.parent with
        | some parent => release fuel (arena.remove id) parent
        | none => arena.remove id
      else
        arena.set id frame

/-- Marks a frame that is done, which goes at once if nothing pins it. -/
def retire (arena : FrameArena) (id : FrameId) : FrameArena :=
  match arena.frame? id with
  | none => arena
  | some frame =>
    if frame.pins = 0 then
      match frame.parent with
      | some parent => release (frame.activation + 1) (arena.remove id) parent
      | none => arena.remove id
    else
      arena.set id { frame with retired := true }

def resolveWithin (arena : FrameArena) (level : Nat) :
    Nat → FrameId → Except MachineError FrameId
  | 0, _ => .error (.unknownLevel level)
  | fuel + 1, id => do
    let frame ← arena.get id
    if frame.level = level then return id
    else
      match frame.parent with
      | some parent =>
        if level < frame.level then arena.resolveWithin level fuel parent
        else throw (.unknownLevel level)
      | none => throw (.unknownLevel level)

/-- The frame at a lexical level as seen from a frame: the first on the chain of parents at that
level or below it, if it is at that level. -/
def resolve (arena : FrameArena) (id : FrameId) (level : Nat) : Except MachineError FrameId := do
  let frame ← arena.get id
  arena.resolveWithin level (frame.activation + 1) id

/-- The values that live frames hold. -/
def values (arena : FrameArena) : List Value :=
  arena.cells.toList.flatMap fun cell =>
    match cell with
    | some frame => frame.values
    | none => []

end FrameArena

end CoopScript
