import CoopScript.Machine.State
import CoopScript.Operator
import CoopScript.Value.Comparison

/-!
The actions that instructions are made of. An action changes the machine also where it fails.
-/

namespace CoopScript

abbrev Action (α : Type) : Type := EStateM MachineError Machine α

namespace Action

def ofResult {α : Type} : Except MachineError α → Action α
  | .ok result => pure result
  | .error error => throw error

def ofValueResult {α : Type} (result : Except ValueError α) : Action α :=
  ofResult (MachineError.ofValueResult result)

/-! Frames and their stacks. -/

def frame (id : FrameId) : Action Frame := do ofResult ((← get).frames.get id)

def setFrame (id : FrameId) (frame : Frame) : Action Unit :=
  modify fun machine => { machine with frames := machine.frames.set id frame }

def push (id : FrameId) (value : Value) : Action Unit := do
  setFrame id ((← frame id).push value)

def pop (id : FrameId) : Action Value := do
  let (value, frame) ← ofResult (← frame id).pop
  setFrame id frame
  return value

def popMany (id : FrameId) (count : Nat) : Action (List Value) := do
  let (values, frame) ← ofResult ((← frame id).popMany count)
  setFrame id frame
  return values

def peek (id : FrameId) : Action Value := do ofResult (← frame id).peek

/-- The target may be the position after the last instruction. -/
def jump (id : FrameId) (target : Nat) : Action Unit := do
  let frame ← frame id
  if frame.finish < target then throw (.invalidJump target frame.finish)
  setFrame id { frame with position := target }

/-! Values. -/

/-- What a value shows of itself without its elements. -/
def surface (value : Value) : Action Datum := return (← get).heap.surface value

def toReal (value : Value) : Action Float := do ofValueResult (← surface value).toReal

def toBoolean (value : Value) : Action Bool := do ofValueResult (← surface value).toBoolean

/-- Reads off the heap, which stays as it is. -/
def readHeap {α : Type} (read : Heap → Except ValueError α) : Action α := do
  ofValueResult (read (← get).heap)

/-- A change of the heap that yields a value. The heap is taken out of the machine meanwhile, so
that it has one owner. -/
def changeHeap {α : Type} (change : Heap → α × Heap) : Action α :=
  modifyGet fun machine =>
    let heap := machine.heap
    let machine := { machine with heap := .empty }
    let (result, heap) := change heap
    (result, { machine with heap })

/-- A new value with the given tree. -/
def build (datum : Datum) : Action Value := changeHeap (Heap.build datum)

/-- A new value with the given body. -/
def allocate (body : Body) : Action Value := changeHeap fun heap => heap.allocate body

def popBoolean (id : FrameId) : Action Bool := do toBoolean (← pop id)

def peekBoolean (id : FrameId) : Action Bool := do toBoolean (← peek id)

def pushDatum (id : FrameId) (datum : Datum) : Action Unit := do push id (← build datum)

/-! Variables. -/

/-- The frame that holds a variable as seen from a frame. -/
def holder (id : FrameId) (place : Variable) : Action FrameId := do
  ofResult ((← get).frames.resolve id place.level)

def readSlot (id : FrameId) (place : Variable) : Action Value := do
  let holder ← holder id place
  match (← frame holder).slots[place.slot]? with
  | some value => return value
  | none => throw (.slotOutOfRange place.level place.slot)

def writeSlot (id : FrameId) (place : Variable) (value : Value) : Action Unit := do
  let holder ← holder id place
  let frame ← frame holder
  if place.slot < frame.slots.size then
    setFrame holder { frame with slots := frame.slots.setIfInBounds place.slot value }
  else
    throw (.slotOutOfRange place.level place.slot)

/-! Activations and threads. -/

def log (event : Event) : Action Unit := modify fun machine => machine.log event

def block (id : BlockId) : Action Block := do
  match (← get).script.block? id with
  | some block => return block
  | none => throw (.unknownBlock id.index)

/-- A new frame for a block. -/
def enter (parent : Option FrameId) (id : BlockId) (arguments : List Value) : Action FrameId := do
  let block ← block id
  modifyGet fun machine =>
    let (id, frames) := machine.frames.allocate (.activate parent id block arguments)
    (id, { machine with frames })

def retire (id : FrameId) : Action Unit :=
  modify fun machine => { machine with frames := machine.frames.retire id }

/-- A new thread with the given root, which goes again if there are too many threads. -/
def spawn (root : FrameId) : Action ThreadId := do
  let machine ← get
  match machine.limits.maxThreads with
  | some limit =>
    if limit ≤ machine.threads.size then
      retire root
      throw (.threadLimitExceeded limit)
  | none => pure ()
  modifyGet fun machine =>
    let (id, threads) := machine.threads.spawn root
    (id, { machine with threads })

/-- A new thread for a block, with the given frame around it. -/
def launch (parent : Option FrameId) (id : BlockId) (arguments : List Value) : Action ThreadId := do
  spawn (← enter parent id arguments)

def thread (id : ThreadId) : Action Thread := do
  match (← get).threads.find? id with
  | some thread => return thread
  | none => throw (.threadGone id)

def updateThread (id : ThreadId) (change : Thread → Thread) : Action Unit :=
  modify fun machine => { machine with threads := machine.threads.update id change }

/-- Leaves the current frame of a thread, passing on its result where the call asked for one. Tells
whether that was the thread's root and the thread is gone. -/
def leave (id : ThreadId) : Action Bool := do
  let thread ← thread id
  if thread.current = thread.root then
    modify fun machine => { machine with threads := machine.threads.remove id }
    retire thread.current
    return true
  else
    let frame ← frame thread.current
    match frame.parent with
    | none => throw (.frameWithoutCaller thread.current)
    | some parent =>
      if frame.returnsResult then setFrame thread.current { frame with result := none }
      retire thread.current
      if frame.returnsResult then push parent frame.result
      updateThread id fun thread => { thread with current := parent, depth := thread.depth - 1 }
      return false

/-- Ends every frame out to the innermost loop block and passes over the instruction after the call
of that block. A routine and the root of a thread bound the search. -/
def breakLoop (root : FrameId) : Nat → FrameId → Action Unit
  | 0, _ => throw .breakOutsideLoop
  | fuel + 1, id => do
    let current ← frame id
    setFrame id { current with position := current.finish }
    if id = root || current.kind.isRoutine then throw .breakOutsideLoop
    match current.parent with
    | none => throw .breakOutsideLoop
    | some parent =>
      if current.kind = .loop then
        let caller ← frame parent
        setFrame parent { caller with position := caller.position + 1 }
      else breakLoop root fuel parent

/-- Ends every frame out to the innermost routine or the root of the thread. -/
def breakRoutine (root : FrameId) : Nat → FrameId → Action Unit
  | 0, id => throw (.frameWithoutCaller id)
  | fuel + 1, id => do
    let current ← frame id
    setFrame id { current with position := current.finish }
    if id = root || current.kind.isRoutine then return
    match current.parent with
    | none => throw (.frameWithoutCaller id)
    | some parent => breakRoutine root fuel parent

/-- The innermost function among the frames out to the innermost routine or the root. -/
def resultFrame (root : FrameId) : Nat → FrameId → Action FrameId
  | 0, _ => throw (.runtime "result set outside of a function")
  | fuel + 1, id => do
    let current ← frame id
    if current.kind = .function then return id
    match current.parent with
    | some parent =>
      if id = root || current.kind.isRoutine then
        throw (.runtime "result set outside of a function")
      else resultFrame root fuel parent
    | none => throw (.runtime "result set outside of a function")

/-- Counts an instruction of the current run of the ready threads. -/
def count : Action Unit := do
  modify fun machine => { machine with instructions := machine.instructions + 1 }
  let machine ← get
  match machine.limits.instructionLimit with
  | some limit => if limit < machine.instructions then throw (.instructionLimitExceeded limit)
  | none => pure ()

end Action

end CoopScript
