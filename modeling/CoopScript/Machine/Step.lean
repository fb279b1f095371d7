import CoopScript.Machine.Reply

/-!
The effect of each instruction, and one step of a thread.
-/

namespace CoopScript

/-- Why a thread hands over to the next one. -/
inductive Slice where
  | yielded
  | waiting (ticks : Nat)
  | finished
  | halted
  deriving DecidableEq, Inhabited

namespace Action

/-- A destination keeps its type, except that any array may take the place of an empty one and an
empty one that of any array. -/
def writeThrough (target source : Value) : Action Unit := do
  let heap := (← get).heap
  match heap.type? target, heap.type? source with
  | some targetType, some sourceType =>
    let isEmptyArray (value : Value) : Bool :=
      match heap.elements value with
      | .ok elements => elements.isEmpty
      | .error _ => false
    let compatible := targetType = sourceType || (targetType.isArray && sourceType.isArray &&
      (isEmptyArray target || isEmptyArray source))
    if !compatible then
      throw (.typeMismatch s!"cannot store {sourceType.display} into {targetType.display}")
  | _, _ => pure ()
  let id ← ofValueResult (heap.overwritten target source)
  changeHeap fun heap => ((), heap.takeOver id source)

/-- An array literal takes its type from the first element; an empty one is a string. -/
def constructArray (elements : List Value) : Action Value := do
  match elements with
  | [] => build (.string "")
  | first :: _ =>
    let element ← readHeap fun heap => heap.typeOf first
    allocate (← readHeap fun heap => heap.arrayBody (.array element) elements)

/-- The routine of a native function for the arguments on the stack, if it takes so many. -/
def prepareNative (natives : Natives) (frame : FrameId) (id : NativeId) (count : Nat) :
    Action (Routine (Except MachineError Value)) := do
  match natives[id.index]? with
  | none => throw (.unknownNative id.index)
  | some native =>
    match native.arity with
    | some arity => if arity ≠ count then throw (.argumentCount native.name arity count)
    | none => pure ()
    let arguments ← popMany frame count
    log (.nativeCall native.name count)
    return native.body arguments

/-- Goes on after a routine, which may have stopped the machine or closed the thread. -/
def concludeNative (thread : ThreadId) (frame : FrameId) (pushesResult : Bool)
    (result : Except MachineError Value) : Action (Option Slice) := do
  let result ← ofResult result
  let machine ← get
  if machine.stopped then return some .halted
  if !machine.threads.contains thread then return some .finished
  if pushesResult then push frame result
  return none

def callNative (natives : Natives) (thread : ThreadId) (frame : FrameId) (id : NativeId)
    (count : Nat) (pushesResult : Bool) : Action (Option Slice) := do
  let routine ← prepareNative natives frame id count
  concludeNative thread frame pushesResult (← modifyGet routine.play)

/-- Makes a new activation the current frame of a thread, which may be only so deep. -/
def descend (thread : ThreadId) (frame : FrameId) (id : BlockId) (arguments : List Value)
    (pushesResult : Bool) : Action Unit := do
  let machine ← get
  let depth := ((machine.threads.find? thread).map Thread.depth).getD 0 + 1
  if machine.limits.maxCallDepth ≤ depth then throw (.stackOverflow machine.limits.maxCallDepth)
  let child ← enter (some frame) id arguments
  setFrame child { (← Action.frame child) with returnsResult := pushesResult }
  updateThread thread fun entry => { entry with current := child, depth }

def callBlock (thread : ThreadId) (frame : FrameId) (id : BlockId) (count : Nat)
    (pushesResult : Bool) : Action (Option Slice) := do
  let block ← block id
  if block.arguments ≠ count then
    throw (.argumentCount block.displayName block.arguments count)
  if pushesResult && block.kind ≠ .function then
    throw (.typeMismatch ("'" ++ block.displayName ++ "' does not return a value"))
  let arguments ← popMany frame count
  if block.kind = .microthread then
    let spawned ← launch (some frame) id arguments
    log (.microthreadSpawned spawned block.displayName)
  else
    descend thread frame id arguments pushesResult
  return none

def call (natives : Natives) (thread : ThreadId) (frame : FrameId) (callee : Callee)
    (count : Nat) (pushesResult : Bool) : Action (Option Slice) :=
  match callee with
  | .native id => callNative natives thread frame id count pushesResult
  | .block id => callBlock thread frame id count pushesResult

/-- Steps the value of a variable forward or back. -/
def stepVariable (frame : FrameId) (place : Variable) (forward : Bool) : Action Unit := do
  let value ← readSlot frame place
  let next ← ofResult ((← surface value).step forward)
  writeSlot frame place (← build next)

/-- With a counter above zero on top of the stack, counts it down. Tells whether it did. -/
def countLoop (frame : FrameId) : Action Unit := do
  let count ← toReal (← peek frame)
  if 0.0 < count then
    let _ ← pop frame
    pushDatum frame (.real (count - 1.0))
    pushDatum frame (.boolean true)
  else
    pushDatum frame (.boolean false)

/-- With a counter above an array on the stack, pushes the element at the counter and counts up.
Tells whether there was such an element. -/
def iterateLoop (frame : FrameId) : Action Unit := do
  let counter ← pop frame
  let position ← ofResult (← surface counter).position
  let array ← peek frame
  let length ← readHeap fun heap => heap.length array
  if position < length then
    pushDatum frame (.real (Float.ofNat position + 1.0))
    push frame (← readHeap fun heap => heap.index array position)
    pushDatum frame (.boolean true)
  else
    push frame counter
    pushDatum frame (.boolean false)

/-- Ticks to wait for: truncated, at least one, at most `2 ^ 32 - 1`. -/
def ticks (number : Float) : Nat := max 1 number.toUInt32.toNat

/-- The effect of an instruction of a frame of a thread. Some end the thread's slice. -/
def execute (natives : Natives) (thread : ThreadId) (frame : FrameId) :
    Instruction → Action (Option Slice)
  | .nop => return none
  | .pushValue literal => do
    pushDatum frame literal
    return none
  | .pushVariable place => do
    push frame (← readSlot frame place)
    return none
  | .pushVariableWritable place => do
    let shared ← readSlot frame place
    let roots := (← get).roots
    let value ← changeHeap fun heap => heap.uniquify roots shared
    writeSlot frame place value
    push frame value
    return none
  | .assign place => do
    writeSlot frame place (← pop frame)
    return none
  | .assignWritable => do
    let source ← pop frame
    let target ← pop frame
    writeThrough target source
    return none
  | .dup => do
    push frame (← peek frame)
    return none
  | .swap => do
    setFrame frame (← ofResult (← Action.frame frame).swap)
    return none
  | .pop => do
    let _ ← pop frame
    return none
  | .arith operator => do
    let second ← pop frame
    let first ← pop frame
    pushDatum frame (← ofResult ((← get).heap.arith operator first second))
    return none
  | .unary operator => do
    let operand ← pop frame
    pushDatum frame (← ofResult ((← get).heap.unary operator operand))
    return none
  | .compare operator => do
    let second ← pop frame
    let first ← pop frame
    let ordering ← readHeap fun heap => heap.order first second
    pushDatum frame (.boolean (operator.test ordering))
    return none
  | .logicAnd => do
    let second ← popBoolean frame
    let first ← popBoolean frame
    pushDatum frame (.boolean (first && second))
    return none
  | .logicOr => do
    let second ← popBoolean frame
    let first ← popBoolean frame
    pushDatum frame (.boolean (first || second))
    return none
  | .constructArray count => do
    let elements ← popMany frame count
    push frame (← constructArray elements)
    return none
  | .index => do
    let position ← ofResult (← surface (← pop frame)).position
    let array ← pop frame
    push frame (← readHeap fun heap => heap.index array position)
    return none
  | .indexWritable => do
    let position ← ofResult (← surface (← pop frame)).position
    let array ← pop frame
    let element ← readHeap fun heap => heap.index array position
    let roots := array :: (← get).roots
    push frame (← changeHeap fun heap => heap.claim roots array position element)
    return none
  | .append => do
    let element ← pop frame
    let array ← pop frame
    push frame (← allocate (← readHeap fun heap => heap.appendedBody array element))
    return none
  | .concatenate => do
    let second ← pop frame
    let first ← pop frame
    push frame (← allocate (← readHeap fun heap => heap.concatenatedBody first second))
    return none
  | .jump target => do
    jump frame target
    return none
  | .jumpIf target => do
    if ← popBoolean frame then jump frame target
    return none
  | .jumpIfNot target => do
    if !(← popBoolean frame) then jump frame target
    return none
  | .jumpIfNoPop target => do
    if ← peekBoolean frame then jump frame target
    return none
  | .jumpIfNotNoPop target => do
    if !(← peekBoolean frame) then jump frame target
    return none
  | .loopBack target => do
    jump frame target
    return none
  | .loopCount => do
    countLoop frame
    return none
  | .loopForEach => do
    iterateLoop frame
    return none
  | .breakLoop => do
    let entry ← Action.thread thread
    breakLoop entry.root (entry.depth + 1) frame
    return none
  | .breakRoutine => do
    let entry ← Action.thread thread
    breakRoutine entry.root (entry.depth + 1) frame
    return none
  | .setResult => do
    let value ← pop frame
    let entry ← Action.thread thread
    let target ← resultFrame entry.root (entry.depth + 1) frame
    setFrame target { (← Action.frame target) with result := value }
    return none
  | .call callee count => call natives thread frame callee count false
  | .callAndPushResult callee count => call natives thread frame callee count true
  | .yield => return some .yielded
  | .wait => return some (.waiting (ticks (← toReal (← pop frame))))
  | .inlineInc place => do
    stepVariable frame place true
    return none
  | .inlineDec place => do
    stepVariable frame place false
    return none
  | .inlineAssign operator place => do
    let second ← pop frame
    let first ← readSlot frame place
    writeSlot frame place (← build (← ofResult ((← get).heap.arith operator first second)))
    return none

/-- The next instruction of a frame, which is counted and left behind; none at the end of its
code. -/
def fetch (id : FrameId) : Action (Option Instruction) := do
  let frame ← frame id
  let block ← block frame.block
  match block.codes[frame.position]? with
  | none => return none
  | some code =>
    modify fun machine => { machine with currentLine := code.line }
    count
    setFrame id { frame with position := frame.position + 1 }
    return some code.instruction

/-- One step of a thread: an instruction of its current frame or, at the end of its code, the return
to the frame that called it. -/
def advance (natives : Natives) (id : ThreadId) : Action (Option Slice) := do
  let machine ← get
  if machine.stopped then return some .halted
  match machine.threads.find? id with
  | none => return some .finished
  | some thread =>
    match ← fetch thread.current with
    | none => return if ← leave id then some .finished else none
    | some instruction => execute natives id thread.current instruction

end Action

end CoopScript
