import CoopScript.Limits
import CoopScript.Machine.Journal
import CoopScript.Script
import CoopScript.Value.Update

/-!
The state of a machine, what the host can read off it, and how it stops. The first error stops the
machine for good and is kept with the line it happened on.
-/

namespace CoopScript

inductive MachineState where
  | idle
  | running
  | suspended
  | finished
  deriving DecidableEq, Inhabited

/-- How an entry of the host ends: with threads left for the next tick, or without. -/
inductive TickOutcome where
  | suspended
  | finished
  deriving DecidableEq, Inhabited

/-- What a host keeps with a machine. -/
inductive HostData where
  | text (text : String)
  | number (number : UInt64)
  deriving DecidableEq, Inhabited

/-- A machine runs one script. The globals are the slots of the entry block's frame. The journal
holds the events and the notes of native functions since the host last took them. -/
structure Machine where
  script : Script
  limits : Limits := {}
  heap : Heap := .empty
  frames : FrameArena := {}
  threads : ThreadSet := {}
  globals : Option FrameId := none
  current : Option ThreadId := none
  state : MachineState := .idle
  stopped : Bool := false
  terminated : Bool := false
  error : Option MachineError := none
  errorLine : Option Nat := none
  currentLine : Nat := 0
  instructions : Nat := 0
  ticks : Nat := 0
  data : Option HostData := none
  events : Array Event := #[]
  notes : Array String := #[]
  deriving Inhabited

namespace Machine

/-- Stopped, or started with no thread left. -/
def isFinished (machine : Machine) : Bool :=
  machine.stopped || (machine.state != .idle && machine.threads.isEmpty)

/-- An alias of a slot of the entry block's frame. -/
def global? (machine : Machine) (slot : Nat) : Option Value := do
  let frame ← machine.frames.frame? (← machine.globals)
  frame.slots[slot]?

/-- All slots of the entry block's frame. -/
def globalValues (machine : Machine) : List Value :=
  match machine.globals.bind machine.frames.frame? with
  | some frame => frame.slots.toList
  | none => []

/-- The handles that keep bodies alive. -/
def roots (machine : Machine) : List Value := machine.frames.values

def log (machine : Machine) (event : Event) : Machine :=
  { machine with events := machine.events.push event }

/-- The journal starts anew once the host has taken it. -/
def clearJournal (machine : Machine) : Machine := { machine with events := #[], notes := #[] }

/-- A frame as a stack trace shows it: with the line of the instruction before its position. -/
def traceEntry (machine : Machine) (frame : Frame) : TraceEntry :=
  match machine.script.block? frame.block with
  | some block =>
    { block := block.displayName
      position := frame.position
      line := ((block.codes[frame.position - 1]?).map Code.line).getD 0 }
  | none =>
    { block := "<block #" ++ toString frame.block.index ++ ">"
      position := frame.position
      line := 0 }

/-- The frames from the root of a thread in to the given one and on to the inner ones, as far as
they are live. -/
def chain (machine : Machine) (root : FrameId) :
    Nat → FrameId → List (FrameId × Frame) → List (FrameId × Frame)
  | 0, _, inner => inner
  | fuel + 1, id, inner =>
    match machine.frames.frame? id with
    | none => inner
    | some frame =>
      if id = root then (id, frame) :: inner
      else
        match frame.parent with
        | some parent => machine.chain root fuel parent ((id, frame) :: inner)
        | none => (id, frame) :: inner

/-- The frames of a thread, outermost first. There is one more than its depth says. -/
def threadFrames (machine : Machine) (thread : Thread) : List (FrameId × Frame) :=
  machine.chain thread.root (thread.depth + 1) thread.current []

/-- The stack of the current thread, outermost frame first. -/
def stackTrace (machine : Machine) : List TraceEntry :=
  match machine.current.bind machine.threads.find? with
  | some thread =>
    (machine.threadFrames thread).map fun entry => machine.traceEntry entry.2
  | none => []

/-- Keeps the first error. Every error stops the machine. -/
def fail (machine : Machine) (error : MachineError) : Machine :=
  match machine.error with
  | some _ => { machine with stopped := true }
  | none =>
    let machine := machine.log (.scriptError machine.currentLine error machine.stackTrace)
    { machine with
      error := some error
      errorLine := some machine.currentLine
      stopped := true }

/-- No instruction runs any more. -/
def stop (machine : Machine) : Machine :=
  { machine with
    stopped := true
    state := if machine.state = .running ∨ machine.state = .idle then machine.state
      else .finished }

/-- Stops with an error of the script. -/
def raise (machine : Machine) (text : String) : Machine := (machine.fail (.script text)).stop

/-- Stops at the wish of the host. -/
def terminate (machine : Machine) (text : String) : Machine :=
  ({ machine with terminated := true }.fail (.terminated text)).stop

/-- Takes a thread out and retires its frames; tells whether there was such a thread. -/
def closeThread (machine : Machine) (id : ThreadId) : Bool × Machine :=
  match machine.threads.find? id with
  | none => (false, machine)
  | some thread =>
    let frames := (machine.threadFrames thread).reverse.foldl
      (fun arena entry => arena.retire entry.1) machine.frames
    (true, { machine with threads := machine.threads.remove id, frames }.log (.threadClosed id))

/-- The main figures of a machine in structured form. -/
def debug (machine : Machine) : String :=
  let state :=
    match machine.state with
    | .idle => "Idle"
    | .running => "Running"
    | .suspended => "Suspended"
    | .finished => "Finished"
  let error :=
    match machine.error with
    | none => "None"
    | some error => "Some(" ++ error.structured.text ++ ")"
  "ScriptMachine \x7b state: " ++ state ++ ", threads: " ++ toString machine.threads.size ++
    ", frames: " ++ toString machine.frames.liveCount ++ ", ticks: " ++ toString machine.ticks ++
    ", error: " ++ error ++ ", .. \x7d"

end Machine

end CoopScript
