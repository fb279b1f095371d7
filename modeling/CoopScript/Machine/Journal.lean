import CoopScript.Machine.Thread

/-!
What a machine reports while it runs: stack traces, and events with a level and named fields.
-/

namespace CoopScript

/-- One frame of a stack trace, with the position after the instruction it executes. -/
structure TraceEntry where
  block : String
  position : Nat
  line : Nat
  deriving DecidableEq, Inhabited

namespace TraceEntry

def text (number : Nat) (entry : TraceEntry) : String :=
  s!"\n  #{number}: {entry.block} (line {entry.line}, instruction {entry.position})"

/-- The text of a trace that is given from the outermost frame inward. -/
def format (trace : List TraceEntry) : String :=
  trace.reverse.zipIdx.foldl (fun text entry => text ++ entry.1.text entry.2)
    "Stack trace (most recent call last):"

end TraceEntry

inductive EventLevel where
  | trace
  | debug
  | warn
  deriving DecidableEq, Inhabited

inductive Event where
  | mainThreadStarted (thread : ThreadId)
  | tick (number woken threads : Nat)
  | eventThreadSpawned (event : String) (thread : ThreadId)
  | threadFinished (thread : ThreadId)
  | threadClosed (thread : ThreadId)
  | microthreadSpawned (thread : ThreadId) (block : String)
  | nativeCall (native : String) (arguments : Nat)
  | scriptError (line : Nat) (error : MachineError) (trace : List TraceEntry)
  deriving DecidableEq, Inhabited

namespace Event

def level : Event → EventLevel
  | nativeCall _ _ => .trace
  | scriptError _ _ _ => .warn
  | _ => .debug

def message : Event → String
  | mainThreadStarted _ => "main thread started"
  | tick _ _ _ => "tick"
  | eventThreadSpawned _ _ => "event thread spawned"
  | threadFinished _ => "thread finished"
  | threadClosed _ => "thread closed"
  | microthreadSpawned _ _ => "microthread spawned"
  | nativeCall _ _ => "native call"
  | scriptError _ _ _ => "script error"

def fields : Event → List (String × String)
  | mainThreadStarted thread => [("thread", toString thread)]
  | tick number woken threads =>
    [("tick", toString number), ("woken", toString woken), ("threads", toString threads)]
  | eventThreadSpawned event thread => [("event", event), ("thread", toString thread)]
  | threadFinished thread => [("thread", toString thread)]
  | threadClosed thread => [("thread", toString thread)]
  | microthreadSpawned thread block => [("thread", toString thread), ("block", block)]
  | nativeCall native arguments => [("native", native), ("args", toString arguments)]
  | scriptError line error trace =>
    [("line", toString line), ("error", error.message), ("trace", TraceEntry.format trace)]

end Event

end CoopScript
