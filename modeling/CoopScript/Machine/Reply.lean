import CoopScript.Machine.Handler
import CoopScript.Machine.Native

/-!
How a running machine answers the requests of a native function.
-/

namespace CoopScript

/-- Calls the handler of an event in a running machine, where it waits in the queue for its turn. -/
def Machine.enqueue (event : String) (arguments : List Value) (machine : Machine) :
    Except MachineError TickOutcome × Machine :=
  match machine.handler event arguments.length with
  | .error error => (.error error, machine)
  | .ok id =>
    match (Action.spawnHandler event id arguments).run machine with
    | .ok _ machine => (.ok .suspended, machine)
    | .error error machine => (.error error, machine)

/-- The machine's answer to a request. It is running while it is asked, so it can be neither started
nor resumed. -/
def Request.perform : (request : Request) → Machine → request.Reply × Machine
  | run, machine => (.error .alreadyStarted, machine)
  | resume, machine => (.error .reentrant, machine)
  | call event arguments, machine => machine.enqueue event arguments
  | stop, machine => ((), machine.stop)
  | raise text, machine => ((), machine.raise text)
  | terminate text, machine => ((), machine.terminate text)
  | close thread, machine => machine.closeThread thread
  | inspect, machine => (machine, machine)
  | allocate datum, machine =>
    let (value, heap) := Heap.build datum machine.heap
    (value, { machine with heap })
  | overwrite target source, machine =>
    match machine.heap.overwrite target source with
    | .ok heap => (.ok (), { machine with heap })
    | .error cause => (.error cause, machine)
  | setData data, machine => ((), { machine with data })
  | note text, machine => ((), { machine with notes := machine.notes.push text })

/-- Runs a routine to its end. -/
def Routine.play {α : Type} : Routine α → Machine → α × Machine
  | done result, machine => (result, machine)
  | ask request next, machine =>
    let (reply, machine) := request.perform machine
    (next reply).play machine

end CoopScript
