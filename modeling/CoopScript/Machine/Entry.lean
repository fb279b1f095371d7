import CoopScript.Machine.Step

/-!
The entries of the host: starting a machine, advancing it by a tick, and calling an event. Each
entry runs the ready threads in turn until none is left or the machine stops.
-/

namespace CoopScript.Machine

/-- The end of an entry: the machine is finished when it stopped or has no thread left. -/
def settle (machine : Machine) : Machine :=
  { machine with
    current := none
    state := if machine.stopped || machine.threads.isEmpty then .finished else .suspended }

/-- What an entry reports: the first error, if the machine stopped with one. -/
def outcome (machine : Machine) : Except MachineError TickOutcome :=
  match machine.error, machine.stopped with
  | some error, true => .error error
  | _, _ => .ok (if machine.state = .finished then .finished else .suspended)

/-- What becomes of the current thread at the end of its slice. -/
def endSlice (machine : Machine) (id : ThreadId) : Slice → Machine
  | .yielded => { machine with current := none, threads := machine.threads.requeue id }
  | .waiting ticks => { machine with current := none, threads := machine.threads.park id ticks }
  | .finished => { machine with current := none }.log (.threadFinished id)
  | .halted => machine.settle

/-- What becomes of the machine after a step of the current thread. -/
def afterStep (id : ThreadId) : EStateM.Result MachineError Machine (Option Slice) → Machine
  | .ok none machine => machine
  | .ok (some slice) machine => machine.endSlice id slice
  | .error error machine => (machine.fail error).settle

/-- One move of a running machine: it picks the next thread, or the current thread takes a step. -/
def move (natives : Natives) (machine : Machine) : Machine :=
  match machine.current with
  | none =>
    if machine.stopped then machine.settle
    else
      match machine.threads.takeReady with
      | (some id, threads) => { machine with current := some id, threads }
      | (none, threads) => { machine with threads }.settle
  | some id => afterStep id ((Action.advance natives id).run machine)

/-- Moves until the machine does not run any more, if it takes fewer moves than the fuel. -/
def moves (natives : Natives) : Nat → Machine → Option Machine
  | 0, _ => none
  | fuel + 1, machine =>
    if machine.state = .running then moves natives fuel (machine.move natives)
    else some machine

/-- The machine as it begins to run the ready threads. Instructions are counted anew. -/
def begin (machine : Machine) : Machine := { machine with instructions := 0, state := .running }

/-- Runs the ready threads. -/
def drain (natives : Natives) (fuel : Nat) (machine : Machine) :
    Option (Except MachineError TickOutcome × Machine) :=
  (moves natives fuel machine.begin).map fun machine => (machine.outcome, machine)

/-- The machine with its main thread in the queue. The globals outlive that thread, so that the
handlers of events can read them. -/
def start (machine : Machine) : Except MachineError Machine := do
  if machine.state ≠ .idle then throw .alreadyStarted
  if machine.stopped then throw .halted
  match machine.script.main with
  | none => throw .noEntryBlock
  | some main =>
    match (Action.enter none main []).run machine with
    | .error error _ => throw error
    | .ok root machine =>
      let (id, threads) := machine.threads.spawn root
      return { machine with
        frames := machine.frames.pin root
        globals := some root
        threads
        ticks := 1 }.log (.mainThreadStarted id)

/-- Starts the entry block on the main thread and runs the first tick. -/
def run (natives : Natives) (fuel : Nat) (machine : Machine) :
    Option (Except MachineError TickOutcome × Machine) :=
  match machine.start with
  | .error error => some (.error error, machine)
  | .ok machine => machine.drain natives fuel

/-- The machine in its next tick, with a tick counted off the waiting threads. -/
def tick (machine : Machine) : Machine :=
  let (woken, threads) := machine.threads.wake
  let ticks := machine.ticks + 1
  { machine with ticks, threads }.log (.tick ticks woken threads.size)

/-- Counts a tick and runs all threads that are ready. -/
def resume (natives : Natives) (fuel : Nat) (machine : Machine) :
    Option (Except MachineError TickOutcome × Machine) :=
  match machine.state with
  | .idle => some (.error .notStarted, machine)
  | .running => some (.error .reentrant, machine)
  | _ =>
    if machine.stopped then some (.ok .finished, machine)
    else machine.tick.drain natives fuel

/-- Runs the handler of an event in a new thread, together with every other ready thread. In a
machine that is not running, too many threads are an error like those of scripts. -/
def deliver (natives : Natives) (fuel : Nat) (event : String) (id : BlockId)
    (arguments : List Value) (machine : Machine) :
    Option (Except MachineError TickOutcome × Machine) :=
  match (Action.spawnHandler event id arguments).run machine with
  | .ok _ machine =>
    if machine.state = .running then some (.ok .suspended, machine)
    else machine.drain natives fuel
  | .error error machine =>
    if machine.state = .running then some (.error error, machine)
    else some (.error error, { machine.fail error with state := .finished })

/-- Calls the handler of an event. A machine that has not started runs its first tick before. -/
def call (natives : Natives) (fuel : Nat) (event : String) (arguments : List Value)
    (machine : Machine) : Option (Except MachineError TickOutcome × Machine) :=
  match machine.handler event arguments.length with
  | .error error => some (.error error, machine)
  | .ok id =>
    if machine.state = .idle then
      match machine.run natives fuel with
      | some (.ok _, machine) =>
        if machine.stopped then some (.error .halted, machine)
        else machine.deliver natives fuel event id arguments
      | other => other
    else machine.deliver natives fuel event id arguments

end CoopScript.Machine
