import CoopScript.Program
import CoopScript.Proofs.Machine.Stock
import Mathlib.Logic.Function.Basic

/-!
Two machines that share a program, and a host that uses now the one and now the other. The machines
have their values in one heap, which holds the literals of the program as well.
-/

namespace CoopScript

/-! What the host does with a machine. -/

/-- A value that the host passes on: a new one, or an alias of a global of the machine itself. -/
inductive Argument where
  | fresh (datum : Datum)
  | global (slot : Nat)

/-- The handle that is passed on. A missing global counts as the empty value. -/
def Argument.pass (argument : Argument) (machine : Machine) : Value × Machine :=
  match argument with
  | fresh datum =>
    let (value, heap) := Heap.build datum machine.heap
    (value, { machine with heap })
  | global slot => ((machine.global? slot).join, machine)

def Argument.passAll : List Argument → Machine → List Value × Machine
  | [], machine => ([], machine)
  | argument :: rest, machine =>
    let (value, machine) := argument.pass machine
    let (values, machine) := passAll rest machine
    (value :: values, machine)

/-- The body behind a global takes over what another value holds. -/
def Machine.overwriteGlobal (machine : Machine) (slot : Nat) (source : Value) :
    Except ValueError Unit × Machine :=
  Request.perform (.overwrite (machine.global? slot).join source) machine

/-- An operation of the host on one machine. -/
inductive Operation where
  | run
  | resume
  | call (event : String) (arguments : List Argument)
  | stop
  | raise (text : String)
  | terminate (text : String)
  | close (thread : ThreadId)
  | overwrite (slot : Nat) (source : Argument)
  | setData (data : Option HostData)
  | takeJournal

inductive Answer where
  | done
  | entered (result : Except MachineError TickOutcome)
  | closed (found : Bool)
  | overwritten (result : Except ValueError Unit)
  | journal (events : Array Event) (notes : Array String)

namespace Operation

/-- What comes of an operation on a machine with the given moves, if it takes fewer moves than the
fuel in each run of the ready threads. -/
def perform (move : Machine → Machine) (fuel : Nat) (machine : Machine) :
    Operation → Option (Answer × Machine)
  | run => (machine.runBy move fuel).map (Prod.map .entered fun machine => machine)
  | resume => (machine.resumeBy move fuel).map (Prod.map .entered fun machine => machine)
  | call event arguments =>
    let (values, machine) := Argument.passAll arguments machine
    (machine.callBy move fuel event values).map (Prod.map .entered fun machine => machine)
  | stop => some (.done, machine.stop)
  | raise text => some (.done, machine.raise text)
  | terminate text => some (.done, machine.terminate text)
  | close thread => some (Prod.map .closed (fun machine => machine) (machine.closeThread thread))
  | overwrite slot source =>
    let (value, machine) := source.pass machine
    some (Prod.map .overwritten (fun machine => machine) (machine.overwriteGlobal slot value))
  | setData data => some (.done, { machine with data })
  | takeJournal => some (.journal machine.events machine.notes, machine.clearJournal)

end Operation

/-! What the host sees of a machine. -/

/-- What a path of positions leads to in a value, if there is such a path. -/
def Heap.follow (heap : Heap) (value : Value) : List Nat → Value
  | [] => value
  | position :: rest =>
    match heap.index value position with
    | .ok element => heap.follow element rest
    | .error _ => none

/-- The visible state of a machine. Of its globals that is their trees, and which paths into them,
each from a slot, lead to the same body. -/
structure Report where
  state : MachineState
  finished : Bool
  stopped : Bool
  terminated : Bool
  error : Option MachineError
  errorLine : Option Nat
  line : Nat
  ticks : Nat
  threads : ThreadSet
  frames : Nat
  trace : List TraceEntry
  data : Option HostData
  events : Array Event
  notes : Array String
  globals : List Datum
  shares : Nat × List Nat → Nat × List Nat → Bool

namespace Machine

/-- What a path leads to from the slot of a global. -/
def lead (machine : Machine) (path : Nat × List Nat) : Value :=
  machine.heap.follow (machine.global? path.1).join path.2

def report (machine : Machine) : Report where
  state := machine.state
  finished := machine.isFinished
  stopped := machine.stopped
  terminated := machine.terminated
  error := machine.error
  errorLine := machine.errorLine
  line := machine.currentLine
  ticks := machine.ticks
  threads := machine.threads
  frames := machine.frames.liveCount
  trace := machine.stackTrace
  data := machine.data
  events := machine.events
  notes := machine.notes
  globals := machine.globalValues.map machine.heap.view
  shares := fun path other => (machine.lead path).isSome && machine.lead path = machine.lead other

/-- Operations on a machine alone, one after the other: what comes of each, and what the host sees of
the machine then. -/
def session (natives : Natives) (fuel : Nat) :
    List Operation → Machine → Option (List (Answer × Report) × Machine)
  | [], machine => some ([], machine)
  | operation :: rest, machine => do
    let (answer, machine) ← operation.perform (move natives) fuel machine
    let (told, last) ← session natives fuel rest machine
    return ((answer, machine.report) :: told, last)

end Machine

/-! Two machines. -/

inductive Side where
  | first
  | second
  deriving DecidableEq

namespace Side

def other : Side → Side
  | first => second
  | second => first

/-- What of a list is on this side. -/
def own {Item : Type} (side : Side) (items : List (Side × Item)) : List Item :=
  items.filterMap fun item => if item.1 = side then some item.2 else none

end Side

/-- Machines with one heap between them. -/
structure Company where
  heap : Heap
  members : Side → Machine

variable {program : Program}

/-- Two machines of the program that have not started yet. -/
def Stock.company (stock : Stock program.script) (limits : Side → Limits) : Company where
  heap := stock.heap
  members := fun side => program.machine (limits side)

namespace Company

def machine (company : Company) (side : Side) : Machine :=
  { company.members side with heap := company.heap }

/-- The machines once one of them has become the given one. -/
def put (company : Company) (side : Side) (machine : Machine) : Company :=
  ⟨machine.heap, Function.update company.members side machine⟩

/-- The values of the program and of the other machine. -/
def surroundings (company : Company) {script : Script} (stock : Stock script) (side : Side) :
    Surroundings where
  literal := stock.literal
  handles := stock.handles ++ (company.machine side.other).roots

/-- An operation of the host on one of the machines. -/
def perform (natives : Natives) (fuel : Nat) {script : Script} (stock : Stock script)
    (company : Company) (side : Side) (operation : Operation) : Option (Answer × Company) :=
  let move := Machine.moveBy (Action.advanceAmong natives (company.surroundings stock side))
  (operation.perform move fuel (company.machine side)).map fun (answer, machine) =>
    (answer, company.put side machine)

/-- Operations on the machines, one after the other. -/
def session (natives : Natives) (fuel : Nat) {script : Script} (stock : Stock script) :
    List (Side × Operation) → Company → Option (List (Side × Answer × Report) × Company)
  | [], company => some ([], company)
  | (side, operation) :: rest, company => do
    let (answer, company) ← company.perform natives fuel stock side operation
    let (told, last) ← session natives fuel stock rest company
    return ((side, answer, (company.machine side).report) :: told, last)

end Company

end CoopScript
