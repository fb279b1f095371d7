import CoopScript.Machine.Entry

/-!
A machine among others that run the same program. Its values are handles on bodies of a heap in which
the literals of the program are as well, and handles that others hold keep bodies alive and count
like any other. Alone it moves as machines do.
-/

namespace CoopScript

/-- The instruction at a position of a block. -/
def Script.instruction? (script : Script) (id : BlockId) (position : Nat) : Option Instruction :=
  (script.block? id).bind fun block => (block.codes[position]?).map Code.instruction

/-- What there is in a heap besides the values of the machine that runs: a handle on the literal of
each instruction, named by its block and its position, and all handles that others hold. -/
structure Surroundings where
  literal : BlockId → Nat → Value
  handles : List Value

namespace Action

/-- The effect of an instruction of a program that others run as well. A literal belongs to the
program, so that a copy of it is pushed. -/
def executeAmong (natives : Natives) (around : Surroundings) (literal : Value) (thread : ThreadId)
    (frame : FrameId) : Instruction → Action (Option Slice)
  | .pushValue _ => do
    push frame (← changeHeap fun heap => heap.deepCopy literal)
    return none
  | .pushVariableWritable place => do
    let shared ← readSlot frame place
    let roots := around.handles ++ (← get).roots
    let value ← changeHeap fun heap => heap.uniquify roots shared
    writeSlot frame place value
    push frame value
    return none
  | .indexWritable => do
    let position ← ofResult (← surface (← pop frame)).position
    let array ← pop frame
    let element ← readHeap fun heap => heap.index array position
    let roots := around.handles ++ array :: (← get).roots
    push frame (← changeHeap fun heap => heap.claim roots array position element)
    return none
  | instruction => execute natives thread frame instruction

/-- One step of a thread. -/
def advanceAmong (natives : Natives) (around : Surroundings) (id : ThreadId) :
    Action (Option Slice) := do
  let machine ← get
  if machine.stopped then return some .halted
  match machine.threads.find? id with
  | none => return some .finished
  | some thread =>
    let origin ← frame thread.current
    match ← fetch thread.current with
    | none => return if ← leave id then some .finished else none
    | some instruction =>
      executeAmong natives around (around.literal origin.block origin.position) id thread.current
        instruction

end Action

namespace Machine

/-- A move of a running machine whose threads take the given steps. -/
def moveBy (advance : ThreadId → Action (Option Slice)) (machine : Machine) : Machine :=
  match machine.current with
  | none =>
    if machine.stopped then machine.settle
    else
      match machine.threads.takeReady with
      | (some id, threads) => { machine with current := some id, threads }
      | (none, threads) => { machine with threads }.settle
  | some id => afterStep id ((advance id).run machine)

/-! The entries of the host, with moves as given. -/

section Entries

variable (move : Machine → Machine)

def movesBy : Nat → Machine → Option Machine
  | 0, _ => none
  | fuel + 1, machine =>
    if machine.state = .running then movesBy fuel (move machine) else some machine

def drainBy (fuel : Nat) (machine : Machine) : Option (Except MachineError TickOutcome × Machine) :=
  (movesBy move fuel machine.begin).map fun machine => (machine.outcome, machine)

def runBy (fuel : Nat) (machine : Machine) : Option (Except MachineError TickOutcome × Machine) :=
  match machine.start with
  | .error error => some (.error error, machine)
  | .ok machine => drainBy move fuel machine

def resumeBy (fuel : Nat) (machine : Machine) : Option (Except MachineError TickOutcome × Machine) :=
  match machine.state with
  | .idle => some (.error .notStarted, machine)
  | .running => some (.error .reentrant, machine)
  | _ =>
    if machine.stopped then some (.ok .finished, machine)
    else drainBy move fuel machine.tick

def deliverBy (fuel : Nat) (event : String) (id : BlockId) (arguments : List Value)
    (machine : Machine) : Option (Except MachineError TickOutcome × Machine) :=
  match (Action.spawnHandler event id arguments).run machine with
  | .ok _ machine =>
    if machine.state = .running then some (.ok .suspended, machine)
    else drainBy move fuel machine
  | .error error machine =>
    if machine.state = .running then some (.error error, machine)
    else some (.error error, { machine.fail error with state := .finished })

def callBy (fuel : Nat) (event : String) (arguments : List Value) (machine : Machine) :
    Option (Except MachineError TickOutcome × Machine) :=
  match machine.handler event arguments.length with
  | .error error => some (.error error, machine)
  | .ok id =>
    if machine.state = .idle then
      match runBy move fuel machine with
      | some (.ok _, machine) =>
        if machine.stopped then some (.error .halted, machine)
        else deliverBy move fuel event id arguments machine
      | other => other
    else deliverBy move fuel event id arguments machine

end Entries

section Alone

variable (natives : Natives) (fuel : Nat) (machine : Machine)

theorem movesBy_move : movesBy (move natives) fuel machine = moves natives fuel machine := by
  induction fuel generalizing machine with
  | zero => rfl
  | succ fuel hypothesis => simp only [movesBy, moves, hypothesis]

theorem drainBy_move : drainBy (move natives) fuel machine = machine.drain natives fuel := by
  rw [drainBy, drain, movesBy_move]

theorem runBy_move : runBy (move natives) fuel machine = machine.run natives fuel := by
  unfold runBy run
  cases machine.start with
  | error error => rfl
  | ok started => exact drainBy_move natives fuel started

theorem resumeBy_move : resumeBy (move natives) fuel machine = machine.resume natives fuel := by
  unfold resumeBy resume
  cases machine.state <;> simp only [drainBy_move]

theorem deliverBy_move (event : String) (id : BlockId) (arguments : List Value) :
    deliverBy (move natives) fuel event id arguments machine =
      machine.deliver natives fuel event id arguments := by
  unfold deliverBy deliver
  cases (Action.spawnHandler event id arguments).run machine <;> simp only [drainBy_move]

theorem callBy_move (event : String) (arguments : List Value) :
    callBy (move natives) fuel event arguments machine =
      machine.call natives fuel event arguments := by
  unfold callBy call
  rw [runBy_move]
  cases machine.handler event arguments.length with
  | error error => rfl
  | ok id =>
      by_cases idle : machine.state = .idle
      · simp only [idle, if_true]
        rcases machine.run natives fuel with _ | ⟨_ | outcome, after⟩
        · rfl
        · rfl
        · simp only [deliverBy_move]
      · simp only [idle, if_false, deliverBy_move]

end Alone

end Machine

end CoopScript
