import CoopScript.Machine.Action

/-!
The handlers of events, which the host or a native function calls by name.
-/

namespace CoopScript

namespace Machine

/-- The handler of an event that may be called now with so many arguments. -/
def handler (machine : Machine) (event : String) (arguments : Nat) :
    Except MachineError BlockId :=
  match machine.script.event? event with
  | none => .error (.unknownEvent event)
  | some id =>
    match machine.script.block? id with
    | none => .error (.unknownBlock id.index)
    | some block =>
      if block.arguments ≠ arguments then
        .error (.argumentCount event block.arguments arguments)
      else if machine.stopped then .error .halted
      else .ok id

end Machine

/-- Puts a new thread for a handler at the end of the queue. Handlers see the globals. -/
def Action.spawnHandler (event : String) (id : BlockId) (arguments : List Value) :
    Action Unit := do
  let thread ← launch (← get).globals id arguments
  log (.eventThreadSpawned event thread)

end CoopScript
