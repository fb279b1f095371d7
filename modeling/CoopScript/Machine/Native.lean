import CoopScript.Machine.State

/-!
Native functions: what a host does on behalf of a script, as a routine that asks the running machine
for one thing after another.
-/

namespace CoopScript

/-- What a routine can ask of the machine that runs it. Of the operations on values there are two that
change the heap: making a value of new bodies from a finite tree, and overwriting a body. A routine can
neither make an array of handles that there are, nor let an array grow in place, take an element for
writing or make a body private. Whatever only reads, it does by inspecting the machine. -/
inductive Request where
  | run
  | resume
  | call (event : String) (arguments : List Value)
  | stop
  | raise (text : String)
  | terminate (text : String)
  | close (thread : ThreadId)
  | inspect
  | allocate (datum : Datum)
  | overwrite (target source : Value)
  | setData (data : Option HostData)
  | note (text : String)

/-- The kind of answer that a request gets. -/
def Request.Reply : Request → Type
  | run => Except MachineError TickOutcome
  | resume => Except MachineError TickOutcome
  | call _ _ => Except MachineError TickOutcome
  | stop => Unit
  | raise _ => Unit
  | terminate _ => Unit
  | close _ => Bool
  | inspect => Machine
  | allocate _ => Value
  | overwrite _ _ => Except ValueError Unit
  | setData _ => Unit
  | note _ => Unit

/-- A routine asks finitely often and then has a result. -/
inductive Routine (α : Type) where
  | done (result : α)
  | ask (request : Request) (next : request.Reply → Routine α)

namespace Routine

def bind {α β : Type} (routine : Routine α) (next : α → Routine β) : Routine β :=
  match routine with
  | done result => next result
  | ask request rest => ask request fun reply => (rest reply).bind next

instance : Monad Routine where
  pure := done
  bind := bind

/-- The reply to a request, as the result of a routine. -/
def request (request : Request) : Routine request.Reply := ask request done

end Routine

/-- A native function may fix the number of its arguments. -/
structure NativeFunction where
  name : String
  arity : Option Nat
  body : List Value → Routine (Except MachineError Value)

/-- The native functions of a program, by their positions. -/
abbrev Natives : Type := Array NativeFunction

/-- The name and the arity of a native function in structured form. -/
def NativeFunction.debug (native : NativeFunction) : String :=
  let arity :=
    match native.arity with
    | none => "None"
    | some count => "Some(" ++ toString count ++ ")"
  "NativeFunction \x7b name: " ++ Quoted.quote native.name ++ ", arity: " ++ arity ++ ", .. \x7d"

end CoopScript
