import CoopScript.Text.Quoted
import CoopScript.Value.Error

/-!
The ways in which a machine fails, with their wording and their structured form.
-/

namespace CoopScript

inductive MachineError where
  | typeMismatch (description : String)
  | value (cause : ValueError)
  | unknownLevel (level : Nat)
  | slotOutOfRange (level slot : Nat)
  | unknownBlock (id : Nat)
  | unknownNative (id : Nat)
  | unknownEvent (name : String)
  | invalidJump (target length : Nat)
  | argumentCount (name : String) (expected got : Nat)
  | stackUnderflow
  | stackOverflow (depth : Nat)
  | breakOutsideLoop
  | script (text : String)
  | terminated (text : String)
  | instructionLimitExceeded (limit : Nat)
  | threadLimitExceeded (limit : Nat)
  | noEntryBlock
  | runtime (description : String)
  | alreadyStarted
  | notStarted
  | reentrant
  | halted
  deriving DecidableEq, Inhabited

namespace MachineError

def message : MachineError → String
  | typeMismatch description => "type error at runtime: " ++ description
  | value cause => cause.message
  | unknownLevel level => s!"no frame at lexical level {level}"
  | slotOutOfRange level slot => s!"variable slot {slot} out of range at level {level}"
  | unknownBlock id => s!"unknown block #{id}"
  | unknownNative id => s!"unknown native function #{id}"
  | unknownEvent name => "no such event: " ++ name
  | invalidJump target length => s!"jump target {target} outside block of length {length}"
  | argumentCount name expected got => s!"'{name}' expects {expected} argument(s), got {got}"
  | stackUnderflow => "operand stack underflow"
  | stackOverflow depth => s!"stack overflow: call depth exceeded {depth}"
  | breakOutsideLoop => "break outside of a loop"
  | script text => text
  | terminated text => "terminated: " ++ text
  | instructionLimitExceeded limit => s!"instruction limit exceeded: {limit}"
  | threadLimitExceeded limit => s!"thread limit exceeded: {limit}"
  | noEntryBlock => "program has no entry block"
  | runtime description => "runtime error: " ++ description
  | alreadyStarted => "machine already started"
  | notStarted => "machine not started"
  | reentrant => "machine is already running"
  | halted => "machine has stopped"

/-- The message for the host: what a script raises and what the host terminates with stand as they
are. -/
def report : MachineError → String
  | script text => text
  | terminated text => text
  | error => error.message

/-- A failure of an operation on values is a failure of the machine. -/
def ofValueResult {α : Type} : Except ValueError α → Except MachineError α
  | .ok result => .ok result
  | .error cause => .error (.value cause)

end MachineError

/-- The structured form of an error: its name with the fields in parentheses or, where they are
named, in braces. -/
inductive Structured where
  | plain (name : String)
  | tuple (name : String) (field : String)
  | record (name : String) (fields : List (String × String))

namespace Structured

def name : Structured → String
  | plain name => name
  | tuple name _ => name
  | record name _ => name

def text : Structured → String
  | plain name => name
  | tuple name field => name ++ "(" ++ field ++ ")"
  | record name fields =>
    let items := fields.map fun field => field.1 ++ ": " ++ field.2
    name ++ " \x7b " ++ String.intercalate ", " items ++ " \x7d"

end Structured

open Quoted in
def ValueError.structured : ValueError → Structured
  | .empty => .plain "Empty"
  | .kindMismatch expected found =>
    .record "KindMismatch" [("expected", quote expected), ("found", quote found)]
  | .notAnArray type => .tuple "NotAnArray" (quote type)
  | .indexOutOfRange index length =>
    .record "IndexOutOfRange" [("index", toString index), ("length", toString length)]
  | .elementTypeMismatch expected found =>
    .record "ElementTypeMismatch" [("expected", quote expected), ("found", quote found)]
  | .lengthMismatch left right =>
    .record "LengthMismatch" [("left", toString left), ("right", toString right)]
  | .typeMismatch left right =>
    .record "TypeMismatch" [("left", quote left), ("right", quote right)]

open Quoted in
def MachineError.structured : MachineError → Structured
  | .typeMismatch description => .tuple "TypeMismatch" (quote description)
  | .value cause => .tuple "Value" cause.structured.text
  | .unknownLevel level => .tuple "UnknownLevel" (toString level)
  | .slotOutOfRange level slot =>
    .record "SlotOutOfRange" [("level", toString level), ("slot", toString slot)]
  | .unknownBlock id => .tuple "UnknownBlock" (toString id)
  | .unknownNative id => .tuple "UnknownNative" (toString id)
  | .unknownEvent name => .tuple "UnknownEvent" (quote name)
  | .invalidJump target length =>
    .record "InvalidJump" [("target", toString target), ("len", toString length)]
  | .argumentCount name expected got =>
    .record "ArgumentCount"
      [("name", quote name), ("expected", toString expected), ("got", toString got)]
  | .stackUnderflow => .plain "StackUnderflow"
  | .stackOverflow depth => .tuple "StackOverflow" (toString depth)
  | .breakOutsideLoop => .plain "BreakOutsideLoop"
  | .script text => .tuple "Script" (quote text)
  | .terminated text => .tuple "Terminated" (quote text)
  | .instructionLimitExceeded limit => .tuple "InstructionLimitExceeded" (toString limit)
  | .threadLimitExceeded limit => .tuple "ThreadLimitExceeded" (toString limit)
  | .noEntryBlock => .plain "NoEntryBlock"
  | .runtime description => .tuple "Runtime" (quote description)
  | .alreadyStarted => .plain "AlreadyStarted"
  | .notStarted => .plain "NotStarted"
  | .reentrant => .plain "Reentrant"
  | .halted => .plain "Halted"

end CoopScript
