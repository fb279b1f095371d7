import CoopScript.Proofs.Frames.Residue
import CoopScript.Proofs.Machine.Addressing
import CoopScript.Proofs.Machine.Company

/-!
A machine beside the residue of a frame that is gone. The host sees the same of it, and whatever it
does without its threads it does in the same way.
-/

namespace CoopScript

/-- The machine beside the residue. -/
def Residue.machine (residue : Residue) (machine : Machine) : Machine :=
  { machine with frames := residue.arena machine.frames }

namespace Residue

variable (residue : Residue) (machine : Machine)

@[simp] theorem script_machine : (residue.machine machine).script = machine.script := rfl

@[simp] theorem limits_machine : (residue.machine machine).limits = machine.limits := rfl

@[simp] theorem heap_machine : (residue.machine machine).heap = machine.heap := rfl

@[simp] theorem frames_machine :
    (residue.machine machine).frames = residue.arena machine.frames := rfl

@[simp] theorem threads_machine : (residue.machine machine).threads = machine.threads := rfl

@[simp] theorem globals_machine : (residue.machine machine).globals = machine.globals := rfl

@[simp] theorem current_machine : (residue.machine machine).current = machine.current := rfl

@[simp] theorem state_machine : (residue.machine machine).state = machine.state := rfl

@[simp] theorem stopped_machine : (residue.machine machine).stopped = machine.stopped := rfl

@[simp] theorem error_machine : (residue.machine machine).error = machine.error := rfl

end Residue

namespace Machine

variable (residue : Residue) (machine : Machine)

theorem threadFrames_residue (thread : Thread) : (residue.machine machine).threadFrames thread =
    (machine.threadFrames thread).map fun entry => (entry.1, residue.frame entry.2) :=
  @chain_map machine (residue.machine machine) residue.frame machine.frames.frame?_residue
    (fun _ => rfl) thread.root (thread.depth + 1) thread.current []

theorem stackTrace_residue : (residue.machine machine).stackTrace = machine.stackTrace := by
  simp only [stackTrace, Residue.current_machine, Residue.threads_machine, threadFrames_residue,
    List.map_map]
  rfl

theorem fail_residue (error : MachineError) :
    (residue.machine machine).fail error = residue.machine (machine.fail error) := by
  simp only [fail, Residue.error_machine, stackTrace_residue]
  split <;> rfl

theorem raise_residue (text : String) :
    (residue.machine machine).raise text = residue.machine (machine.raise text) :=
  congrArg stop (fail_residue residue machine _)

theorem terminate_residue (text : String) :
    (residue.machine machine).terminate text = residue.machine (machine.terminate text) :=
  congrArg stop (fail_residue residue { machine with terminated := true } _)

theorem closeThread_residue {further : FrameId → Nat} (counted : machine.frames.Counted further)
    (id : ThreadId) : (residue.machine machine).closeThread id =
      Prod.map (fun closed => closed) residue.machine (machine.closeThread id) := by
  have retires (entries : List (FrameId × Frame)) :
      (entries.map fun entry => (entry.1, residue.frame entry.2)).reverse.foldl
          (fun arena entry => arena.retire entry.1) (residue.arena machine.frames) =
        residue.arena (entries.reverse.foldl (fun arena entry => arena.retire entry.1)
          machine.frames) := by
    have retired := @FrameArena.retireAll_residue residue _ _ counted (entries.reverse.map Prod.fst)
    rw [List.foldl_map, List.foldl_map] at retired
    rw [← List.map_reverse, List.foldl_map]
    exact retired
  simp only [closeThread, Residue.threads_machine, threadFrames_residue, Residue.frames_machine,
    retires]
  split <;> rfl

theorem endSlice_residue (id : ThreadId) (slice : Slice) :
    (residue.machine machine).endSlice id slice = residue.machine (machine.endSlice id slice) := by
  cases slice <;> rfl

theorem global?_residue (slot : Nat) :
    (residue.machine machine).global? slot = machine.global? slot := by
  simp only [global?, Residue.globals_machine, Residue.frames_machine, bind, Option.bind]
  cases machine.globals with
  | none => rfl
  | some id =>
      simp only [FrameArena.frame?_residue]
      cases machine.frames.frame? id <;> rfl

theorem globalValues_residue : (residue.machine machine).globalValues = machine.globalValues := by
  simp only [globalValues, Residue.globals_machine, Residue.frames_machine]
  cases machine.globals with
  | none => rfl
  | some id =>
      simp only [Option.bind_some, FrameArena.frame?_residue]
      cases machine.frames.frame? id <;> rfl

theorem roots_residue : (residue.machine machine).roots = machine.roots :=
  machine.frames.values_residue

/-- The host sees the same. -/
theorem report_residue : (residue.machine machine).report = machine.report := by
  have lead (path : Nat × List Nat) : (residue.machine machine).lead path = machine.lead path := by
    simp only [Machine.lead, global?_residue, Residue.heap_machine]
  simp only [report, stackTrace_residue, globalValues_residue, lead]
  rfl

end Machine

end CoopScript
