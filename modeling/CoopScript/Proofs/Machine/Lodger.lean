import CoopScript.Proofs.Frames.Renaming
import CoopScript.Proofs.Heap.Neighbours
import CoopScript.Proofs.Machine.Scope

/-!
A machine whose heap has its place inside another one. Whatever it does without a look at its values
it does there in the same way.
-/

namespace CoopScript

/-- The machine when its heap is at its place in the other one. -/
def Lodging.machine (lodging : Lodging) (machine : Machine) : Machine :=
  { machine with
    heap := lodging.heap machine.heap
    frames := machine.frames.rename lodging.place }

namespace Lodging

variable (lodging : Lodging) (machine : Machine)

@[simp] theorem script_machine : (lodging.machine machine).script = machine.script := rfl

@[simp] theorem limits_machine : (lodging.machine machine).limits = machine.limits := rfl

@[simp] theorem heap_machine : (lodging.machine machine).heap = lodging.heap machine.heap := rfl

@[simp] theorem frames_machine :
    (lodging.machine machine).frames = machine.frames.rename lodging.place := rfl

@[simp] theorem threads_machine : (lodging.machine machine).threads = machine.threads := rfl

@[simp] theorem globals_machine : (lodging.machine machine).globals = machine.globals := rfl

@[simp] theorem current_machine : (lodging.machine machine).current = machine.current := rfl

@[simp] theorem state_machine : (lodging.machine machine).state = machine.state := rfl

@[simp] theorem stopped_machine : (lodging.machine machine).stopped = machine.stopped := rfl

@[simp] theorem error_machine : (lodging.machine machine).error = machine.error := rfl

@[simp] theorem instructions_machine :
    (lodging.machine machine).instructions = machine.instructions := rfl

end Lodging

namespace Machine

variable (lodging : Lodging) (machine : Machine)

theorem threadFrames_lodging (thread : Thread) : (lodging.machine machine).threadFrames thread =
    (machine.threadFrames thread).map fun entry => (entry.1, entry.2.rename lodging.place) :=
  @chain_map machine (lodging.machine machine) (Frame.rename lodging.place)
    machine.frames.frame?_rename (Frame.parent_rename lodging.place) thread.root (thread.depth + 1)
    thread.current []

theorem stackTrace_lodging : (lodging.machine machine).stackTrace = machine.stackTrace := by
  simp only [stackTrace, Lodging.current_machine, Lodging.threads_machine, threadFrames_lodging,
    List.map_map]
  rfl

theorem fail_lodging (error : MachineError) :
    (lodging.machine machine).fail error = lodging.machine (machine.fail error) := by
  simp only [fail, Lodging.error_machine, stackTrace_lodging]
  split <;> rfl

theorem terminate_lodging (text : String) :
    (lodging.machine machine).terminate text = lodging.machine (machine.terminate text) := by
  unfold terminate
  exact congrArg stop (fail_lodging lodging { machine with terminated := true } _)

theorem raise_lodging (text : String) :
    (lodging.machine machine).raise text = lodging.machine (machine.raise text) :=
  congrArg stop (fail_lodging lodging machine _)

theorem foldl_retire_rename (place : BodyId → BodyId) (entries : List (FrameId × Frame))
    (arena : FrameArena) :
    (entries.map fun entry => (entry.1, entry.2.rename place)).foldl
        (fun arena entry => arena.retire entry.1) (arena.rename place) =
      (entries.foldl (fun arena entry => arena.retire entry.1) arena).rename place := by
  induction entries generalizing arena with
  | nil => rfl
  | cons entry rest hypothesis =>
      simp only [List.map_cons, List.foldl_cons, FrameArena.retire_rename]
      exact hypothesis (arena.retire entry.1)

theorem closeThread_lodging (id : ThreadId) : (lodging.machine machine).closeThread id =
    Prod.map (fun closed => closed) lodging.machine (machine.closeThread id) := by
  simp only [closeThread, Lodging.threads_machine, threadFrames_lodging, ← List.map_reverse,
    Lodging.frames_machine, foldl_retire_rename]
  split <;> rfl

theorem endSlice_lodging (id : ThreadId) (slice : Slice) :
    (lodging.machine machine).endSlice id slice = lodging.machine (machine.endSlice id slice) := by
  cases slice <;> rfl

theorem handler_lodging (event : String) (count : Nat) :
    (lodging.machine machine).handler event count = machine.handler event count := rfl

theorem global?_lodging (slot : Nat) :
    (lodging.machine machine).global? slot = (machine.global? slot).map lodging.value := by
  simp only [global?, Lodging.globals_machine, Lodging.frames_machine, bind, Option.bind]
  cases machine.globals with
  | none => rfl
  | some id =>
      simp only [FrameArena.frame?_rename]
      cases machine.frames.frame? id with
      | none => rfl
      | some frame => simp

theorem globalValues_lodging :
    (lodging.machine machine).globalValues = machine.globalValues.map lodging.value := by
  simp only [globalValues, Lodging.globals_machine, Lodging.frames_machine]
  cases machine.globals with
  | none => rfl
  | some id =>
      simp only [Option.bind_some, FrameArena.frame?_rename]
      cases machine.frames.frame? id with
      | none => rfl
      | some frame => simp

theorem roots_lodging : (lodging.machine machine).roots = machine.roots.map lodging.value :=
  machine.frames.values_rename

theorem started_lodging (main : BlockId) (block : Block) :
    (lodging.machine machine).started main block = lodging.machine (machine.started main block) := by
  have root : Frame.activate none main block [] =
      (Frame.activate none main block []).rename lodging.place :=
    Frame.activate_rename none main block []
  have allocated : (machine.frames.rename lodging.place).allocate _ = _ :=
    machine.frames.allocate_rename (.activate none main block [])
  rw [← root] at allocated
  simp only [started, Lodging.frames_machine, allocated, FrameArena.pin_rename]
  rfl

theorem start_lodging : (lodging.machine machine).start = machine.start.map lodging.machine := by
  simp only [start_eq, Lodging.state_machine, Lodging.stopped_machine, Lodging.script_machine,
    started_lodging]
  split
  · rfl
  · split
    · rfl
    · split
      · rfl
      · split <;> rfl

end Machine

end CoopScript
