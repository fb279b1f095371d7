import CoopScript.Proofs.Machine.Sparing

/-!
The strides of a thread: what one step makes of its call stack, and what an instruction that fails
leaves of it.
-/

namespace CoopScript

open FrameArena MachineError
open CallStack (endRoutine endLoop withResult)

/-- The code that a frame executes next. -/
def Frame.code? (frame : Frame) (script : Script) : Option Code :=
  (script.block? frame.block).bind fun block => block.codes[frame.position]?

/-- A frame that has left an instruction behind. -/
def Frame.passed (frame : Frame) : Frame := { frame with position := frame.position + 1 }

/-- The one instruction that changes frames even where it fails. -/
def Instruction.breaks : Instruction → Bool
  | .breakLoop => true
  | _ => false

/-- What an instruction makes of a call stack whose first frame has left it behind. -/
inductive Instruction.Effect (script : Script) : Instruction → CallStack → CallStack → Prop
  /-- The frame goes on, maybe somewhere else, with other operands. -/
  | within {instruction : Instruction} {id : FrameId} {frame : Frame} {outer : CallStack}
      {position : Nat} {operands : List Value} : instruction.unwinds = false →
      Effect script instruction ((id, frame) :: outer)
        ((id, { frame with position, stack := operands }) :: outer)
  | setResult {id : FrameId} {frame : Frame} {outer new : CallStack} {value : Value}
      {rest : List Value} : frame.stack = value :: rest →
      withResult value ((id, { frame with stack := rest }) :: outer) = some new →
      Effect script .setResult ((id, frame) :: outer) new
  | breakRoutine {stack : CallStack} : Effect script .breakRoutine stack (endRoutine stack)
  | breakLoop {stack new : CallStack} : endLoop stack = some new →
      Effect script .breakLoop stack new
  /-- A new frame begins with the operands that it takes as its arguments. Only functions are asked for
  a result. -/
  | call {instruction : Instruction} {id child : FrameId} {frame : Frame} {outer : CallStack}
      {callee : BlockId} {block : Block} {count serial : Nat} {pushesResult : Bool} :
      instruction.call? = some (.block callee, count, pushesResult) →
      script.block? callee = some block → (pushesResult = true → block.kind = .function) →
      Effect script instruction ((id, frame) :: outer)
        ((child, { (Frame.activate (some id) callee block []).control with
          activation := serial
          returnsResult := pushesResult }) ::
          (id, { frame with stack := frame.stack.drop count }) :: outer)

/-- A step of a thread executes an instruction in its first frame or, at the end of its code, returns
to the frame around. -/
inductive Stride (script : Script) : CallStack → CallStack → Prop
  | execute {id : FrameId} {frame : Frame} {outer new : CallStack} {code : Code} :
      frame.code? script = some code →
      code.instruction.Effect script ((id, frame.passed) :: outer) new →
      Stride script ((id, frame) :: outer) new
  | leave {id parent : FrameId} {frame caller : Frame} {outer : CallStack} :
      frame.code? script = none →
      Stride script ((id, frame) :: (parent, caller) :: outer)
        ((parent, if frame.returnsResult then caller.push frame.result else caller) :: outer)

namespace Machine

variable {allowed : MachineError → Prop} {machine after : Machine} {number : ThreadId}
  {entry : Thread} {id : FrameId} {frame : Frame} {outer stack new : CallStack} {natives : Natives}

/-! Frames of one stack change. -/

theorem Alters.bare_control (alters : machine.Alters Frame.bare id after)
    (shown : machine.frames.control? id = some frame) :
    ∃ operands, after.frames.control? id = some { frame with stack := operands } := by
  obtain ⟨held, live, rfl⟩ := control?_eq_some_iff.mp shown
  have own := alters.own
  rw [live, Option.map_some] at own
  obtain ⟨now, there, same⟩ := Option.map_eq_some_iff.mp own
  refine ⟨now.stack, control?_eq_some_iff.mpr ⟨now, there, ?_⟩⟩
  exact congrArg (fun frame : Frame => { frame with stack := now.stack }) same

theorem Alters.fixed_control (alters : machine.Alters Frame.fixed id after)
    (shown : machine.frames.control? id = some frame) :
    ∃ position operands, after.frames.control? id =
      some { frame with position, stack := operands } := by
  obtain ⟨held, live, rfl⟩ := control?_eq_some_iff.mp shown
  have own := alters.own
  rw [live, Option.map_some] at own
  obtain ⟨now, there, same⟩ := Option.map_eq_some_iff.mp own
  refine ⟨now.position, now.stack, control?_eq_some_iff.mpr ⟨now, there, ?_⟩⟩
  exact congrArg
    (fun frame : Frame => { frame with position := now.position, stack := now.stack }) same

/-- The first frame of a stack goes on with other contents, and no other frame changes. -/
theorem Steady.becomes (steady : machine.Steady allowed)
    (stacked : machine.Stacked number ((id, frame) :: outer)) {changed : Frame}
    (own : after.frames.control? id = some changed)
    (others : ∀ other, other ≠ id → after.frames.control? other = machine.frames.control? other)
    (parent : changed.parent = frame.parent) (retired : changed.retired = frame.retired) :
    machine.frames.Becomes after.frames ((id, frame) :: outer) ((id, changed) :: outer) where
  alike := by simp [tie, parent, retired]
  shown := by
    obtain ⟨_, whole⟩ := stacked.whole
    intro entry inside
    rcases List.mem_cons.mp inside with rfl | further
    · exact own
    · rw [others _ (whole.ne_of_mem_outer steady.coherent.counted further)]
      exact whole.shown (List.mem_cons_of_mem _ further)
  others := fun other missing => others other (missing _ List.mem_cons_self).symm

/-- A thread whose frames change spares the others. -/
theorem Steady.rests (steady : machine.Steady allowed) (stacked : machine.Stacked number stack)
    (line : after.currentLine = machine.currentLine) (threads : after.threads = machine.threads)
    (becomes : machine.frames.Becomes after.frames stack new) :
    Spares (some number) machine after ∧ after.Stacked number new := by
  refine ⟨steady.spares_own stacked line threads becomes.others, ?_⟩
  obtain ⟨thread, found, whole⟩ := stacked
  exact ⟨thread, by rw [threads, found], becomes.stack whole⟩

/-- The first frame of a stack is stored with other contents. -/
theorem Steady.stores (steady : machine.Steady allowed) {held new : Frame}
    (stacked : machine.Stacked number ((id, held.control) :: outer))
    (live : machine.frames.frame? id = some held) (parent : new.parent = held.parent)
    (retired : new.retired = held.retired) :
    Spares (some number) machine { machine with frames := machine.frames.set id new } ∧
      { machine with frames := machine.frames.set id new }.Stacked number
        ((id, new.control) :: outer) := by
  obtain ⟨_, whole⟩ := stacked.whole
  refine steady.rests stacked rfl rfl (.set_head whole (fun _ => ?_) live parent retired)
  exact whole.ne_of_mem_outer steady.coherent.counted

/-- The thread is gone, or it has a call stack as given. -/
def Continues (machine : Machine) (number : ThreadId) (goal : CallStack → Prop) : Prop :=
  machine.threads.find? number = none ∨ ∃ stack, machine.Stacked number stack ∧ goal stack

theorem Continues.weaken {goal goal' : CallStack → Prop} (continues : machine.Continues number goal)
    (later : ∀ stack, goal stack → goal' stack) : machine.Continues number goal' :=
  continues.imp_right fun ⟨stack, stacked, holds⟩ => ⟨stack, stacked, later stack holds⟩

/-- A thread that is spared goes on with the stack that it had. -/
theorem Spares.continues (spares : Spares none machine after) (steady : machine.Steady allowed)
    (later : after.Steady allowed) (stacked : machine.Stacked number stack) :
    after.Continues number (· = stack) := by
  cases live : after.threads.find? number with
  | none => exact .inl live
  | some thread => exact .inr ⟨stack, spares.keeps steady later nofun stacked live, rfl⟩

/-- Only the operands of the first frame may differ. -/
def Restacks (old new : CallStack) : Prop :=
  ∃ id frame outer operands, old = (id, frame) :: outer ∧
    new = (id, { frame with stack := operands }) :: outer

/-- What is modest in the first frame of a thread spares the other threads. -/
theorem Steady.restacks (steady : machine.Steady allowed)
    (stacked : machine.Stacked number ((id, frame) :: outer))
    (alters : machine.Alters Frame.bare id after) :
    Spares (some number) machine after ∧
      ∃ operands, after.Stacked number ((id, { frame with stack := operands }) :: outer) := by
  have shown : machine.frames.control? id = some frame := by
    obtain ⟨_, whole⟩ := stacked.whole
    exact whole.shown List.mem_cons_self
  obtain ⟨operands, own⟩ := alters.bare_control shown
  obtain ⟨spares, still⟩ := steady.rests stacked alters.line alters.threads
    (steady.becomes stacked own alters.others rfl rfl)
  exact ⟨spares, operands, still⟩

theorem Steady.works (steady : machine.Steady allowed)
    (stacked : machine.Stacked number ((id, frame) :: outer))
    (alters : machine.Alters Frame.fixed id after) :
    Spares (some number) machine after ∧ ∃ position operands,
      after.Stacked number ((id, { frame with position, stack := operands }) :: outer) := by
  have shown : machine.frames.control? id = some frame := by
    obtain ⟨_, whole⟩ := stacked.whole
    exact whole.shown List.mem_cons_self
  obtain ⟨position, operands, own⟩ := alters.fixed_control shown
  obtain ⟨spares, still⟩ := steady.rests stacked alters.line alters.threads
    (steady.becomes stacked own alters.others rfl rfl)
  exact ⟨spares, position, operands, still⟩

end Machine

end CoopScript
