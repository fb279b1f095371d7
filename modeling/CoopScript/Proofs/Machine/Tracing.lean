import CoopScript.Proofs.Machine.Nesting

/-!
Stack traces. While a thread executes, every frame around its current one is right after the call
that it is in the middle of, so that the trace of an error tells where each frame is. Two errors are
told of elsewhere: a break outside of a loop has ended the frames that it went through, and an
instruction beyond the limit has not been left behind yet.
-/

namespace CoopScript

open FrameArena MachineError
open CallStack (endRoutine endLoop withResult)

/-- A frame is right after a call of the block of an inner frame. -/
def Frame.MidCall (script : Script) (outer inner : Frame) (block : Block) (call : Code) : Prop :=
  script.block? outer.block = some block ∧ 0 < outer.position ∧
    block.codes[outer.position - 1]? = some call ∧
    ∃ count pushesResult, call.instruction.call? = some (.block inner.block, count, pushesResult)

namespace CallStack

variable {script : Script} {stack old new outer : CallStack} {id other : FrameId}
  {frame changed : Frame} {value : Value}

/-- Every frame but the first is in the middle of the call that made the one before it. -/
def Linked (script : Script) (stack : CallStack) : Prop :=
  stack.IsChain fun inner outer => ∃ block call, outer.2.MidCall script inner.2 block call

/-- Some frames are over, and the frames around them are linked. -/
def Orderly (script : Script) (stack : CallStack) : Prop :=
  ∃ ended going, stack = ended ++ going ∧ (∀ entry ∈ ended, entry.2.code? script = none) ∧
    Linked script going

/-- While a thread executes, no frame of its stack is over. -/
theorem Orderly.linked {code : Code} (orderly : Orderly script ((id, frame) :: outer))
    (coded : frame.code? script = some code) : Linked script ((id, frame) :: outer) := by
  obtain ⟨ended, going, same, spent, linked⟩ := orderly
  cases ended with
  | nil => exact same ▸ linked
  | cons first rest =>
      cases (List.cons.inj same).1
      rw [spent _ List.mem_cons_self] at coded
      cases coded

end CallStack

namespace FrameArena.Stack

variable {arena : FrameArena} {root id : FrameId} {stack : CallStack}

/-- Every frame of a stack but the last was entered from the one after it. -/
theorem parents (whole : arena.Stack root id stack) :
    stack.IsChain fun inner outer => inner.2.parent = some outer.1 := by
  induction whole with
  | root _ _ => exact .singleton _
  | inner _ _ _ named rest hypothesis =>
      obtain ⟨_, _, rfl, _⟩ := rest.cases_head
      exact List.isChain_cons_cons.mpr ⟨named, hypothesis⟩

theorem outermost (whole : arena.Stack root id stack) : stack.getLast?.map (·.1) = some root := by
  induction whole with
  | root _ _ => rfl
  | inner _ _ _ _ rest hypothesis =>
      obtain ⟨_, _, rfl, _⟩ := rest.cases_head
      rw [List.getLast?_cons_cons]
      exact hypothesis

end FrameArena.Stack

namespace Machine

open CallStack (Linked Orderly)

variable {program : Program} {limits : Limits} {machine after seen recorded : Machine}
  {number : ThreadId} {entry : Thread} {id : FrameId} {held : Frame} {outer stack : CallStack}
  {block : Block} {code : Code} {error : MachineError} {natives : Natives}

/-- While the current thread executes an instruction, an error is recorded: the instruction fails, or
the native function that it calls asks for an error. -/
inductive Raises (natives : Natives) (machine : Machine) : MachineError → Machine → Machine → Prop
  | fails {number : ThreadId} {error : MachineError} {seen : Machine} :
      machine.current = some number →
      (Action.advance natives number).run machine = .error error seen →
      Raises natives machine error seen (machine.move natives)
  | raise {routine : Routine (Except MachineError Value)} {start seen : Machine} {text : String}
      {next : Unit → Routine (Except MachineError Value)} :
      Invokes natives machine routine start → routine.Comes start (.ask (.raise text) next) seen →
      Raises natives machine (.script text) seen ((Request.raise text).perform seen).2
  | terminate {routine : Routine (Except MachineError Value)} {start seen : Machine} {text : String}
      {next : Unit → Routine (Except MachineError Value)} :
      Invokes natives machine routine start →
      routine.Comes start (.ask (.terminate text) next) seen →
      Raises natives machine (.terminated text) seen ((Request.terminate text).perform seen).2

/-- The first error is recorded with the line and the stack trace of the moment. -/
theorem fail_of_first (first : machine.error = none) (error : MachineError) :
    (machine.fail error).error = some error ∧
      (machine.fail error).errorLine = some machine.currentLine ∧
      (machine.fail error).events =
        machine.events.push (.scriptError machine.currentLine error machine.stackTrace) := by
  simp [fail, first, log]

/-- The mark of a terminated machine does not show in its frames. -/
theorem chain_marked (machine : Machine) (root : FrameId) (fuel : Nat) (id : FrameId)
    (inner : List (FrameId × Frame)) :
    { machine with terminated := true }.chain root fuel id inner =
      machine.chain root fuel id inner := by
  induction fuel generalizing id inner with
  | zero => rfl
  | succ fuel hypothesis => simp only [chain, hypothesis]

theorem stackTrace_marked (machine : Machine) :
    { machine with terminated := true }.stackTrace = machine.stackTrace := by
  simp only [stackTrace, threadFrames, chain_marked]
  rfl

theorem recorded_of_raises (raises : Raises natives machine error seen recorded)
    (first : seen.error = none) :
    recorded.error = some error ∧ recorded.errorLine = some seen.currentLine ∧
      recorded.events = seen.events.push (.scriptError seen.currentLine error seen.stackTrace) := by
  cases raises with
  | fails current ran =>
      have moved : machine.move natives = (seen.fail error).settle := by
        simp only [move, current, ran, afterStep]
      rw [moved]
      exact fail_of_first first error
  | raise _ _ => exact fail_of_first first _
  | @terminate _ _ _ text _ _ _ =>
      have marked := @fail_of_first { seen with terminated := true } first (.terminated text)
      rw [stackTrace_marked] at marked
      exact marked

theorem Entered.midCall {inner outer : FrameId × Frame} {caller : Frame} {count : Nat}
    (entered : Entered program limits machine number inner outer caller count) :
    ∃ block call, outer.2.MidCall program.script inner.2 block call := by
  obtain ⟨_, line, _, _, _, _, _, coded, _⟩ := entered.call
  obtain ⟨block, named, fetched⟩ := Option.bind_eq_some_iff.mp coded
  rw [entered.left]
  exact ⟨block, _, named, Nat.succ_pos _, fetched, count, _, Instruction.call?_ofCall ..⟩

/-- The call stacks of a machine that goes on are orderly. -/
theorem Reachable.orderly (reachable : Reachable program limits machine)
    (alive : machine.stopped = false) (stacked : machine.Stacked number stack) :
    Orderly machine.script stack := by
  obtain ⟨ended, going, same, spent, chain⟩ := reachable.tidy alive stacked
  refine ⟨ended, going, same, spent, chain.imp fun inner outer linked => ?_⟩
  obtain ⟨_, _, entered⟩ := linked
  exact reachable.script ▸ entered.midCall

/-- What an error finds of the thread that raises it: the line of the instruction, and the frames as
they were, with the instruction left behind in the first. -/
structure AtFault (number : ThreadId) (id : FrameId) (held : Frame) (outer : CallStack) (line : Nat)
    (seen : Machine) : Prop where
  line : seen.currentLine = line
  turn : seen.current = some number
  continues : seen.Continues number fun stack => ∃ operands,
    stack = (id, { held.passed with stack := operands }) :: outer

section Raising

variable {allowed : MachineError → Prop} (executing : machine.Executing allowed number entry)
  (stacked : machine.Stacked number ((entry.current, held) :: outer))
  (coded : held.code? machine.script = some code)
  (within : ∀ limit, machine.limits.instructionLimit = some limit → machine.instructions < limit)

include executing stacked coded within

/-- Within the limit, the next instruction is left behind. -/
theorem fetch_passes : ∃ fetched,
    (Action.fetch entry.current).run machine = .ok (some code.instruction) fetched ∧
      Spares (some number) { machine with currentLine := code.line } fetched ∧
      machine.Quiet fetched ∧ fetched.Stacked number ((entry.current, held.passed) :: outer) := by
  have fetches := Action.fetch_strides executing stacked
  rw [coded] at fetches
  rcases fetches with ⟨limit, maximum, beyond, _⟩ | ⟨_, fetches⟩
  · have below := within limit maximum
    omega
  · exact fetches

variable (own : ∀ error : MachineError, ¬ error.IsInternal → allowed error)
  (honest : natives.Honest allowed)

include own honest

/-- An instruction that fails, other than a break of a loop. -/
theorem atFault_of_advance (alive : machine.stopped = false) (steers : code.instruction.breaks = false)
    (ran : (Action.advance natives number).run machine = .error error seen) :
    AtFault number entry.current held outer code.line seen ∧ Changes allowed machine seen := by
  obtain ⟨fetched, passes, spares, quiet, still⟩ := fetch_passes executing stacked coded within
  have achieves := Action.advance_achieves own honest executing.steady executing.current machine rfl
  rw [ran] at achieves
  obtain ⟨changes, _, turn, _⟩ := achieves
  rw [run_advance natives alive executing.found passes] at ran
  have executed := Action.execute_strides own honest (executing.quiet quiet) still code.instruction
    fetched rfl
  rw [ran] at executed
  obtain ⟨line, continues⟩ := executed
  refine ⟨⟨line.trans spares.line, turn.trans executing.current, (continues steers).weaken ?_⟩,
    changes⟩
  rintro _ ⟨_, _, _, operands, same, rfl⟩
  cases same
  exact ⟨operands, rfl⟩

/-- A native function that asks for an error. -/
theorem atFault_of_comes {start : Machine} {routine rest : Routine (Except MachineError Value)}
    (invokes : Invokes natives machine routine start) (comes : routine.Comes start rest seen) :
    AtFault number entry.current held outer code.line seen ∧ Changes allowed machine seen := by
  have steady := executing.steady
  obtain ⟨running, silent, honestly⟩ := invokes.quiet honest steady
  have begun := steady.quiet silent
  obtain ⟨served, _⟩ := Comes.served own begun (silent.state.trans running) honestly comes
  have later := begun.changes served.changes
  have spared := begun.spares_comes own (silent.state.trans running) honestly comes
  obtain ⟨fetched, passes, spares, quiet, still⟩ := fetch_passes executing stacked coded within
  cases invokes with
  | @intro _ _ _ native count _ _ _ _ current _ found fetches _ prepares =>
      cases current.symm.trans executing.current
      cases found.symm.trans executing.found
      cases fetches.symm.trans passes
      have modest : Action.Modest entry.current
        (Action.prepareNative natives entry.current native count) := inferInstance
      have altered := modest.ensures fetched fetched (.refl _)
      rw [prepares] at altered
      obtain ⟨called, operands, entered⟩ := (steady.quiet quiet).restacks still altered
      refine ⟨⟨?_, served.current.trans (silent.current.trans executing.current), ?_⟩,
        .trans (.single (.quiet silent)) served.changes⟩
      · exact spared.line.trans (called.line.trans spares.line)
      · exact (spared.continues begun later entered).weaken fun _ same => ⟨operands, same⟩

theorem atFault_of_raises (alive : machine.stopped = false) (steers : code.instruction.breaks = false)
    (raises : Raises natives machine error seen recorded) :
    AtFault number entry.current held outer code.line seen ∧ Changes allowed machine seen := by
  cases raises with
  | fails current ran =>
      cases current.symm.trans executing.current
      exact atFault_of_advance executing stacked coded within own honest alive steers ran
  | raise invokes comes =>
      exact atFault_of_comes executing stacked coded within own honest invokes comes
  | terminate invokes comes =>
      exact atFault_of_comes executing stacked coded within own honest invokes comes

end Raising

/-! Traces show stacks. -/

theorem traceEntry_eq {frame : Frame} (named : machine.script.block? frame.block = some block)
    (passed : block.codes[frame.position - 1]? = some code) :
    machine.traceEntry frame = ⟨block.displayName, frame.position, code.line⟩ := by
  simp [traceEntry, named, passed]

/-- The trace shows the call stack of the current thread, outermost frame first. -/
theorem Steady.stackTrace_eq {allowed : MachineError → Prop} (steady : machine.Steady allowed)
    (turn : machine.current = some number) (stacked : machine.Stacked number stack) :
    machine.stackTrace = stack.reverse.map fun entry => machine.traceEntry entry.2 := by
  obtain ⟨thread, found, whole⟩ := stacked
  rw [← steady.threadFrames_eq found whole, List.map_map]
  simp only [stackTrace, turn, Option.bind_some, found]
  rfl

/-- Two neighbours in a chain that is listed the other way round. -/
theorem isChain_reverse_get {Item : Type} {related : Item → Item → Prop} {items : List Item}
    (chain : items.IsChain related) {index : Nat} {first second : Item}
    (before : items.reverse[index]? = some first)
    (after : items.reverse[index + 1]? = some second) : related second first := by
  have reversed := List.isChain_iff_getElem.mp (List.isChain_reverse.mpr
    (show items.IsChain (fun one other => related one other) from chain))
  obtain ⟨_, rfl⟩ := List.getElem?_eq_some_iff.mp before
  obtain ⟨inside, rfl⟩ := List.getElem?_eq_some_iff.mp after
  exact reversed index inside

/-- When the instruction that the current thread executes raises the first error of a machine, while
that thread is alive, the error is recorded with the line of the instruction and with a trace. The
trace lists the frames of the thread from its root in to the current frame: the last entry has the
position after the instruction and its line, and every other entry has the position after the call
that its frame is in the middle of, and the line of that call. A break of a loop may have ended
frames before it fails, and an instruction beyond the limit fails before it is left behind. -/
theorem Reachable.error_traced (reachable : Reachable program limits machine)
    (executes : machine.ExecutesIn number entry.current)
    (found : machine.threads.find? number = some entry)
    (live : machine.frames.frame? entry.current = some held)
    (named : machine.script.block? held.block = some block)
    (next : block.codes[held.position]? = some code) (steers : code.instruction.breaks = false)
    (within : ∀ limit, machine.limits.instructionLimit = some limit → machine.instructions < limit)
    (raises : Raises program.natives machine error seen recorded) (first : seen.error = none)
    (lives : seen.threads.contains number = true) :
    ∃ shown, recorded.error = some error ∧ recorded.errorLine = some code.line ∧
      recorded.events = seen.events.push (.scriptError code.line error shown) ∧
      shown.length = (machine.threadFrames entry).length ∧
      (machine.threadFrames entry).head?.map (·.1) = some entry.root ∧
      (machine.threadFrames entry).getLast?.map (·.1) = some entry.current ∧
      shown.getLast? = some ⟨block.displayName, held.position + 1, code.line⟩ ∧
      ∀ index outer inner, (machine.threadFrames entry)[index]? = some outer →
        (machine.threadFrames entry)[index + 1]? = some inner →
        inner.2.parent = some outer.1 ∧
        ∃ caller call, outer.2.MidCall machine.script inner.2 caller call ∧
          shown[index]? = some ⟨caller.displayName, outer.2.position, call.line⟩ := by
  have own : ∀ error : MachineError, ¬ error.IsInternal → True := fun _ _ => trivial
  have honest : program.natives.Honest fun _ => True :=
    fun _ _ _ => Routine.honest_of_forall (fun _ => trivial) _
  have steady := reachable.steady own honest
  have executing : machine.Executing _ number entry := ⟨steady, executes.turn, found⟩
  obtain ⟨stack, stacked⟩ := steady.stacked found
  obtain ⟨_, outer, rfl, control, whole⟩ := stacked.current found
  cases (control?_of_frame? live).symm.trans control
  have coded : held.control.code? machine.script = some code := by
    simp only [Frame.code?, Frame.control, named, Option.bind_some, next]
  have linked := (reachable.orderly executes.alive stacked).linked coded
  obtain ⟨⟨line, turn, continues⟩, changes⟩ :=
    atFault_of_raises executing stacked coded within own honest executes.alive steers raises
  obtain gone | ⟨_, shows, operands, rfl⟩ := continues
  · rw [ThreadSet.contains, gone] at lives
    cases lives
  have listed := steady.threadFrames_eq found whole
  have traced := (steady.changes changes).stackTrace_eq turn shows
  have script := changes.script
  obtain ⟨recorded, lined, logged⟩ := recorded_of_raises raises first
  rw [line] at lined logged
  refine ⟨_, recorded, lined, logged, ?_, ?_, ?_, ?_, fun index around inner here inside => ?_⟩
  · have length := congrArg List.length listed
    rw [List.length_map] at length
    simp [traced, length]
  · have heads := congrArg (fun entries => entries.head?.map (·.1)) listed
    simp only [List.head?_map, Option.map_map, List.head?_reverse] at heads
    exact heads.trans whole.outermost
  · have lasts := congrArg (fun entries => entries.getLast?.map (·.1)) listed
    simp only [List.getLast?_map, Option.map_map, List.getLast?_reverse] at lasts
    exact lasts
  · rw [traced, List.getLast?_map, List.getLast?_reverse, List.head?_cons, Option.map_some]
    exact congrArg some (traceEntry_eq (script ▸ named) next)
  · -- The frames around the current one stand in the trace where they stood before.
    have stands (place : Nat) {around : FrameId × Frame}
        (there : (machine.threadFrames entry)[place]? = some around) :
        ((entry.current, held.control) :: outer).reverse[place]? =
          some (around.1, around.2.control) := by
      rw [← listed, List.getElem?_map, there, Option.map_some]
    have before := stands index here
    have after := stands (index + 1) inside
    have parent := isChain_reverse_get whole.parents before after
    obtain ⟨caller, call, middle⟩ := isChain_reverse_get linked before after
    refine ⟨parent, caller, call, middle, ?_⟩
    have short : index < outer.reverse.length := by
      obtain ⟨bound, _⟩ := List.getElem?_eq_some_iff.mp after
      simp only [List.length_reverse, List.length_cons] at bound ⊢
      omega
    rw [List.reverse_cons, List.getElem?_append_left short] at before
    rw [traced, List.getElem?_map, List.reverse_cons, List.getElem?_append_left short, before,
      Option.map_some]
    obtain ⟨block, _, passed, _⟩ := middle
    exact congrArg some (traceEntry_eq (script ▸ block) passed)

/-! A block that is called and fails in its second instruction. -/

def failing : Program where
  script := {
    blocks := #[
      { kind := .sub, level := 0, name := some "main", codes := #[⟨1, .call (.block ⟨1⟩) 0⟩] },
      { kind := .sub, level := 1, name := some "inner", codes := #[⟨5, .nop⟩, ⟨6, .pop⟩] }]
    main := some ⟨0⟩ }

/-- The machine as it begins its first tick. -/
def failingBegun : Machine := ((failing.machine {}).started ⟨0⟩ failing.script.blocks[0]).begin

/-- The machine at the instruction that fails. -/
def failingReady : Machine := (Machine.move failing.natives)^[3] failingBegun

/-- The frame of that instruction. -/
def failingFrame : Frame :=
  { Frame.activate (some ⟨0⟩) ⟨1⟩ failing.script.blocks[1] [] with activation := 1, position := 1 }

theorem error_traced_failing : Reachable failing {} failingReady ∧
    ∃ (before : Array Event) (entries : List TraceEntry), (move failing.natives failingReady).events =
        before.push (.scriptError 6 .stackUnderflow entries) ∧
      entries.getLast? = some ⟨"inner", 2, 6⟩ := by
  have begun : Reachable failing {} failingBegun := .step .initial (.start rfl)
  have reachable : Reachable failing {} failingReady := begun.iterate 3 (by decide +kernel)
  have executes : failingReady.ExecutesIn ⟨0⟩ ⟨1⟩ := by decide +kernel
  have live : failingReady.frames.frame? ⟨1⟩ = some failingFrame := by decide +kernel
  have named : failingReady.script.block? failingFrame.block = some failing.script.blocks[1] := by
    rw [reachable.script]
    rfl
  have unlimited : failingReady.limits.instructionLimit = none := by decide +kernel
  have fails : (match (Action.advance failing.natives ⟨0⟩).run failingReady with
      | .ok _ _ => none
      | .error error seen => some (error, seen.error, seen.threads.contains ⟨0⟩)) =
        some (.stackUnderflow, none, true) := by decide +kernel
  obtain ⟨entry, found, current⟩ := executes.current
  split at fails
  · cases fails
  · next error seen ran =>
      obtain ⟨rfl, clean, lives⟩ : error = .stackUnderflow ∧ seen.error = none ∧
          seen.threads.contains ⟨0⟩ = true := by simpa using fails
      obtain ⟨entries, _, _, logged, _, _, _, last, _⟩ :=
        reachable.error_traced (current ▸ executes) found (current ▸ live) named rfl rfl
          (by rw [unlimited]; nofun) (.fails executes.turn ran) clean lives
      exact ⟨reachable, _, entries, logged, last⟩

/-! A break outside of a loop, which is told of at the end of its block. -/

def breaking : Program where
  script := {
    blocks := #[{
      kind := .sub
      level := 0
      name := some "main"
      codes := #[⟨1, .breakLoop⟩, ⟨2, .nop⟩] }]
    main := some ⟨0⟩ }

theorem breakLoop_traced_at_end :
    ((breaking.machine {}).run breaking.natives 3).bind (fun ended => ended.2.events.back?) =
      some (.scriptError 1 .breakOutsideLoop [⟨"main", 2, 2⟩]) := by
  decide +kernel

/-- An instruction beyond the limit is told of at the one before it. -/
example :
    ((failing.machine { instructionLimit := some 2 }).run failing.natives 5).bind
        (fun ended => ended.2.events.back?) =
      some (.scriptError 6 (.instructionLimitExceeded 2)
        [⟨"main", 1, 1⟩, ⟨"inner", 1, 5⟩]) := by
  decide +kernel

end Machine

end CoopScript
