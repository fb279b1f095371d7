import CoopScript.Proofs.Actions.Breaking
import CoopScript.Proofs.Machine.Addressing
import CoopScript.Proofs.Machine.Leaving

/-!
Breaks. A break moves frames of its thread to their ends, out to a loop block or to a routine, and the
thread leaves them before it executes anything else. It goes on around them, after the call that made
the outermost: over one more instruction after a loop, with a result if the call asks for one.
-/

namespace CoopScript

open FrameArena MachineError
open CallStack (endRoutine endLoop finished finishes ToLoop ToRoutine endLoop_of_toLoop
  endRoutine_of_toRoutine)

/-- Where a frame was does not matter if it goes somewhere else. -/
theorem FrameArena.goTo_set {arena : FrameArena} {id : FrameId} {held : Frame}
    (live : arena.frame? id = some held) (first position : Nat) (places : List (FrameId × Nat)) :
    (arena.set id { held with position := first }).goTo ((id, position) :: places) =
      arena.goTo ((id, position) :: places) := by
  rw [goTo_cons, goTo_cons, edit_eq_set (frame?_set_self _ (index_lt_of_frame? live)),
    edit_eq_set live, set_set]

/-- Frames that were ended are gone, or kept with their slots for those that still use these. The frame
around them goes on as given, and no other frame has changed. -/
structure FrameArena.Unwound (before after : FrameArena) (ended : CallStack) (around : FrameId)
    (resumed : Frame) : Prop where
  gone : ∀ id ∈ ended.map (·.1), ∀ now, after.frame? id = some now → now.retired = true ∧
    ∃ held, before.frame? id = some held ∧ now.slots = held.slots
  resumes : ∃ held pins, before.frame? around = some held ∧ after.frame? around =
    some { held with position := resumed.position, stack := resumed.stack, pins }
  others : ∀ id, id ≠ around → id ∉ ended.map (·.1) → after.frame? id = before.frame? id

section Ending

variable {arena after : FrameArena} {ended : CallStack} {resume : Option Nat}

/-- Frames go to their ends, and then they are left. -/
theorem FrameArena.Sheds.unwound {around : FrameId × Frame} {last : Frame}
    (distinct : (ended.map (·.1) ++ [around.1]).Nodup) (shown : arena.control? around.1 = some around.2)
    (sheds : (arena.goTo (ended.ending around.1 resume)).Sheds after (ended.map (·.1)) around.1 last) :
    arena.Unwound after ended around.1
      ({ around.2 with position := resume.getD around.2.position }.receive last) := by
  have unique := CallStack.nodup_ending distinct resume
  refine ⟨fun id inside now there => ?_, ?_, fun id apart missing => ?_⟩
  · obtain ⟨retired, between, found, same⟩ := sheds.gone id inside now there
    obtain ⟨before, first, alike⟩ := slots_goTo unique found
    exact ⟨retired, before, first, same.trans alike⟩
  · obtain ⟨held, live, control⟩ := control?_eq_some_iff.mp shown
    obtain ⟨caller, pins, found, changed⟩ := sheds.around
    rw [frame?_goTo_ending distinct, live] at found
    cases found
    refine ⟨held, pins, live, changed.trans ?_⟩
    rw [← control]
    unfold Frame.receive
    split <;> rfl
  · refine (sheds.others id missing apart).trans (frame?_goTo_of_not_mem unique arena ?_)
    rw [CallStack.names_ending]
    cases resume <;> simp_all

theorem FrameArena.Fades.of_finishes (distinct : (ended.map (·.1)).Nodup)
    (fades : (arena.goTo (finishes ended)).Fades after (ended.map (·.1))) :
    arena.Fades after (ended.map (·.1)) := by
  have unique : ((finishes ended).map (·.1)).Nodup := by rwa [CallStack.names_finishes]
  have away {id : FrameId} (missing : id ∉ ended.map (·.1)) :
      (arena.goTo (finishes ended)).frame? id = arena.frame? id :=
    frame?_goTo_of_not_mem unique arena (by rwa [CallStack.names_finishes])
  refine ⟨fun id frame live missing running => ?_, fun id now there => ?_⟩
  · exact fades.kept id frame ((away missing).trans live) missing running
  · obtain ⟨between, found, same, retires, stays⟩ := fades.old id now there
    obtain ⟨held, live, alike⟩ := slots_goTo unique found
    refine ⟨held, live, same.trans alike, retires, fun missing => ?_⟩
    cases ((away missing).trans live).symm.trans found
    exact stays missing

end Ending

namespace CallStack

variable {script : Script} {inner outer further new : CallStack} {last : FrameId × Frame}
  {id : FrameId} {frame : Frame} {code : Code}

/-- With the first frame after its instruction, the frames that a break ends are the same. -/
theorem passed_split (same : inner ++ last :: outer = (id, frame) :: further) :
    ∃ inner' last', (id, frame.passed) :: further = inner' ++ last' :: outer ∧
      inner'.length = inner.length ∧ finished (inner' ++ [last']) = finished (inner ++ [last]) ∧
      finishes (inner' ++ [last']) = finishes (inner ++ [last]) ∧
      (ToLoop inner last → ToLoop inner' last') ∧
      (∀ outer, ToRoutine inner last outer → ToRoutine inner' last' outer) := by
  cases inner with
  | nil =>
      obtain ⟨rfl, rfl⟩ := List.cons.inj same
      exact ⟨[], (id, frame.passed), rfl, rfl, rfl, rfl, fun toLoop => ⟨toLoop.loop, nofun⟩,
        fun _ toRoutine => ⟨toRoutine.ends, nofun⟩⟩
  | cons first rest =>
      obtain ⟨rfl, rfl⟩ := List.cons.inj same
      refine ⟨(id, frame.passed) :: rest, last, rfl, rfl, rfl, rfl, fun toLoop => ?_,
        fun outer toRoutine => ?_⟩
      · exact ⟨toLoop.loop, List.forall_mem_cons.mpr (List.forall_mem_cons.mp toLoop.inside)⟩
      · exact ⟨toRoutine.ends, List.forall_mem_cons.mpr (List.forall_mem_cons.mp toRoutine.inside)⟩

/-- There is always a routine or a root to go out to. -/
theorem exists_toRoutine (stack : CallStack) (filled : stack ≠ []) :
    ∃ inner last outer, stack = inner ++ last :: outer ∧ ToRoutine inner last outer := by
  induction stack with
  | nil => exact (filled rfl).elim
  | cons first rest hypothesis =>
      by_cases routine : first.2.kind.isRoutine = true
      · exact ⟨[], first, rest, rfl, .inl routine, nofun⟩
      · cases rest with
        | nil => exact ⟨[], first, [], rfl, .inr rfl, nofun⟩
        | cons second others =>
            obtain ⟨inner, last, outer, same, toRoutine⟩ := hypothesis nofun
            exact ⟨first :: inner, last, outer, congrArg _ same, toRoutine.ends,
              List.forall_mem_cons.mpr ⟨Bool.not_eq_true _ ▸ routine, toRoutine.inside⟩⟩

/-- Every frame of a chain but the last is linked to one around it. -/
theorem linked_of_mem {link : FrameId × Frame → FrameId × Frame → Prop} {around : FrameId × Frame}
    (chain : (inner ++ around :: outer).IsChain link) :
    ∀ entry ∈ inner, ∃ outward, link entry outward := by
  induction inner with
  | nil => exact nofun
  | cons first rest hypothesis =>
      rw [List.forall_mem_cons]
      refine ⟨?_, hypothesis chain.tail⟩
      cases rest with
      | nil => exact ⟨around, (List.isChain_cons_cons.mp chain).1⟩
      | cons second _ => exact ⟨second, (List.isChain_cons_cons.mp chain).1⟩

end CallStack

namespace Machine

open CallStack (Tidy passed_split exists_toRoutine linked_of_mem)

variable {allowed : MachineError → Prop} {program : Program} {limits : Limits}
  {machine later : Machine} {number : ThreadId} {natives : Natives} {id : FrameId} {frame : Frame}
  {code : Code} {stack old inner outer : CallStack} {last parent : FrameId × Frame} {line : Nat}

/-! The step of a break. -/

/-- The machine as it executes an instruction of a frame, which has left the instruction behind. -/
def fetched (machine : Machine) (id : FrameId) (held : Frame) (line : Nat) : Machine :=
  { machine with
    frames := machine.frames.set id held.passed
    currentLine := line
    instructions := machine.instructions + 1 }

theorem not_stopped_of_next (next : machine.next? = some code) : machine.stopped = false := by
  cases stopped : machine.stopped with
  | false => rfl
  | true =>
      rw [next?, stopped] at next
      cases next

/-- The current thread executes its next instruction, if the limit leaves room for it. -/
theorem Steady.fetches (natives : Natives) (steady : machine.Steady allowed)
    (turn : machine.current = some number) (stacked : machine.Stacked number ((id, frame) :: outer))
    (next : machine.next? = some code) (room : machine.hasRoom = true) :
    ∃ thread held, machine.frames.frame? id = some held ∧ frame = held.control ∧
      (Action.thread number).run (machine.fetched id held code.line) =
        .ok thread (machine.fetched id held code.line) ∧
      (machine.fetched id held code.line).frames.Stack thread.root id ((id, frame.passed) :: outer) ∧
      outer.length = thread.depth ∧
      machine.move natives =
        afterStep number ((Action.execute natives number id code.instruction).run
          (machine.fetched id held code.line)) := by
  have alive := not_stopped_of_next next
  have coded := (next?_of_stacked turn alive stacked).symm.trans next
  have distinct := stacked.nodup steady
  obtain ⟨thread, found, whole⟩ := stacked
  obtain ⟨_, _, same, _⟩ := whole.cases_head
  obtain rfl : id = thread.current := congrArg Prod.fst (List.cons.inj same).1
  obtain ⟨held, live, rfl, _⟩ := Action.head_frame (whole.shown List.mem_cons_self)
  obtain ⟨block, named, fetches⟩ := Option.bind_eq_some_iff.mp coded
  have fetch := Action.run_fetch live named
  rw [show block.codes[held.position]? = some code from fetches] at fetch
  have passes : (Action.fetch thread.current).run machine =
      .ok (some code.instruction) (machine.fetched thread.current held code.line) := by
    rw [fetch]
    unfold hasRoom at room
    cases limited : machine.limits.instructionLimit with
    | none => rfl
    | some limit =>
        rw [limited] at room
        have less : ¬ limit < machine.instructions + 1 := by
          have room : machine.instructions < limit := of_decide_eq_true room
          omega
        simp only [if_neg less]
        rfl
  obtain ⟨chain, outward, length⟩ := steady.coherent.chain number thread found
  refine ⟨thread, held, live, rfl, ?_, ?_, ?_, ?_⟩
  · simp only [Action.thread, EStateM.run_bind, EStateM.run_get, fetched, found]
    rfl
  · have passed : machine.frames.Becomes (machine.frames.set thread.current held.passed)
        ((thread.current, held.control) :: outer) ((thread.current, held.passed.control) :: outer) :=
      .set_head whole (absent_of_nodup distinct) live rfl rfl
    exact passed.stack whole
  · rw [outward.unique whole.chain] at length
    simpa using length
  · rw [move, turn]
    simp only [run_advance natives alive found passes]

/-- What a break that goes well makes of a machine. -/
def broken (machine : Machine) (places : List (FrameId × Nat)) (line : Nat) : Machine :=
  { machine with
    frames := machine.frames.goTo places
    currentLine := line
    instructions := machine.instructions + 1 }

theorem goTo_fetched {held : Frame} (live : machine.frames.frame? id = some held)
    (same : inner ++ last :: outer = (id, held.control) :: old) (line : Nat)
    (places : List (FrameId × Nat)) :
    { machine.fetched id held line with
        frames := (machine.fetched id held line).frames.goTo (finishes (inner ++ [last]) ++ places) } =
      machine.broken (finishes (inner ++ [last]) ++ places) line := by
  obtain ⟨position, further, first⟩ : ∃ position further,
      finishes (inner ++ [last]) ++ places = (id, position) :: further := by
    cases inner with
    | nil =>
        obtain ⟨rfl, rfl⟩ := List.cons.inj same
        exact ⟨_, _, rfl⟩
    | cons first rest =>
        obtain ⟨rfl, rfl⟩ := List.cons.inj same
        exact ⟨_, _, rfl⟩
  rw [first, fetched, broken]
  simp only [Frame.passed, goTo_set live]

section Steps

variable (natives : Natives) (steady : machine.Steady allowed) (turn : machine.current = some number)
  (next : machine.next? = some code) (room : machine.hasRoom = true)

include steady turn next room

theorem Steady.move_breakRoutine (stacked : machine.Stacked number (inner ++ last :: outer))
    (breaks : code.instruction = .breakRoutine) (toRoutine : ToRoutine inner last outer) :
    machine.move natives = machine.broken (finishes (inner ++ [last])) code.line := by
  have distinct := stacked.nodup steady
  obtain ⟨⟨id, frame⟩, old, same⟩ : ∃ first old, inner ++ last :: outer = first :: old := by
    cases inner <;> exact ⟨_, _, rfl⟩
  rw [same] at stacked distinct
  obtain ⟨thread, held, live, rfl, looks, whole, length, moved⟩ :=
    steady.fetches natives turn stacked next room
  obtain ⟨inner', last', passes, shorter, _, places, _, toRoutine'⟩ := passed_split same
  have names : (((id, held.control.passed) :: old).map (·.1)).Nodup := distinct
  have deep : inner'.length < thread.depth + 1 := by
    have total := congrArg List.length passes
    rw [List.length_cons, length, List.length_append, List.length_cons] at total
    omega
  rw [passes] at whole names
  have goes := Action.run_breakRoutine_goes whole names (toRoutine' outer toRoutine) deep
  have target := goTo_fetched live same code.line []
  rw [List.append_nil] at target
  rw [places, target] at goes
  rw [moved, breaks]
  simp only [Action.execute, EStateM.run_bind, looks, goes]
  rfl

theorem Steady.move_breakLoop (stacked : machine.Stacked number (inner ++ last :: parent :: outer))
    (breaks : code.instruction = .breakLoop) (toLoop : ToLoop inner last) :
    machine.move natives = machine.broken
      (finishes (inner ++ [last]) ++ [(parent.1, parent.2.position + 1)]) code.line := by
  have distinct := stacked.nodup steady
  obtain ⟨⟨id, frame⟩, old, same⟩ : ∃ first old, inner ++ last :: parent :: outer = first :: old := by
    cases inner <;> exact ⟨_, _, rfl⟩
  rw [same] at stacked distinct
  obtain ⟨thread, held, live, rfl, looks, whole, length, moved⟩ :=
    steady.fetches natives turn stacked next room
  obtain ⟨inner', last', passes, shorter, _, places, toLoop', _⟩ := passed_split same
  have names : (((id, held.control.passed) :: old).map (·.1)).Nodup := distinct
  have deep : inner'.length < thread.depth + 1 := by
    have total := congrArg List.length passes
    rw [List.length_cons, length, List.length_append, List.length_cons] at total
    omega
  rw [passes] at whole names
  have goes := Action.run_breakLoop_goes whole names (toLoop' toLoop) deep
  rw [places, goTo_fetched live same code.line] at goes
  rw [moved, breaks]
  simp only [Action.execute, EStateM.run_bind, looks, goes]
  rfl

/-- A break of a loop is an error if there is no loop block on the way to a routine or to the root. -/
theorem Steady.move_breakLoop_fails (candid : machine.Candid) (stacked : machine.Stacked number stack)
    (breaks : code.instruction = .breakLoop)
    (missing : ∀ inner last parent outer, stack = inner ++ last :: parent :: outer →
      ¬ ToLoop inner last) :
    (machine.move natives).error = some .breakOutsideLoop ∧ (machine.move natives).stopped = true := by
  have distinct := stacked.nodup steady
  obtain ⟨id, frame, old, rfl⟩ : ∃ id frame old, stack = (id, frame) :: old := by
    obtain ⟨thread, found, whole⟩ := stacked
    obtain ⟨_, _, rfl, _⟩ := whole.cases_head
    exact ⟨_, _, _, rfl⟩
  obtain ⟨thread, held, live, rfl, looks, whole, length, moved⟩ :=
    steady.fetches natives turn stacked next room
  have lost (inner last parent outer) (same : (id, held.control.passed) :: old =
      inner ++ last :: parent :: outer) : ¬ ToLoop inner last := by
    intro toLoop
    cases inner with
    | nil =>
        obtain ⟨rfl, rfl⟩ := List.cons.inj same
        exact missing [] (id, held.control) parent outer rfl ⟨toLoop.loop, nofun⟩
    | cons first rest =>
        obtain ⟨rfl, rfl⟩ := List.cons.inj same
        exact missing ((id, held.control) :: rest) last parent outer rfl ⟨toLoop.loop,
          List.forall_mem_cons.mpr (List.forall_mem_cons.mp toLoop.inside)⟩
  obtain ⟨frames, fails⟩ := @Action.run_breakLoop_fails _ _ _ (thread.depth + 1) _ whole distinct lost
  have clean : machine.error = none :=
    candid.clean_of_needs (by rw [needs, next]; rfl)
  rw [moved, breaks]
  simp only [Action.execute, EStateM.run_bind, looks, fails]
  have recorded : (afterStep number (.error .breakOutsideLoop
      { machine.fetched id held code.line with frames })).error = _ := error_fail ..
  rw [show (machine.fetched id held code.line).error = none from clean] at recorded
  exact ⟨recorded, stopped_fail ..⟩

end Steps

/-! The frames of the thread after a break. -/

theorem stride_breakRoutine {script : Script} {new : CallStack}
    (stride : Stride script ((id, frame) :: outer) new) (coded : frame.code? script = some code)
    (breaks : code.instruction = .breakRoutine) : new = endRoutine ((id, frame.passed) :: outer) := by
  cases stride with
  | execute again effect =>
      cases again.symm.trans coded
      rw [breaks] at effect
      cases effect with
      | within plain => cases plain
      | breakRoutine => rfl
      | call called _ _ => cases called
  | leave spent => cases spent.symm.trans coded

theorem stride_breakLoop {script : Script} {new : CallStack}
    (stride : Stride script ((id, frame) :: outer) new) (coded : frame.code? script = some code)
    (breaks : code.instruction = .breakLoop) : endLoop ((id, frame.passed) :: outer) = some new := by
  cases stride with
  | execute again effect =>
      cases again.symm.trans coded
      rw [breaks] at effect
      cases effect with
      | within plain => cases plain
      | breakLoop ends => exact ends
      | call called _ _ => cases called
  | leave spent => cases spent.symm.trans coded

section Runs

variable (own : ∀ error : MachineError, ¬ error.IsInternal → allowed error)
  (honest : natives.Honest allowed) (steady : machine.Steady allowed)
  (turn : machine.current = some number)

include own honest steady turn

/-- The current thread, if it lives on, goes one stride on in a move. -/
theorem Steady.strides_of_move (stacked : machine.Stacked number old)
    (going : (machine.move natives).stopped = false) {thread : Thread}
    (lives : (machine.move natives).threads.find? number = some thread) :
    ∃ new, (machine.move natives).Stacked number new ∧ Stride machine.script old new := by
  have running := steady.current_running turn
  have later := steady.changes (move_changes own honest steady running)
  obtain ⟨new, now⟩ := later.stacked lives
  cases arises_of_move own honest steady going now with
  | stays idle _ => exact (idle turn).elim
  | strides _ before stride => exact ⟨new, now, stacked.unique before ▸ stride⟩
  | begins fresh =>
      obtain ⟨_, found, _⟩ := stacked
      have older := steady.balanced.ids_lt number (ThreadSet.mem_ids_iff.mpr ⟨_, found⟩)
      omega

/-- A break that went well is a stride of its thread. -/
theorem Steady.stride_broken {places : List (FrameId × Nat)}
    (stacked : machine.Stacked number ((id, frame) :: outer)) (next : machine.next? = some code)
    (moved : machine.move natives = machine.broken places code.line) :
    frame.code? machine.script = some code ∧ ∃ new, (machine.move natives).Stacked number new ∧
      Stride machine.script ((id, frame) :: outer) new := by
  have alive := not_stopped_of_next next
  have going : (machine.move natives).stopped = false := by
    rw [moved]
    exact alive
  have ⟨thread, found, _⟩ := stacked
  have lives : (machine.move natives).threads.find? number = some thread := by
    rw [moved]
    exact found
  exact ⟨(next?_of_stacked turn alive stacked).symm.trans next,
    steady.strides_of_move own honest turn stacked going lives⟩

theorem Steady.stacked_breakRoutine (room : machine.hasRoom = true)
    (stacked : machine.Stacked number (inner ++ last :: outer)) (next : machine.next? = some code)
    (breaks : code.instruction = .breakRoutine) (toRoutine : ToRoutine inner last outer) :
    (machine.move natives).Stacked number (finished (inner ++ [last]) ++ outer) := by
  have moved := steady.move_breakRoutine natives turn next room stacked breaks toRoutine
  obtain ⟨⟨id, frame⟩, old, same⟩ : ∃ first old, inner ++ last :: outer = first :: old := by
    cases inner <;> exact ⟨_, _, rfl⟩
  rw [same] at stacked
  obtain ⟨coded, new, still, stride⟩ := steady.stride_broken own honest turn stacked next moved
  obtain ⟨inner', last', passes, _, ends, _, _, toRoutine'⟩ := passed_split same
  rw [stride_breakRoutine stride coded breaks, passes,
    endRoutine_of_toRoutine (toRoutine' outer toRoutine), ends] at still
  exact still

theorem Steady.stacked_breakLoop (room : machine.hasRoom = true)
    (stacked : machine.Stacked number (inner ++ last :: parent :: outer))
    (next : machine.next? = some code) (breaks : code.instruction = .breakLoop)
    (toLoop : ToLoop inner last) :
    (machine.move natives).Stacked number
      (finished (inner ++ [last]) ++ (parent.1, parent.2.passed) :: outer) := by
  have moved := steady.move_breakLoop natives turn next room stacked breaks toLoop
  obtain ⟨⟨id, frame⟩, old, same⟩ : ∃ first old, inner ++ last :: parent :: outer = first :: old := by
    cases inner <;> exact ⟨_, _, rfl⟩
  rw [same] at stacked
  obtain ⟨coded, new, still, stride⟩ := steady.stride_broken own honest turn stacked next moved
  obtain ⟨inner', last', passes, _, ends, _, toLoop', _⟩ := passed_split same
  have loops := stride_breakLoop stride coded breaks
  rw [passes, endLoop_of_toLoop (toLoop' toLoop), ends] at loops
  cases loops
  exact still

end Runs

/-! What follows a break. -/

/-- An instruction of an activation comes next. -/
structure ComesTo (machine : Machine) (id : FrameId) (serial : Nat) : Prop where
  needs : machine.needs = true
  inside : ∃ number held, machine.ExecutesIn number id ∧ machine.frames.frame? id = some held ∧
    held.activation = serial

/-- Whatever happens from a machine on, no instruction of some activations executes. -/
def Silences (natives : Natives) (machine : Machine) (ended : CallStack) : Prop :=
  ∀ entry ∈ ended, ∀ later, Path natives machine later →
    ¬ later.ComesTo entry.1 entry.2.activation

/-- A thread has gone out of its first frame, to the next one if there is one. -/
def WentOut (machine : Machine) (number : ThreadId) (frame : Frame) : CallStack → Prop
  | [] => machine.threads.find? number = none
  | around :: outer => machine.Stacked number ((around.1, around.2.receive frame) :: outer)

/-- Frames that were ended are gone, or kept with their slots for those that still use these. The frame
around them goes on as given, and no other frame has changed. -/
structure FrameArena.Unwound (before after : FrameArena) (ended : CallStack) (around : FrameId)
    (resumed : Frame) : Prop where
  gone : ∀ id ∈ ended.map (·.1), ∀ now, after.frame? id = some now → now.retired = true ∧
    ∃ held, before.frame? id = some held ∧ now.slots = held.slots
  resumes : ∃ held pins, before.frame? around = some held ∧ after.frame? around =
    some { held with position := resumed.position, stack := resumed.stack, pins }
  others : ∀ id, id ≠ around → id ∉ ended.map (·.1) → after.frame? id = before.frame? id

/-- After a break a thread leaves the frames that were ended, and goes on in the frame around them as
given. Nothing else has happened to the machine. -/
structure GoesOn (natives : Natives) (machine : Machine) (number : ThreadId) (line : Nat)
    (ended : CallStack) (around : FrameId × Frame) (outer : CallStack) (resumed : Frame)
    (frames : FrameArena) : Prop where
  reached : (move natives)^[ended.length + 1] machine = { machine with
    frames
    threads := machine.threads.update number (.outward ended.length around.1)
    currentLine := line
    instructions := machine.instructions + 1 }
  unwound : machine.frames.Unwound frames ended around.1 resumed
  stacked : ((move natives)^[ended.length + 1] machine).Stacked number ((around.1, resumed) :: outer)
  next : ((move natives)^[ended.length + 1] machine).next? = resumed.code? machine.script
  leaves : resumed.code? machine.script = none →
    ((move natives)^[ended.length + 2] machine).WentOut number resumed outer

/-- After a break a thread leaves the frames that were ended, and is done with its root. Nothing else has
happened. The other frames that execute have changed in nothing but their pins, and no slot has. -/
structure IsDone (natives : Natives) (machine : Machine) (number : ThreadId) (line : Nat)
    (ended : CallStack) (frames : FrameArena) : Prop where
  reached : (move natives)^[ended.length + 1] machine = { machine with
    frames
    threads := machine.threads.remove number
    current := none
    currentLine := line
    instructions := machine.instructions + 1 }.log (.threadFinished number)
  fades : machine.frames.Fades frames (ended.map (·.1))

section Outcomes

variable (own : ∀ error : MachineError, ¬ error.IsInternal → allowed error)
  (honest : natives.Honest allowed)

include own honest

/-- Activations whose frames are left before anything is executed do not execute again. -/
theorem Drifts.silences (steady : machine.Steady allowed) {count : Nat}
    (drifts : machine.Drifts natives count) {ended : CallStack}
    (live : ∀ entry ∈ ended, machine.frames.control? entry.1 = some entry.2)
    (gone : ∀ entry ∈ ended, ∀ now,
      ((move natives)^[count] machine).frames.frame? entry.1 = some now → now.retired = true) :
    Silences natives machine ended := by
  intro entry inside later path comes
  rcases drifts.silent later path with rests | further
  · have needed := comes.needs
    rw [Machine.needs, rests] at needed
    cases needed
  · have between := drifts.path.changes own honest steady
    have calm := steady.changes between
    have after := further.changes own honest calm
    obtain ⟨number, now, ⟨_, _, thread, found, here⟩, lives, serial⟩ := comes.inside
    obtain ⟨held, there, runs⟩ := (calm.changes after).coherent.live_current found
    rw [here] at there
    cases lives.symm.trans there
    -- The frame that executes is as old as the one that was ended, so it was there when that was left.
    obtain ⟨before, earlier, same⟩ := control?_eq_some_iff.mp (live entry inside)
    have aged : now.activation < ((move natives)^[count] machine).frames.activations := by
      have bound := steady.coherent.counted.activation_lt entry.1 before earlier
      have grown := (between.continues steady).activations
      rw [serial, ← same]
      exact bound.trans_le grown
    obtain ⟨left, stood, _, ran⟩ := (after.continues calm).old entry.1 now lives aged
    exact Bool.false_ne_true ((ran runs).symm.trans (gone entry inside left stood))

omit own honest in
theorem silences_of_finished {ended : CallStack} (silences : Silences natives machine (finished ended)) :
    Silences natives machine ended := by
  intro entry inside
  exact silences (entry.1, entry.2.over) (List.mem_map.mpr ⟨entry, inside, rfl⟩)

omit own honest in
/-- A thread at the end of its first frame goes out of it. -/
theorem Steady.wentOut (natives : Natives) (steady : machine.Steady allowed)
    (turn : machine.current = some number) (alive : machine.stopped = false)
    (stacked : machine.Stacked number ((id, frame) :: outer))
    (spent : frame.code? machine.script = none) : (machine.move natives).WentOut number frame outer := by
  cases outer with
  | nil =>
      rw [WentOut, steady.move_finishes natives turn alive stacked spent]
      exact congrFun (ThreadSet.find?_remove machine.threads number) number |>.trans
        (Function.update_self ..)
  | cons around outer =>
      obtain ⟨frames, _, _, still⟩ := steady.move_leaves natives turn alive stacked spent
      exact still

/-- The thread goes on after a break, and the frames that were ended have nothing left to execute. -/
theorem Steady.ready (steady : machine.Steady allowed) (turn : machine.current = some number)
    (alive : machine.stopped = false) {ended : CallStack} {places : List (FrameId × Nat)}
    (stacked : machine.Stacked number (ended ++ outer))
    (moved : machine.move natives = machine.broken places line) :
    (machine.move natives).Steady allowed ∧ (machine.move natives).current = some number ∧
      (machine.move natives).stopped = false ∧
      ∀ entry ∈ finished ended, entry.2.code? (machine.move natives).script = none := by
  refine ⟨steady.changes (move_changes own honest steady (steady.current_running turn)), ?_, ?_, ?_⟩
  · rw [moved]
    exact turn
  · rw [moved]
    exact alive
  · rw [moved]
    intro entry inside
    obtain ⟨first, there, rfl⟩ := List.mem_map.mp inside
    exact stacked.over steady first (List.mem_append_left _ there)

/-- From a break on, a thread goes through the ended frames to the one around them. -/
theorem Steady.goesOn (steady : machine.Steady allowed) (turn : machine.current = some number)
    (alive : machine.stopped = false) (resume : Option Nat)
    (stacked : machine.Stacked number (inner ++ last :: parent :: outer))
    (moved : machine.move natives =
      machine.broken ((inner ++ [last]).ending parent.1 resume) line)
    (still : (machine.move natives).Stacked number (finished (inner ++ [last]) ++
      (parent.1, { parent.2 with position := resume.getD parent.2.position }) :: outer))
    (mute : ∀ entry ∈ inner, entry.2.returnsResult = false) :
    Silences natives (machine.move natives) (inner ++ [last]) ∧ ∃ frames,
      GoesOn natives machine number line (inner ++ [last]) parent outer
        ({ parent.2 with position := resume.getD parent.2.position }.receive last.2) frames := by
  have distinct := stacked.nodup steady
  have shown : machine.frames.control? parent.1 = some parent.2 := by
    obtain ⟨_, _, whole⟩ := stacked
    exact whole.shown (by simp)
  rw [List.append_cons] at stacked
  obtain ⟨steady', turn', alive', spent⟩ := steady.ready own honest turn alive stacked moved
  have lives : ∀ entry ∈ finished (inner ++ [last]),
      (machine.move natives).frames.control? entry.1 = some entry.2 := by
    obtain ⟨_, _, whole⟩ := still
    exact fun entry inside => whole.shown (List.mem_append_left _ inside)
  have split : finished (inner ++ [last]) = finished inner ++ [(last.1, last.2.over)] := List.map_append
  have silent : ∀ entry ∈ finished inner, entry.2.returnsResult = false := by
    intro entry inside
    obtain ⟨first, there, rfl⟩ := List.mem_map.mp inside
    exact mute first there
  have names : (finished inner ++ [(last.1, last.2.over)]).map (·.1) = (inner ++ [last]).map (·.1) := by
    simp [finished, Function.comp_def]
  have counts : (inner ++ [last]).length = (finished inner).length + 1 := by simp [finished]
  rw [split, List.append_assoc, List.singleton_append] at still
  rw [split] at spent
  obtain ⟨frames, reached, sheds, after, drifts⟩ :=
    steady'.moves_leave own honest turn' alive' still spent silent
  have later := steady'.changes (drifts.path.changes own honest steady')
  have quiet := drifts.silences own honest steady' lives
  rw [← counts] at reached after later quiet
  rw [names] at sheds
  rw [reached] at quiet
  have target := (Function.iterate_succ_apply ..).trans reached
  rw [← Function.iterate_succ_apply] at after later
  rw [moved] at target sheds
  have turned := congrArg Machine.current target
  have lasts := congrArg Machine.stopped target
  have source := congrArg Machine.script target
  have unwound := sheds.unwound (distinct.sublist (by simp)) shown
  refine ⟨silences_of_finished (quiet fun entry inside now there => ?_), frames, target, unwound, after, ?_,
    fun ended => ?_⟩
  · refine (unwound.gone entry.1 ?_ now there).1
    rw [← names, ← split]
    exact List.mem_map.mpr ⟨entry, inside, rfl⟩
  · rw [next?_of_stacked (turned.trans turn) (lasts.trans alive) after, source]
    rfl
  · rw [Function.iterate_succ_apply']
    exact later.wentOut natives (turned.trans turn) (lasts.trans alive) after (by rw [source]; exact ended)

/-- From a break out to the root of a thread on, it goes through its frames and is done. -/
theorem Steady.isDone (steady : machine.Steady allowed) (turn : machine.current = some number)
    (alive : machine.stopped = false) (stacked : machine.Stacked number (inner ++ [last]))
    (moved : machine.move natives = machine.broken (finishes (inner ++ [last])) line)
    (still : (machine.move natives).Stacked number (finished (inner ++ [last])))
    (mute : ∀ entry ∈ inner, entry.2.returnsResult = false) :
    Silences natives (machine.move natives) (inner ++ [last]) ∧ ∃ frames,
      IsDone natives machine number line (inner ++ [last]) frames := by
  have distinct := stacked.nodup steady
  rw [← List.append_nil (inner ++ [last])] at stacked
  obtain ⟨steady', turn', alive', spent⟩ := steady.ready own honest turn alive stacked moved
  have lives : ∀ entry ∈ finished (inner ++ [last]),
      (machine.move natives).frames.control? entry.1 = some entry.2 := by
    obtain ⟨_, _, whole⟩ := still
    exact fun entry inside => whole.shown inside
  have split : finished (inner ++ [last]) = finished inner ++ [(last.1, last.2.over)] := List.map_append
  have silent : ∀ entry ∈ finished inner, entry.2.returnsResult = false := by
    intro entry inside
    obtain ⟨first, there, rfl⟩ := List.mem_map.mp inside
    exact mute first there
  have names : (finished inner ++ [(last.1, last.2.over)]).map (·.1) = (inner ++ [last]).map (·.1) := by
    simp [finished, Function.comp_def]
  have counts : (inner ++ [last]).length = (finished inner).length + 1 := by simp [finished]
  rw [split] at still spent
  obtain ⟨frames, reached, fades, drifts⟩ :=
    steady'.moves_end own honest turn' alive' still spent silent
  have quiet := drifts.silences own honest steady' lives
  rw [← counts] at reached quiet
  rw [names] at fades
  rw [reached] at quiet
  have target := (Function.iterate_succ_apply ..).trans reached
  rw [moved] at target fades
  have fades := fades.of_finishes distinct
  refine ⟨silences_of_finished (quiet fun entry inside now there => ?_), frames, target, fades⟩
  obtain ⟨_, _, _, retires, _⟩ := fades.old entry.1 now there
  refine retires ?_
  rw [← names, ← split]
  exact List.mem_map.mpr ⟨entry, inside, rfl⟩

end Outcomes

/-- While a thread executes, each frame of its stack was entered from the one around it. -/
theorem Reachable.entered (reachable : Reachable program limits machine)
    (turn : machine.current = some number) (stacked : machine.Stacked number stack)
    (next : machine.next? = some code) : stack.IsChain fun inner outer => ∃ caller count,
      Entered program limits machine number inner outer caller count := by
  have alive := not_stopped_of_next next
  obtain ⟨id, frame, outer, rfl⟩ : ∃ id frame outer, stack = (id, frame) :: outer := by
    obtain ⟨thread, found, whole⟩ := stacked
    obtain ⟨_, _, rfl, _⟩ := whole.cases_head
    exact ⟨_, _, _, rfl⟩
  exact (reachable.tidy alive stacked).isChain
    ((next?_of_stacked turn alive stacked).symm.trans next)

/-- Inside of a routine nothing asks for a result. -/
theorem mute_of_entered {around : FrameId × Frame}
    (chain : (inner ++ around :: outer).IsChain fun inner outer => ∃ caller count,
      Entered program limits machine number inner outer caller count)
    (inside : ∀ entry ∈ inner, entry.2.kind.isRoutine = false) :
    ∀ entry ∈ inner, entry.2.returnsResult = false := by
  intro entry among
  obtain ⟨outward, caller, count, entered⟩ := linked_of_mem chain entry among
  by_contra returns
  have function := entered.function (Bool.not_eq_false _ ▸ returns)
  have plain := inside entry among
  rw [function] at plain
  cases plain

/-- When a thread executes a break of a loop, and there is a loop block on the way out to a routine or to
the root and a frame around it, the frames out to that block never execute again. The thread leaves them
and goes on in the frame around them, after the instruction that follows the call, with the operands
that the call left. Otherwise the machine fails. When it executes a break of a routine, the frames out to
the first routine or to the root never execute again. With the root, the thread is done. Otherwise it
leaves them and goes on right after the call of the routine, with one more operand if the call asks for
the result. The break itself moves the frames in their code, and neither it nor the way out changes any
other frame or thread, or any slot. -/
theorem Reachable.breaks_unwind (reachable : Reachable program limits machine)
    (turn : machine.current = some number) (stacked : machine.Stacked number stack)
    (next : machine.next? = some code) (room : machine.hasRoom = true) :
    (code.instruction = .breakLoop →
      (∀ inner last parent outer, stack = inner ++ last :: parent :: outer → ToLoop inner last →
        machine.move program.natives = machine.broken
          ((inner ++ [last]).ending parent.1 (some (parent.2.position + 1))) code.line ∧
        Silences program.natives (machine.move program.natives) (inner ++ [last]) ∧
        ∃ caller count frames, Entered program limits machine number last parent caller count ∧
          GoesOn program.natives machine number code.line (inner ++ [last]) parent outer
            { parent.2 with
              position := caller.position + 2
              stack := caller.stack.drop count } frames) ∧
      ((∀ inner last parent outer, stack = inner ++ last :: parent :: outer → ¬ ToLoop inner last) →
        (machine.move program.natives).error = some .breakOutsideLoop ∧
        (machine.move program.natives).stopped = true)) ∧
    (code.instruction = .breakRoutine →
      ∃ inner last outer, stack = inner ++ last :: outer ∧ ToRoutine inner last outer ∧
        machine.move program.natives = machine.broken (finishes (inner ++ [last])) code.line ∧
        Silences program.natives (machine.move program.natives) (inner ++ [last]) ∧
        match outer with
        | [] => ∃ frames, IsDone program.natives machine number code.line (inner ++ [last]) frames
        | parent :: outer =>
          ∃ caller count frames, Entered program limits machine number last parent caller count ∧
            GoesOn program.natives machine number code.line (inner ++ [last]) parent outer
              { parent.2 with
                position := caller.position + 1
                stack := if last.2.returnsResult then last.2.result :: caller.stack.drop count
                  else caller.stack.drop count } frames) := by
  have own : ∀ error : MachineError, ¬ error.IsInternal → True := fun _ _ => trivial
  have honest : program.natives.Honest fun _ => True :=
    fun _ _ _ => Routine.honest_of_forall (fun _ => trivial) _
  have steady := reachable.steady own honest
  have alive := not_stopped_of_next next
  have chain := reachable.entered turn stacked next
  refine ⟨fun breaks => ⟨fun inner last parent outer same toLoop => ?_, fun missing => ?_⟩,
    fun breaks => ?_⟩
  · subst same
    have moved := steady.move_breakLoop program.natives turn next room stacked breaks toLoop
    have still := steady.stacked_breakLoop own honest turn room stacked next breaks toLoop
    have mute := mute_of_entered chain fun entry inside => (toLoop.inside entry inside).2
    obtain ⟨caller, count, entered⟩ := (List.isChain_cons_cons.mp chain.right_of_append).1
    obtain ⟨silences, frames, goes⟩ :=
      steady.goesOn own honest turn alive (some (parent.2.position + 1)) stacked moved still mute
    refine ⟨moved, silences, caller, count, frames, entered, ?_⟩
    have place : parent.2.position = caller.position + 1 := congrArg Frame.position entered.left
    have operands : parent.2.stack = caller.stack.drop count := congrArg Frame.stack entered.left
    have plain : last.2.returnsResult = false := by
      by_contra returns
      have function := entered.function (Bool.not_eq_false _ ▸ returns)
      rw [toLoop.loop] at function
      cases function
    rw [Frame.receive_of_mute _ plain, Option.getD_some, place] at goes
    rw [← operands]
    exact goes
  · exact steady.move_breakLoop_fails program.natives turn next room (reachable.candid own honest)
      stacked breaks
      missing
  · obtain ⟨inner, last, outer, rfl, toRoutine⟩ := exists_toRoutine stack (by
      rintro rfl
      obtain ⟨_, _, whole⟩ := stacked
      exact absurd whole.chain.length_pos (by simp))
    have moved := steady.move_breakRoutine program.natives turn next room stacked breaks toRoutine
    have still := steady.stacked_breakRoutine own honest turn room stacked next breaks toRoutine
    have mute := mute_of_entered chain toRoutine.inside
    refine ⟨inner, last, outer, rfl, toRoutine, moved, ?_⟩
    cases outer with
    | nil =>
        rw [List.append_nil] at still
        exact steady.isDone own honest turn alive stacked moved still mute
    | cons parent outer =>
        obtain ⟨caller, count, entered⟩ := (List.isChain_cons_cons.mp chain.right_of_append).1
        have place : parent.2.position = caller.position + 1 := congrArg Frame.position entered.left
        have operands : parent.2.stack = caller.stack.drop count := congrArg Frame.stack entered.left
        obtain ⟨silences, frames, goes⟩ := steady.goesOn own honest turn alive none stacked
          (by rw [moved, CallStack.ending, Option.toList_none, List.map_nil, List.append_nil]) still mute
        refine ⟨silences, caller, count, frames, entered, ?_⟩
        rw [← operands, ← place]
        unfold Frame.receive at goes
        split at goes
        · next returns =>
            rw [if_pos returns]
            exact goes
        · next mute =>
            rw [if_neg mute]
            exact goes

/-! A break in a block that is nested in a loop. -/

def escaping : Program where
  script := {
    blocks := #[
      { kind := .sub, level := 0
        codes := #[⟨1, .pushValue (.boolean true)⟩, ⟨2, .call (.block ⟨1⟩) 0⟩, ⟨3, .nop⟩, ⟨4, .pop⟩] },
      { kind := .loop, level := 1, codes := #[⟨6, .call (.block ⟨2⟩) 0⟩, ⟨7, .loopBack 0⟩] },
      { kind := .normal, level := 2, codes := #[⟨9, .breakLoop⟩, ⟨10, .nop⟩] }]
    main := some ⟨0⟩ }

/-- The machine as it begins its first tick. -/
def escapingBegun : Machine := ((escaping.machine {}).started ⟨0⟩ escaping.script.blocks[0]).begin

/-- The machine at the break. -/
def escapingReady : Machine := (Machine.move escaping.natives)^[4] escapingBegun

/-- The frames of the main thread at the break, outermost first. -/
def escapingFrames : Frame × Frame × Frame :=
  ({ Frame.activate none ⟨0⟩ escaping.script.blocks[0] [] with position := 2, stack := [some ⟨0⟩] },
    { Frame.activate (some ⟨0⟩) ⟨1⟩ escaping.script.blocks[1] [] with activation := 1, position := 1 },
    { Frame.activate (some ⟨1⟩) ⟨2⟩ escaping.script.blocks[2] [] with activation := 2 })

theorem breaks_unwind_escaping : Reachable escaping {} escapingReady ∧
    ∃ frames, GoesOn escaping.natives escapingReady ⟨0⟩ 9
      [(⟨2⟩, escapingFrames.2.2), (⟨1⟩, escapingFrames.2.1)] (⟨0⟩, escapingFrames.1) []
      { escapingFrames.1 with position := 3 } frames := by
  have begun : Reachable escaping {} escapingBegun := .step .initial (.start rfl)
  have reachable : Reachable escaping {} escapingReady := begun.iterate 4 (by decide +kernel)
  have stacked : escapingReady.Stacked ⟨0⟩ [(⟨2⟩, escapingFrames.2.2), (⟨1⟩, escapingFrames.2.1),
      (⟨0⟩, escapingFrames.1)] := by
    refine ⟨{ root := ⟨0⟩, current := ⟨2⟩, depth := 2 }, by decide +kernel, ?_⟩
    refine .inner (by decide +kernel) rfl (by decide) rfl ?_
    refine .inner (by decide +kernel) rfl (by decide) rfl ?_
    exact .root (by decide +kernel) rfl
  have turn : escapingReady.current = some ⟨0⟩ := by decide +kernel
  have next : escapingReady.next? = some ⟨9, .breakLoop⟩ := by
    rw [next?_of_stacked turn (by decide +kernel) stacked, reachable.script]
    rfl
  have toLoop : ToLoop [(⟨2⟩, escapingFrames.2.2)] (⟨1⟩, escapingFrames.2.1) :=
    ⟨rfl, List.forall_mem_singleton.mpr ⟨nofun, rfl⟩⟩
  obtain ⟨loop, _⟩ := reachable.breaks_unwind turn stacked next (by decide +kernel)
  obtain ⟨_, _, caller, count, frames, entered, goes⟩ := (loop rfl).1 _ _ _ _ rfl toLoop
  have place : 2 = caller.position + 1 := congrArg Frame.position entered.left
  have operands : [some ⟨0⟩] = caller.stack.drop count := congrArg Frame.stack entered.left
  rw [← operands, show caller.position + 2 = 3 by omega] at goes
  exact ⟨reachable, frames, goes⟩

end Machine

end CoopScript
