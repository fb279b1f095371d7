import Mathlib.Data.List.Chain
import CoopScript.Proofs.Machine.Lineage
import CoopScript.Proofs.Machine.Stopping

/-!
Nested calls. While a thread executes, every frame around its current one is as it was left by the call
that made the frame inside it, but for its result. A break may have ended some of the inner frames,
which the thread then leaves.
-/

namespace CoopScript

open FrameArena MachineError
open CallStack (endRoutine endLoop withResult)

/-- A frame after an inner one has returned to it. -/
def Frame.receive (caller inner : Frame) : Frame :=
  if inner.returnsResult then caller.push inner.result else caller

/-- A frame that has passed a call which took some operands as its arguments. -/
def Frame.called (caller : Frame) (count : Nat) : Frame :=
  { caller.passed with stack := caller.stack.drop count }

/-- The call of a block that asks for a result or does not. -/
def Instruction.ofCall (block : BlockId) (count : Nat) (pushesResult : Bool) : Instruction :=
  if pushesResult then .callAndPushResult (.block block) count else .call (.block block) count

@[simp] theorem Instruction.call?_ofCall (block : BlockId) (count : Nat) (pushesResult : Bool) :
    (ofCall block count pushesResult).call? = some (.block block, count, pushesResult) := by
  cases pushesResult <;> rfl

theorem Instruction.eq_ofCall {instruction : Instruction} {block : BlockId} {count : Nat}
    {pushesResult : Bool} (called : instruction.call? = some (.block block, count, pushesResult)) :
    instruction = ofCall block count pushesResult := by
  cases instruction <;> simp_all [call?, ofCall]

section Receive

variable (caller inner : Frame)

@[simp] theorem Frame.block_receive : (caller.receive inner).block = caller.block := by
  unfold receive
  split <;> rfl

@[simp] theorem Frame.kind_receive : (caller.receive inner).kind = caller.kind := by
  unfold receive
  split <;> rfl

@[simp] theorem Frame.position_receive : (caller.receive inner).position = caller.position := by
  unfold receive
  split <;> rfl

@[simp] theorem Frame.activation_receive :
    (caller.receive inner).activation = caller.activation := by
  unfold receive
  split <;> rfl

@[simp] theorem Frame.returnsResult_receive :
    (caller.receive inner).returnsResult = caller.returnsResult := by
  unfold receive
  split <;> rfl

@[simp] theorem Frame.code?_receive (script : Script) :
    (caller.receive inner).code? script = caller.code? script := by
  simp only [code?, block_receive, position_receive]

theorem Frame.receive_of_mute {inner : Frame} (mute : inner.returnsResult = false) :
    caller.receive inner = caller := by
  rw [receive, mute]
  rfl

end Receive

namespace CallStack

variable {script : Script} {link other : FrameId × Frame → FrameId × Frame → Prop}
  {stack old new outer : CallStack} {id : FrameId} {frame changed : Frame} {value : Value}

/-- What a frame keeps while it executes. -/
def site (entry : FrameId × Frame) : FrameId × BlockId × BlockKind × Nat × Bool :=
  (entry.1, entry.2.block, entry.2.kind, entry.2.activation, entry.2.returnsResult)

/-- What a frame keeps while inner ones execute: everything but its result. -/
def stand (entry : FrameId × Frame) : FrameId × Frame := (entry.1, { entry.2 with result := none })

/-- It depends only on what its two frames keep whether the inner one was entered from the outer one. -/
def Steadfast (link : FrameId × Frame → FrameId × Frame → Prop) : Prop :=
  ∀ inner outer inner' outer', link inner outer → site inner' = site inner →
    stand outer' = stand outer → link inner' outer'

/-- Some frames are over, and the frames around them were entered one from the other. -/
def Tidy (script : Script) (link : FrameId × Frame → FrameId × Frame → Prop) (stack : CallStack) :
    Prop :=
  ∃ ended going, stack = ended ++ going ∧ (∀ entry ∈ ended, entry.2.code? script = none) ∧
    going.IsChain link

theorem site_of_stand {entry entry' : FrameId × Frame} (same : stand entry' = stand entry) :
    site entry' = site entry := by
  have kept (entry : FrameId × Frame) : site (stand entry) = site entry := rfl
  rw [← kept, same, kept]

theorem isChain_of_stands (steadfast : Steadfast link) (same : new.map stand = old.map stand)
    (chain : old.IsChain link) : new.IsChain link := by
  induction chain generalizing new with
  | nil =>
      cases List.map_eq_nil_iff.mp same
      exact .nil
  | singleton entry =>
      obtain ⟨_, _, rfl, _, rest⟩ := List.map_eq_cons_iff.mp same
      cases List.map_eq_nil_iff.mp rest
      exact .singleton _
  | cons_cons linked _ hypothesis =>
      obtain ⟨inner, further, rfl, here, rest⟩ := List.map_eq_cons_iff.mp same
      have later := hypothesis rest
      obtain ⟨outer, _, rfl, around, _⟩ := List.map_eq_cons_iff.mp rest
      exact .cons_cons (steadfast _ _ _ _ linked (site_of_stand here) around) later

/-- The first frame may be anywhere in its block. -/
theorem isChain_head (steadfast : Steadfast link) (chain : ((id, frame) :: outer).IsChain link)
    (same : site (id, changed) = site (id, frame)) : ((id, changed) :: outer).IsChain link := by
  cases chain with
  | singleton _ => exact .singleton _
  | cons_cons linked rest => exact .cons_cons (steadfast _ _ _ _ linked same rfl) rest

theorem tidy_of_isChain (chain : stack.IsChain link) : Tidy script link stack :=
  ⟨[], stack, rfl, nofun, chain⟩

theorem Tidy.imp (tidy : Tidy script link stack) (weaker : ∀ inner outer, link inner outer → other inner outer) :
    Tidy script other stack := by
  obtain ⟨ended, going, same, spent, chain⟩ := tidy
  exact ⟨ended, going, same, spent, chain.imp fun _ _ => weaker _ _⟩

/-- While a thread executes, no frame of its stack is over. -/
theorem Tidy.isChain {code : Code} (tidy : Tidy script link ((id, frame) :: outer))
    (coded : frame.code? script = some code) : ((id, frame) :: outer).IsChain link := by
  obtain ⟨ended, going, same, spent, chain⟩ := tidy
  cases ended with
  | nil => exact same ▸ chain
  | cons first rest =>
      cases (List.cons.inj same).1
      rw [spent _ List.mem_cons_self] at coded
      cases coded

theorem stands_withResult (sets : withResult value stack = some new) :
    new.map stand = stack.map stand := by
  induction stack generalizing new with
  | nil => cases sets
  | cons first rest hypothesis =>
      simp only [withResult] at sets
      split at sets
      · cases sets
        rfl
      · split at sets
        · cases sets
        · obtain ⟨changed, later, rfl⟩ := Option.map_eq_some_iff.mp sets
          rw [List.map_cons, List.map_cons, hypothesis later]

/-- A break of a routine ends the frames further in, and leaves the others as they are. -/
theorem endRoutine_split (stack : CallStack) : ∃ ended rest, stack = ended ++ rest ∧
    endRoutine stack = ended.map (fun entry => (entry.1, entry.2.over)) ++ rest := by
  induction stack with
  | nil => exact ⟨[], [], rfl, rfl⟩
  | cons first further hypothesis =>
      simp only [endRoutine]
      split
      · exact ⟨[first], further, rfl, rfl⟩
      · obtain ⟨ended, rest, same, changed⟩ := hypothesis
        exact ⟨first :: ended, rest, congrArg (first :: ·) same, by rw [changed]; rfl⟩

/-- A break of a loop ends the frames further in, and moves the one around them on. -/
theorem endLoop_split (ends : endLoop stack = some new) :
    ∃ ended parent caller rest, stack = ended ++ (parent, caller) :: rest ∧
      new = ended.map (fun entry => (entry.1, entry.2.over)) ++
        (parent, { caller with position := caller.position + 1 }) :: rest := by
  induction stack generalizing new with
  | nil => cases ends
  | cons first further hypothesis =>
      cases further with
      | nil => cases ends
      | cons second outer =>
          simp only [endLoop] at ends
          split at ends
          · cases ends
          · split at ends
            · cases ends
              exact ⟨[first], second.1, second.2, outer, rfl, rfl⟩
            · obtain ⟨changed, later, rfl⟩ := Option.map_eq_some_iff.mp ends
              obtain ⟨ended, parent, caller, rest, same, rfl⟩ := hypothesis later
              exact ⟨first :: ended, parent, caller, rest, congrArg (first :: ·) same, rfl⟩

/-- The frames that a break ends are spent, and those around them stay as they are. -/
theorem tidy_of_ended {ended rest : CallStack}
    (ends : ∀ entry ∈ ended, entry.2.over.code? script = none) (chain : rest.IsChain link) :
    Tidy script link (ended.map (fun entry => (entry.1, entry.2.over)) ++ rest) := by
  refine ⟨_, rest, rfl, fun entry inside => ?_, chain⟩
  obtain ⟨first, there, rfl⟩ := List.mem_map.mp inside
  exact ends first there

/-- A stride of a thread keeps its stack tidy, if the frame that a call makes is entered from the one
that called. -/
theorem Tidy.stride (tidy : Tidy script link old) (steadfast : Steadfast link)
    (stride : Stride script old new) (ends : ∀ entry ∈ old, entry.2.over.code? script = none)
    (enters : ∀ id caller rest child begun code count, old = (id, caller) :: rest →
      new = (child, begun) :: (id, caller.called count) :: rest →
      caller.code? script = some code →
      code.instruction = .ofCall begun.block count begun.returnsResult →
      (begun.returnsResult = true → begun.kind = .function) →
      link (child, begun) (id, caller.called count)) : Tidy script link new := by
  cases stride with
  | @execute id frame outer _ code coded effect =>
      have chain : ((id, frame.passed) :: outer).IsChain link :=
        isChain_head steadfast (tidy.isChain coded) rfl
      have spent : ∀ entry ∈ (id, frame.passed) :: outer, entry.2.over.code? script = none := by
        rw [List.forall_mem_cons] at ends ⊢
        exact ends
      generalize here : code.instruction = instruction at effect
      cases effect with
      | within _ => exact tidy_of_isChain (isChain_head steadfast chain rfl)
      | @setResult _ _ _ _ value operands _ sets =>
          refine tidy_of_isChain (isChain_of_stands steadfast (stands_withResult sets) ?_)
          exact isChain_head steadfast chain rfl
      | breakRoutine =>
          obtain ⟨ended, rest, same, changed⟩ := endRoutine_split ((id, frame.passed) :: outer)
          rw [changed]
          rw [same] at chain spent
          exact tidy_of_ended (fun entry inside => spent entry (List.mem_append_left _ inside))
            chain.right_of_append
      | breakLoop broken =>
          obtain ⟨ended, parent, caller, rest, same, rfl⟩ := endLoop_split broken
          rw [same] at chain spent
          refine tidy_of_ended (fun entry inside => spent entry (List.mem_append_left _ inside)) ?_
          exact isChain_head steadfast chain.right_of_append rfl
      | @call _ _ child _ _ callee block count serial pushesResult called named returns =>
          refine tidy_of_isChain (.cons_cons ?_ (isChain_head steadfast chain rfl))
          exact enters id frame outer child _ code count rfl rfl coded
            (here.trans (Instruction.eq_ofCall called)) returns
  | @leave id parent frame caller outer coded =>
      obtain ⟨ended, going, same, spent, chain⟩ := tidy
      have received {further : CallStack} (chain : ((parent, caller) :: further).IsChain link) :
          ((parent, caller.receive frame) :: further).IsChain link :=
        isChain_head steadfast chain (by simp [site])
      cases ended with
      | nil =>
          obtain rfl : (id, frame) :: (parent, caller) :: outer = going := same
          exact tidy_of_isChain (received chain.tail)
      | cons first rest =>
          obtain ⟨rfl, later⟩ := List.cons.inj same
          cases rest with
          | nil =>
              obtain rfl : (parent, caller) :: outer = going := later
              exact tidy_of_isChain (received chain)
          | cons second rest =>
              obtain ⟨rfl, rfl⟩ := List.cons.inj later
              refine ⟨(parent, caller.receive frame) :: rest, going, rfl, ?_, chain⟩
              rw [List.forall_mem_cons, List.forall_mem_cons] at spent
              exact List.forall_mem_cons.mpr
                ⟨(caller.code?_receive frame script).trans spent.2.1, spent.2.2⟩

end CallStack

namespace Machine

open CallStack (Tidy Steadfast site stand tidy_of_isChain)

variable {program : Program} {limits : Limits} {machine after : Machine} {number : ThreadId}
  {natives : Natives} {handed : List Value} {inner outer : FrameId × Frame} {caller : Frame}
  {count : Nat} {stack : CallStack}

/-- A thread entered one frame by a call in another, which is as the call has left it, but for its
result. Only functions are asked for a result. -/
structure Entered (program : Program) (limits : Limits) (machine : Machine) (number : ThreadId)
    (inner outer : FrameId × Frame) (caller : Frame) (count : Nat) : Prop where
  call : ∃ before line begun rest, Reachable program limits before ∧
    before.ExecutesIn number outer.1 ∧ before.Stacked number ((outer.1, caller) :: rest) ∧
    caller.code? program.script =
      some ⟨line, .ofCall inner.2.block count inner.2.returnsResult⟩ ∧
    (before.move program.natives).Stacked number
      ((inner.1, begun) :: (outer.1, caller.called count) :: rest) ∧
    begun.activation = inner.2.activation ∧ Path program.natives (before.move program.natives) machine
  left : outer.2 = { caller.called count with result := outer.2.result }
  function : inner.2.returnsResult = true → inner.2.kind = .function

theorem Entered.later (entered : Entered program limits machine number inner outer caller count)
    (path : Path program.natives machine after) :
    Entered program limits after number inner outer caller count := by
  obtain ⟨⟨before, line, begun, rest, reachable, turn, calls, coded, begins, serial, sofar⟩, left,
    function⟩ := entered
  exact ⟨⟨before, line, begun, rest, reachable, turn, calls, coded, begins, serial, sofar.trans path⟩,
    left, function⟩

theorem steadfast_entered : Steadfast fun inner outer => ∃ caller count,
    Entered program limits machine number inner outer caller count := by
  rintro ⟨id, inner⟩ ⟨around, outer⟩ ⟨id', inner'⟩ ⟨around', outer'⟩ ⟨caller, count, call, left, function⟩
    same stands
  obtain ⟨rfl, block, kind, activation, returns⟩ : id' = id ∧ inner'.block = inner.block ∧
      inner'.kind = inner.kind ∧ inner'.activation = inner.activation ∧
      inner'.returnsResult = inner.returnsResult := by simpa [site] using same
  obtain ⟨rfl, alike⟩ : around' = around ∧
      { outer' with result := none } = { outer with result := none } := by simpa [stand] using stands
  refine ⟨caller, count, ?_, ?_, ?_⟩
  · rw [block, returns, activation]
    exact call
  · have whole : outer' = { outer with result := outer'.result } :=
      congrArg (fun frame : Frame => { frame with result := outer'.result }) alike
    rw [whole]
    exact congrArg (fun frame : Frame => { frame with result := outer'.result }) left
  · rw [returns, kind]
    exact function

/-- A running machine can do nothing but move. -/
theorem Transition.eq_move (transition : Transition natives handed machine after)
    (running : machine.state = .running) : after = machine.move natives := by
  have begun : ¬ (machine.state = .suspended ∨ machine.state = .finished) := by simp [running]
  cases transition with
  | move _ => rfl
  | start started =>
      obtain ⟨idle, _⟩ := started_of_start started
      rw [running] at idle
      cases idle
  | tick rests _ => exact (begun rests).elim
  | deliver rests _ _ => exact (begun rests).elim
  | reject rests _ _ => exact (begun rests).elim
  | operate _ resting _ => exact (resting running).elim
  | clear resting => exact (resting running).elim

/-- A frame that is over has nothing left to execute. -/
theorem Stacked.over {allowed : MachineError → Prop} (stacked : machine.Stacked number stack)
    (steady : machine.Steady allowed) : ∀ entry ∈ stack,
      entry.2.over.code? machine.script = none := by
  intro entry inside
  obtain ⟨_, _, whole⟩ := stacked
  obtain ⟨held, live, same⟩ := control?_eq_some_iff.mp (whole.shown inside)
  obtain ⟨block, named, _, _, finish⟩ := steady.coherent.activates _ held live
  have ended : held.over.code? machine.script = none := by
    simp only [Frame.code?, Frame.over, named, Option.bind_some, finish]
    exact Array.getElem?_eq_none le_rfl
  rw [← same]
  exact ended

/-- The call stacks of a machine that goes on are tidy. -/
theorem Reachable.tidy (reachable : Reachable program limits machine)
    (alive : machine.stopped = false) (stacked : machine.Stacked number stack) :
    Tidy machine.script (fun inner outer => ∃ caller count,
      Entered program limits machine number inner outer caller count) stack := by
  have own : ∀ error : MachineError, ¬ error.IsInternal → True := fun _ _ => trivial
  have honest : program.natives.Honest fun _ => True :=
    fun _ _ _ => Routine.honest_of_forall (fun _ => trivial) _
  induction reachable generalizing stack with
  | initial =>
      obtain ⟨_, found, _⟩ := stacked
      cases found
  | @step machine after handed before transition hypothesis =>
      have steady := before.steady own honest
      have changes := transition.changes own honest steady
      have going := changes.sticks.going alive
      -- What was entered before is entered still.
      have keeps (inner outer : FrameId × Frame) : (∃ caller count,
          Entered program limits machine number inner outer caller count) → ∃ caller count,
            Entered program limits after number inner outer caller count := by
        rintro ⟨caller, count, entered⟩
        exact ⟨caller, count, entered.later (.single ⟨_, transition⟩)⟩
      rw [changes.script]
      cases transition.arises own honest steady alive stacked with
      | stays _ old => exact (hypothesis going old).imp keeps
      | begins _ => exact tidy_of_isChain (.singleton _)
      | strides turn old stride =>
          refine ((hypothesis going old).imp keeps).stride steadfast_entered stride (old.over steady) ?_
          rintro place caller rest child begun ⟨line, _⟩ count rfl rfl coded rfl function
          obtain rfl := transition.eq_move (steady.current_running turn)
          obtain ⟨thread, found, whole⟩ := id old
          obtain ⟨_, _, same, _⟩ := whole.cases_head
          obtain rfl : place = thread.current := congrArg Prod.fst (List.cons.inj same).1
          rw [before.script] at coded
          exact ⟨caller, count, ⟨machine, line, begun, rest, before,
            ⟨going, turn, thread, found, rfl⟩, old, coded, stacked, rfl, .refl⟩, rfl, function⟩

end Machine

end CoopScript
