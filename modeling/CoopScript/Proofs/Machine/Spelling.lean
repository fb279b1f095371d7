import CoopScript.Proofs.Actions.Inline
import CoopScript.Proofs.Machine.Execution
import CoopScript.Proofs.Trees.Stepping

/-!
Assignments with an operator as one instruction and spelled out as several: the courses of both, move
by move.
-/

namespace CoopScript

/-! The instructions written out. -/

/-- The instructions that an inline instruction stands for. -/
def Instruction.spelled : Instruction → List Instruction
  | .inlineAssign operator place => [.pushVariable place, .swap, .arith operator, .assign place]
  | .inlineInc place => [.pushVariable place, .pushValue (.real 1.0), .arith .add, .assign place]
  | .inlineDec place => [.pushVariable place, .pushValue (.real 1.0), .arith .sub, .assign place]
  | instruction => [instruction]

/-- Stepping a variable forward or back. -/
def Instruction.inlineStep (forward : Bool) (place : Variable) : Instruction :=
  if forward then .inlineInc place else .inlineDec place

theorem Instruction.spelled_inlineStep (forward : Bool) (place : Variable) :
    (inlineStep forward place).spelled = [.pushVariable place, .pushValue (.real 1.0),
      .arith (if forward then .add else .sub), .assign place] := by
  cases forward <;> rfl

open FrameArena

namespace Machine

variable {machine after : Machine} {natives : Natives} {number : ThreadId} {entry : Thread}
  {frame : Frame} {instruction : Instruction} {steps line : Nat} {stack rest : List Value}
  {heap : Heap} {error : MachineError}

/-- The machine has stopped with this error. -/
structure Failed (machine : Machine) (error : MachineError) : Prop where
  stopped : machine.stopped = true
  error : machine.error = some error

theorem Failed.move (failed : machine.Failed error) : (machine.move natives).Failed error := by
  unfold Machine.move
  split
  · rw [if_pos failed.stopped]
    exact ⟨failed.stopped, failed.error⟩
  · next id _ =>
      have halts : (Action.advance natives id).run machine = .ok (some .halted) machine := by
        simp only [Action.advance, EStateM.run_bind, EStateM.run_get, failed.stopped, if_true]
        rfl
      rw [halts]
      exact ⟨failed.stopped, failed.error⟩

theorem Failed.iterate (failed : machine.Failed error) (count : Nat) :
    ((Machine.move natives)^[count] machine).Failed error := by
  induction count with
  | zero => exact failed
  | succ count hypothesis =>
      rw [Function.iterate_succ_apply']
      exact hypothesis.move

theorem failed_afterStep (clean : machine.error = none) :
    (afterStep number (.error error machine)).Failed error where
  stopped := stopped_fail machine error
  error := by
    show (machine.fail error).error = some error
    rw [error_fail, clean]
    rfl

/-- A machine whose current thread goes on in this frame, with room for so many instructions. -/
structure Ready (machine : Machine) (number : ThreadId) (entry : Thread) (frame : Frame)
    (room : Nat) : Prop where
  current : machine.current = some number
  found : machine.threads.find? number = some entry
  live : machine.frames.frame? entry.current = some frame
  going : machine.stopped = false
  clean : machine.error = none
  room : ∀ limit, machine.limits.instructionLimit = some limit → machine.instructions + room ≤ limit

/-- The script does not matter. -/
theorem Ready.of_script {room : Nat} (ready : machine.Ready number entry frame room)
    (script : Script) :
    { machine with script }.Ready number entry frame room where
  current := ready.current
  found := ready.found
  live := ready.live
  going := ready.going
  clean := ready.clean
  room := ready.room

theorem further_zero (live : machine.frames.frame? entry.current = some frame) :
    machine.further entry.current 0 machine.currentLine frame.stack machine.heap = machine := by
  have same : machine.frames.edit entry.current (.restacked 0 frame.stack) = machine.frames := by
    rw [edit_eq_set live]
    exact set_self live
  rw [further, same]
  rfl

/-- The next move of a machine that is ready runs the next instruction. -/
theorem Ready.move_further (natives : Natives) {room : Nat} (ready : machine.Ready number entry frame room)
    (enough : steps < room)
    (coded : (machine.code frame.block)[frame.position + steps]? = some instruction) :
    ∃ next, (machine.further entry.current steps line stack heap).move natives =
      afterStep number ((Action.execute natives number entry.current instruction).run
        (machine.further entry.current (steps + 1) next stack heap)) := by
  cases block : machine.script.block? frame.block with
  | none =>
      rw [code, block] at coded
      cases coded
  | some blocked =>
      simp only [code, block, List.getElem?_map, Array.getElem?_toList] at coded
      obtain ⟨there, listed, rfl⟩ := Option.map_eq_some_iff.mp coded
      refine ⟨there.line, ?_⟩
      have fetches : (Action.fetch entry.current).run
          (machine.further entry.current steps line stack heap) = .ok (some there.instruction)
            (machine.further entry.current (steps + 1) there.line stack heap) := by
        have position : (frame.restacked steps stack).position = frame.position + steps := rfl
        have passed : (machine.frames.edit entry.current (.restacked steps stack)).set entry.current
            { frame.restacked steps stack with position := frame.position + steps + 1 } =
              machine.frames.edit entry.current (.restacked (steps + 1) stack) := by
          rw [set_edit, edit_eq_set ready.live]
          rfl
        rw [Action.run_fetch (Action.frame?_further ready.live) block, position, listed]
        simp only [further, passed]
        cases limited : machine.limits.instructionLimit with
        | none => rfl
        | some limit =>
            have room := ready.room limit limited
            dsimp only
            rw [if_neg (by omega)]
            rfl
      have current : (machine.further entry.current steps line stack heap).current = some number :=
        ready.current
      have going : (machine.further entry.current steps line stack heap).stopped = false := ready.going
      simp only [move, current]
      exact congrArg (afterStep number) (run_advance natives going ready.found fetches)

/-- The first move of a machine that is ready. -/
theorem Ready.move (natives : Natives) {room : Nat}
    (ready : machine.Ready number entry frame (room + 1))
    (coded : (machine.code frame.block)[frame.position]? = some instruction) :
    ∃ line, machine.move natives =
      afterStep number ((Action.execute natives number entry.current instruction).run
        (machine.further entry.current 1 line frame.stack machine.heap)) := by
  obtain ⟨line, moved⟩ := ready.move_further natives (Nat.succ_pos room) coded
  refine ⟨line, Eq.trans ?_ moved⟩
  rw [further_zero ready.live]

/-! The courses of the instructions. -/

/-- Some instructions later the machine has failed as the outcome says, or a variable has a new value
with the tree that the outcome says. -/
inductive Ends (machine : Machine) (id : FrameId) (slot steps : Nat) (stack : List Value) (heap : Heap) :
    Except MachineError (FrameId × Datum) → Machine → Prop
  | failed {error : MachineError} {after : Machine} : after.Failed error →
      Ends machine id slot steps stack heap (.error error) after
  | done (line : Nat) {holder : FrameId} {datum : Datum} {after : Machine} :
      after = (machine.further id steps line stack heap).rebound datum holder slot →
      Ends machine id slot steps stack heap (.ok (holder, datum)) after

theorem Ends.failed_of_error {id : FrameId} {slot : Nat}
    (ends : machine.Ends id slot steps stack heap (.error error) after) : after.Failed error := by
  cases ends with
  | failed failed => exact failed

/-- What an operator makes of a variable and another operand. -/
def combination (machine : Machine) (heap : Heap) (id : FrameId) (operator : ArithOp)
    (place : Variable) (operand : Value) : Except MachineError (FrameId × Datum) := do
  let (holder, old) ← machine.frames.lookup id place
  return (holder, ← heap.arith operator old operand)

/-- What becomes of a variable that steps. -/
def successor (machine : Machine) (id : FrameId) (place : Variable) (forward : Bool) :
    Except MachineError (FrameId × Datum) := do
  let (holder, old) ← machine.frames.lookup id place
  return (holder, ← (machine.heap.surface old).step forward)

variable {operator : ArithOp} {place : Variable} {top : Value} {room : Nat}

theorem combination_of_lookup {id holder : FrameId} {old operand : Value}
    (found : machine.frames.lookup id place = .ok (holder, old)) :
    machine.combination heap id operator place operand =
      (heap.arith operator old operand).map (Prod.mk holder) := by
  rw [combination, found]
  simp only [bind, Except.bind]
  cases heap.arith operator old operand <;> rfl

theorem successor_of_lookup {id holder : FrameId} {old : Value} {forward : Bool}
    (found : machine.frames.lookup id place = .ok (holder, old)) :
    machine.successor id place forward =
      ((machine.heap.view old).step forward).map (Prod.mk holder) := by
  rw [successor, found, ← Heap.step_surface]
  simp only [bind, Except.bind]
  cases (machine.heap.surface old).step forward <;> rfl

theorem Ready.failed (natives : Natives) (ready : machine.Ready number entry frame room) (count : Nat) :
    ((Machine.move natives)^[count] (afterStep number
      (.error error (machine.further entry.current steps line stack heap)))).Failed error := by
  have clean : (machine.further entry.current steps line stack heap).error = none := ready.clean
  exact (failed_afterStep clean).iterate count

theorem Ready.inlineAssign (natives : Natives) (ready : machine.Ready number entry frame (room + 1))
    (coded : (machine.code frame.block)[frame.position]? = some (.inlineAssign operator place))
    (stacked : frame.stack = top :: rest) :
    machine.Ends entry.current place.slot 1 rest machine.heap
      (machine.combination machine.heap entry.current operator place top) (machine.move natives) := by
  obtain ⟨line, moved⟩ := ready.move natives coded
  rw [moved, stacked, Action.run_inlineAssign_further ready.live, combination]
  cases machine.frames.lookup entry.current place with
  | error error => exact .failed (ready.failed natives 0)
  | ok pair =>
      obtain ⟨holder, old⟩ := pair
      simp only [bind, Except.bind]
      cases machine.heap.arith operator old top with
      | error error => exact .failed (ready.failed natives 0)
      | ok datum => exact .done line rfl

theorem Ready.inlineStep (natives : Natives) (ready : machine.Ready number entry frame (room + 1))
    (forward : Bool)
    (coded : (machine.code frame.block)[frame.position]? = some (.inlineStep forward place)) :
    machine.Ends entry.current place.slot 1 frame.stack machine.heap
      (machine.successor entry.current place forward) (machine.move natives) := by
  obtain ⟨line, moved⟩ := ready.move natives coded
  have steps : Action.execute natives number entry.current (.inlineStep forward place) =
        (do Action.stepVariable entry.current place forward; return none) := by
    cases forward <;> rfl
  rw [moved, steps, EStateM.run_bind, Action.run_stepVariable_further, successor]
  cases machine.frames.lookup entry.current place with
  | error error => exact .failed (ready.failed natives 0)
  | ok pair =>
      obtain ⟨holder, old⟩ := pair
      simp only [bind, Except.bind]
      cases (machine.heap.surface old).step forward with
      | error error => exact .failed (ready.failed natives 0)
      | ok datum => exact .done line rfl

/-- The operator is applied and its result assigned. -/
theorem Ready.finish (natives : Natives) (ready : machine.Ready number entry frame room)
    (enough : steps + 1 < room) {first second : Value} {holder : FrameId} {old : Value}
    (found : machine.frames.lookup entry.current place = .ok (holder, old))
    (next : [.arith operator, .assign place] <+:
      (machine.code frame.block).drop (frame.position + steps))
    (begun : after = machine.further entry.current steps line (second :: first :: rest) heap) :
    machine.Ends entry.current place.slot (steps + 2) rest heap
      (do return (holder, ← heap.arith operator first second)) ((Machine.move natives)^[2] after) := by
  subst begun
  obtain ⟨coded, later⟩ := cons_prefix_drop next
  obtain ⟨line, moved⟩ := ready.move_further natives (Nat.lt_of_succ_lt enough) coded
  rw [Function.iterate_succ_apply, moved, Action.run_arith_further ready.live]
  cases heap.arith operator first second with
  | error error => exact .failed (ready.failed natives 1)
  | ok datum =>
      obtain ⟨last, ended⟩ := ready.move_further natives enough (cons_prefix_drop later).1
      refine .done last (ended.trans ?_)
      rw [Action.run_assign_further ready.live found]
      rfl

theorem Ready.spelledAssign (natives : Natives) (ready : machine.Ready number entry frame (room + 4))
    (next : (Instruction.inlineAssign operator place).spelled <+:
      (machine.code frame.block).drop frame.position)
    (stacked : frame.stack = top :: rest) :
    machine.Ends entry.current place.slot 4 rest machine.heap
      (machine.combination machine.heap entry.current operator place top)
      ((Machine.move natives)^[4] machine) := by
  obtain ⟨coded, later⟩ := cons_prefix_drop next
  obtain ⟨line, pushed⟩ := ready.move natives coded
  rw [Function.iterate_succ_apply, pushed, stacked, Action.run_pushVariable_further ready.live,
    combination]
  cases found : machine.frames.lookup entry.current place with
  | error error => exact .failed (ready.failed natives 3)
  | ok pair =>
      obtain ⟨holder, old⟩ := pair
      obtain ⟨coded, last⟩ := cons_prefix_drop later
      obtain ⟨swap, swapped⟩ := ready.move_further natives (Nat.lt_add_left room (by decide : 1 < 4)) coded
      rw [Action.run_swap_further ready.live] at swapped
      have done : (Machine.move natives)
          (machine.further entry.current 1 line (old :: top :: rest) machine.heap) =
            machine.further entry.current 2 swap (top :: old :: rest) machine.heap := swapped
      exact ready.finish natives (Nat.lt_add_left room (by decide : 3 < 4)) found last done

/-- The literal is a value of its own. -/
theorem Ready.spelledStep (natives : Natives) (ready : machine.Ready number entry frame (room + 4))
    (next : [.pushVariable place, .pushValue (.real 1.0), .arith operator, .assign place] <+:
      (machine.code frame.block).drop frame.position) :
    machine.Ends entry.current place.slot 4 frame.stack (Heap.build (.real 1.0) machine.heap).2
      (machine.combination (Heap.build (.real 1.0) machine.heap).2 entry.current operator place
        (Heap.build (.real 1.0) machine.heap).1)
      ((Machine.move natives)^[4] machine) := by
  obtain ⟨coded, later⟩ := cons_prefix_drop next
  obtain ⟨line, pushed⟩ := ready.move natives coded
  rw [Function.iterate_succ_apply, pushed, Action.run_pushVariable_further ready.live, combination]
  cases found : machine.frames.lookup entry.current place with
  | error error => exact .failed (ready.failed natives 3)
  | ok pair =>
      obtain ⟨holder, old⟩ := pair
      obtain ⟨coded, last⟩ := cons_prefix_drop later
      obtain ⟨push, literal⟩ := ready.move_further natives (Nat.lt_add_left room (by decide : 1 < 4)) coded
      rw [Action.run_pushValue_further ready.live] at literal
      have done : (Machine.move natives)
          (machine.further entry.current 1 line (old :: frame.stack) machine.heap) =
            machine.further entry.current 2 push
              ((Heap.build (.real 1.0) machine.heap).1 :: old :: frame.stack)
              (Heap.build (.real 1.0) machine.heap).2 := literal
      exact ready.finish natives (Nat.lt_add_left room (by decide : 3 < 4)) found last done

end Machine

end CoopScript
