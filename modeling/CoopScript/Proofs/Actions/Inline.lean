import CoopScript.Proofs.Actions.Calls
import CoopScript.Proofs.Actions.Runs
import CoopScript.Proofs.Frames.Places

/-!
What the instructions of an assignment with an operator do, written as one instruction or as
several: exactly, whether they go through or fail.
-/

namespace CoopScript

/-- The frame some instructions further, with another stack. -/
def Frame.restacked (steps : Nat) (stack : List Value) (frame : Frame) : Frame :=
  { frame with position := frame.position + steps, stack }

namespace FrameArena

/-- The frame that holds a variable as seen from a frame, and the value of the variable. -/
def lookup (arena : FrameArena) (id : FrameId) (place : Variable) :
    Except MachineError (FrameId × Value) := do
  let holder ← arena.resolve id place.level
  let frame ← arena.get holder
  match frame.slots[place.slot]? with
  | some value => return (holder, value)
  | none => throw (.slotOutOfRange place.level place.slot)

variable {arena after : FrameArena} {id own holder : FrameId} {place : Variable} {value : Value}
  {frame : Frame} {change : Frame → Frame}

theorem lookup_eq_ok_iff : arena.lookup id place = .ok (holder, value) ↔
    arena.resolve id place.level = .ok holder ∧
      arena.value? (.slot holder place.slot) = some value := by
  rw [lookup]
  cases arena.resolve id place.level with
  | error error =>
      constructor
      · rintro ⟨⟩
      · rintro ⟨⟨⟩, _⟩
  | ok found =>
      simp only [bind, Except.bind, pure, Except.pure, get, Except.ok.injEq, value?]
      constructor
      · cases held : arena.frame? found with
        | none => rintro ⟨⟩
        | some frame =>
            cases there : frame.slots[place.slot]? with
            | none =>
                simp only [there]
                rintro ⟨⟩
            | some other =>
                simp only [there]
                rintro ⟨⟩
                rw [held]
                exact ⟨rfl, there⟩
      · rintro ⟨rfl, there⟩
        obtain ⟨frame, held, there⟩ := Option.bind_eq_some_iff.mp there
        simp only [held, there]

/-- Where slots stay, variables are looked up alike. -/
theorem lookup_edit (skeleton : ∀ frame, (change frame).skeleton = frame.skeleton)
    (slots : ∀ frame, (change frame).slots = frame.slots) (arena : FrameArena) (own id : FrameId)
    (place : Variable) : (arena.edit own change).lookup id place = arena.lookup id place := by
  rw [lookup, lookup, resolve_of_skeleton (skeleton_edit skeleton arena own)]
  cases arena.resolve id place.level with
  | error error => rfl
  | ok holder =>
      simp only [bind, Except.bind, get, frame?_edit]
      by_cases same : holder = own
      · subst same
        rw [if_pos rfl]
        cases arena.frame? holder with
        | none => rfl
        | some frame => simp only [Option.map_some, slots]
      · rw [if_neg same]

theorem lookup_restacked (arena : FrameArena) (own : FrameId) (steps : Nat) (stack : List Value)
    (id : FrameId) (place : Variable) :
    (arena.edit own (.restacked steps stack)).lookup id place = arena.lookup id place := by
  apply lookup_edit
  · intro frame
    rfl
  · intro frame
    rfl

/-- Another stack lies in the places of operands alone. -/
theorem value?_restacked {other : Place} (beside : ∀ depth, other ≠ .operand id depth)
    (arena : FrameArena) (steps : Nat) (stack : List Value) :
    (arena.edit id (.restacked steps stack)).value? other = arena.value? other := by
  cases other with
  | slot own index =>
      simp only [value?, frame?_edit]
      split
      · next same =>
          subst same
          cases arena.frame? own <;> rfl
      · rfl
  | operand own depth =>
      have apart : own ≠ id := fun same => beside depth (same ▸ rfl)
      simp only [value?, frame?_edit, if_neg apart]
  | result own =>
      simp only [value?, frame?_edit]
      split
      · next same =>
          subst same
          cases arena.frame? own <;> rfl
      · rfl

theorem value?_restacked_operand (live : arena.frame? id = some frame) (steps depth : Nat)
    (stack : List Value) :
    (arena.edit id (.restacked steps stack)).value? (.operand id depth) = stack[depth]? := by
  rw [value?, frame?_edit_self live]
  rfl

/-- What is nowhere else occurs once when it is put in a slot. -/
theorem count_values_withSlot {index : Nat} {old : Value}
    (there : arena.value? (.slot id index) = some old) (absent : value ∉ arena.values) :
    (arena.edit id (.withSlot index value)).values.count value = 1 := by
  obtain ⟨frame, found, slot⟩ := Option.bind_eq_some_iff.mp there
  obtain ⟨inRange, _⟩ := Array.getElem?_eq_some_iff.mp slot
  have total := count_values_set found (frame.withSlot index value) value
  have outside : value ∉ frame.values := fun inside =>
    absent (mem_values_iff.mpr ⟨id, frame, found, inside⟩)
  have here : (frame.withSlot index value).values.count value = 1 := by
    have long : index < frame.slots.toList.length := inRange
    simp only [Frame.values, List.mem_append, not_or] at outside
    obtain ⟨⟨slots, operands⟩, result⟩ := outside
    simp only [Frame.values, Frame.withSlot, List.count_append, Array.toList_setIfInBounds]
    rw [List.count_set long, List.count_eq_zero_of_not_mem slots, Nat.zero_sub,
      List.count_eq_zero_of_not_mem operands, List.count_eq_zero_of_not_mem result,
      if_pos (beq_self_eq_true value)]
  rw [← edit_eq_set found] at total
  rw [here, List.count_eq_zero_of_not_mem absent, List.count_eq_zero_of_not_mem outside] at total
  exact total

end FrameArena

namespace Machine

open FrameArena

/-- Some instructions further in the code of a frame, the last of them on this line, with another
stack of the frame and another heap. -/
def further (machine : Machine) (id : FrameId) (steps line : Nat) (stack : List Value) (heap : Heap) :
    Machine :=
  { machine with
    heap
    currentLine := line
    instructions := machine.instructions + steps
    frames := machine.frames.edit id (.restacked steps stack) }

/-- With a new value in a slot. -/
def rebound (machine : Machine) (datum : Datum) (holder : FrameId) (slot : Nat) : Machine :=
  { machine with
    heap := (Heap.build datum machine.heap).2
    frames := machine.frames.edit holder (.withSlot slot (Heap.build datum machine.heap).1) }

end Machine

namespace Action

open FrameArena

variable {machine : Machine} {natives : Natives} {number : ThreadId} {id : FrameId} {frame : Frame}
  {steps line : Nat} {stack rest : List Value} {heap : Heap} {value top old : Value}
  {place : Variable} {holder : FrameId}

/-! The parts of the instructions, on a machine that is further in the code of a frame. -/

theorem run_readSlot_further : (readSlot id place).run (machine.further id steps line stack heap) =
    match machine.frames.lookup id place with
    | .ok (_, value) => .ok value (machine.further id steps line stack heap)
    | .error error => .error error (machine.further id steps line stack heap) := by
  have same : (machine.further id steps line stack heap).frames.lookup id place =
      machine.frames.lookup id place := lookup_restacked ..
  rw [← same]
  generalize machine.further id steps line stack heap = after
  simp only [readSlot, Action.holder, Action.frame, EStateM.run_bind, EStateM.run_get, lookup]
  cases after.frames.resolve id place.level with
  | error error => rfl
  | ok holder =>
      simp only [ofResult, EStateM.run_pure, bind, Except.bind]
      cases after.frames.get holder with
      | error error => rfl
      | ok frame =>
          simp only [EStateM.run_pure]
          cases frame.slots[place.slot]? <;> rfl

theorem run_build_further (datum : Datum) :
    (build datum).run (machine.further id steps line stack heap) =
      .ok (Heap.build datum heap).1
        (machine.further id steps line stack (Heap.build datum heap).2) := rfl

variable (live : machine.frames.frame? id = some frame)

include live

theorem frame?_further : (machine.further id steps line stack heap).frames.frame? id =
    some (frame.restacked steps stack) := frame?_edit_self live _

theorem further_set (further : List Value) :
    { machine.further id steps line stack heap with
      frames := (machine.further id steps line stack heap).frames.set id
        (frame.restacked steps further) } = machine.further id steps line further heap := by
  simp only [Machine.further, edit_eq_set live, set_set]

theorem run_push_further : (push id value).run (machine.further id steps line stack heap) =
    .ok () (machine.further id steps line (value :: stack) heap) := by
  simp only [push, EStateM.run_bind, run_frame (frame?_further live), run_setFrame]
  exact congrArg _ (further_set live (value :: stack))

theorem run_pop_further : (pop id).run (machine.further id steps line (value :: stack) heap) =
    .ok value (machine.further id steps line stack heap) := by
  simp only [pop, EStateM.run_bind, run_frame (frame?_further live)]
  exact congrArg _ (further_set live stack)

omit live in
/-- A slot that was looked up can be written to. -/
theorem run_writeSlot_of_lookup (found : machine.frames.lookup id place = .ok (holder, old)) :
    (writeSlot id place value).run machine = .ok () { machine with
      frames := machine.frames.edit holder (.withSlot place.slot value) } := by
  obtain ⟨resolved, there⟩ := lookup_eq_ok_iff.mp found
  obtain ⟨held, alive, slot⟩ := Option.bind_eq_some_iff.mp there
  obtain ⟨inRange, _⟩ := Array.getElem?_eq_some_iff.mp slot
  simp only [writeSlot, Action.holder, EStateM.run_bind, EStateM.run_get, resolved, ofResult,
    EStateM.run_pure, run_frame alive, if_pos inRange, run_setFrame, edit_eq_set alive]
  rfl

omit live in
theorem lookup_further : (machine.further id steps line stack heap).frames.lookup id place =
    machine.frames.lookup id place := lookup_restacked ..

/-! The instructions. -/

omit live in
theorem run_readSlot_then {α : Type} (next : Value → Action α) :
    (readSlot id place >>= next).run (machine.further id steps line stack heap) =
      match machine.frames.lookup id place with
      | .ok (_, value) => (next value).run (machine.further id steps line stack heap)
      | .error error => .error error (machine.further id steps line stack heap) := by
  rw [EStateM.run_bind, run_readSlot_further]
  cases machine.frames.lookup id place <;> rfl

theorem run_pushVariable_further :
    (execute natives number id (.pushVariable place)).run (machine.further id steps line stack heap) =
      match machine.frames.lookup id place with
      | .ok (_, value) => .ok none (machine.further id steps line (value :: stack) heap)
      | .error error => .error error (machine.further id steps line stack heap) := by
  simp only [execute, run_readSlot_then]
  cases machine.frames.lookup id place with
  | error error => rfl
  | ok pair =>
      simp only [EStateM.run_bind, run_push_further live]
      rfl

theorem run_pushValue_further (literal : Datum) :
    (execute natives number id (.pushValue literal)).run (machine.further id steps line stack heap) =
      .ok none (machine.further id steps line ((Heap.build literal heap).1 :: stack)
        (Heap.build literal heap).2) := by
  simp only [execute, pushDatum, EStateM.run_bind, run_build_further, run_push_further live]
  rfl

theorem run_swap_further {first second : Value} :
    (execute natives number id .swap).run
        (machine.further id steps line (first :: second :: rest) heap) =
      .ok none (machine.further id steps line (second :: first :: rest) heap) := by
  simp only [execute, EStateM.run_bind, run_frame (frame?_further live), Frame.swap, Frame.restacked,
    ofResult, EStateM.run_pure, run_setFrame]
  exact congrArg _ (further_set live (second :: first :: rest))

theorem run_arith_further (operator : ArithOp) {first second : Value} :
    (execute natives number id (.arith operator)).run
        (machine.further id steps line (second :: first :: rest) heap) =
      match heap.arith operator first second with
      | .ok datum => .ok none (machine.further id steps line ((Heap.build datum heap).1 :: rest)
          (Heap.build datum heap).2)
      | .error error => .error error (machine.further id steps line rest heap) := by
  simp only [execute, pushDatum, EStateM.run_bind, run_pop_further live, EStateM.run_get]
  have same : (machine.further id steps line rest heap).heap = heap := rfl
  rw [same]
  cases heap.arith operator first second with
  | error error => rfl
  | ok datum =>
      simp only [ofResult, EStateM.run_pure, run_build_further, run_push_further live]

theorem run_assign_further (found : machine.frames.lookup id place = .ok (holder, old)) :
    (execute natives number id (.assign place)).run
        (machine.further id steps line (value :: rest) heap) =
      .ok none { machine.further id steps line rest heap with
        frames := (machine.further id steps line rest heap).frames.edit holder
          (.withSlot place.slot value) } := by
  simp only [execute, EStateM.run_bind, run_pop_further live,
    run_writeSlot_of_lookup (lookup_further.trans found)]
  rfl

theorem run_inlineAssign_further (operator : ArithOp) :
    (execute natives number id (.inlineAssign operator place)).run
        (machine.further id steps line (top :: rest) heap) =
      match machine.frames.lookup id place with
      | .ok (holder, old) =>
        match heap.arith operator old top with
        | .ok datum => .ok none ((machine.further id steps line rest heap).rebound datum holder place.slot)
        | .error error => .error error (machine.further id steps line rest heap)
      | .error error => .error error (machine.further id steps line rest heap) := by
  rw [execute, EStateM.run_bind, run_pop_further live]
  simp only [run_readSlot_then]
  cases found : machine.frames.lookup id place with
  | error error => rfl
  | ok pair =>
      obtain ⟨holder, old⟩ := pair
      simp only [EStateM.run_bind, EStateM.run_get]
      have same : (machine.further id steps line rest heap).heap = heap := rfl
      rw [same]
      cases heap.arith operator old top with
      | error error => rfl
      | ok datum =>
          simp only [ofResult, EStateM.run_pure, run_build_further,
            run_writeSlot_of_lookup (lookup_further.trans found)]
          rfl

omit live in
theorem run_stepVariable_further (forward : Bool) :
    (stepVariable id place forward).run (machine.further id steps line stack heap) =
      match machine.frames.lookup id place with
      | .ok (holder, old) =>
        match (heap.surface old).step forward with
        | .ok datum => .ok () ((machine.further id steps line stack heap).rebound datum holder place.slot)
        | .error error => .error error (machine.further id steps line stack heap)
      | .error error => .error error (machine.further id steps line stack heap) := by
  simp only [stepVariable, run_readSlot_then]
  cases found : machine.frames.lookup id place with
  | error error => rfl
  | ok pair =>
      obtain ⟨holder, old⟩ := pair
      simp only [surface, EStateM.run_bind, EStateM.run_get, EStateM.run_pure]
      have same : (machine.further id steps line stack heap).heap = heap := rfl
      rw [same]
      cases (heap.surface old).step forward with
      | error error => rfl
      | ok datum =>
          simp only [ofResult, EStateM.run_pure, run_build_further,
            run_writeSlot_of_lookup (lookup_further.trans found)]
          rfl

end Action

end CoopScript
