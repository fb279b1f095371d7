import CoopScript.Proofs.Actions.Instructions
import CoopScript.Proofs.Frames.Stack

/-!
Modest actions: whether they have a result or fail, they change no more than slots and pins of
frames, but for the operands of one frame. Most instructions are modest in the frame that executes
them, and jumps change its position too.
-/

namespace CoopScript

open FrameArena

/-- A frame without what modest actions change. -/
def Frame.bare (frame : Frame) : Frame := { frame.control with stack := [] }

/-- A frame without what plain instructions change. -/
def Frame.fixed (frame : Frame) : Frame := { frame.control with stack := [], position := 0 }

/-- The instructions that look out along the frames of their thread. -/
def Instruction.unwinds : Instruction → Bool
  | .breakLoop => true
  | .breakRoutine => true
  | .setResult => true
  | _ => false

namespace Machine

/-- Of the control of frames, only one frame's may differ, and not what a view shows of it. Threads
and the line stay. -/
structure Alters (view : Frame → Frame) (id : FrameId) (before after : Machine) : Prop where
  line : after.currentLine = before.currentLine
  threads : after.threads = before.threads
  own : (after.frames.frame? id).map view = (before.frames.frame? id).map view
  others : ∀ other, other ≠ id → after.frames.control? other = before.frames.control? other

namespace Alters

variable {view : Frame → Frame} {id : FrameId} {first second third : Machine}

theorem refl (machine : Machine) : Alters view id machine machine :=
  ⟨rfl, rfl, rfl, fun _ _ => rfl⟩

theorem trans (early : Alters view id first second) (late : Alters view id second third) :
    Alters view id first third where
  line := late.line.trans early.line
  threads := late.threads.trans early.threads
  own := late.own.trans early.own
  others := fun other different => (late.others other different).trans (early.others other different)

/-- What one view shows, a blinder one shows as well. -/
theorem blind (alters : Alters view id first second) {blinder : Frame → Frame}
    (hides : ∀ frame, blinder (view frame) = blinder frame) : Alters blinder id first second where
  line := alters.line
  threads := alters.threads
  own := by
    have same := congrArg (Option.map blinder) alters.own
    simpa only [Option.map_map, Function.comp_def, hides] using same
  others := alters.others

/-- Of the frame itself, its control may differ as the view allows. -/
theorem setFrame {frame new : Frame} (found : first.frames.frame? id = some frame)
    (same : view new = view frame) :
    Alters view id first { first with frames := first.frames.set id new } where
  line := rfl
  threads := rfl
  own := by
    rw [frame?_set_self new (index_lt_of_frame? found), found, Option.map_some, Option.map_some, same]
  others := fun other different => by rw [control?_set found, if_neg different]

/-- Slots are no part of the control. -/
theorem setSlots {holder : FrameId} {frame new : Frame}
    (found : first.frames.frame? holder = some frame) (same : new.control = frame.control) :
    Alters Frame.bare id first { first with frames := first.frames.set holder new } where
  line := rfl
  threads := rfl
  own := by
    rw [frame?_set (index_lt_of_frame? found)]
    split
    · next here =>
        rw [here, found, Option.map_some, Option.map_some, Frame.bare, same, Frame.bare]
    · rfl
  others := by
    intro other _
    rw [control?_set found]
    split
    · next here => rw [here, control?_of_frame? found, same]
    · rfl

theorem of_eq {machine after : Machine} (line : after.currentLine = machine.currentLine)
    (threads : after.threads = machine.threads) (frames : after.frames = machine.frames) :
    Alters view id machine after := by
  refine ⟨line, threads, ?_, fun other _ => ?_⟩ <;> rw [frames]

end Alters

end Machine

namespace Action

open Machine (Alters)

variable {α β : Type} {id : FrameId}

/-- The action changes no more than operands of the given frame, slots and pins. -/
class Modest (id : FrameId) (action : Action α) : Prop where
  ensures : ∀ origin : Machine, action.Ensures (origin.Alters Frame.bare id)
    (fun _ => origin.Alters Frame.bare id) fun _ => origin.Alters Frame.bare id

theorem modest_of_run {action : Action α}
    (ran : ∀ machine, match action.run machine with
      | .ok _ after => machine.Alters Frame.bare id after
      | .error _ after => machine.Alters Frame.bare id after) : Modest id action where
  ensures := by
    intro origin machine early
    have late := ran machine
    cases run : action.run machine with
    | ok result after =>
        rw [run] at late
        exact early.trans late
    | error error after =>
        rw [run] at late
        exact early.trans late

instance (result : α) : Modest id (pure result : Action α) := ⟨fun _ => .pure fun _ holds => holds⟩

instance (error : MachineError) : Modest id (throw error : Action α) := ⟨fun _ => .throw fun _ holds => holds⟩

instance {action : Action α} {next : α → Action β} [first : Modest id action]
    [rest : ∀ result, Modest id (next result)] : Modest id (action >>= next) :=
  ⟨fun origin => (first.ensures origin).bind fun result => (rest result).ensures origin⟩

instance {condition : Prop} [Decidable condition] {first second : Action α} [Modest id first]
    [Modest id second] : Modest id (if condition then first else second) := by
  split <;> infer_instance

instance : Modest id (get : Action Machine) := ⟨fun _ => .get fun _ holds => holds⟩

instance (result : Except MachineError α) : Modest id (ofResult result) := by
  cases result with
  | ok found => exact inferInstanceAs (Modest id (pure found))
  | error error => exact inferInstanceAs (Modest id (throw error : Action α))

instance (result : Except ValueError α) : Modest id (ofValueResult result) :=
  inferInstanceAs (Modest id (ofResult _))

/-! Frames and their stacks. -/

instance (other : FrameId) : Modest id (frame other) := by
  unfold frame
  infer_instance

/-- An action that reads a frame and stores it with other operands. -/
theorem modest_restack (operate : Frame → Except MachineError (α × Frame))
    (same : ∀ frame result, operate frame = .ok result → result.2.bare = frame.bare) :
    Modest id (do
      let (result, frame) ← ofResult (operate (← frame id))
      setFrame id frame
      return result) := by
  refine modest_of_run fun machine => ?_
  simp only [frame, EStateM.run_bind, EStateM.run_get]
  cases found : machine.frames.get id with
  | error error => exact .refl machine
  | ok frame =>
      simp only [ofResult, EStateM.run_pure]
      cases operated : operate frame with
      | error error => exact .refl machine
      | ok result => exact .setFrame (get_eq_ok_iff.mp found) (same frame result operated)

instance : Modest id (pop id) := by
  refine modest_restack Frame.pop fun frame result popped => ?_
  unfold Frame.pop at popped
  split at popped <;> cases popped
  rfl

instance (count : Nat) : Modest id (popMany id count) := by
  refine modest_restack (fun frame => frame.popMany count) fun frame result popped => ?_
  unfold Frame.popMany at popped
  split at popped <;> cases popped
  rfl

instance (value : Value) : Modest id (push id value) := by
  refine modest_of_run fun machine => ?_
  simp only [push, frame, EStateM.run_bind, EStateM.run_get]
  cases found : machine.frames.get id with
  | error error => exact .refl machine
  | ok frame => exact .setFrame (get_eq_ok_iff.mp found) rfl

theorem modest_swap : Modest id (do
    setFrame id (← ofResult (← frame id).swap)
    return none : Action (Option Slice)) := by
  refine modest_of_run fun machine => ?_
  simp only [frame, EStateM.run_bind, EStateM.run_get]
  cases found : machine.frames.get id with
  | error error => exact .refl machine
  | ok frame =>
      simp only [ofResult, EStateM.run_pure]
      cases swapped : frame.swap with
      | error error => exact .refl machine
      | ok new =>
          refine .setFrame (get_eq_ok_iff.mp found) ?_
          unfold Frame.swap at swapped
          split at swapped <;> cases swapped
          rfl

instance : Modest id (peek id) := by
  unfold peek
  infer_instance

/-! Values. -/

instance (value : Value) : Modest id (surface value) := by
  unfold surface
  infer_instance

instance (value : Value) : Modest id (toReal value) := by
  unfold toReal
  infer_instance

instance (value : Value) : Modest id (toBoolean value) := by
  unfold toBoolean
  infer_instance

instance (read : Heap → Except ValueError α) : Modest id (readHeap read) := by
  unfold readHeap
  infer_instance

instance (change : Heap → α × Heap) : Modest id (changeHeap change) :=
  modest_of_run fun _ => .of_eq rfl rfl rfl

instance (datum : Datum) : Modest id (build datum) := inferInstanceAs (Modest id (changeHeap _))

instance (body : Body) : Modest id (allocate body) := inferInstanceAs (Modest id (changeHeap _))

instance : Modest id (popBoolean id) := by
  unfold popBoolean
  infer_instance

instance : Modest id (peekBoolean id) := by
  unfold peekBoolean
  infer_instance

instance (datum : Datum) : Modest id (pushDatum id datum) := by
  unfold pushDatum
  infer_instance

/-! Variables. -/

instance (place : Variable) : Modest id (holder id place) := by
  unfold holder
  infer_instance

instance (place : Variable) : Modest id (readSlot id place) := by
  unfold readSlot
  have reads (frame : Frame) : Modest id
      (match frame.slots[place.slot]? with
      | some value => return value
      | none => throw (.slotOutOfRange place.level place.slot) : Action Value) := by
    split <;> infer_instance
  infer_instance

instance (place : Variable) (value : Value) : Modest id (writeSlot id place value) := by
  have writes (holder : FrameId) : Modest id (do
      let frame ← frame holder
      if place.slot < frame.slots.size then
        setFrame holder { frame with slots := frame.slots.setIfInBounds place.slot value }
      else
        throw (.slotOutOfRange place.level place.slot)) := by
    refine modest_of_run fun machine => ?_
    simp only [frame, EStateM.run_bind, EStateM.run_get]
    cases found : machine.frames.get holder with
    | error error => exact .refl machine
    | ok frame =>
        simp only [ofResult, EStateM.run_pure]
        by_cases inside : place.slot < frame.slots.size
        · rw [if_pos inside]
          exact .setSlots (get_eq_ok_iff.mp found) rfl
        · rw [if_neg inside]
          exact .refl machine
  unfold writeSlot
  infer_instance

/-! Pieces of instructions. -/

instance (event : Event) : Modest id (log event) := modest_of_run fun _ => .of_eq rfl rfl rfl

instance (target source : Value) : Modest id (writeThrough target source) := by
  unfold writeThrough
  have checks (machine : Machine) : Modest id (do
      match machine.heap.type? target, machine.heap.type? source with
      | some targetType, some sourceType =>
        let isEmptyArray (value : Value) : Bool :=
          match machine.heap.elements value with
          | .ok elements => elements.isEmpty
          | .error _ => false
        let compatible := targetType = sourceType || (targetType.isArray && sourceType.isArray &&
          (isEmptyArray target || isEmptyArray source))
        if !compatible then
          throw (.typeMismatch s!"cannot store {sourceType.display} into {targetType.display}")
      | _, _ => pure ()
      let id ← ofValueResult (machine.heap.overwritten target source)
      changeHeap fun heap => ((), heap.takeOver id source)) := by
    split <;> infer_instance
  infer_instance

instance (elements : List Value) : Modest id (constructArray elements) := by
  unfold constructArray
  split <;> infer_instance

instance (place : Variable) (forward : Bool) : Modest id (stepVariable id place forward) := by
  unfold stepVariable
  infer_instance

instance : Modest id (countLoop id) := by
  unfold countLoop
  infer_instance

instance : Modest id (iterateLoop id) := by
  have steps (array : Value) (position : Nat) : Modest id (do
      pushDatum id (.real (Float.ofNat position + 1.0))
      push id (← readHeap fun heap => heap.index array position)
      pushDatum id (.boolean true)) := inferInstance
  unfold iterateLoop
  infer_instance

instance (natives : Natives) (native : NativeId) (count : Nat) :
    Modest id (prepareNative natives id native count) := by
  rcases prepareNative_cases natives id native count with
    missing | ⟨_, _, ⟨_, refused⟩ | prepares⟩
  · rw [missing]
    infer_instance
  · rw [refused]
    infer_instance
  · rw [prepares]
    infer_instance

instance (number : ThreadId) (pushesResult : Bool) (result : Except MachineError Value) :
    Modest id (concludeNative number id pushesResult result) := by
  unfold concludeNative
  infer_instance

/-! Instructions. -/

/-- A jump changes the position of the frame, and nothing at all where it fails. -/
theorem jump_alters (target : Nat) (origin : Machine) :
    (do jump id target; return none : Action (Option Slice)).Ensures (origin.Alters Frame.bare id)
      (fun _ => origin.Alters Frame.fixed id) fun _ => origin.Alters Frame.bare id := by
  intro machine early
  have moved : origin.Alters Frame.fixed id machine := early.blind fun _ => rfl
  simp only [jump, frame, EStateM.run_bind, EStateM.run_get]
  cases found : machine.frames.get id with
  | error error => exact early
  | ok frame =>
      simp only [ofResult, EStateM.run_pure]
      by_cases beyond : frame.finish < target
      · rw [if_pos beyond]
        exact early
      · rw [if_neg beyond]
        exact moved.trans (.setFrame (get_eq_ok_iff.mp found) rfl)

theorem Modest.alters {action : Action α} (modest : Modest id action) (origin : Machine) :
    action.Ensures (origin.Alters Frame.bare id) (fun _ => origin.Alters Frame.fixed id)
      fun _ => origin.Alters Frame.bare id :=
  (modest.ensures origin).weaken (fun _ holds => holds) (fun _ _ holds => holds.blind fun _ => rfl)
    fun _ _ holds => holds

/-- A condition is looked up before a jump. -/
theorem branch_alters (condition : Action Bool) [modest : Modest id condition] (takes : Bool → Bool)
    (target : Nat) (origin : Machine) :
    (do
      if takes (← condition) then jump id target
      return none : Action (Option Slice)).Ensures (origin.Alters Frame.bare id)
        (fun _ => origin.Alters Frame.fixed id) fun _ => origin.Alters Frame.bare id := by
  refine (modest.ensures origin).bind fun holds => ?_
  split
  · exact jump_alters target origin
  · exact Modest.alters inferInstance origin

/-- An instruction that neither calls nor unwinds keeps to the operands and the position of the frame
that executes it, and to the operands where it fails. -/
theorem execute_alters (natives : Natives) (number : ThreadId) {instruction : Instruction}
    (simple : instruction.call? = none) (plain : instruction.unwinds = false) (origin : Machine) :
    (execute natives number id instruction).Ensures (origin.Alters Frame.bare id)
      (fun _ => origin.Alters Frame.fixed id) fun _ => origin.Alters Frame.bare id := by
  cases instruction with
  | call callee arguments => cases simple
  | callAndPushResult callee arguments => cases simple
  | breakLoop => cases plain
  | breakRoutine => cases plain
  | setResult => cases plain
  | jump target => exact jump_alters target origin
  | jumpIf target => exact branch_alters (popBoolean id) (fun holds => holds) target origin
  | jumpIfNot target => exact branch_alters (popBoolean id) (fun holds => !holds) target origin
  | jumpIfNoPop target => exact branch_alters (peekBoolean id) (fun holds => holds) target origin
  | jumpIfNotNoPop target => exact branch_alters (peekBoolean id) (fun holds => !holds) target origin
  | loopBack target => exact jump_alters target origin
  | swap => exact modest_swap.alters origin
  | _ =>
      apply Modest.alters
      unfold execute
      infer_instance

end Action

end CoopScript
