import CoopScript.Proofs.Actions.Keeping

/-!
What an action does to the count of instructions: nothing, but for the one action that counts.
-/

namespace CoopScript

namespace Machine

@[simp] theorem instructions_fail (machine : Machine) (error : MachineError) :
    (machine.fail error).instructions = machine.instructions := by
  unfold fail
  split <;> rfl

theorem instructions_closeThread (machine : Machine) (id : ThreadId) :
    (machine.closeThread id).2.instructions = machine.instructions := by
  unfold closeThread
  split <;> rfl

end Machine

namespace Action

variable {α : Type}

/-- The count of instructions is the same after the action, whether it has a result or fails. -/
class Uncounted (action : Action α) : Prop where
  ensures : ∀ count : Nat, action.Ensures (·.instructions = count)
    (fun _ after => after.instructions = count) fun _ after => after.instructions = count

/-- Whatever the count is, the action keeps it. -/
instance {action : Action α} [keeps : ∀ count, Keeps Machine.instructions (· = count) action] :
    Uncounted action := ⟨fun count => (keeps count).ensures⟩

end Action

/-! Native functions. -/

theorem Machine.instructions_enqueue (event : String) (arguments : List Value) (machine : Machine) :
    (machine.enqueue event arguments).2.instructions = machine.instructions := by
  unfold Machine.enqueue
  split
  · rfl
  · next id _ =>
      have uncounted : Action.Uncounted (Action.spawnHandler event id arguments) := inferInstance
      have kept := uncounted.ensures machine.instructions machine rfl
      split <;> next ran => rw [ran] at kept; exact kept

/-- No answer to a native function changes the count. -/
theorem Request.instructions_perform (request : Request) (machine : Machine) :
    (request.perform machine).2.instructions = machine.instructions := by
  cases request with
  | call event arguments => exact machine.instructions_enqueue event arguments
  | raise text => exact machine.instructions_fail _
  | terminate text => exact Machine.instructions_fail ..
  | close id => exact machine.instructions_closeThread id
  | overwrite target source =>
      simp only [perform]
      split <;> rfl
  | _ => rfl

theorem Routine.instructions_play {α : Type} (routine : Routine α) (machine : Machine) :
    (routine.play machine).2.instructions = machine.instructions := by
  induction routine generalizing machine with
  | done result => rfl
  | ask request next hypothesis =>
      exact (hypothesis _ _).trans (request.instructions_perform machine)

namespace Action

/-! Instructions. -/

variable {property : Nat → Prop}

instance (change : Heap → α × Heap) : Keeps Machine.instructions property (changeHeap change) :=
  keeps_modifyGet fun _ holds => holds

instance (datum : Datum) : Keeps Machine.instructions property (build datum) :=
  inferInstanceAs (Keeps _ _ (changeHeap _))

instance (body : Body) : Keeps Machine.instructions property (allocate body) :=
  inferInstanceAs (Keeps _ _ (changeHeap _))

instance (id : FrameId) (datum : Datum) :
    Keeps Machine.instructions property (pushDatum id datum) := by
  unfold pushDatum
  infer_instance

instance (target source : Value) :
    Keeps Machine.instructions property (writeThrough target source) := by
  unfold writeThrough
  have checks (machine : Machine) : Keeps Machine.instructions property (do
      match machine.heap.type? target, machine.heap.type? source with
      | some targetType, some sourceType =>
        let isEmptyArray (value : Value) : Bool :=
          match machine.heap.elements value with
          | .ok elements => elements.isEmpty
          | .error _ => false
        let compatible := targetType = sourceType || (targetType.isArray && sourceType.isArray &&
          (isEmptyArray target || isEmptyArray source))
        if !compatible then
          throw (.typeMismatch s!"cannot store {sourceType.display} into {targetType.display}")
      | _, _ => pure ()
      let id ← ofValueResult (machine.heap.overwritten target source)
      changeHeap fun heap => ((), heap.takeOver id source)) := by
    split <;> infer_instance
  infer_instance

instance (elements : List Value) :
    Keeps Machine.instructions property (constructArray elements) := by
  unfold constructArray
  split <;> infer_instance

instance (id : FrameId) (place : Variable) (forward : Bool) :
    Keeps Machine.instructions property (stepVariable id place forward) := by
  unfold stepVariable
  infer_instance

instance (id : FrameId) : Keeps Machine.instructions property (countLoop id) := by
  unfold countLoop
  infer_instance

instance (id : FrameId) : Keeps Machine.instructions property (iterateLoop id) := by
  have steps (array : Value) (position : Nat) : Keeps Machine.instructions property (do
      pushDatum id (.real (Float.ofNat position + 1.0))
      push id (← readHeap fun heap => heap.index array position)
      pushDatum id (.boolean true)) := inferInstance
  unfold iterateLoop
  infer_instance

instance (natives : Natives) (number : ThreadId) (id : FrameId) (native : NativeId) (count : Nat)
    (pushesResult : Bool) :
    Keeps Machine.instructions property
      (callNative natives number id native count pushesResult) := by
  unfold callNative
  have plays (routine : Routine (Except MachineError Value)) :
      Keeps Machine.instructions property
        (modifyGet routine.play : Action (Except MachineError Value)) :=
    keeps_modifyGet fun machine holds => (routine.instructions_play machine).symm ▸ holds
  infer_instance

instance (natives : Natives) (number : ThreadId) (id : FrameId) (callee : Callee) (count : Nat)
    (pushesResult : Bool) :
    Keeps Machine.instructions property (call natives number id callee count pushesResult) := by
  unfold call
  split <;> infer_instance

/-- An instruction is counted when it is fetched, and whatever it does is not. -/
instance (natives : Natives) (number : ThreadId) (id : FrameId) (instruction : Instruction) :
    Keeps Machine.instructions property (execute natives number id instruction) := by
  cases instruction <;>
    · unfold execute
      infer_instance

end Action

end CoopScript
