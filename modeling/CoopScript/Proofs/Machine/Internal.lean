import CoopScript.Machine.Thread
import CoopScript.Operator

/-!
The errors that tell of an inconsistency within the machine, and who never makes one.
-/

namespace CoopScript

/-- The error names a frame or a thread that is gone, or a frame that nothing called. -/
inductive MachineError.IsInternal : MachineError → Prop
  | frameNotLive (id : FrameId) : IsInternal (.frameNotLive id)
  | threadGone (id : ThreadId) : IsInternal (.threadGone id)
  | frameWithoutCaller (id : FrameId) : IsInternal (.frameWithoutCaller id)

namespace MachineError

/-- Internal errors are among those of the machine at runtime. -/
theorem IsInternal.runtime {error : MachineError} (internal : error.IsInternal) :
    ∃ description, error = .runtime description := by
  cases internal <;> exact ⟨_, rfl⟩

def isRuntime : MachineError → Bool
  | .runtime _ => true
  | _ => false

/-- No other error is an internal one. -/
theorem not_isInternal {error : MachineError} (other : error.isRuntime = false) :
    ¬ error.IsInternal := by
  intro internal
  obtain ⟨description, same⟩ := internal.runtime
  subst same
  cases other

/-- Every internal error begins with the kind of thing that is gone. -/
theorem IsInternal.description {description : String}
    (internal : (MachineError.runtime description).IsInternal) :
    ∃ rest, description.toList = 'f' :: rest ∨ description.toList = 't' :: rest := by
  generalize same : MachineError.runtime description = error at internal
  cases internal with
  | frameNotLive id =>
      obtain rfl := MachineError.runtime.inj same
      exact ⟨_, .inl (by simp only [String.toList_append]; rfl)⟩
  | threadGone id =>
      obtain rfl := MachineError.runtime.inj same
      exact ⟨_, .inr (by simp only [String.toList_append]; rfl)⟩
  | frameWithoutCaller id =>
      obtain rfl := MachineError.runtime.inj same
      exact ⟨_, .inl (by simp only [String.toList_append]; rfl)⟩

theorem not_isInternal_resultOutside :
    ¬ (MachineError.runtime "result set outside of a function").IsInternal := by
  intro internal
  obtain ⟨rest, first | first⟩ := internal.description <;> simp at first

/-- A result that is no internal error. -/
def Sane {α : Type} (result : Except MachineError α) : Prop :=
  ∀ error, result = .error error → ¬ error.IsInternal

namespace Sane

variable {α β : Type}

@[simp] theorem ok (result : α) : Sane (.ok result) := nofun

@[simp] theorem pure (result : α) : Sane (Pure.pure result) := nofun

theorem error {error : MachineError} (sane : ¬ error.IsInternal) :
    Sane (.error error : Except MachineError α) := by
  intro _ equal
  cases equal
  exact sane

theorem bind {result : Except MachineError α} {next : α → Except MachineError β}
    (first : Sane result) (rest : ∀ found, Sane (next found)) : Sane (result >>= next) := by
  cases result with
  | ok found => exact rest found
  | error cause => exact error (first cause rfl)

theorem ofValueResult (result : Except ValueError α) : Sane (ofValueResult result) := by
  cases result with
  | ok found => exact ok found
  | error cause => exact error (not_isInternal rfl)

end Sane

end MachineError

/-! The operators on values. -/

namespace Datum

open MachineError (Sane not_isInternal)

theorem collect_sane (type : Ty) (results : List Datum) : Sane (collect type results) :=
  .ofValueResult _

mutual

theorem arith_sane (operator : ArithOp) (left right : Datum) :
    Sane (arith operator left right) := by
  cases left with
  | array type elements =>
      cases right with
      | array otherType others =>
          rw [arith]
          split
          · exact .error (not_isInternal rfl)
          · exact (arithAll_sane operator elements others).bind fun _ => collect_sane _ _
      | _ =>
          rw [arith]
          · exact .error (not_isInternal rfl)
          · nofun
  | _ =>
      cases right with
      | array _ _ =>
          rw [arith]
          · exact .error (not_isInternal rfl)
          · nofun
      | _ =>
          rw [arith]
          · exact (Sane.ofValueResult _).bind fun _ => (Sane.ofValueResult _).bind fun _ => .pure _
          all_goals nofun

theorem arithAll_sane (operator : ArithOp) (left right : List Datum) :
    Sane (arithAll operator left right) := by
  cases left with
  | nil => exact .ok _
  | cons first rest =>
      cases right with
      | nil => exact .ok _
      | cons other others =>
          rw [arithAll]
          exact (arith_sane operator first other).bind fun _ =>
            (arithAll_sane operator rest others).bind fun _ => .pure _

end

mutual

theorem unary_sane (operator : UnaryOp) (operand : Datum) : Sane (unary operator operand) := by
  cases operand with
  | array type elements =>
      cases operator with
      | not => exact .error (not_isInternal rfl)
      | _ => exact (unaryAll_sane _ elements).bind fun _ => collect_sane _ _
  | _ => cases operator <;> exact (Sane.ofValueResult _).bind fun _ => .pure _

theorem unaryAll_sane (operator : UnaryOp) (operands : List Datum) :
    Sane (unaryAll operator operands) := by
  cases operands with
  | nil => exact .ok _
  | cons first rest =>
      exact (unary_sane operator first).bind fun _ =>
        (unaryAll_sane operator rest).bind fun _ => .pure _

end

theorem step_sane (forward : Bool) (datum : Datum) : Sane (datum.step forward) := by
  unfold step
  split
  · exact .error (not_isInternal rfl)
  · next character =>
      extract_lets code
      cases if 0 ≤ code then Scalar.charAt? code.toNat else none with
      | some next => exact .ok _
      | none => exact .error (not_isInternal rfl)
  · exact (Sane.ofValueResult _).bind fun _ => .pure _

theorem position_sane (datum : Datum) : Sane datum.position := by
  refine (Sane.ofValueResult _).bind fun number => ?_
  split
  · exact .error (not_isInternal rfl)
  · exact .pure _

end Datum

theorem Heap.arith_sane (heap : Heap) (operator : ArithOp) (left right : Value) :
    MachineError.Sane (heap.arith operator left right) :=
  heap.arith_eq operator left right ▸ Datum.arith_sane operator _ _

theorem Heap.unary_sane (heap : Heap) (operator : UnaryOp) (value : Value) :
    MachineError.Sane (heap.unary operator value) :=
  heap.unary_eq operator value ▸ Datum.unary_sane operator _

end CoopScript
