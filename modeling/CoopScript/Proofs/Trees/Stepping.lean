import CoopScript.Operator
import CoopScript.Proofs.Heap.Reading
import CoopScript.Proofs.Number.Order

/-!
Steps of values. A character steps among the code points; whatever else steps does so as one is added
to it or taken from it.
-/

namespace CoopScript

theorem Scalar.charAt?_eq_some_iff {code : Nat} {next : Char} :
    charAt? code = some next ↔ next.toNat = code := by
  unfold charAt?
  split
  · next valid =>
      rw [Option.some.injEq]
      constructor
      · rintro rfl
        rw [Char.ofNat, dif_pos valid]
        rfl
      · rintro rfl
        exact Char.ofNat_toNat next
  · next invalid =>
      refine iff_of_false (Option.some_ne_none next).symm ?_
      rintro rfl
      exact invalid next.valid

namespace Datum

/-- A character steps to its neighbour among the code points, if that is a character. -/
theorem step_char (type : Ty) (character : Char) (forward : Bool) :
    let code : Int := character.toNat + (if forward then 1 else -1)
    (∃ next : Char, next.toNat = code ∧
      (scalar type (.char character)).step forward = .ok (.char next)) ∨
    ((∀ next : Char, (next.toNat : Int) ≠ code) ∧
      ∃ error, (scalar type (.char character)).step forward = .error error) := by
  intro code
  have steps : (scalar type (.char character)).step forward =
      (if 0 ≤ code then Scalar.charAt? code.toNat else none).elim
        (.error (.typeMismatch s!"no char at code point {code}")) fun next => .ok (.char next) := by
    rw [step]
    cases if 0 ≤ code then Scalar.charAt? code.toNat else none <;> rfl
  cases found : if 0 ≤ code then Scalar.charAt? code.toNat else none with
  | some next =>
      rw [steps, found]
      refine .inl ⟨next, ?_, rfl⟩
      split at found
      · next positive =>
          rw [Scalar.charAt?_eq_some_iff.mp found, Int.toNat_of_nonneg positive]
      · cases found
  | none =>
      rw [steps, found]
      refine .inr ⟨fun next same => ?_, _, rfl⟩
      rw [if_pos (same ▸ Int.natCast_nonneg _), ← same] at found
      have there : Scalar.charAt? next.toNat = some next := Scalar.charAt?_eq_some_iff.mpr rfl
      cases there.symm.trans found

/-- Whatever is no character steps as one is added to or taken from it. -/
theorem step_agrees (datum : Datum) (forward : Bool)
    (other : ∀ type character, datum ≠ .scalar type (.char character)) :
    (∃ result, datum.step forward = .ok (.real result) ∧
      arith (if forward then .add else .sub) datum (.real 1.0) = .ok (.real result)) ∨
    ((∃ error, datum.step forward = .error error) ∧
      ∃ error, arith (if forward then .add else .sub) datum (.real 1.0) = .error error) := by
  cases datum with
  | empty => exact .inr ⟨⟨_, rfl⟩, _, rfl⟩
  | array type elements => exact .inr ⟨⟨_, rfl⟩, _, rfl⟩
  | scalar type payload =>
      cases payload with
      | char character => exact absurd rfl (other type character)
      | real number =>
          refine .inl ⟨_, rfl, ?_⟩
          cases forward with
          | true => rfl
          | false => exact congrArg (Except.ok ∘ Datum.real) (Binary64.add_neg_one number).symm
      | boolean value =>
          refine .inl ⟨_, rfl, ?_⟩
          cases forward with
          | true => rfl
          | false => exact congrArg (Except.ok ∘ Datum.real) (Binary64.add_neg_one _).symm

theorem makeArray_ne_empty (type : Ty) (elements : List Datum) :
    makeArray type elements ≠ .ok .empty := by
  intro made
  unfold makeArray at made
  split at made
  · cases made
  · obtain ⟨_, _, made⟩ := exists_of_bind_eq_ok made
    cases made

theorem collect_ne_empty (type : Ty) (results : List Datum) : collect type results ≠ .ok .empty := by
  intro made
  unfold collect MachineError.ofValueResult at made
  extract_lets own at made
  cases array : makeArray own results with
  | ok result =>
      rw [array] at made
      cases made
      exact makeArray_ne_empty own results array
  | error cause =>
      rw [array] at made
      cases made

theorem arith_ne_empty {operator : ArithOp} {left right result : Datum}
    (made : arith operator left right = .ok result) : result ≠ .empty := by
  rintro rfl
  cases left with
  | array leftType lefts =>
      cases right with
      | array rightType rights =>
          rw [arith] at made
          split at made
          · cases made
          · obtain ⟨results, _, made⟩ := exists_of_bind_eq_ok made
            exact collect_ne_empty _ _ made
      | _ => cases made
  | _ =>
      cases right with
      | array rightType rights => cases made
      | _ =>
          obtain ⟨_, _, made⟩ := exists_of_bind_eq_ok made
          obtain ⟨_, _, made⟩ := exists_of_bind_eq_ok made
          cases made

end Datum

theorem Heap.step_surface (heap : Heap) (value : Value) (forward : Bool) :
    (heap.surface value).step forward = (heap.view value).step forward := by
  unfold surface view
  cases size : heap.size with
  | zero => simp [viewWithin, heap.body?_of_size_eq_zero value size]
  | succ depth =>
      simp only [viewWithin]
      split <;> rfl

end CoopScript
