import CoopScript.Proofs.Heap.Typing

/-!
Results of operators. Whatever the types of their operands, operators check what they make.
-/

namespace CoopScript.Datum

variable {fits : Ty → Ty → Prop} {datum : Datum} {type : Ty} {elements data : List Datum}
  {operator : ArithOp}

theorem typed_real (number : Float) : (real number).Typed fits := .scalar rfl

theorem typed_char (character : Char) : (char character).Typed fits := .scalar rfl

theorem typed_boolean (holds : Bool) : (boolean holds).Typed fits := .scalar rfl

theorem typed_string (reflexive : ∀ type, fits type type) (text : String) :
    (string text).Typed fits := by
  refine .array ?_ ?_ <;> intro element inside <;> obtain ⟨character, _, rfl⟩ := List.mem_map.mp inside
  · exact typed_char character
  · exact ⟨.char, rfl, reflexive _⟩

/-- Every element has exactly the element type. -/
theorem typed_makeArray (reflexive : ∀ type, fits type type)
    (typed : ∀ element ∈ elements, element.Typed fits)
    (made : makeArray type elements = .ok datum) : datum.Typed fits := by
  unfold makeArray at made
  split at made
  · cases made
  · next expected =>
      obtain ⟨_, checked, made⟩ := exists_of_bind_eq_ok made
      cases made
      refine .array typed fun element inside => ⟨expected, ?_, reflexive expected⟩
      have checks := eq_ok_of_forM_eq_ok checked inside
      split at checks
      · cases checks
      · next found has =>
          split at checks
          · cases checks
          · next same => rw [has, not_not.mp same]

theorem typed_collect (reflexive : ∀ type, fits type type)
    (typed : ∀ element ∈ elements, element.Typed fits)
    (made : collect type elements = .ok datum) : datum.Typed fits := by
  unfold collect MachineError.ofValueResult at made
  extract_lets own at made
  cases array : makeArray own elements with
  | ok result =>
      rw [array] at made
      cases made
      exact typed_makeArray reflexive typed array
  | error cause =>
      rw [array] at made
      cases made

mutual

theorem typed_arith (reflexive : ∀ type, fits type type) (left right datum : Datum)
    (made : arith operator left right = .ok datum) :
    datum.Typed fits := by
  cases left with
  | array leftType leftElements =>
      cases right with
      | array _ rightElements =>
          rw [arith] at made
          split at made
          · cases made
          · obtain ⟨results, all, made⟩ := exists_of_bind_eq_ok made
            exact typed_collect reflexive (typed_arithAll reflexive _ _ results all) made
      | _ =>
          rw [arith] at made
          · cases made
          · nofun
  | _ =>
      cases right with
      | array _ _ =>
          rw [arith] at made
          · cases made
          · nofun
      | _ =>
          rw [arith] at made
          · obtain ⟨_, _, made⟩ := exists_of_bind_eq_ok made
            obtain ⟨_, _, made⟩ := exists_of_bind_eq_ok made
            cases made
            exact typed_real _
          all_goals nofun

theorem typed_arithAll (reflexive : ∀ type, fits type type) (left right data : List Datum)
    (made : arithAll operator left right = .ok data) : ∀ datum ∈ data, datum.Typed fits := by
  cases left with
  | nil =>
      cases made
      nofun
  | cons first rest =>
      cases right with
      | nil =>
          cases made
          nofun
      | cons other others =>
          rw [arithAll] at made
          obtain ⟨result, one, made⟩ := exists_of_bind_eq_ok made
          obtain ⟨results, all, made⟩ := exists_of_bind_eq_ok made
          cases made
          intro datum inside
          rcases List.mem_cons.mp inside with rfl | inside
          · exact typed_arith reflexive first other datum one
          · exact typed_arithAll reflexive rest others results all datum inside

end

mutual

theorem typed_unary (reflexive : ∀ type, fits type type) (operator : UnaryOp) (operand datum : Datum)
    (made : unary operator operand = .ok datum) : datum.Typed fits := by
  cases operand with
  | array type elements =>
      cases operator with
      | not => cases made
      | _ =>
          obtain ⟨results, all, made⟩ := exists_of_bind_eq_ok made
          exact typed_collect reflexive (typed_unaryAll reflexive _ elements results all) made
  | _ =>
      cases operator <;> obtain ⟨_, _, made⟩ := exists_of_bind_eq_ok made <;> cases made <;>
        exact .scalar rfl

theorem typed_unaryAll (reflexive : ∀ type, fits type type) (operator : UnaryOp) (operands data : List Datum)
    (made : unaryAll operator operands = .ok data) : ∀ datum ∈ data, datum.Typed fits := by
  cases operands with
  | nil =>
      cases made
      nofun
  | cons first rest =>
      obtain ⟨result, one, made⟩ := exists_of_bind_eq_ok made
      obtain ⟨results, all, made⟩ := exists_of_bind_eq_ok made
      cases made
      intro datum inside
      rcases List.mem_cons.mp inside with rfl | inside
      · exact typed_unary reflexive operator first datum one
      · exact typed_unaryAll reflexive operator rest results all datum inside

end

theorem typed_step {forward : Bool} {operand : Datum} (made : operand.step forward = .ok datum) :
    datum.Typed fits := by
  unfold step at made
  split at made
  · cases made
  · extract_lets code at made
    split at made
    · cases made
      exact typed_char _
    · cases made
  · obtain ⟨_, _, made⟩ := exists_of_bind_eq_ok made
    cases made
    exact typed_real _

end CoopScript.Datum
