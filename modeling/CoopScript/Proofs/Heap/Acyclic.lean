import CoopScript.Operator
import CoopScript.Proofs.Heap.Census
import CoopScript.Value.Comparison

/-!
Heaps in which everything that follows the elements of arrays comes to an end.
-/

namespace CoopScript.Heap

open Relation (TransGen)

/-- No value holds itself, no chain of elements goes on for ever, and whatever goes down into values
level by level is at the bottom after as many levels as there are bodies: further levels change
nothing. The search for a body in a value is exact. -/
structure Acyclic (heap : Heap) : Prop where
  loopless : ∀ value, ¬ TransGen heap.Holds value value
  ends : WellFounded fun child value => heap.Holds value child
  views : ∀ depth ≥ heap.size, ∀ value, heap.viewWithin depth value = heap.view value
  orders : ∀ depth ≥ heap.size, ∀ left right,
    heap.orderWithin depth left right = heap.order left right
  ariths : ∀ depth ≥ heap.size, ∀ operator left right,
    heap.arithWithin operator depth left right = heap.arith operator left right
  unaries : ∀ depth ≥ heap.size, ∀ operator value,
    heap.unaryWithin operator depth value = heap.unary operator value
  searches : ∀ value id, heap.reaches value id = true ↔ heap.Reaches value (some id)

variable {heap : Heap} {value : Value}

theorem Founded.acc (founded : heap.Founded value) :
    Acc (fun child value => heap.Holds value child) value := by
  induction founded with
  | intro _ _ hypothesis => exact .intro _ hypothesis

theorem Founded.loopless (founded : heap.Founded value) : ¬ TransGen heap.Holds value value := by
  intro loop
  obtain ⟨child, holds, back⟩ := TransGen.head'_iff.mp loop
  exact founded.not_reaches holds back

/-- A value that the heap does not have holds nothing. -/
theorem has_or_missing (heap : Heap) (value : Value) :
    heap.Has value ∨ heap.body? value = none := by
  cases found : heap.body? value with
  | none => exact .inr rfl
  | some body => exact .inl (.of_body? found)

theorem viewWithin_of_body?_eq_none (missing : heap.body? value = none) (depth : Nat) :
    heap.viewWithin depth value = .empty := by
  cases depth with
  | zero => rfl
  | succ depth => rw [viewWithin_succ, missing]

theorem Sound.viewWithin_eq (sound : heap.Sound) {depth : Nat} (enough : heap.size ≤ depth)
    (value : Value) : heap.viewWithin depth value = heap.view value := by
  rcases heap.has_or_missing value with has | missing
  · obtain ⟨further, rfl⟩ := Nat.exists_eq_add_of_le enough
    exact (sound value has).viewWithin_add (heap.card_reached_le value) further
  · rw [viewWithin_of_body?_eq_none missing, view_of_body?_eq_none missing]

theorem Sound.acyclic (sound : heap.Sound) : heap.Acyclic where
  loopless := by
    intro value loop
    obtain ⟨child, holds, _⟩ := TransGen.head'_iff.mp loop
    obtain ⟨body, found, _⟩ := holds
    exact (sound value (.of_body? found)).loopless loop
  ends := by
    constructor
    intro value
    rcases heap.has_or_missing value with has | missing
    · exact (sound value has).acc
    · apply Acc.intro
      intro child holds
      obtain ⟨body, found, _⟩ := holds
      rw [missing] at found
      cases found
  views := fun _ enough value => sound.viewWithin_eq enough value
  orders := by
    intro depth enough left right
    rw [orderWithin_eq, order_eq, sound.viewWithin_eq enough, sound.viewWithin_eq enough]
  ariths := by
    intro depth enough operator left right
    rw [arithWithin_eq, arith_eq, sound.viewWithin_eq enough, sound.viewWithin_eq enough]
  unaries := by
    intro depth enough operator value
    rw [unaryWithin_eq, unary_eq, sound.viewWithin_eq enough]
  searches := fun _ _ => reaches_iff

end CoopScript.Heap
