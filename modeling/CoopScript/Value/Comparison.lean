import CoopScript.Value.Heap

/-!
Comparing values where they are. The comparison makes no trees and ends at the first difference, so
elements that are shared many times cost nothing unless it meets them, and it agrees with the
comparison of the trees.
-/

namespace CoopScript

/-- Compares lists by a comparison of their elements. A list that ends first comes first. -/
def lexicographic {Element Error : Type} (compare : Element → Element → Except Error Ordering) :
    List Element → List Element → Except Error Ordering
  | [], [] => .ok .eq
  | [], _ :: _ => .ok .lt
  | _ :: _, [] => .ok .gt
  | left :: leftRest, right :: rightRest =>
    match compare left right with
    | .ok .eq => lexicographic compare leftRest rightRest
    | other => other

theorem Datum.compareElements_map {Element : Type} (view : Element → Datum)
    (compare : Element → Element → Except ValueError Ordering)
    (agree : ∀ left right, compare left right = (view left).compare (view right))
    (left right : List Element) :
    compareElements (left.map view) (right.map view) =
      lexicographic compare left right := by
  induction left generalizing right with
  | nil => cases right <;> simp [compareElements, lexicographic]
  | cons first rest hypothesis =>
      cases right with
      | nil => simp [compareElements, lexicographic]
      | cons other others =>
          simp only [List.map_cons, compareElements, lexicographic, agree, hypothesis]
          split <;> simp_all

namespace Heap

/-- Compares two values down to the given depth. -/
def orderWithin (heap : Heap) : Nat → Value → Value → Except ValueError Ordering
  | 0, _, _ => .error .empty
  | depth + 1, left, right =>
    match heap.body? left, heap.body? right with
    | some ⟨leftType, .array leftElements⟩, some ⟨rightType, .array rightElements⟩ =>
      if leftElements.isEmpty || rightElements.isEmpty || leftType = rightType then
        lexicographic (heap.orderWithin depth) leftElements.toList rightElements.toList
      else .error (.typeMismatch leftType.display rightType.display)
    | _, _ => (heap.surface left).compare (heap.surface right)

def order (heap : Heap) (left right : Value) : Except ValueError Ordering :=
  heap.orderWithin heap.size left right

theorem orderWithin_eq (heap : Heap) (depth : Nat) (left right : Value) :
    heap.orderWithin depth left right =
      (heap.viewWithin depth left).compare (heap.viewWithin depth right) := by
  induction depth generalizing left right with
  | zero => simp [orderWithin, viewWithin, Datum.compare]
  | succ depth hypothesis =>
      simp only [orderWithin, viewWithin, surface]
      split
      · next leftType leftElements rightType rightElements leftBody rightBody =>
          simp [leftBody, rightBody, Datum.compare,
            Datum.compareElements_map (heap.viewWithin depth) _ hypothesis]
      · next arrays =>
          split <;> split <;> simp only [Datum.compare]
          next leftBody _ _ _ rightBody => exact (arrays _ _ _ _ leftBody rightBody).elim

theorem order_eq (heap : Heap) (left right : Value) :
    heap.order left right = (heap.view left).compare (heap.view right) :=
  heap.orderWithin_eq heap.size left right

end Heap

end CoopScript
