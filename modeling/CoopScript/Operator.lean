import CoopScript.Script.Instruction
import CoopScript.Machine.Error
import CoopScript.Value.Heap

/-!
The operators on values. Arithmetic works on reals, to which characters and booleans are promoted,
and maps over the elements of arrays of one length.
-/

namespace CoopScript

def ArithOp.apply : ArithOp → Float → Float → Float
  | .add, left, right => left + right
  | .sub, left, right => left - right
  | .mul, left, right => left * right
  | .div, left, right => left / right
  | .rem, left, right => Binary64.remainder left right
  | .pow, left, right => Float.pow left right

namespace Datum

open MachineError (ofValueResult)

/-- An array of results takes its element type from the first one and, without results, its whole
type from the operand. -/
def collect (operandType : Ty) (results : List Datum) : Except MachineError Datum :=
  let type :=
    match results.head?.bind type? with
    | some element => .array element
    | none => operandType
  ofValueResult (makeArray type results)

mutual

def arith (operator : ArithOp) : Datum → Datum → Except MachineError Datum
  | .array leftType left, .array _ right =>
    if left.length ≠ right.length then
      .error (.value (.lengthMismatch left.length right.length))
    else do
      collect leftType (← arithAll operator left right)
  | .array leftType _, right =>
    .error (.typeMismatch
      s!"cannot apply {operator.name} to {leftType.display} and {right.typeName}")
  | left, .array rightType _ =>
    .error (.typeMismatch
      s!"cannot apply {operator.name} to {left.typeName} and {rightType.display}")
  | left, right => do
    let first ← ofValueResult left.toReal
    let second ← ofValueResult right.toReal
    return .real (operator.apply first second)

def arithAll (operator : ArithOp) :
    List Datum → List Datum → Except MachineError (List Datum)
  | left :: leftRest, right :: rightRest => do
    let first ← arith operator left right
    let others ← arithAll operator leftRest rightRest
    return first :: others
  | _, _ => .ok []

end

mutual

/-- The logical operator does not map over arrays. -/
def unary (operator : UnaryOp) : Datum → Except MachineError Datum
  | .array type elements =>
    match operator with
    | .not => .error (.typeMismatch s!"cannot negate {type.display} logically")
    | _ => do collect type (← unaryAll operator elements)
  | datum =>
    match operator with
    | .neg => return .real (-(← ofValueResult datum.toReal))
    | .abs => return .real (← ofValueResult datum.toReal).abs
    | .not => return .boolean (!(← ofValueResult datum.toBoolean))

def unaryAll (operator : UnaryOp) : List Datum → Except MachineError (List Datum)
  | [] => .ok []
  | element :: rest => do
    let first ← unary operator element
    let others ← unaryAll operator rest
    return first :: others

end

/-- The next or the previous value. Characters step through the code points and stay characters. -/
def step (forward : Bool) : Datum → Except MachineError Datum
  | .array type _ => .error (.typeMismatch s!"cannot step {type.display}")
  | .scalar _ (.char character) =>
    let code : Int := character.toNat + (if forward then 1 else -1)
    match if 0 ≤ code then Scalar.charAt? code.toNat else none with
    | some next => .ok (.char next)
    | none => .error (.typeMismatch s!"no char at code point {code}")
  | datum => return .real ((← ofValueResult datum.toReal) + (if forward then 1.0 else -1.0))

/-- The position that a real names when it is neither negative nor fractional, at most
`2 ^ 64 - 1`. -/
def position (datum : Datum) : Except MachineError Nat := do
  let number ← ofValueResult datum.toReal
  if number < 0.0 || !Binary64.isIntegral number then
    throw (.typeMismatch s!"invalid array index {Shortest.text number}")
  else
    return number.toUInt64.toNat

theorem arithAll_map {Element : Type} (operator : ArithOp) (view : Element → Datum)
    (apply : Element → Element → Except MachineError Datum)
    (agree : ∀ left right, apply left right = arith operator (view left) (view right))
    (left right : List Element) :
    arithAll operator (left.map view) (right.map view) =
      (left.zip right).mapM fun pair => apply pair.1 pair.2 := by
  induction left generalizing right with
  | nil => simp [arithAll]; rfl
  | cons first rest hypothesis =>
      cases right with
      | nil => simp [arithAll]; rfl
      | cons other others =>
          simp only [List.map_cons, arithAll, List.zip_cons_cons, List.mapM_cons, agree, hypothesis]

theorem unaryAll_map {Element : Type} (operator : UnaryOp) (view : Element → Datum)
    (apply : Element → Except MachineError Datum)
    (agree : ∀ element, apply element = unary operator (view element))
    (elements : List Element) :
    unaryAll operator (elements.map view) = elements.mapM apply := by
  induction elements with
  | nil => simp [unaryAll]; rfl
  | cons first rest hypothesis =>
      simp only [List.map_cons, unaryAll, List.mapM_cons, agree, hypothesis]

end Datum

/-! The operators on values where they are. They make no trees of their operands, so that an operand
that does not fit fails without a look at its elements, and agree with the operators on trees. -/

namespace Heap

open Datum (collect)

def arithWithin (heap : Heap) (operator : ArithOp) :
    Nat → Value → Value → Except MachineError Datum
  | 0, _, _ => .error (.value .empty)
  | depth + 1, left, right =>
    match heap.body? left, heap.body? right with
    | some ⟨leftType, .array leftElements⟩, some ⟨_, .array rightElements⟩ =>
      if leftElements.size ≠ rightElements.size then
        .error (.value (.lengthMismatch leftElements.size rightElements.size))
      else do
        collect leftType (← (leftElements.toList.zip rightElements.toList).mapM fun pair =>
          heap.arithWithin operator depth pair.1 pair.2)
    | _, _ => Datum.arith operator (heap.surface left) (heap.surface right)

def arith (heap : Heap) (operator : ArithOp) (left right : Value) : Except MachineError Datum :=
  heap.arithWithin operator heap.size left right

def unaryWithin (heap : Heap) (operator : UnaryOp) : Nat → Value → Except MachineError Datum
  | 0, _ => .error (.value .empty)
  | depth + 1, value =>
    match operator, heap.body? value with
    | .not, _ => Datum.unary .not (heap.surface value)
    | _, some ⟨type, .array elements⟩ => do
      collect type (← elements.toList.mapM (heap.unaryWithin operator depth))
    | _, _ => Datum.unary operator (heap.surface value)

def unary (heap : Heap) (operator : UnaryOp) (value : Value) : Except MachineError Datum :=
  heap.unaryWithin operator heap.size value

theorem arithWithin_eq (heap : Heap) (operator : ArithOp) (depth : Nat) (left right : Value) :
    heap.arithWithin operator depth left right =
      Datum.arith operator (heap.viewWithin depth left) (heap.viewWithin depth right) := by
  induction depth generalizing left right with
  | zero => simp [arithWithin, viewWithin, Datum.arith, Datum.toReal, Datum.payload]; rfl
  | succ depth hypothesis =>
      simp only [arithWithin, viewWithin, surface]
      split
      · next leftType leftElements rightType rightElements leftBody rightBody =>
          simp [leftBody, rightBody, Datum.arith,
            Datum.arithAll_map operator (heap.viewWithin depth) _ hypothesis]
      · next arrays =>
          split <;> split <;> simp only [Datum.arith]
          next leftBody _ _ _ rightBody => exact (arrays _ _ _ _ leftBody rightBody).elim

theorem arith_eq (heap : Heap) (operator : ArithOp) (left right : Value) :
    heap.arith operator left right = Datum.arith operator (heap.view left) (heap.view right) :=
  heap.arithWithin_eq operator heap.size left right

theorem unaryWithin_eq (heap : Heap) (operator : UnaryOp) (depth : Nat) (value : Value) :
    heap.unaryWithin operator depth value =
      Datum.unary operator (heap.viewWithin depth value) := by
  induction depth generalizing value with
  | zero => cases operator <;> rfl
  | succ depth hypothesis =>
      simp only [unaryWithin, viewWithin, surface]
      rcases heap.body? value with _ | ⟨type, payload | elements⟩ <;> cases operator <;>
        simp [Datum.unary, Datum.unaryAll_map _ (heap.viewWithin depth) _ hypothesis]

theorem unary_eq (heap : Heap) (operator : UnaryOp) (value : Value) :
    heap.unary operator value = Datum.unary operator (heap.view value) :=
  heap.unaryWithin_eq operator heap.size value

end Heap

end CoopScript
