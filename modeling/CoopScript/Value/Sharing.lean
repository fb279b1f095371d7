import Std.Data.TreeSet
import CoopScript.Value.Heap

/-!
Which arrays are alive, and how many handles name a body. An array is alive when a root or an
element of a live array names it. Only roots and elements of live arrays count as handles.
-/

namespace CoopScript.Heap

/-- The marks with every array added that the value reaches without passing a marked one. Each
step inward marks a new body, so a fuel of one for each unmarked body suffices. -/
def mark (heap : Heap) : Nat → Std.TreeSet Nat → Value → Std.TreeSet Nat
  | 0, marks, _ => marks
  | _ + 1, marks, none => marks
  | fuel + 1, marks, some id =>
    match (heap.body? (some id)).bind Body.elements? with
    | none => marks
    | some elements =>
      if marks.contains id.index then marks
      else elements.foldl (heap.mark fuel) (marks.insert id.index)

/-- The indices of the arrays that the roots reach. -/
def live (heap : Heap) (roots : List Value) : Std.TreeSet Nat :=
  roots.foldl (heap.mark heap.size) ∅

/-- The elements of each array that the roots reach. -/
def liveElements (heap : Heap) (roots : List Value) : List (Array Value) :=
  (heap.live roots).toList.filterMap fun index =>
    (heap.body? (some ⟨index⟩)).bind Body.elements?

/-- The number of handles on the value's body. -/
def referenceCount (heap : Heap) (roots : List Value) (value : Value) : Nat :=
  if value.isSome then
    (heap.liveElements roots).foldr (fun elements others => elements.count value + others)
      (roots.count value)
  else 0

def isShared (heap : Heap) (roots : List Value) (value : Value) : Bool :=
  1 < heap.referenceCount roots value

/-- Whether the value is a handle on the body or holds one at any depth. -/
def reaches (heap : Heap) (value : Value) (target : BodyId) : Bool :=
  value = some target || (heap.liveElements [value]).any (·.contains (some target))

end CoopScript.Heap
