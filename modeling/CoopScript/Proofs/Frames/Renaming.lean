import CoopScript.Proofs.Frames.Contents
import CoopScript.Proofs.Heap.Lodging

/-!
Frames with the bodies that their values name renamed. All operations on frames and on the arena work
on them in the same way, since none looks into a value.
-/

namespace CoopScript

def Frame.rename (place : BodyId → BodyId) (frame : Frame) : Frame :=
  { frame with
    slots := frame.slots.map (Value.rename place)
    stack := frame.stack.map (Value.rename place)
    result := Value.rename place frame.result }

def FrameArena.rename (place : BodyId → BodyId) (arena : FrameArena) : FrameArena :=
  { arena with cells := arena.cells.map (Option.map (Frame.rename place)) }

variable {place other : BodyId → BodyId}

namespace Frame

section Fields

variable (place) (frame : Frame)

@[simp] theorem parent_rename : (frame.rename place).parent = frame.parent := rfl

@[simp] theorem block_rename : (frame.rename place).block = frame.block := rfl

@[simp] theorem kind_rename : (frame.rename place).kind = frame.kind := rfl

@[simp] theorem level_rename : (frame.rename place).level = frame.level := rfl

@[simp] theorem finish_rename : (frame.rename place).finish = frame.finish := rfl

@[simp] theorem activation_rename : (frame.rename place).activation = frame.activation := rfl

@[simp] theorem position_rename : (frame.rename place).position = frame.position := rfl

@[simp] theorem returnsResult_rename : (frame.rename place).returnsResult = frame.returnsResult := rfl

@[simp] theorem pins_rename : (frame.rename place).pins = frame.pins := rfl

@[simp] theorem retired_rename : (frame.rename place).retired = frame.retired := rfl

@[simp] theorem slots_rename :
    (frame.rename place).slots = frame.slots.map (Value.rename place) := rfl

@[simp] theorem stack_rename :
    (frame.rename place).stack = frame.stack.map (Value.rename place) := rfl

@[simp] theorem result_rename :
    (frame.rename place).result = Value.rename place frame.result := rfl

end Fields

theorem push_rename (frame : Frame) (value : Value) :
    (frame.rename place).push (Value.rename place value) = (frame.push value).rename place := rfl

theorem peek_rename (frame : Frame) :
    (frame.rename place).peek = frame.peek.map (Value.rename place) := by
  simp only [peek, rename]
  cases frame.stack <;> rfl

theorem pop_rename (frame : Frame) :
    (frame.rename place).pop = frame.pop.map (Prod.map (Value.rename place) (rename place)) := by
  simp only [pop, rename]
  cases frame.stack <;> rfl

theorem popMany_rename (frame : Frame) (count : Nat) : (frame.rename place).popMany count =
    (frame.popMany count).map (Prod.map (List.map (Value.rename place)) (rename place)) := by
  simp only [popMany, rename, List.length_map]
  split
  · rfl
  · simp [Except.map, rename]

theorem swap_rename (frame : Frame) :
    (frame.rename place).swap = frame.swap.map (rename place) := by
  simp only [swap, rename]
  rcases frame.stack with _ | ⟨first, _ | ⟨second, rest⟩⟩ <;> rfl

theorem values_rename (frame : Frame) :
    (frame.rename place).values = frame.values.map (Value.rename place) := by
  simp [values, rename]

theorem activate_rename (parent : Option FrameId) (id : BlockId) (block : Block)
    (arguments : List Value) :
    activate parent id block (arguments.map (Value.rename place)) =
      (activate parent id block arguments).rename place := by
  simp [activate, rename, List.map_take]

theorem rename_congr {frame : Frame}
    (same : ∀ value ∈ frame.values, Value.rename place value = Value.rename other value) :
    frame.rename place = frame.rename other := by
  simp only [values, List.mem_append, List.mem_singleton, Array.mem_toList_iff] at same
  have slots : frame.slots.map (Value.rename place) = frame.slots.map (Value.rename other) :=
    Array.map_congr_left fun value inside => same value (.inl (.inl inside))
  have stack : frame.stack.map (Value.rename place) = frame.stack.map (Value.rename other) :=
    List.map_congr_left fun value inside => same value (.inl (.inr inside))
  simp only [rename, slots, stack, same frame.result (.inr rfl)]

end Frame

namespace FrameArena

variable {arena : FrameArena} {id : FrameId}

theorem frame?_rename (arena : FrameArena) (id : FrameId) :
    (arena.rename place).frame? id = (arena.frame? id).map (Frame.rename place) := by
  simp only [frame?, rename, Array.getElem?_map]
  rcases arena.cells[id.index]? with _ | _ | frame <;> rfl

theorem get_rename (arena : FrameArena) (id : FrameId) :
    (arena.rename place).get id = (arena.get id).map (Frame.rename place) := by
  simp only [get, frame?_rename]
  cases arena.frame? id <;> rfl

theorem set_rename (arena : FrameArena) (id : FrameId) (frame : Frame) :
    (arena.rename place).set id (frame.rename place) = (arena.set id frame).rename place := by
  simp [set, rename, Array.map_setIfInBounds]

theorem remove_rename (arena : FrameArena) (id : FrameId) :
    (arena.rename place).remove id = (arena.remove id).rename place := by
  simp [remove, rename, Array.map_setIfInBounds]

theorem pin_rename (arena : FrameArena) (id : FrameId) :
    (arena.rename place).pin id = (arena.pin id).rename place := by
  simp only [pin, frame?_rename]
  cases arena.frame? id with
  | none => rfl
  | some frame => exact arena.set_rename id { frame with pins := frame.pins + 1 }

theorem store_rename (arena : FrameArena) (frame : Frame) :
    (arena.rename place).store (frame.rename place) =
      ((arena.store frame).1, (arena.store frame).2.rename place) := by
  cases arena with
  | mk cells free liveCount activations =>
      cases free with
      | nil => simp [store, rename, Frame.rename]
      | cons id rest => simp [store, rename, Frame.rename, set, Array.map_setIfInBounds]

theorem allocate_rename (arena : FrameArena) (frame : Frame) :
    (arena.rename place).allocate (frame.rename place) =
      ((arena.allocate frame).1, (arena.allocate frame).2.rename place) := by
  simp only [allocate, Frame.parent_rename]
  cases frame.parent with
  | none => exact arena.store_rename frame
  | some parent =>
      simp only [pin_rename]
      exact (arena.pin parent).store_rename frame

theorem release_rename (fuel : Nat) (arena : FrameArena) (id : FrameId) :
    release fuel (arena.rename place) id = (release fuel arena id).rename place := by
  induction fuel generalizing arena id with
  | zero => rfl
  | succ fuel hypothesis =>
      simp only [release, frame?_rename]
      cases arena.frame? id with
      | none => rfl
      | some frame =>
          simp only [Option.map_some, Frame.rename, remove_rename]
          split
          · cases frame.parent with
            | none => rfl
            | some parent => exact hypothesis (arena.remove id) parent
          · exact arena.set_rename id { frame with pins := frame.pins - 1 }

theorem retire_rename (arena : FrameArena) (id : FrameId) :
    (arena.rename place).retire id = (arena.retire id).rename place := by
  simp only [retire, frame?_rename]
  cases arena.frame? id with
  | none => rfl
  | some frame =>
      simp only [Option.map_some, Frame.rename, remove_rename]
      split
      · cases frame.parent with
        | none => rfl
        | some parent => exact (arena.remove id).release_rename _ parent
      · exact arena.set_rename id { frame with retired := true }

theorem resolveWithin_rename (arena : FrameArena) (level fuel : Nat) (id : FrameId) :
    (arena.rename place).resolveWithin level fuel id = arena.resolveWithin level fuel id := by
  induction fuel generalizing id with
  | zero => rfl
  | succ fuel hypothesis =>
      simp only [resolveWithin, get_rename]
      cases arena.get id with
      | error error => rfl
      | ok frame =>
          simp only [Except.map, bind, Except.bind, Frame.level_rename, Frame.parent_rename, hypothesis]

theorem resolve_rename (arena : FrameArena) (id : FrameId) (level : Nat) :
    (arena.rename place).resolve id level = arena.resolve id level := by
  simp only [resolve, get_rename, resolveWithin_rename]
  cases arena.get id <;> rfl

theorem values_rename (arena : FrameArena) :
    (arena.rename place).values = arena.values.map (Value.rename place) := by
  simp only [values, rename, Array.toList_map, List.flatMap_map, List.map_flatMap]
  congr 1
  funext cell
  cases cell with
  | none => rfl
  | some frame => exact frame.values_rename

theorem rename_congr
    (same : ∀ value ∈ arena.values, Value.rename place value = Value.rename other value) :
    arena.rename place = arena.rename other := by
  have cells : arena.cells.map (Option.map (Frame.rename place)) =
      arena.cells.map (Option.map (Frame.rename other)) := by
    apply Array.map_congr_left
    intro cell inside
    cases cell with
    | none => rfl
    | some frame =>
        apply congrArg some
        apply Frame.rename_congr
        intro value held
        apply same value
        exact List.mem_flatMap.mpr ⟨some frame, Array.mem_toList_iff.mpr inside, held⟩
  simp only [rename, cells]

end FrameArena

end CoopScript
