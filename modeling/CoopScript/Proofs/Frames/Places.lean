import CoopScript.Proofs.Frames.Contents
import CoopScript.Proofs.Frames.Skeleton

/-!
The places in which live frames keep values, one by one, and changes of one frame that leave all or
all but one of them alone.
-/

namespace CoopScript

/-- A slot, an operand by its depth in the stack, or the result of a frame. -/
inductive Place where
  | slot (frame : FrameId) (index : Nat)
  | operand (frame : FrameId) (depth : Nat)
  | result (frame : FrameId)
  deriving DecidableEq

/-- Where the value is found when further values lie on the stack of a frame. -/
def Place.below (id : FrameId) (count : Nat) : Place → Place
  | .operand frame depth => .operand frame (if frame = id then count + depth else depth)
  | place => place

@[simp] theorem Place.below_slot (id : FrameId) (count : Nat) (frame : FrameId) (index : Nat) :
    (slot frame index).below id count = slot frame index := rfl

theorem Place.below_zero (id : FrameId) (place : Place) : place.below id 0 = place := by
  cases place <;> simp [below]

/-- The frame with another value in a slot. -/
def Frame.withSlot (index : Nat) (value : Value) (frame : Frame) : Frame :=
  { frame with slots := frame.slots.setIfInBounds index value }

/-- The frame some instructions further, with further values on its stack. -/
def Frame.advanced (steps : Nat) (temporaries : List Value) (frame : Frame) : Frame :=
  { frame with position := frame.position + steps, stack := temporaries ++ frame.stack }

/-- What is in one of the cells counts as much as there is of it. -/
theorem count_flatMap_set {Cell : Type} {cells : List Cell} {index : Nat} {old : Cell}
    (values : Cell → List Value) (found : cells[index]? = some old) (new : Cell) (value : Value) :
    ((cells.set index new).flatMap values).count value + (values old).count value =
      (cells.flatMap values).count value + (values new).count value := by
  induction cells generalizing index with
  | nil => cases found
  | cons cell rest hypothesis =>
      cases index with
      | zero =>
          cases found
          simp only [List.set_cons_zero, List.flatMap_cons, List.count_append]
          omega
      | succ index =>
          have later := hypothesis found
          simp only [List.set_cons_succ, List.flatMap_cons, List.count_append]
          omega

namespace FrameArena

/-- The arena with another frame in a place that is in use. -/
def edit (arena : FrameArena) (id : FrameId) (change : Frame → Frame) : FrameArena :=
  match arena.frame? id with
  | some frame => arena.set id (change frame)
  | none => arena

/-- The value at a place, if it is the place of a live frame. -/
def value? (arena : FrameArena) : Place → Option Value
  | .slot id index => (arena.frame? id).bind fun frame => frame.slots[index]?
  | .operand id depth => (arena.frame? id).bind fun frame => frame.stack[depth]?
  | .result id => (arena.frame? id).map Frame.result

/-- The values in all places but one. -/
def others (arena : FrameArena) (place : Place) : Set Value :=
  {value | ∃ other, other ≠ place ∧ arena.value? other = some value}

variable {arena after : FrameArena} {id : FrameId} {frame new : Frame} {value : Value}
  {place other : Place} {index : Nat} {change : Frame → Frame}

/-- The values of an arena are those in its places. -/
theorem mem_values_iff_place : value ∈ arena.values ↔ ∃ place, arena.value? place = some value := by
  rw [mem_values_iff]
  constructor
  · intro given
    obtain ⟨id, frame, found, held⟩ := given
    simp only [Frame.values, List.mem_append, Array.mem_toList_iff, List.mem_singleton] at held
    rcases held with (slot | stacked) | rfl
    · obtain ⟨index, there⟩ := Array.getElem?_of_mem slot
      exact ⟨.slot id index, by rw [value?, found, Option.bind_some, there]⟩
    · obtain ⟨depth, there⟩ := List.getElem?_of_mem stacked
      exact ⟨.operand id depth, by rw [value?, found, Option.bind_some, there]⟩
    · exact ⟨.result id, by rw [value?, found, Option.map_some]⟩
  · intro given
    obtain ⟨place, there⟩ := given
    cases place with
    | slot id index =>
        obtain ⟨frame, found, there⟩ := Option.bind_eq_some_iff.mp there
        exact ⟨id, frame, found, by simp [Frame.values, Array.mem_of_getElem? there]⟩
    | operand id depth =>
        obtain ⟨frame, found, there⟩ := Option.bind_eq_some_iff.mp there
        exact ⟨id, frame, found, by simp [Frame.values, List.mem_of_getElem? there]⟩
    | result id =>
        obtain ⟨frame, found, rfl⟩ := Option.map_eq_some_iff.mp there
        exact ⟨id, frame, found, by simp [Frame.values]⟩

/-! Edited frames. -/

theorem edit_eq_set (found : arena.frame? id = some frame) (change : Frame → Frame) :
    arena.edit id change = arena.set id (change frame) := by rw [edit, found]

theorem edit_eq_self (empty : arena.frame? id = none) (change : Frame → Frame) :
    arena.edit id change = arena := by rw [edit, empty]

theorem frame?_edit (arena : FrameArena) (id : FrameId) (change : Frame → Frame) (other : FrameId) :
    (arena.edit id change).frame? other =
      if other = id then (arena.frame? id).map change else arena.frame? other := by
  cases found : arena.frame? id with
  | none =>
      rw [edit_eq_self found]
      split
      · next equal => rw [equal, found, Option.map_none]
      · rfl
  | some frame =>
      rw [edit_eq_set found, frame?_set (index_lt_of_frame? found), Option.map_some]

theorem frame?_edit_self (found : arena.frame? id = some frame) (change : Frame → Frame) :
    (arena.edit id change).frame? id = some (change frame) := by
  rw [frame?_edit, if_pos rfl, found, Option.map_some]

theorem set_edit (arena : FrameArena) (id : FrameId) (change : Frame → Frame) (new : Frame) :
    (arena.edit id change).set id new = arena.set id new := by
  unfold edit
  split
  · simp [set]
  · rfl

theorem edit_edit {further both : Frame → Frame} (same : ∀ frame, further (change frame) = both frame)
    (arena : FrameArena) (id : FrameId) : (arena.edit id change).edit id further = arena.edit id both := by
  cases found : arena.frame? id with
  | none => rw [edit_eq_self found, edit_eq_self found, edit_eq_self found]
  | some frame =>
      rw [edit_eq_set (frame?_edit_self found change), set_edit, same, edit_eq_set found]

theorem skeleton_edit (same : ∀ frame, (change frame).skeleton = frame.skeleton) (arena : FrameArena)
    (id : FrameId) : (arena.edit id change).skeleton = arena.skeleton := by
  cases found : arena.frame? id with
  | none => rw [edit_eq_self found]
  | some frame =>
      rw [edit_eq_set found]
      exact skeleton_set found (same frame)

theorem skeleton_withSlot (arena : FrameArena) (id : FrameId) (index : Nat) (value : Value) :
    (arena.edit id (.withSlot index value)).skeleton = arena.skeleton := by
  apply skeleton_edit
  intro frame
  rfl

theorem skeleton_advanced (arena : FrameArena) (id : FrameId) (steps : Nat) (temporaries : List Value) :
    (arena.edit id (.advanced steps temporaries)).skeleton = arena.skeleton := by
  apply skeleton_edit
  intro frame
  rfl

/-- Changes of frames that can change places with each other can be made in any order. -/
theorem edit_comm {further : Frame → Frame} (swap : ∀ frame, change (further frame) = further (change frame))
    (arena : FrameArena) (first second : FrameId) :
    (arena.edit first change).edit second further = (arena.edit second further).edit first change := by
  by_cases same : first = second
  · subst same
    cases found : arena.frame? first with
    | none => simp only [edit, found]
    | some frame =>
        rw [edit_eq_set (frame?_edit_self found change), edit_eq_set (frame?_edit_self found further),
          set_edit, set_edit, swap]
  · have left : (arena.edit first change).frame? second = arena.frame? second := by
      rw [frame?_edit, if_neg (Ne.symm same)]
    have right : (arena.edit second further).frame? first = arena.frame? first := by
      rw [frame?_edit, if_neg same]
    have apart : first.index ≠ second.index := fun equal => same (congrArg FrameId.mk equal)
    cases found : arena.frame? first with
    | none => rw [edit_eq_self found, edit_eq_self (right.trans found)]
    | some frame =>
        cases also : arena.frame? second with
        | none => rw [edit_eq_self also, edit_eq_self (left.trans also)]
        | some held =>
            rw [edit_eq_set (left.trans also), edit_eq_set (right.trans found), edit_eq_set found,
              edit_eq_set also]
            simp only [set, FrameArena.mk.injEq, and_true]
            exact Array.setIfInBounds_comm _ _ apart

/-- With another value in a slot all other places keep theirs. -/
theorem value?_withSlot_of_ne (different : other ≠ .slot id index) (arena : FrameArena)
    (value : Value) : (arena.edit id (.withSlot index value)).value? other = arena.value? other := by
  cases other with
  | slot place other =>
      simp only [value?, frame?_edit]
      split
      · next same =>
          subst same
          have apart : index ≠ other := fun equal => different (by rw [equal])
          cases arena.frame? place with
          | none => rfl
          | some frame => exact Array.getElem?_setIfInBounds_ne apart
      · rfl
  | operand place depth =>
      simp only [value?, frame?_edit]
      split
      · next same =>
          subst same
          cases arena.frame? place <;> rfl
      · rfl
  | result place =>
      simp only [value?, frame?_edit]
      split
      · next same =>
          subst same
          cases arena.frame? place <;> rfl
      · rfl

/-- A slot holds the value that was put there. -/
theorem value?_withSlot_self (there : arena.value? (.slot id index) = some value) (new : Value) :
    (arena.edit id (.withSlot index new)).value? (.slot id index) = some new := by
  obtain ⟨frame, found, slot⟩ := Option.bind_eq_some_iff.mp there
  obtain ⟨inRange, _⟩ := Array.getElem?_eq_some_iff.mp slot
  rw [value?, frame?_edit_self found, Option.bind_some]
  exact Array.getElem?_setIfInBounds_self_of_lt inRange

/-- Further values on a stack cover those that were there. -/
theorem value?_advanced (arena : FrameArena) (id : FrameId) (steps : Nat) (temporaries : List Value)
    (place : Place) :
    (arena.edit id (.advanced steps temporaries)).value? (place.below id temporaries.length) =
      arena.value? place := by
  cases place with
  | slot frame index =>
      simp only [Place.below, value?, frame?_edit]
      split
      · next same =>
          subst same
          cases arena.frame? frame <;> rfl
      · rfl
  | operand frame depth =>
      simp only [Place.below, value?, frame?_edit]
      split
      · next same =>
          subst same
          cases arena.frame? frame with
          | none => rfl
          | some held =>
              simp only [Option.map_some, Option.bind_some, Frame.advanced]
              rw [List.getElem?_append_right (Nat.le_add_right _ _), Nat.add_sub_cancel_left]
      · rfl
  | result frame =>
      simp only [Place.below, value?, frame?_edit]
      split
      · next same =>
          subst same
          cases arena.frame? frame <;> rfl
      · rfl

/-- A frame that goes on keeps all values where they are. -/
theorem value?_passed (arena : FrameArena) (id : FrameId) (steps : Nat) (place : Place) :
    (arena.edit id (.advanced steps [])).value? place = arena.value? place := by
  have covered := value?_advanced arena id steps [] place
  rwa [List.length_nil, Place.below_zero] at covered

/-! Values that occur twice. -/

theorem count_values_set (found : arena.frame? id = some frame) (new : Frame) (value : Value) :
    (arena.set id new).values.count value + frame.values.count value =
      arena.values.count value + new.values.count value := by
  have cell : arena.cells.toList[id.index]? = some (some frame) := by
    rw [Array.getElem?_toList]
    exact frame?_eq_some_iff.mp found
  simp only [values, set, Array.toList_setIfInBounds]
  exact count_flatMap_set _ cell (some new) value

/-- What is in a slot and elsewhere occurs twice. -/
theorem two_le_count (there : arena.value? (.slot id index) = some value) (full : value ≠ none)
    (elsewhere : value ∈ arena.others (.slot id index)) : 2 ≤ arena.values.count value := by
  obtain ⟨frame, found, slot⟩ := Option.bind_eq_some_iff.mp there
  obtain ⟨other, different, again⟩ := elsewhere
  -- Without the one in the slot there is still another.
  have kept := (value?_withSlot_of_ne different arena none).trans again
  have another : 0 < (arena.edit id (.withSlot index none)).values.count value :=
    List.count_pos_iff.mpr (mem_values_iff_place.mpr ⟨other, kept⟩)
  have total := count_values_set found (frame.withSlot index none) value
  obtain ⟨inRange, same⟩ := Array.getElem?_eq_some_iff.mp slot
  have fewer : (frame.withSlot index none).values.count value + 1 = frame.values.count value := by
    have long : index < frame.slots.toList.length := inRange
    have listed : frame.slots.toList[index] = value := same
    have occurs : 0 < frame.slots.toList.count value :=
      List.count_pos_iff.mpr (listed ▸ List.getElem_mem long)
    simp only [Frame.values, Frame.withSlot, List.count_append, Array.toList_setIfInBounds]
    rw [List.count_set long, listed, if_pos (beq_self_eq_true value),
      if_neg (by simpa using full.symm)]
    omega
  rw [edit_eq_set found] at another
  omega

end FrameArena

end CoopScript
