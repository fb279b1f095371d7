import CoopScript.Proofs.Frames.Addressing
import CoopScript.Proofs.Frames.Contents

/-!
What is left of a frame that retires as soon as it has come in. Its place is vacant again, but the
arena may have grown for it, and its serial number is used up. No operation on the arena tells the
difference: the frames stay where they are, and later frames come into the places that they would
have come into.
-/

namespace CoopScript

/-- The serial number of the frame that is gone, and the number of cells that it left behind. -/
structure Residue where
  start : Nat
  room : Nat

namespace Residue

variable (residue : Residue)

/-- The serial number beside the residue. The one of the frame that is gone is left out. -/
def serial (serial : Nat) : Nat := if serial < residue.start then serial else serial + 1

def frame (frame : Frame) : Frame := { frame with activation := residue.serial frame.activation }

/-- The places that have been made already and that an arena without the residue would make next. -/
def vacant (size : Nat) : List FrameId := (List.range' size (residue.room - size)).map FrameId.mk

/-- The arena beside the residue. -/
def arena (arena : FrameArena) : FrameArena where
  cells := arena.cells.map (Option.map residue.frame) ++
    Array.replicate (residue.room - arena.cells.size) none
  free := arena.free ++ residue.vacant arena.cells.size
  liveCount := arena.liveCount
  activations := residue.serial arena.activations

/-- What a new frame of the arena leaves behind. -/
def of (arena : FrameArena) : Residue where
  start := arena.activations
  room := if arena.free = [] then arena.cells.size + 1 else arena.cells.size

variable {residue}

theorem serial_of_lt {serial : Nat} (early : serial < residue.start) :
    residue.serial serial = serial := if_pos early

theorem serial_succ {serial : Nat} (late : residue.start ≤ serial) :
    residue.serial (serial + 1) = residue.serial serial + 1 := by
  rw [Residue.serial, Residue.serial, if_neg (by omega), if_neg (by omega)]

theorem le_serial (residue : Residue) (serial : Nat) : serial ≤ residue.serial serial := by
  rw [Residue.serial]
  split <;> omega

end Residue

variable {residue : Residue}

namespace Frame

section Fields

variable (residue) (frame : Frame)

@[simp] theorem parent_residue : (residue.frame frame).parent = frame.parent := rfl

@[simp] theorem block_residue : (residue.frame frame).block = frame.block := rfl

@[simp] theorem position_residue : (residue.frame frame).position = frame.position := rfl

@[simp] theorem stack_residue : (residue.frame frame).stack = frame.stack := rfl

end Fields

theorem pop_residue (frame : Frame) : (residue.frame frame).pop =
    frame.pop.map (Prod.map (fun value => value) residue.frame) := by
  simp only [pop, stack_residue]
  cases frame.stack <;> rfl

theorem popMany_residue (frame : Frame) (count : Nat) : (residue.frame frame).popMany count =
    (frame.popMany count).map (Prod.map (fun values => values) residue.frame) := by
  unfold popMany
  by_cases few : frame.stack.length < count
  · have there : (residue.frame frame).stack.length < count := few
    rw [if_pos few, if_pos there]
    rfl
  · have there : ¬ (residue.frame frame).stack.length < count := few
    rw [if_neg few, if_neg there]
    rfl

theorem swap_residue (frame : Frame) : (residue.frame frame).swap = frame.swap.map residue.frame := by
  simp only [swap, stack_residue]
  rcases frame.stack with _ | ⟨first, _ | ⟨second, rest⟩⟩ <;> rfl

end Frame

namespace FrameArena

variable {arena : FrameArena} {further : FrameId → Nat} {id : FrameId} {frame : Frame}

theorem frame?_residue (arena : FrameArena) (id : FrameId) :
    (residue.arena arena).frame? id = (arena.frame? id).map residue.frame := by
  simp only [frame?, Residue.arena, Array.getElem?_append, Array.size_map, Array.getElem?_map,
    Array.getElem?_replicate]
  split
  · rcases arena.cells[id.index]? with _ | _ | frame <;> rfl
  · next beyond =>
      rw [Array.getElem?_eq_none (not_lt.mp beyond)]
      split <;> rfl

theorem values_residue (arena : FrameArena) : (residue.arena arena).values = arena.values := by
  simp only [values, Residue.arena, Array.toList_append, Array.toList_map, Array.toList_replicate,
    List.flatMap_append, List.flatMap_map, List.flatMap_replicate, List.flatten_replicate_nil,
    List.append_nil]
  congr 1
  funext cell
  cases cell <;> rfl

/-! Frames that come and go. -/

theorem cells_set_residue (inRange : id.index < arena.cells.size) (cell : Option Frame) :
    (residue.arena arena).cells.setIfInBounds id.index (cell.map residue.frame) =
      (arena.cells.setIfInBounds id.index cell).map (Option.map residue.frame) ++
        Array.replicate (residue.room - arena.cells.size) none := by
  have inside : id.index < (arena.cells.map (Option.map residue.frame)).size := by simpa using inRange
  rw [Residue.arena, Array.setIfInBounds_append_left inside, Array.map_setIfInBounds]

theorem set_residue (inRange : id.index < arena.cells.size) (frame : Frame) :
    (residue.arena arena).set id (residue.frame frame) = residue.arena (arena.set id frame) := by
  have cells := @cells_set_residue residue arena id inRange (some frame)
  simp only [set, Residue.arena, Array.size_setIfInBounds, mk.injEq, and_true]
  exact cells

theorem remove_residue (inRange : id.index < arena.cells.size) :
    (residue.arena arena).remove id = residue.arena (arena.remove id) := by
  have cells := @cells_set_residue residue arena id inRange none
  simp only [remove, Residue.arena, Array.size_setIfInBounds, mk.injEq, List.cons_append, and_true]
  exact cells

theorem pin_residue (arena : FrameArena) (id : FrameId) :
    (residue.arena arena).pin id = residue.arena (arena.pin id) := by
  simp only [pin, frame?_residue]
  cases found : arena.frame? id with
  | none => rfl
  | some frame => exact set_residue (index_lt_of_frame? found) { frame with pins := frame.pins + 1 }

/-- The place freed last is used again. -/
theorem store_eq_reuse {rest : List FrameId} (free : arena.free = id :: rest) (frame : Frame) :
    arena.store frame = (id, {
      cells := arena.cells.setIfInBounds id.index
        (some { frame with activation := arena.activations })
      free := rest
      liveCount := arena.liveCount + 1
      activations := arena.activations + 1 }) := by
  simp only [store, free, set]

theorem store_eq_grow (free : arena.free = []) (frame : Frame) :
    arena.store frame = (⟨arena.cells.size⟩, {
      cells := arena.cells.push (some { frame with activation := arena.activations })
      free := []
      liveCount := arena.liveCount + 1
      activations := arena.activations + 1 }) := by
  simp only [store, free]

/-- A later frame comes into the place that it would have come into. -/
theorem store_residue (counted : arena.Counted further) (late : residue.start ≤ arena.activations)
    (frame : Frame) : (residue.arena arena).store frame =
      ((arena.store frame).1, residue.arena (arena.store frame).2) := by
  have serial := Residue.serial_succ late
  cases free : arena.free with
  | cons id rest =>
      have inRange := ((counted.mem_free_iff id).mp (by simp [free])).1
      have cells := @cells_set_residue residue arena id inRange
        (some { frame with activation := arena.activations })
      have places : (residue.arena arena).free = id :: (rest ++ residue.vacant arena.cells.size) := by
        simp [Residue.arena, free]
      rw [store_eq_reuse places, store_eq_reuse free]
      simp only [Residue.arena, serial, Array.size_setIfInBounds, Prod.mk.injEq, mk.injEq, and_true,
        true_and]
      exact cells
  | nil =>
      have places : (residue.arena arena).free = residue.vacant arena.cells.size := by
        simp [Residue.arena, free]
      rcases Nat.lt_or_ge arena.cells.size residue.room with room | full
      · -- the cell that the arena would grow by is there already
        obtain ⟨count, more⟩ : ∃ count, residue.room - arena.cells.size = count + 1 :=
          ⟨residue.room - arena.cells.size - 1, by omega⟩
        have fewer : residue.room - (arena.cells.size + 1) = count := by omega
        have next : residue.vacant arena.cells.size =
            ⟨arena.cells.size⟩ :: residue.vacant (arena.cells.size + 1) := by
          rw [Residue.vacant, Residue.vacant, more, fewer, List.range'_succ, List.map_cons]
        rw [store_eq_reuse (places.trans next), store_eq_grow free]
        simp only [Residue.arena, serial, Array.size_push, List.nil_append, more, fewer,
          Prod.mk.injEq, mk.injEq, and_true, true_and]
        apply Array.toList_inj.mp
        simp [Residue.frame, List.replicate_succ]
      · have none : residue.room - arena.cells.size = 0 := by omega
        have fewer : residue.room - (arena.cells.size + 1) = 0 := by omega
        have empty : residue.vacant arena.cells.size = [] := by simp [Residue.vacant, none]
        have later : residue.vacant (arena.cells.size + 1) = [] := by simp [Residue.vacant, fewer]
        rw [store_eq_grow (places.trans empty), store_eq_grow free]
        simp [Residue.arena, Residue.frame, serial, none, fewer, later]

theorem allocate_residue (counted : arena.Counted further)
    (late : residue.start ≤ arena.activations)
    (outside : ∀ parent, frame.parent = some parent → ∃ around, arena.frame? parent = some around) :
    (residue.arena arena).allocate frame =
      ((arena.allocate frame).1, residue.arena (arena.allocate frame).2) := by
  simp only [allocate]
  cases named : frame.parent with
  | none => exact store_residue counted late frame
  | some parent =>
      obtain ⟨around, live⟩ := outside parent named
      dsimp only
      rw [pin_residue]
      exact store_residue (counted.pin live) (by rwa [activations_pin]) frame

/-- Parents are older as far as they are alive. -/
def Aged (arena : FrameArena) : Prop :=
  ∀ id frame parent around, arena.frame? id = some frame → frame.parent = some parent →
    arena.frame? parent = some around → around.activation < frame.activation

theorem Counted.aged (counted : arena.Counted further) : arena.Aged := by
  intro id frame parent around found named outside
  obtain ⟨held, live, older⟩ := counted.parent_older id frame parent found named
  cases outside.symm.trans live
  exact older

theorem Aged.remove (aged : arena.Aged) (id : FrameId) : (arena.remove id).Aged := by
  intro inner frame parent around found named outside
  rw [frame?_remove] at found outside
  split at found
  · cases found
  · split at outside
    · cases outside
    · exact aged inner frame parent around found named outside

/-- Frames go in the same way, however much fuel is left over. -/
theorem release_residue (aged : arena.Aged) {fuel more : Nat} (least : fuel ≤ more)
    (enough : ∀ frame, arena.frame? id = some frame → frame.activation < fuel) :
    release more (residue.arena arena) id = residue.arena (release fuel arena id) := by
  induction fuel generalizing arena id more with
  | zero =>
      have gone : arena.frame? id = none := by
        cases found : arena.frame? id with
        | none => rfl
        | some frame => exact absurd (enough frame found) (Nat.not_lt_zero _)
      cases more with
      | zero => rfl
      | succ more => simp only [release, frame?_residue, gone, Option.map_none]
  | succ fuel hypothesis =>
      obtain ⟨more, rfl⟩ := Nat.exists_eq_add_of_le' (Nat.one_le_of_lt least)
      simp only [release, frame?_residue]
      cases found : arena.frame? id with
      | none => rfl
      | some frame =>
          have inRange := index_lt_of_frame? found
          have older := enough frame found
          simp only [Option.map_some, Residue.frame]
          split
          · cases named : frame.parent with
            | none => exact remove_residue inRange
            | some parent =>
                dsimp only
                rw [remove_residue inRange]
                apply hypothesis (aged.remove id) (Nat.le_of_succ_le_succ least)
                intro around outside
                rw [frame?_remove] at outside
                split at outside
                · cases outside
                · have younger := aged id frame parent around found named outside
                  omega
          · exact set_residue inRange { frame with pins := frame.pins - 1 }

theorem retire_residue (aged : arena.Aged) (id : FrameId) :
    (residue.arena arena).retire id = residue.arena (arena.retire id) := by
  simp only [retire, frame?_residue]
  cases found : arena.frame? id with
  | none => rfl
  | some frame =>
      have inRange := index_lt_of_frame? found
      simp only [Option.map_some, Residue.frame]
      split
      · cases named : frame.parent with
        | none => exact remove_residue inRange
        | some parent =>
            dsimp only
            rw [remove_residue inRange]
            apply release_residue (aged.remove id)
            · exact Nat.succ_le_succ (residue.le_serial frame.activation)
            · intro around outside
              rw [frame?_remove] at outside
              split at outside
              · cases outside
              · exact (aged id frame parent around found named outside).trans (Nat.lt_succ_self _)
      · exact set_residue inRange { frame with retired := true }

/-- To retire a frame that is not there changes nothing. -/
theorem Counted.retired (counted : arena.Counted further) (id : FrameId) :
    (arena.retire id).Counted further := by
  cases found : arena.frame? id with
  | none =>
      simp only [FrameArena.retire, found]
      exact counted
  | some frame => exact counted.retire found

theorem retireAll_residue (counted : arena.Counted further) (chain : List FrameId) :
    chain.foldl retire (residue.arena arena) = residue.arena (chain.foldl retire arena) := by
  induction chain generalizing arena with
  | nil => rfl
  | cons id rest hypothesis =>
      rw [List.foldl_cons, List.foldl_cons, retire_residue counted.aged]
      exact hypothesis (counted.retired id)

/-! Looking up. -/

theorem around_residue {frames : List (FrameId × Frame)} (around : arena.Around id frames) :
    (residue.arena arena).Around id (frames.map (Prod.map (fun id => id) residue.frame)) := by
  induction around with
  | outermost found named =>
      exact .outermost (by rw [frame?_residue, found]; rfl) named
  | inner found named _ hypothesis =>
      exact .inner (by rw [frame?_residue, found]; rfl) named hypothesis

theorem holderAmong_residue (level : Nat) (frames : List (FrameId × Frame)) :
    holderAmong level (frames.map (Prod.map (fun id => id) residue.frame)) =
      holderAmong level frames := by
  induction frames with
  | nil => rfl
  | cons entry outer hypothesis =>
      rw [List.map_cons, holderAmong_cons, holderAmong_cons, hypothesis]
      rfl

theorem resolve_residue (counted : arena.Counted further) (id : FrameId) (level : Nat) :
    (residue.arena arena).resolve id level = arena.resolve id level := by
  cases found : arena.frame? id with
  | none => simp only [resolve, get, frame?_residue, found, Option.map_none, bind, Except.bind]
  | some frame =>
      obtain ⟨frames, around⟩ := counted.around found
      have found' : (residue.arena arena).frame? id = some (residue.frame frame) := by
        rw [frame?_residue, found, Option.map_some]
      have length := around.length_le counted found
      have more := residue.le_serial frame.activation
      rw [around.resolve counted found, ← holderAmong_residue, resolve, get_of_frame? found']
      apply (around_residue around).resolveWithin
      simp only [List.length_map, Residue.frame]
      omega

/-! The frame that is gone. -/

/-- The frames that were there before it keep their serial numbers. -/
theorem frame?_residue_of (counted : arena.Counted further) (id : FrameId) :
    ((Residue.of arena).arena arena).frame? id = arena.frame? id := by
  rw [frame?_residue]
  cases found : arena.frame? id with
  | none => rfl
  | some frame =>
      rw [Option.map_some, Residue.frame, Residue.serial_of_lt (counted.activation_lt id frame found)]

theorem cells_residue_of (counted : arena.Counted further) :
    arena.cells.map (Option.map (Residue.of arena).frame) = arena.cells := by
  conv_rhs => rw [← Array.map_id' arena.cells]
  apply Array.map_congr_left
  intro cell inside
  cases cell with
  | none => rfl
  | some frame =>
      obtain ⟨index, there⟩ := Array.mem_iff_getElem?.mp inside
      have found := frame?_residue_of counted ⟨index⟩
      rwa [frame?_residue, frame?_eq_some_iff.mpr there] at found

theorem remove_store (counted : arena.Counted further) (frame : Frame) :
    (arena.store frame).2.remove (arena.store frame).1 = (Residue.of arena).arena arena := by
  have serial : (Residue.of arena).serial arena.activations = arena.activations + 1 :=
    if_neg (Nat.lt_irrefl _)
  cases free : arena.free with
  | cons id rest =>
      obtain ⟨inRange, vacant⟩ := (counted.mem_free_iff id).mp (by simp [free])
      have cell : arena.cells[id.index] = none := by
        simpa [frame?, inRange] using vacant
      have cells : arena.cells.setIfInBounds id.index none = arena.cells := by
        rw [Array.setIfInBounds_def, dif_pos inRange, ← cell, Array.set_getElem_self]
      have room : (Residue.of arena).room = arena.cells.size := if_neg (by simp [free])
      rw [store_eq_reuse free]
      simp [remove, Residue.arena, Residue.vacant, cells_residue_of counted, room, serial, free, cells]
  | nil =>
      have room : (Residue.of arena).room = arena.cells.size + 1 := if_pos free
      rw [store_eq_grow free]
      have cells (held : Frame) : (arena.cells.push (some held)).setIfInBounds arena.cells.size none =
          arena.cells.push none := by
        apply Array.toList_inj.mp
        simp
      simp [remove, Residue.arena, Residue.vacant, cells_residue_of counted, room, serial, free, cells]

/-- A frame that retires as soon as it has come in leaves nothing but its residue. -/
theorem retire_allocate (counted : arena.Counted further) (unpinned : frame.pins = 0)
    (outside : ∀ parent, frame.parent = some parent → ∃ around, arena.frame? parent = some around) :
    (arena.allocate frame).2.retire (arena.allocate frame).1 = (Residue.of arena).arena arena := by
  have new := (counted.grown outside).new
  rw [retire, new]
  simp only [unpinned, if_true]
  cases named : frame.parent with
  | none =>
      simp only [allocate, named]
      exact remove_store counted frame
  | some parent =>
      obtain ⟨around, live⟩ := outside parent named
      have pinned : arena.pin parent = arena.set parent { around with pins := around.pins + 1 } := by
        rw [pin, live]
      have same : Residue.of (arena.pin parent) = Residue.of arena := by
        rw [pinned]
        simp [Residue.of, set]
      have inRange := index_lt_of_frame? live
      have held : (arena.pin parent).frame? parent = some { around with pins := around.pins + 1 } := by
        rw [pinned, frame?_set_self _ inRange]
      have lasts : ¬ (around.retired = true ∧ around.pins = 0) := fun gone =>
        counted.pins_ne_zero parent around live gone.1 gone.2
      have restored : (arena.pin parent).set parent around = arena := by
        rw [pinned, set_set, set_self live]
      simp only [allocate, named, remove_store (counted.pin live), same, release, frame?_residue, held,
        Option.map_some, Residue.frame, Nat.add_sub_cancel, Bool.and_eq_true, decide_eq_true_eq,
        if_neg lasts]
      exact (set_residue (index_lt_of_frame? held) around).trans (congrArg _ restored)

end FrameArena

end CoopScript
