import CoopScript.Proofs.Frames.Tally

/-!
The values in an arena. The operations on frames bring in no others than those of the frames that
they are given.
-/

namespace CoopScript.FrameArena

/-- The live frames hold no other values than the known ones. -/
def Within (arena : FrameArena) (known : Set Value) : Prop :=
  ∀ id frame, arena.frame? id = some frame → ∀ value ∈ frame.values, value ∈ known

variable {arena : FrameArena} {known : Set Value} {id other : FrameId} {frame new : Frame}
  {value : Value}

theorem mem_values_iff :
    value ∈ arena.values ↔ ∃ id frame, arena.frame? id = some frame ∧ value ∈ frame.values := by
  simp only [values, List.mem_flatMap, Array.mem_toList_iff]
  constructor
  · intro given
    obtain ⟨cell, inside, held⟩ := given
    obtain ⟨index, found⟩ := Array.getElem?_of_mem inside
    cases cell with
    | none => cases held
    | some frame => exact ⟨⟨index⟩, frame, frame?_eq_some_iff.mpr found, held⟩
  · intro given
    obtain ⟨id, frame, found, held⟩ := given
    exact ⟨some frame, Array.mem_of_getElem? (frame?_eq_some_iff.mp found), held⟩

theorem within_iff : arena.Within known ↔ ∀ value ∈ arena.values, value ∈ known := by
  simp only [mem_values_iff]
  constructor
  · intro within value given
    obtain ⟨id, frame, found, held⟩ := given
    exact within id frame found value held
  · intro all id frame found value held
    exact all value ⟨id, frame, found, held⟩

/-- A frame of an arena in which one was set is that one or was there before. -/
theorem frame?_set_cases (found : (arena.set id new).frame? other = some frame) :
    frame = new ∨ arena.frame? other = some frame := by
  by_cases inRange : id.index < arena.cells.size
  · rw [frame?_set inRange] at found
    split at found
    · exact .inl (Option.some.inj found).symm
    · exact .inr found
  · have same : arena.set id new = arena := by
      unfold set
      rw [Array.setIfInBounds_eq_of_size_le (Nat.le_of_not_lt inRange)]
    rw [same] at found
    exact .inr found

namespace Within

theorem empty (known : Set Value) : Within {} known := by
  intro id frame found
  rw [frame?_eq_some_iff] at found
  cases found

theorem mono {more : Set Value} (within : arena.Within known) (subset : known ⊆ more) :
    arena.Within more :=
  fun id frame found value held => subset (within id frame found value held)

theorem set (within : arena.Within known) (held : ∀ value ∈ new.values, value ∈ known) :
    (arena.set id new).Within known := by
  intro other frame found
  rcases frame?_set_cases found with rfl | found
  · exact held
  · exact within other frame found

theorem remove (within : arena.Within known) (id : FrameId) : (arena.remove id).Within known := by
  intro other frame found
  rw [frame?_remove] at found
  split at found
  · cases found
  · exact within other frame found

/-- A frame with another count or mark holds what it held. -/
theorem mark (within : arena.Within known) (found : arena.frame? id = some frame)
    (same : new.values = frame.values) : (arena.set id new).Within known := by
  apply within.set
  rw [same]
  exact within id frame found

theorem release (within : arena.Within known) (fuel : Nat) (id : FrameId) :
    (FrameArena.release fuel arena id).Within known := by
  induction fuel generalizing arena id with
  | zero => exact within
  | succ fuel hypothesis =>
      unfold FrameArena.release
      split
      · exact within
      · next frame found =>
          dsimp only
          split
          · split
            · exact hypothesis (within.remove id) _
            · exact within.remove id
          · exact within.mark found rfl

theorem retire (within : arena.Within known) (id : FrameId) : (arena.retire id).Within known := by
  unfold FrameArena.retire
  split
  · exact within
  · next frame found =>
      split
      · split
        · exact (within.remove id).release _ _
        · exact within.remove id
      · exact within.mark found rfl

theorem pin (within : arena.Within known) (id : FrameId) : (arena.pin id).Within known := by
  unfold FrameArena.pin
  split
  · next frame found => exact within.mark found rfl
  · exact within

theorem store (within : arena.Within known) (held : ∀ value ∈ new.values, value ∈ known) :
    (arena.store new).2.Within known := by
  unfold FrameArena.store
  dsimp only
  split
  · next place free _ =>
      apply set
      · exact within
      · exact held
  · intro other frame found
    rw [frame?_eq_some_iff, Array.getElem?_push] at found
    split at found
    · cases found
      exact held
    · exact within other frame (frame?_eq_some_iff.mpr found)

theorem allocate (within : arena.Within known) (held : ∀ value ∈ new.values, value ∈ known) :
    (arena.allocate new).2.Within known := by
  unfold FrameArena.allocate
  split
  · exact (within.pin _).store held
  · exact within.store held

end Within

end CoopScript.FrameArena
