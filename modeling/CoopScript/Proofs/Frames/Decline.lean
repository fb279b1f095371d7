import CoopScript.Proofs.Frames.Counted

/-!
Frames that go. When a frame retires, it and retired frames around it may leave the arena, and every
other frame stays as it was but for its pins.
-/

namespace CoopScript.FrameArena

variable {arena : FrameArena} {id : FrameId} {frame : Frame}

/-- Only retired frames may be gone, and the others changed in nothing but their pins. -/
structure Declined (before after : FrameArena) : Prop where
  kept : ∀ id frame, before.frame? id = some frame → frame.retired = false →
    ∃ pins, after.frame? id = some { frame with pins }
  old : ∀ id frame, after.frame? id = some frame →
    ∃ earlier, before.frame? id = some earlier ∧ frame = { earlier with pins := frame.pins }

theorem Declined.refl (arena : FrameArena) : arena.Declined arena where
  kept _ frame found _ := ⟨frame.pins, found⟩
  old _ frame found := ⟨frame, found, rfl⟩

theorem Declined.trans {first second third : FrameArena} (earlier : first.Declined second)
    (later : second.Declined third) : first.Declined third where
  kept id frame found running := by
    obtain ⟨pins, between⟩ := earlier.kept id frame found running
    obtain ⟨pins, after⟩ := later.kept id _ between running
    exact ⟨pins, after⟩
  old id frame found := by
    obtain ⟨between, middle, same⟩ := later.old id frame found
    obtain ⟨before, live, alike⟩ := earlier.old id between middle
    exact ⟨before, live, by rw [same, alike]⟩

theorem Declined.remove (found : arena.frame? id = some frame) (retired : frame.retired = true) :
    arena.Declined (arena.remove id) where
  kept other held live running := by
    have different : other ≠ id := by
      intro equal
      subst equal
      rw [found] at live
      cases live
      rw [retired] at running
      cases running
    exact ⟨held.pins, by rw [frame?_remove, if_neg different, live]⟩
  old other held live := by
    rw [frame?_remove] at live
    split at live
    · cases live
    · exact ⟨held, live, rfl⟩

theorem Declined.setPins (found : arena.frame? id = some frame) (pins : Nat) :
    arena.Declined (arena.set id { frame with pins }) where
  kept other held live _ := by
    rw [frame?_set (index_lt_of_frame? found)]
    split
    · next same =>
        rw [same, found] at live
        cases live
        exact ⟨pins, rfl⟩
    · exact ⟨held.pins, live⟩
  old other held live := by
    rw [frame?_set (index_lt_of_frame? found)] at live
    split at live
    · next same =>
        cases live
        exact ⟨frame, same ▸ found, rfl⟩
    · exact ⟨held, live, rfl⟩

theorem Declined.release (arena : FrameArena) (fuel : Nat) (id : FrameId) :
    arena.Declined (arena.release fuel id) := by
  induction fuel generalizing arena id with
  | zero => exact .refl arena
  | succ fuel hypothesis =>
      simp only [FrameArena.release]
      cases found : arena.frame? id with
      | none => exact .refl arena
      | some frame =>
          by_cases last : (frame.retired && decide (frame.pins - 1 = 0)) = true
          · simp only [last, if_true]
            have retired : frame.retired = true := (Bool.and_eq_true_iff.mp last).1
            have removed : arena.Declined (arena.remove id) := .remove found retired
            cases frame.parent with
            | none => exact removed
            | some parent => exact removed.trans (hypothesis (arena.remove id) parent)
          · simp only [last, Bool.false_eq_true, if_false]
            exact .setPins found (frame.pins - 1)

/-- A place that is emptied does not show what it held before. -/
theorem remove_set (arena : FrameArena) (id : FrameId) (frame : Frame) :
    (arena.set id frame).remove id = arena.remove id := by
  simp [remove, set, Array.setIfInBounds_setIfInBounds]

/-- Retiring marks a frame, and then frames may go. -/
theorem Declined.retire (found : arena.frame? id = some frame) :
    (arena.set id { frame with retired := true }).Declined (arena.retire id) := by
  have marked : (arena.set id { frame with retired := true }).frame? id =
      some { frame with retired := true } := frame?_set_self _ (index_lt_of_frame? found)
  simp only [FrameArena.retire, found]
  by_cases unpinned : frame.pins = 0
  · rw [if_pos unpinned, ← remove_set arena id { frame with retired := true }]
    have removed := Declined.remove marked rfl
    split
    · next parent _ => exact removed.trans (.release _ _ parent)
    · exact removed
  · rw [if_neg unpinned]
    exact .refl _

/-- The places of the arena once an executing frame has retired. -/
theorem retire_kept (found : arena.frame? id = some frame) {other : FrameId} {held : Frame}
    (different : other ≠ id) (live : arena.frame? other = some held)
    (running : held.retired = false) :
    ∃ pins, (arena.retire id).frame? other = some { held with pins } := by
  refine (Declined.retire found).kept other held ?_ running
  rw [frame?_set (index_lt_of_frame? found), if_neg different, live]

theorem retire_old (found : arena.frame? id = some frame) {other : FrameId} {held : Frame}
    (live : (arena.retire id).frame? other = some held) :
    ∃ earlier, arena.frame? other = some earlier ∧
      held = { earlier with pins := held.pins, retired := held.retired } ∧
      (held.retired = false → earlier.retired = false ∧ other ≠ id) := by
  obtain ⟨marked, place, alike⟩ := (Declined.retire found).old other held live
  rw [frame?_set (index_lt_of_frame? found)] at place
  split at place
  · next same =>
      cases place
      exact ⟨frame, same ▸ found, by rw [alike], by rw [alike]; simp⟩
  · next different =>
      exact ⟨marked, place, by rw [alike], fun running => ⟨by rw [alike] at running; exact running,
        different⟩⟩

end CoopScript.FrameArena
