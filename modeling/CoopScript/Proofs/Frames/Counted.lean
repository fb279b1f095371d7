import CoopScript.Proofs.Frames.Tally

/-!
An arena whose counters are right: every live frame has a pin for each live frame that names it as
its parent and for each further pin that is accounted for, parents are alive and older, and a
retired frame is alive only as long as it has pins.
-/

namespace CoopScript.FrameArena

/-- One pin, on the given frame if there is one. -/
def once (pinned : Option FrameId) (id : FrameId) : Nat := if pinned = some id then 1 else 0

@[simp] theorem once_none (id : FrameId) : once none id = 0 := rfl

@[simp] theorem once_self (id : FrameId) : once (some id) id = 1 := by simp [once]

theorem once_of_ne {id other : FrameId} (different : other ≠ id) : once (some id) other = 0 := by
  simp [once, different.symm]

/-- The counters of the arena are right if further pins count as given. -/
structure Counted (arena : FrameArena) (further : FrameId → Nat) : Prop where
  free_nodup : arena.free.Nodup
  mem_free_iff : ∀ id, id ∈ arena.free ↔
    id.index < arena.cells.size ∧ arena.frame? id = none
  liveCount_eq : arena.liveCount = arena.tally fun _ => true
  activation_lt : ∀ id frame, arena.frame? id = some frame → frame.activation < arena.activations
  parent_older : ∀ id frame parent, arena.frame? id = some frame → frame.parent = some parent →
    ∃ around, arena.frame? parent = some around ∧ around.activation < frame.activation
  pins_eq : ∀ id frame, arena.frame? id = some frame →
    frame.pins = arena.children id + further id
  pins_ne_zero : ∀ id frame, arena.frame? id = some frame → frame.retired = true → frame.pins ≠ 0
  further_eq_zero : ∀ id, arena.frame? id = none → further id = 0

variable {arena : FrameArena} {further further' : FrameId → Nat} {id : FrameId} {frame : Frame}

theorem Counted.empty : Counted {} (once none) where
  free_nodup := List.nodup_nil
  mem_free_iff := by simp
  liveCount_eq := rfl
  activation_lt := by simp [frame?]
  parent_older := by simp [frame?]
  pins_eq := by simp [frame?]
  pins_ne_zero := by simp [frame?]
  further_eq_zero := by simp

/-- A frame is not its own parent. -/
theorem Counted.parent_ne (counted : arena.Counted further) (found : arena.frame? id = some frame) :
    frame.parent ≠ some id := by
  intro self
  obtain ⟨around, again, older⟩ := counted.parent_older id frame id found self
  rw [found] at again
  cases again
  exact Nat.lt_irrefl _ older

/-- A frame may change in what it holds, and in its pins and whether it is retired as far as the
counters allow. -/
theorem Counted.set (counted : arena.Counted further') (found : arena.frame? id = some frame)
    {new : Frame} (parent : new.parent = frame.parent) (activation : new.activation = frame.activation)
    (pins : new.pins = arena.children id + further id)
    (pinned : new.retired = true → new.pins ≠ 0)
    (others : ∀ other, other ≠ id → further' other = further other) :
    (arena.set id new).Counted further := by
  have inRange := index_lt_of_frame? found
  have children (other : FrameId) : (arena.set id new).children other = arena.children other :=
    tally_set_of_eq found (by simp only [parent])
  have size : (arena.set id new).cells.size = arena.cells.size := by
    simp [FrameArena.set]
  constructor
  case free_nodup => exact counted.free_nodup
  case mem_free_iff =>
    intro other
    rw [frame?_set inRange]
    have free := counted.mem_free_iff other
    split
    · next same =>
        subst same
        simpa [found, FrameArena.set] using free
    · rw [size]
      exact free
  case liveCount_eq => exact counted.liveCount_eq.trans (tally_set_of_eq found (by rfl)).symm
  case activation_lt =>
    intro other held
    rw [frame?_set inRange]
    split
    · intro alike
      cases alike
      exact activation ▸ counted.activation_lt id frame found
    · exact counted.activation_lt other held
  case parent_older =>
    intro other held outer
    rw [frame?_set inRange, frame?_set inRange]
    intro place named
    have old : ∃ before, arena.frame? other = some before ∧ before.parent = some outer ∧
        before.activation = held.activation := by
      split at place
      · next same =>
          cases place
          exact ⟨frame, same ▸ found, parent ▸ named, activation.symm⟩
      · exact ⟨held, place, named, rfl⟩
    obtain ⟨before, live, names, same⟩ := old
    obtain ⟨around, outside, older⟩ := counted.parent_older other before outer live names
    rw [same] at older
    split
    · next equal =>
        subst equal
        rw [found] at outside
        cases outside
        exact ⟨new, rfl, activation ▸ older⟩
    · exact ⟨around, outside, older⟩
  case pins_eq =>
    intro other held
    rw [frame?_set inRange, children]
    split
    · next same =>
        intro alike
        cases alike
        exact same ▸ pins
    · next different =>
        intro place
        rw [counted.pins_eq other held place, others other different]
  case pins_ne_zero =>
    intro other held
    rw [frame?_set inRange]
    split
    · intro alike
      cases alike
      exact pinned
    · exact counted.pins_ne_zero other held
  case further_eq_zero =>
    intro other
    rw [frame?_set inRange]
    split
    · simp
    · next different =>
        intro empty
        rw [← others other different]
        exact counted.further_eq_zero other empty

/-- One more pin on a live frame is one that is to be accounted for. -/
theorem Counted.pin (counted : arena.Counted further) (found : arena.frame? id = some frame) :
    (arena.pin id).Counted (further + once (some id)) := by
  simp only [FrameArena.pin, found]
  refine counted.set found rfl rfl ?_ (fun _ => by simp) ?_
  · simp [counted.pins_eq id frame found, Nat.add_assoc]
  · intro other different
    simp [once_of_ne different]

/-- With a frame that no live frame names as its parent, what it pinned goes on being pinned. -/
theorem Counted.remove (counted : arena.Counted further') (found : arena.frame? id = some frame)
    (childless : arena.children id = 0) (gone : further id = 0)
    (others : ∀ other, other ≠ id → further' other = further other) :
    (arena.remove id).Counted (further + once frame.parent) := by
  have orphan := children_eq_zero_iff.mp childless
  have children (other : FrameId) : (arena.remove id).children other + once frame.parent other =
      arena.children other := by
    have counts := tally_remove found fun frame => frame.parent = some other
    simpa [FrameArena.children, once] using counts
  have inRange := index_lt_of_frame? found
  have size : (arena.remove id).cells.size = arena.cells.size := by simp [FrameArena.remove]
  have old (other : FrameId) (held : Frame) (place : (arena.remove id).frame? other = some held) :
      other ≠ id ∧ arena.frame? other = some held := by
    rw [frame?_remove] at place
    split at place
    · cases place
    · next different => exact ⟨different, place⟩
  constructor
  case free_nodup =>
    refine List.nodup_cons.mpr ⟨fun free => ?_, counted.free_nodup⟩
    have empty := ((counted.mem_free_iff id).mp free).2
    rw [found] at empty
    cases empty
  case mem_free_iff =>
    intro other
    rw [frame?_remove, size]
    simp only [FrameArena.remove, List.mem_cons, counted.mem_free_iff]
    split
    · next same => simpa [same] using inRange
    · next different => simp [different]
  case liveCount_eq =>
    have counts := tally_remove found fun _ => true
    simp only [if_true] at counts
    simp only [FrameArena.remove, counted.liveCount_eq] at counts ⊢
    omega
  case activation_lt =>
    intro other held place
    exact counted.activation_lt other held (old other held place).2
  case parent_older =>
    intro other held outer place named
    obtain ⟨_, live⟩ := old other held place
    obtain ⟨around, outside, older⟩ := counted.parent_older other held outer live named
    have different : outer ≠ id := fun same => orphan other held live (same ▸ named)
    exact ⟨around, by rw [frame?_remove, if_neg different, outside], older⟩
  case pins_eq =>
    intro other held place
    obtain ⟨different, live⟩ := old other held place
    have counts := children other
    rw [counted.pins_eq other held live, others other different, Pi.add_apply]
    omega
  case pins_ne_zero =>
    intro other held place
    exact counted.pins_ne_zero other held (old other held place).2
  case further_eq_zero =>
    intro other empty
    by_cases same : other = id
    · subst same
      have outer : once frame.parent other = 0 := by simp [once, counted.parent_ne found]
      rw [Pi.add_apply, gone, outer]
    · rw [frame?_remove, if_neg same] at empty
      have outer : once frame.parent other = 0 := by
        unfold once
        split
        · next named =>
            obtain ⟨around, outside, _⟩ := counted.parent_older id frame other found named
            rw [empty] at outside
            cases outside
        · rfl
      rw [Pi.add_apply, ← others other same, counted.further_eq_zero other empty, outer]

/-- A retired frame that loses its last pin takes its pin on its parent with it, and so on outward.
The fuel suffices because parents are older. -/
theorem Counted.release {fuel : Nat} (counted : arena.Counted (further + once (some id)))
    (found : arena.frame? id = some frame) (enough : frame.activation < fuel) :
    (arena.release fuel id).Counted further := by
  induction fuel generalizing arena id frame further with
  | zero => omega
  | succ fuel hypothesis =>
      have others (other : FrameId) (different : other ≠ id) :
          (further + once (some id)) other = further other := by
        simp [once_of_ne different]
      have pins := counted.pins_eq id frame found
      simp only [Pi.add_apply, once_self] at pins
      simp only [FrameArena.release, found]
      by_cases last : frame.retired = true ∧ frame.pins - 1 = 0
      · simp only [last.1, last.2, decide_true, Bool.and_self, if_true]
        have childless : arena.children id = 0 := by omega
        have removed := counted.remove found childless (by omega) others
        cases named : frame.parent with
        | none =>
            rw [named] at removed
            simpa [once, Pi.add_def] using removed
        | some parent =>
            obtain ⟨around, outside, older⟩ := counted.parent_older id frame parent found named
            have different : parent ≠ id := fun same =>
              counted.parent_ne found (same ▸ named)
            rw [named] at removed
            exact hypothesis removed (by rw [frame?_remove, if_neg different, outside]) (by omega)
      · have condition : (frame.retired && decide (frame.pins - 1 = 0)) = false := by
          simpa using last
        simp only [condition, Bool.false_eq_true, if_false]
        exact counted.set found rfl rfl (by simp only; omega) (fun retired none => last ⟨retired, none⟩)
          others

theorem Counted.retire (counted : arena.Counted further) (found : arena.frame? id = some frame) :
    (arena.retire id).Counted further := by
  have pins := counted.pins_eq id frame found
  simp only [FrameArena.retire, found]
  by_cases unpinned : frame.pins = 0
  · rw [if_pos unpinned]
    have childless : arena.children id = 0 := by omega
    have removed := counted.remove found childless (by omega) fun _ _ => rfl
    cases named : frame.parent with
    | none =>
        rw [named] at removed
        simpa [once, Pi.add_def] using removed
    | some parent =>
        obtain ⟨around, outside, older⟩ := counted.parent_older id frame parent found named
        have different : parent ≠ id := fun same => counted.parent_ne found (same ▸ named)
        rw [named] at removed
        exact removed.release (by rw [frame?_remove, if_neg different, outside]) (by omega)
  · rw [if_neg unpinned]
    exact counted.set found rfl rfl pins (fun _ => unpinned) fun _ _ => rfl

end CoopScript.FrameArena
