import CoopScript.Proofs.Frames.Counted

/-!
A new frame in the arena. It takes a vacant place, and every frame that was there stays as it was
but for a pin on the parent.
-/

namespace CoopScript.FrameArena

variable {arena : FrameArena} {further : FrameId → Nat} {id : FrameId} {frame : Frame}

/-- A place for a new frame is vacant, and counts as such in every test. -/
theorem store_vacant (counted : arena.Counted further) (frame : Frame) :
    arena.frame? (arena.store frame).1 = none := by
  unfold store
  cases free : arena.free with
  | nil => simp [frame?]
  | cons place rest => exact ((counted.mem_free_iff place).mp (by simp [free])).2

theorem frame?_store (counted : arena.Counted further) (frame : Frame) (other : FrameId) :
    (arena.store frame).2.frame? other =
      if other = (arena.store frame).1 then some { frame with activation := arena.activations }
      else arena.frame? other := by
  unfold store
  cases free : arena.free with
  | nil =>
      have index : other.index = arena.cells.size ↔ other = ⟨arena.cells.size⟩ := by
        cases other; simp
      by_cases same : other = ⟨arena.cells.size⟩
      · simp [frame?, same]
      · rw [if_neg same]
        simp [frame?, Array.getElem?_push, index, same]
  | cons place rest =>
      have inRange := ((counted.mem_free_iff place).mp (by simp [free])).1
      exact @frame?_set { arena with
        free := rest
        liveCount := arena.liveCount + 1
        activations := arena.activations + 1 } place inRange _ other

theorem tally_store (counted : arena.Counted further) (frame : Frame) (test : Frame → Bool) :
    (arena.store frame).2.tally test =
      arena.tally test + (if test { frame with activation := arena.activations } then 1 else 0) := by
  unfold store
  cases free : arena.free with
  | nil => simp [tally, Array.countP_push]
  | cons place rest =>
      obtain ⟨inRange, vacant⟩ := (counted.mem_free_iff place).mp (by simp [free])
      have cell : arena.cells[place.index]? = some none := by
        rw [Array.getElem?_eq_getElem inRange]
        simp only [frame?, Array.getElem?_eq_getElem inRange, Option.join_some] at vacant
        rw [vacant]
      exact countP_setIfInBounds (fun cell : Option Frame => cell.any test) cell
        (some { frame with activation := arena.activations })

theorem liveCount_store (arena : FrameArena) (frame : Frame) :
    (arena.store frame).2.liveCount = arena.liveCount + 1 := by
  unfold store
  cases arena.free <;> rfl

theorem activations_store (arena : FrameArena) (frame : Frame) :
    (arena.store frame).2.activations = arena.activations + 1 := by
  unfold store
  cases arena.free <;> rfl

/-- The place of a new frame is free no more. -/
theorem mem_free_store_iff (counted : arena.Counted further) (frame : Frame) (id : FrameId) :
    id ∈ (arena.store frame).2.free ↔
      id.index < (arena.store frame).2.cells.size ∧ (arena.store frame).2.frame? id = none := by
  rw [frame?_store counted]
  have free := counted.mem_free_iff id
  have distinct := counted.free_nodup
  unfold store at *
  cases places : arena.free with
  | nil =>
      simp only [places, List.not_mem_nil, false_iff, not_and] at free ⊢
      intro inRange
      by_cases same : id = ⟨arena.cells.size⟩
      · simp [same]
      · have index : id.index ≠ arena.cells.size := fun equal => same (by cases id; simp_all)
        rw [if_neg same]
        simp only [Array.size_push] at inRange
        exact free (by omega)
  | cons place rest =>
      simp only [places, List.nodup_cons, List.mem_cons] at free distinct ⊢
      simp only [FrameArena.set, Array.size_setIfInBounds]
      by_cases same : id = place
      · simp [same, distinct.1]
      · simpa [same] using free

theorem Counted.store (counted : arena.Counted (further + once frame.parent))
    (outside : ∀ parent, frame.parent = some parent → ∃ around, arena.frame? parent = some around)
    (unpinned : frame.pins = 0) (running : frame.retired = false) :
    (arena.store frame).2.Counted further := by
  have vacant := store_vacant counted frame
  have children (other : FrameId) : (arena.store frame).2.children other =
      arena.children other + once frame.parent other := by
    have counts := tally_store counted frame fun frame => frame.parent = some other
    simpa [FrameArena.children, once] using counts
  constructor
  case free_nodup =>
    have distinct := counted.free_nodup
    unfold FrameArena.store
    cases free : arena.free with
    | nil => simp
    | cons place rest =>
        rw [free] at distinct
        exact (List.nodup_cons.mp distinct).2
  case mem_free_iff => exact fun other => mem_free_store_iff counted frame other
  case liveCount_eq =>
    rw [liveCount_store, tally_store counted, counted.liveCount_eq]
    simp
  case activation_lt =>
    intro other held
    rw [frame?_store counted, activations_store]
    split
    · intro equal
      cases equal
      exact Nat.lt_succ_self _
    · intro place
      exact Nat.lt_succ_of_lt (counted.activation_lt other held place)
  case parent_older =>
    intro other held outer
    rw [frame?_store counted, frame?_store counted]
    intro place named
    have around : ∃ around, arena.frame? outer = some around ∧
        around.activation < held.activation := by
      split at place
      · cases place
        obtain ⟨around, live⟩ := outside outer named
        exact ⟨around, live, counted.activation_lt outer around live⟩
      · exact counted.parent_older other held outer place named
    obtain ⟨around, live, older⟩ := around
    have different : outer ≠ (arena.store frame).1 := by
      intro equal
      subst equal
      rw [vacant] at live
      cases live
    exact ⟨around, by rw [if_neg different, live], older⟩
  case pins_eq =>
    intro other held
    rw [frame?_store counted, children]
    split
    · next same =>
        intro equal
        cases equal
        have none := counted.further_eq_zero (arena.store frame).1 vacant
        have childless : arena.children (arena.store frame).1 = 0 := by
          refine children_eq_zero_iff.mpr fun inner held live named => ?_
          obtain ⟨around, live, _⟩ := counted.parent_older inner held _ live named
          rw [vacant] at live
          cases live
        rw [Pi.add_apply] at none
        simp only [unpinned, same, childless]
        omega
    · intro place
      rw [counted.pins_eq other held place, Pi.add_apply]
      omega
  case pins_ne_zero =>
    intro other held
    rw [frame?_store counted]
    split
    · rintro ⟨⟩ retired
      rw [running] at retired
      cases retired
    · exact counted.pins_ne_zero other held
  case further_eq_zero =>
    intro other empty
    rw [frame?_store counted] at empty
    split at empty
    · cases empty
    · have none := counted.further_eq_zero other empty
      rw [Pi.add_apply] at none
      omega

/-! A new frame that pins its parent. -/

/-- Every frame is still there, with everything but its pins. -/
theorem frame?_pin_of_frame? (found : arena.frame? id = some frame) (pinned : FrameId) :
    ∃ pins, (arena.pin pinned).frame? id = some { frame with pins } := by
  unfold pin
  cases live : arena.frame? pinned with
  | none => exact ⟨frame.pins, found⟩
  | some held =>
      simp only [frame?_set (index_lt_of_frame? live)]
      split
      · next same =>
          rw [same, live] at found
          cases found
          exact ⟨frame.pins + 1, rfl⟩
      · exact ⟨frame.pins, found⟩

theorem frame?_of_frame?_pin {pinned : FrameId}
    (found : (arena.pin pinned).frame? id = some frame) :
    ∃ before, arena.frame? id = some before ∧ frame = { before with pins := frame.pins } := by
  unfold pin at found
  cases live : arena.frame? pinned with
  | none =>
      rw [live] at found
      exact ⟨frame, found, rfl⟩
  | some held =>
      simp only [live, frame?_set (index_lt_of_frame? live)] at found
      split at found
      · next same =>
          cases found
          exact ⟨held, same ▸ live, rfl⟩
      · exact ⟨frame, found, rfl⟩

theorem activations_pin (arena : FrameArena) (id : FrameId) :
    (arena.pin id).activations = arena.activations := by
  unfold pin
  split <;> rfl

/-- What the parent of a new frame is pinned for, the new frame accounts for. -/
theorem Counted.pinParent (counted : arena.Counted further)
    (outside : ∀ parent, frame.parent = some parent → ∃ around, arena.frame? parent = some around) :
    ∃ pinned : FrameArena, arena.allocate frame = pinned.store frame ∧
      pinned.Counted (further + once frame.parent) ∧
      pinned.activations = arena.activations ∧
      (∀ id held, arena.frame? id = some held →
        ∃ pins, pinned.frame? id = some { held with pins }) ∧
      (∀ id held, pinned.frame? id = some held →
        ∃ before, arena.frame? id = some before ∧ held = { before with pins := held.pins }) := by
  unfold allocate
  cases named : frame.parent with
  | none =>
      refine ⟨arena, rfl, ?_, rfl, fun _ held found => ⟨held.pins, found⟩,
        fun _ held found => ⟨held, found, rfl⟩⟩
      simpa [once, Pi.add_def] using counted
  | some parent =>
      obtain ⟨around, live⟩ := outside parent named
      exact ⟨arena.pin parent, rfl, counted.pin live, activations_pin arena parent,
        fun _ _ found => frame?_pin_of_frame? found parent, fun _ _ => frame?_of_frame?_pin⟩

/-- The counters stay right when a new frame with a live parent comes in. -/
theorem Counted.allocate (counted : arena.Counted further)
    (outside : ∀ parent, frame.parent = some parent → ∃ around, arena.frame? parent = some around)
    (unpinned : frame.pins = 0) (running : frame.retired = false) :
    (arena.allocate frame).2.Counted further := by
  obtain ⟨pinned, same, right, _, kept, _⟩ := counted.pinParent outside
  rw [same]
  refine right.store (fun parent named => ?_) unpinned running
  obtain ⟨around, live⟩ := outside parent named
  obtain ⟨pins, still⟩ := kept parent around live
  exact ⟨_, still⟩

/-- What the places hold once a new frame came in. -/
structure Grown (before : FrameArena) (frame : Frame) (id : FrameId) (after : FrameArena) :
    Prop where
  vacant : before.frame? id = none
  new : after.frame? id = some { frame with activation := before.activations }
  kept : ∀ other held, before.frame? other = some held →
    ∃ pins, after.frame? other = some { held with pins }
  old : ∀ other held, after.frame? other = some held → other ≠ id →
    ∃ earlier, before.frame? other = some earlier ∧ held = { earlier with pins := held.pins }

theorem Counted.grown (counted : arena.Counted further)
    (outside : ∀ parent, frame.parent = some parent → ∃ around, arena.frame? parent = some around) :
    arena.Grown frame (arena.allocate frame).1 (arena.allocate frame).2 := by
  obtain ⟨pinned, same, right, activations, kept, old⟩ := counted.pinParent outside
  have vacant := store_vacant right frame
  rw [same]
  constructor
  case vacant =>
    cases live : arena.frame? (pinned.store frame).1 with
    | none => rfl
    | some held =>
        obtain ⟨pins, still⟩ := kept _ held live
        rw [vacant] at still
        cases still
  case new => rw [frame?_store right, if_pos rfl, activations]
  case kept =>
    intro other held live
    obtain ⟨pins, still⟩ := kept other held live
    have different : other ≠ (pinned.store frame).1 := by
      intro equal
      subst equal
      rw [vacant] at still
      cases still
    exact ⟨pins, by rw [frame?_store right, if_neg different, still]⟩
  case old =>
    intro other held place different
    rw [frame?_store right, if_neg different] at place
    exact old other held place

end CoopScript.FrameArena
