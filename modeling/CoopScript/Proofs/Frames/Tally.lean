import Mathlib.Data.Set.Card
import Mathlib.Algebra.Group.Pi.Basic
import CoopScript.Machine.Frame

/-!
The counters of the arena. They agree with the frames that are alive, and each operation on the
arena keeps them so.
-/

namespace CoopScript.FrameArena

variable {arena : FrameArena} {id other : FrameId} {frame : Frame}

/-! What each place holds after an operation. -/

theorem frame?_eq_some_iff :
    arena.frame? id = some frame ↔ arena.cells[id.index]? = some (some frame) := by
  simp [frame?, Option.join_eq_some_iff]

theorem index_lt_of_frame? (found : arena.frame? id = some frame) :
    id.index < arena.cells.size :=
  (Array.getElem?_eq_some_iff.mp (frame?_eq_some_iff.mp found)).1

theorem frame?_set (inRange : id.index < arena.cells.size) (frame : Frame) (other : FrameId) :
    (arena.set id frame).frame? other = if other = id then some frame else arena.frame? other := by
  by_cases same : other = id
  · subst same
    rw [if_pos rfl, frame?_set_self frame inRange]
  · rw [if_neg same, frame?_set_of_ne frame same]

theorem set_set (arena : FrameArena) (id : FrameId) (first second : Frame) :
    (arena.set id first).set id second = arena.set id second := by
  simp [set]

theorem set_self (found : arena.frame? id = some frame) : arena.set id frame = arena := by
  have inRange := index_lt_of_frame? found
  have cell : arena.cells[id.index] = some frame := by
    simpa [frame?, inRange] using found
  rw [set, Array.setIfInBounds_def, dif_pos inRange, ← cell, Array.set_getElem_self]

theorem frame?_remove (arena : FrameArena) (id other : FrameId) :
    (arena.remove id).frame? other = if other = id then none else arena.frame? other := by
  by_cases same : other = id
  · subst same
    simp only [remove, frame?, if_true]
    rw [Array.getElem?_setIfInBounds_self]
    split <;> rfl
  · have indices : id.index ≠ other.index := fun equal => same (by cases id; cases other; simp_all)
    simp [remove, frame?, Array.getElem?_setIfInBounds_ne indices, same]

/-! The number of live frames that pass a test. -/

/-- How many live frames pass a test. -/
def tally (arena : FrameArena) (test : Frame → Bool) : Nat :=
  arena.cells.countP fun cell => cell.any test

/-- How many live frames name a frame as their parent. -/
def children (arena : FrameArena) (id : FrameId) : Nat :=
  arena.tally fun frame => frame.parent = some id

theorem countP_setIfInBounds {Cell : Type} {cells : Array Cell} {index : Nat} {old : Cell}
    (test : Cell → Bool) (found : cells[index]? = some old) (new : Cell) :
    (cells.setIfInBounds index new).countP test + (if test old then 1 else 0) =
      cells.countP test + (if test new then 1 else 0) := by
  obtain ⟨inRange, same⟩ := Array.getElem?_eq_some_iff.mp found
  have counted := Array.boole_getElem_le_countP (p := test) inRange
  rw [Array.setIfInBounds, dif_pos inRange, Array.countP_set inRange]
  rw [same] at counted ⊢
  omega

theorem tally_set (found : arena.frame? id = some frame) (new : Frame) (test : Frame → Bool) :
    (arena.set id new).tally test + (if test frame then 1 else 0) =
      arena.tally test + (if test new then 1 else 0) :=
  countP_setIfInBounds (fun cell : Option Frame => cell.any test) (frame?_eq_some_iff.mp found) (some new)

/-- Only what a test sees of a frame counts. -/
theorem tally_set_of_eq (found : arena.frame? id = some frame) {new : Frame} {test : Frame → Bool}
    (same : test new = test frame) : (arena.set id new).tally test = arena.tally test := by
  have counted := tally_set found new test
  rw [same] at counted
  omega

theorem tally_remove (found : arena.frame? id = some frame) (test : Frame → Bool) :
    (arena.remove id).tally test + (if test frame then 1 else 0) = arena.tally test :=
  countP_setIfInBounds (fun cell : Option Frame => cell.any test) (frame?_eq_some_iff.mp found) none

theorem tally_eq_zero_iff {test : Frame → Bool} :
    arena.tally test = 0 ↔ ∀ id frame, arena.frame? id = some frame → test frame = false := by
  simp only [tally, Array.countP_eq_zero, Array.mem_iff_getElem?]
  constructor
  · intro none id frame found
    simpa using none (some frame) ⟨id.index, frame?_eq_some_iff.mp found⟩
  · intro none cell given
    obtain ⟨index, found⟩ := given
    cases cell with
    | none => simp
    | some frame =>
        have test := none ⟨index⟩ frame (frame?_eq_some_iff.mpr found)
        simp [test]

theorem children_eq_zero_iff :
    arena.children id = 0 ↔ ∀ other frame, arena.frame? other = some frame →
      frame.parent ≠ some id := by
  simp [children, tally_eq_zero_iff]

/-! The tally is the size of a set of frames. -/

theorem countP_eq_ncard {Cell : Type} (test : Cell → Bool) (cells : List Cell) :
    cells.countP test = {index : Nat | ∃ cell, cells[index]? = some cell ∧ test cell}.ncard := by
  induction cells using List.reverseRecOn with
  | nil => simp
  | append_singleton cells last hypothesis =>
      have finite : {index : Nat | ∃ cell, cells[index]? = some cell ∧ test cell}.Finite := by
        refine (Set.finite_lt_nat cells.length).subset ?_
        intro index given
        obtain ⟨cell, found, _⟩ := given
        exact (List.getElem?_eq_some_iff.mp found).1
      have outside : cells.length ∉ {index : Nat | ∃ cell, cells[index]? = some cell ∧ test cell} := by
        intro given
        obtain ⟨cell, found, _⟩ := given
        exact Nat.lt_irrefl _ (List.getElem?_eq_some_iff.mp found).1
      have split : {index : Nat | ∃ cell, (cells ++ [last])[index]? = some cell ∧ test cell} =
          {index : Nat | ∃ cell, cells[index]? = some cell ∧ test cell} ∪
            {index | index = cells.length ∧ test last} := by
        ext index
        simp only [Set.mem_ofPred_eq, Set.mem_union, List.getElem?_append, List.getElem?_singleton]
        rcases Nat.lt_trichotomy index cells.length with before | here | after
        · simp [before, Nat.ne_of_lt before]
        · subst here
          simp
        · have positive : index - cells.length ≠ 0 := by omega
          simp [Nat.not_lt.mpr (Nat.le_of_lt after), positive, Nat.ne_of_gt after]
      rw [List.countP_append, split, hypothesis]
      cases passes : test last with
      | false => simp [passes]
      | true =>
          have single : {index | index = cells.length ∧ true = true} = {cells.length} := by simp
          rw [single, Set.union_singleton, Set.ncard_insert_of_notMem outside finite]
          simp [passes]

theorem tally_eq_ncard (arena : FrameArena) (test : Frame → Bool) :
    arena.tally test = {id | ∃ frame, arena.frame? id = some frame ∧ test frame}.ncard := by
  rw [tally, ← Array.countP_toList, countP_eq_ncard]
  refine (Set.ncard_congr (fun id _ => id.index) ?_ ?_ ?_).symm
  · intro id given
    obtain ⟨frame, found, passes⟩ := given
    exact ⟨some frame, by simpa using frame?_eq_some_iff.mp found, by simpa using passes⟩
  · rintro ⟨first⟩ ⟨second⟩ _ _ same
    exact congrArg FrameId.mk same
  · intro index given
    obtain ⟨cell, found, passes⟩ := given
    cases cell with
    | none => cases passes
    | some frame =>
        exact ⟨⟨index⟩, ⟨frame, frame?_eq_some_iff.mpr (by simpa using found), passes⟩, rfl⟩

end CoopScript.FrameArena
