import CoopScript.Proofs.Frames.Chain

/-!
The skeleton of an arena: its frames without their contents, which is what most instructions leave
as it is.
-/

namespace CoopScript

/-- A frame without its contents: its slots, its stack, its position and its result. -/
def Frame.skeleton (frame : Frame) : Frame :=
  { frame with slots := #[], stack := [], position := 0, returnsResult := false, result := none }

namespace FrameArena

def skeleton (arena : FrameArena) : FrameArena :=
  { arena with cells := arena.cells.map fun cell => cell.map Frame.skeleton }

variable {arena after : FrameArena} {further : FrameId → Nat} {id : FrameId} {frame : Frame}

theorem frame?_skeleton (arena : FrameArena) (id : FrameId) :
    arena.skeleton.frame? id = (arena.frame? id).map Frame.skeleton := by
  simp only [frame?, skeleton, Array.getElem?_map]
  cases arena.cells[id.index]? with
  | none => rfl
  | some cell => cases cell <;> rfl

theorem tally_skeleton (arena : FrameArena) {test : Frame → Bool}
    (blind : ∀ frame, test frame.skeleton = test frame) :
    arena.skeleton.tally test = arena.tally test := by
  simp only [tally, skeleton, Array.countP_map]
  congr 1
  funext cell
  cases cell with
  | none => rfl
  | some frame => exact blind frame

/-- With other contents in a frame the skeleton stays. -/
theorem skeleton_set (found : arena.frame? id = some frame) {new : Frame}
    (same : new.skeleton = frame.skeleton) : (arena.set id new).skeleton = arena.skeleton := by
  have cell := frame?_eq_some_iff.mp found
  obtain ⟨inRange, held⟩ := Array.getElem?_eq_some_iff.mp cell
  simp only [skeleton, set, FrameArena.mk.injEq, and_true]
  apply Array.ext
  · simp
  · intro index _ right
    have inside : index < arena.cells.size := by simpa using right
    simp only [Array.getElem_map, Array.getElem_setIfInBounds inside]
    split
    · next equal =>
        subst equal
        rw [held]
        exact congrArg some same
    · rfl

/-- Arenas of one skeleton hold frames of one skeleton. -/
theorem frame?_of_skeleton (same : after.skeleton = arena.skeleton)
    (found : arena.frame? id = some frame) :
    ∃ now, after.frame? id = some now ∧ now.skeleton = frame.skeleton := by
  have place := frame?_skeleton after id
  rw [same, frame?_skeleton, found, Option.map_some] at place
  obtain ⟨now, live, alike⟩ := Option.map_eq_some_iff.mp place.symm
  exact ⟨now, live, alike⟩

theorem frame?_eq_none_of_skeleton (same : after.skeleton = arena.skeleton)
    (empty : arena.frame? id = none) : after.frame? id = none := by
  have place := frame?_skeleton after id
  rw [same, frame?_skeleton, empty] at place
  exact Option.map_eq_none_iff.mp place.symm

/-- Variables are looked up by the levels and parents of frames. -/
theorem resolve_of_skeleton (same : after.skeleton = arena.skeleton) (id : FrameId) (level : Nat) :
    after.resolve id level = arena.resolve id level := by
  have within (fuel : Nat) (id : FrameId) :
      after.resolveWithin level fuel id = arena.resolveWithin level fuel id := by
    induction fuel generalizing id with
    | zero => rfl
    | succ fuel hypothesis =>
        cases found : arena.frame? id with
        | none =>
            simp only [resolveWithin, get, found, frame?_eq_none_of_skeleton same found, bind,
              Except.bind]
        | some frame =>
            obtain ⟨now, live, alike⟩ := frame?_of_skeleton same found
            have levels : now.level = frame.level := congrArg (·.level) alike
            have parents : now.parent = frame.parent := congrArg (·.parent) alike
            simp only [resolveWithin, get, found, live, levels, parents, hypothesis, bind, Except.bind]
  cases found : arena.frame? id with
  | none =>
      simp only [resolve, get, found, frame?_eq_none_of_skeleton same found, bind, Except.bind]
  | some frame =>
      obtain ⟨now, live, alike⟩ := frame?_of_skeleton same found
      have serials : now.activation = frame.activation := congrArg (·.activation) alike
      simp only [resolve, get, found, live, serials, within, bind, Except.bind]

theorem children_of_skeleton (same : after.skeleton = arena.skeleton) (id : FrameId) :
    after.children id = arena.children id := by
  simp only [children]
  rw [← tally_skeleton after (fun _ => rfl), same, tally_skeleton arena (fun _ => rfl)]

/-- The counters do not depend on the contents of frames. -/
theorem Counted.of_skeleton (counted : arena.Counted further)
    (same : after.skeleton = arena.skeleton) : after.Counted further := by
  have free : after.free = arena.free := congrArg (·.free) same
  have size : after.cells.size = arena.cells.size := by
    simpa [skeleton] using congrArg (·.cells.size) same
  have live : after.liveCount = arena.liveCount := congrArg (·.liveCount) same
  have activations : after.activations = arena.activations := congrArg (·.activations) same
  have back {id : FrameId} {frame : Frame} (found : after.frame? id = some frame) :=
    frame?_of_skeleton same.symm found
  constructor
  case free_nodup => exact free ▸ counted.free_nodup
  case mem_free_iff =>
    intro id
    rw [free, size, counted.mem_free_iff]
    exact and_congr_right fun _ =>
      ⟨frame?_eq_none_of_skeleton same, frame?_eq_none_of_skeleton same.symm⟩
  case liveCount_eq =>
    rw [live, counted.liveCount_eq, ← tally_skeleton arena (fun _ => rfl), ← same,
      tally_skeleton after (fun _ => rfl)]
  case activation_lt =>
    intro id frame found
    obtain ⟨before, earlier, alike⟩ := back found
    have less := counted.activation_lt id before earlier
    rw [activations, ← show before.activation = frame.activation from congrArg (·.activation) alike]
    exact less
  case parent_older =>
    intro id frame parent found named
    obtain ⟨before, earlier, alike⟩ := back found
    have names : before.parent = some parent := (congrArg (·.parent) alike).trans named
    obtain ⟨around, outside, older⟩ := counted.parent_older id before parent earlier names
    obtain ⟨now, place, keeps⟩ := frame?_of_skeleton same outside
    have new : now.activation = around.activation := congrArg (·.activation) keeps
    have old : before.activation = frame.activation := congrArg (·.activation) alike
    exact ⟨now, place, by omega⟩
  case pins_eq =>
    intro id frame found
    obtain ⟨before, earlier, alike⟩ := back found
    rw [children_of_skeleton same, ← counted.pins_eq id before earlier]
    exact (congrArg (·.pins) alike).symm
  case pins_ne_zero =>
    intro id frame found retired
    obtain ⟨before, earlier, alike⟩ := back found
    have pins := counted.pins_ne_zero id before earlier
      ((congrArg (·.retired) alike).trans retired)
    exact fun none => pins ((congrArg (·.pins) alike).trans none)
  case further_eq_zero =>
    intro id empty
    exact counted.further_eq_zero id (frame?_eq_none_of_skeleton same.symm empty)

theorem Chain.of_skeleton {root : FrameId} {chain : List FrameId}
    (whole : arena.Chain root id chain) (same : after.skeleton = arena.skeleton) :
    after.Chain root id chain :=
  whole.transport fun member frame _ found running => by
    obtain ⟨now, place, alike⟩ := frame?_of_skeleton same found
    exact ⟨now, place, (congrArg (·.retired) alike).trans running, congrArg (·.parent) alike⟩

end FrameArena

end CoopScript
