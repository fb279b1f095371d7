import CoopScript.Proofs.Frames.Growth
import CoopScript.Proofs.Frames.Decline

/-!
The frames of a thread: the chain of parents from its current frame out to its root, all of which
are still executing.
-/

namespace CoopScript.FrameArena

/-- The executing frames from one frame out to a root. -/
inductive Chain (arena : FrameArena) (root : FrameId) : FrameId → List FrameId → Prop
  | root {frame : Frame} : arena.frame? root = some frame → frame.retired = false →
      Chain arena root root [root]
  | inner {id parent : FrameId} {frame : Frame} {outer : List FrameId} :
      arena.frame? id = some frame → frame.retired = false → id ≠ root →
      frame.parent = some parent → Chain arena root parent outer →
      Chain arena root id (id :: outer)

namespace Chain

variable {arena : FrameArena} {further : FrameId → Nat} {root id : FrameId} {chain : List FrameId}

theorem unique {other : List FrameId} (first : arena.Chain root id chain)
    (second : arena.Chain root id other) : chain = other := by
  induction first generalizing other with
  | root _ _ =>
      cases second with
      | root _ _ => rfl
      | inner _ _ different _ _ => exact (different rfl).elim
  | inner found _ different named _ hypothesis =>
      cases second with
      | root _ _ => exact (different rfl).elim
      | inner again _ _ names rest =>
          rw [found] at again
          cases again
          rw [named] at names
          cases names
          rw [hypothesis rest]

theorem head_mem (whole : arena.Chain root id chain) : id ∈ chain := by
  cases whole <;> exact List.mem_cons_self

theorem root_mem (whole : arena.Chain root id chain) : root ∈ chain := by
  induction whole with
  | root _ _ => exact List.mem_cons_self
  | inner _ _ _ _ _ hypothesis => exact List.mem_cons_of_mem _ hypothesis

theorem length_pos (whole : arena.Chain root id chain) : 0 < chain.length := by
  cases whole <;> simp

/-- Every frame of a chain is alive and executing. -/
theorem running (whole : arena.Chain root id chain) {member : FrameId} (inside : member ∈ chain) :
    ∃ frame, arena.frame? member = some frame ∧ frame.retired = false := by
  induction whole with
  | root found live =>
      rw [List.mem_singleton.mp inside]
      exact ⟨_, found, live⟩
  | inner found live _ _ _ hypothesis =>
      rcases List.mem_cons.mp inside with rfl | outer
      · exact ⟨_, found, live⟩
      · exact hypothesis outer

theorem live (whole : arena.Chain root id chain) : ∃ frame, arena.frame? id = some frame :=
  have ⟨frame, found, _⟩ := whole.running whole.head_mem
  ⟨frame, found⟩

/-- A chain is a chain in every arena that keeps the parents of its frames and lets them run. -/
theorem transport {after : FrameArena} (whole : arena.Chain root id chain)
    (kept : ∀ member frame, member ∈ chain → arena.frame? member = some frame →
      frame.retired = false → ∃ same, after.frame? member = some same ∧ same.retired = false ∧
        same.parent = frame.parent) : after.Chain root id chain := by
  induction whole with
  | root found live =>
      obtain ⟨same, place, runs, _⟩ := kept root _ List.mem_cons_self found live
      exact .root place runs
  | inner found live different named _ hypothesis =>
      obtain ⟨same, place, runs, parent⟩ := kept _ _ List.mem_cons_self found live
      exact .inner place runs different (parent.trans named)
        (hypothesis fun member frame inside => kept member frame (List.mem_cons_of_mem _ inside))

theorem grown {after : FrameArena} {frame : Frame} {place : FrameId}
    (grown : arena.Grown frame place after) (whole : arena.Chain root id chain) :
    after.Chain root id chain :=
  whole.transport fun member held _ found running => by
    obtain ⟨pins, still⟩ := grown.kept member held found
    exact ⟨_, still, running, rfl⟩

/-- Frames further out are older. -/
theorem older (counted : arena.Counted further) (whole : arena.Chain root id chain) {frame : Frame}
    (found : arena.frame? id = some frame) {member : FrameId} (inside : member ∈ chain) :
    member = id ∨ ∃ outer, arena.frame? member = some outer ∧
      outer.activation < frame.activation := by
  induction whole generalizing frame with
  | root _ _ => exact .inl (List.mem_singleton.mp inside)
  | inner place _ _ named rest hypothesis =>
      rcases List.mem_cons.mp inside with same | further
      · exact .inl same
      · rw [place] at found
        cases found
        obtain ⟨around, outside, older⟩ := counted.parent_older _ _ _ place named
        rcases hypothesis outside further with rfl | ⟨outer, live, oldest⟩
        · exact .inr ⟨around, outside, older⟩
        · exact .inr ⟨outer, live, by omega⟩

theorem head_not_mem_outer {outer : List FrameId} (counted : arena.Counted further)
    (whole : arena.Chain root id (id :: outer)) : id ∉ outer := by
  intro again
  cases whole with
  | root _ _ => cases again
  | inner found _ _ named rest =>
      obtain ⟨around, outside, older⟩ := counted.parent_older _ _ _ found named
      rcases rest.older counted outside again with rfl | ⟨member, live, oldest⟩
      · exact counted.parent_ne found named
      · rw [found] at live
        cases live
        omega

/-- A chain that does not begin with its root goes on with the parent of its first frame. -/
theorem inward {frame : Frame} (whole : arena.Chain root id chain) (inner : id ≠ root)
    (found : arena.frame? id = some frame) :
    ∃ parent outer, chain = id :: outer ∧ frame.parent = some parent ∧
      arena.Chain root parent outer := by
  cases whole with
  | root _ _ => exact (inner rfl).elim
  | inner live _ _ named rest =>
      rw [found] at live
      cases live
      exact ⟨_, _, rfl, named, rest⟩

/-- The outer part of a chain stays when its first frame retires. -/
theorem retire_head {frame : Frame} {parent : FrameId} {outer : List FrameId}
    (whole : arena.Chain root id (id :: outer)) (counted : arena.Counted further)
    (found : arena.frame? id = some frame) (rest : arena.Chain root parent outer) :
    (arena.retire id).Chain root parent outer :=
  rest.transport fun member held within place runs => by
    have different : member ≠ id := by
      intro equal
      subst equal
      exact whole.head_not_mem_outer counted within
    obtain ⟨pins, still⟩ := retire_kept found different place runs
    exact ⟨_, still, runs, rfl⟩

end Chain

end CoopScript.FrameArena
