import CoopScript.Proofs.Frames.Chain

/-!
The call stack of a thread: its chain of executing frames together with what each of them is about,
innermost first. Slots and pins are left out, which other threads may change.
-/

namespace CoopScript

deriving instance DecidableEq for Frame

/-- A frame without its slots and its pins. -/
def Frame.control (frame : Frame) : Frame := { frame with slots := #[], pins := 0 }

/-- Frames without their slots and pins, innermost first. -/
abbrev CallStack : Type := List (FrameId × Frame)

namespace FrameArena

/-- What a live frame is about. -/
def control? (arena : FrameArena) (id : FrameId) : Option Frame :=
  (arena.frame? id).map Frame.control

variable {arena after : FrameArena} {further : FrameId → Nat} {id other root : FrameId}
  {frame held : Frame}

theorem control?_eq_some_iff :
    arena.control? id = some held ↔ ∃ frame, arena.frame? id = some frame ∧ frame.control = held :=
  Option.map_eq_some_iff

theorem control?_of_frame? (found : arena.frame? id = some frame) :
    arena.control? id = some frame.control := by
  rw [control?, found, Option.map_some]

theorem control?_set (found : arena.frame? id = some frame) (new : Frame) (other : FrameId) :
    (arena.set id new).control? other =
      if other = id then some new.control else arena.control? other := by
  rw [control?, frame?_set (index_lt_of_frame? found)]
  split <;> rfl

theorem Grown.control?_new (grown : arena.Grown frame id after) :
    after.control? id = some { frame.control with activation := arena.activations } :=
  control?_of_frame? grown.new

/-- A new frame changes nothing of what the others are about. -/
theorem Grown.control? (grown : arena.Grown frame id after) (different : other ≠ id) :
    after.control? other = arena.control? other := by
  cases live : arena.frame? other with
  | some held =>
      obtain ⟨pins, still⟩ := grown.kept other held live
      rw [control?_of_frame? still, control?_of_frame? live]
      rfl
  | none =>
      cases now : after.frame? other with
      | some held =>
          obtain ⟨earlier, there, _⟩ := grown.old other held now different
          rw [live] at there
          cases there
      | none => rw [FrameArena.control?, FrameArena.control?, live, now]

theorem control?_pin (arena : FrameArena) (pinned id : FrameId) :
    (arena.pin pinned).control? id = arena.control? id := by
  unfold pin
  split
  · next frame found =>
      rw [control?_set found]
      split
      · next same =>
          rw [same, control?_of_frame? found]
          rfl
      · rfl
  · rfl

/-- An executing frame is about the same when another one retires. -/
theorem control?_retire (found : arena.frame? id = some frame) (different : other ≠ id)
    (live : arena.control? other = some held) (running : held.retired = false) :
    (arena.retire id).control? other = some held := by
  obtain ⟨before, there, rfl⟩ := control?_eq_some_iff.mp live
  obtain ⟨pins, still⟩ := retire_kept found different there running
  rw [control?_of_frame? still]
  rfl

/-! Stacks. -/

/-- The executing frames from one frame out to a root, with what they are about. -/
inductive Stack (arena : FrameArena) (root : FrameId) : FrameId → CallStack → Prop
  | root {frame : Frame} : arena.control? root = some frame → frame.retired = false →
      Stack arena root root [(root, frame)]
  | inner {id parent : FrameId} {frame : Frame} {outer : CallStack} :
      arena.control? id = some frame → frame.retired = false → id ≠ root →
      frame.parent = some parent → Stack arena root parent outer →
      Stack arena root id ((id, frame) :: outer)

/-- What ties an entry of a call stack into its chain. -/
def tie (entry : FrameId × Frame) : FrameId × Option FrameId × Bool :=
  (entry.1, entry.2.parent, entry.2.retired)

theorem names_of_ties {old new : CallStack} (alike : new.map tie = old.map tie) :
    new.map (·.1) = old.map (·.1) := by
  have same := congrArg (List.map (·.1)) alike
  rwa [List.map_map, List.map_map] at same

theorem Chain.nodup {chain : List FrameId} (counted : arena.Counted further)
    (whole : arena.Chain root id chain) : chain.Nodup := by
  induction whole with
  | root _ _ => exact List.nodup_singleton _
  | inner found runs different named rest hypothesis =>
      have whole := Chain.inner found runs different named rest
      exact List.nodup_cons.mpr ⟨whole.head_not_mem_outer counted, hypothesis⟩

theorem Chain.stack {chain : List FrameId} (whole : arena.Chain root id chain) :
    ∃ stack, arena.Stack root id stack ∧ stack.map (·.1) = chain := by
  induction whole with
  | root found runs => exact ⟨_, .root (control?_of_frame? found) runs, rfl⟩
  | inner found runs different named _ hypothesis =>
      obtain ⟨outer, whole, names⟩ := hypothesis
      refine ⟨_, .inner (control?_of_frame? found) runs different named whole, ?_⟩
      rw [List.map_cons, names]

namespace Stack

variable {stack new outer : CallStack}

theorem chain (whole : arena.Stack root id stack) :
    arena.Chain root id (stack.map (·.1)) := by
  induction whole with
  | root found runs =>
      obtain ⟨frame, live, rfl⟩ := control?_eq_some_iff.mp found
      exact .root live runs
  | inner found runs different named _ hypothesis =>
      obtain ⟨frame, live, rfl⟩ := control?_eq_some_iff.mp found
      exact .inner live runs different named hypothesis

theorem shown (whole : arena.Stack root id stack) {entry : FrameId × Frame}
    (inside : entry ∈ stack) : arena.control? entry.1 = some entry.2 := by
  induction whole with
  | root found _ =>
      rw [List.mem_singleton.mp inside]
      exact found
  | inner found _ _ _ _ hypothesis =>
      rcases List.mem_cons.mp inside with rfl | further
      · exact found
      · exact hypothesis further

theorem running (whole : arena.Stack root id stack) {entry : FrameId × Frame}
    (inside : entry ∈ stack) : entry.2.retired = false := by
  obtain ⟨frame, live, runs⟩ := whole.chain.running (List.mem_map_of_mem inside)
  have shown := whole.shown inside
  rw [control?_of_frame? live] at shown
  exact Option.some.inj shown ▸ runs

theorem unique {second : CallStack} (whole : arena.Stack root id stack)
    (other : arena.Stack root id second) : stack = second := by
  induction whole generalizing second with
  | root found _ =>
      cases other with
      | root again _ =>
          rw [found] at again
          cases again
          rfl
      | inner _ _ different _ _ => exact (different rfl).elim
  | inner found _ different named _ hypothesis =>
      cases other with
      | root _ _ => exact (different rfl).elim
      | inner again _ _ names rest =>
          rw [found] at again
          cases again
          rw [named] at names
          cases names
          rw [hypothesis rest]

/-- The stack begins with the frame that it is the stack of. -/
theorem cases_head (whole : arena.Stack root id stack) :
    ∃ frame outer, stack = (id, frame) :: outer ∧ arena.control? id = some frame := by
  cases whole with
  | root found _ => exact ⟨_, _, rfl, found⟩
  | inner found _ _ _ _ => exact ⟨_, _, rfl, found⟩

/-- Around a frame that is not the root there is the stack of its parent. -/
theorem outward (whole : arena.Stack root id ((id, frame) :: outer)) (inner : id ≠ root) :
    ∃ parent, frame.parent = some parent ∧ arena.Stack root parent outer := by
  cases whole with
  | root _ _ => exact (inner rfl).elim
  | inner _ _ _ named rest => exact ⟨_, named, rest⟩

/-- The first of several frames of a stack is not its root, and the others are the stack around it. -/
theorem around (whole : arena.Stack root id ((id, frame) :: outer)) (further : outer ≠ []) :
    id ≠ root ∧ ∃ parent, frame.parent = some parent ∧ arena.Stack root parent outer := by
  have inner : id ≠ root := by
    rintro rfl
    have single := whole.unique
      (.root (whole.shown List.mem_cons_self) (whole.running List.mem_cons_self))
    exact further (List.cons.inj single).2
  exact ⟨inner, whole.outward inner⟩

/-- A stack stays one, with other contents, in every arena that shows them. -/
theorem goOn (whole : arena.Stack root id stack) (alike : new.map tie = stack.map tie)
    (shown : ∀ entry ∈ new, after.control? entry.1 = some entry.2) :
    after.Stack root id new := by
  induction whole generalizing new with
  | root _ runs =>
      obtain ⟨⟨name, now⟩, rest, rfl, same, others⟩ := List.map_eq_cons_iff.mp alike
      cases List.map_eq_nil_iff.mp others
      obtain ⟨rfl, _, retired⟩ : name = root ∧ now.parent = _ ∧ now.retired = _ := by
        simpa [tie] using same
      exact .root (shown _ List.mem_cons_self) (retired.trans runs)
  | @inner id _ _ _ _ runs different named _ hypothesis =>
      obtain ⟨⟨name, now⟩, rest, rfl, same, others⟩ := List.map_eq_cons_iff.mp alike
      obtain ⟨rfl, parent, retired⟩ : name = id ∧ now.parent = _ ∧ now.retired = _ := by
        simpa [tie] using same
      exact .inner (shown _ List.mem_cons_self) (retired.trans runs) different (parent.trans named)
        (hypothesis others fun entry inside => shown entry (List.mem_cons_of_mem _ inside))

/-- A stack stays as it is in every arena where its frames are about the same. -/
theorem transport (whole : arena.Stack root id stack)
    (kept : ∀ entry ∈ stack, after.control? entry.1 = some entry.2) : after.Stack root id stack :=
  whole.goOn rfl kept

theorem nodup (counted : arena.Counted further) (whole : arena.Stack root id stack) :
    (stack.map (·.1)).Nodup := whole.chain.nodup counted

/-- Another frame of a stack has another name than the first. -/
theorem ne_of_mem_outer (counted : arena.Counted further)
    (whole : arena.Stack root id ((id, frame) :: outer)) {entry : FrameId × Frame}
    (inside : entry ∈ outer) : entry.1 ≠ id := by
  have distinct := whole.nodup counted
  rw [List.map_cons, List.nodup_cons] at distinct
  intro same
  exact distinct.1 (same ▸ List.mem_map.mpr ⟨entry, inside, rfl⟩)

end Stack

end FrameArena

end CoopScript
