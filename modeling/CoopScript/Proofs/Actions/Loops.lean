import CoopScript.Proofs.Actions.Runs

/-!
What the instructions of loops have done when they do not fail.
-/

namespace CoopScript.Action

variable {machine after : Machine} {id : FrameId} {value : Value} {natives : Natives}
  {number : ThreadId} {slice : Option Slice} {frame : Frame}

theorem run_peek (ran : (peek id).run machine = .ok value after) :
    ∃ frame rest, machine.frames.frame? id = some frame ∧ frame.stack = value :: rest ∧
      machine = after := by
  obtain ⟨frame, _, reads, peeks⟩ := run_bind_eq_ok ran
  obtain ⟨found, rfl⟩ := run_frame_eq_ok_iff.mp reads
  obtain ⟨taken, same⟩ := run_ofResult_eq_ok_iff.mp peeks
  unfold Frame.peek at taken
  split at taken
  · cases taken
  · next rest stacked =>
      cases taken
      exact ⟨frame, rest, found, stacked, same⟩

theorem run_ofValueResult {α : Type} {result : Except ValueError α} {found : α}
    (ran : (ofValueResult result).run machine = .ok found after) :
    result = .ok found ∧ machine = after := by
  obtain ⟨gives, same⟩ := run_ofResult_eq_ok_iff.mp ran
  cases result with
  | ok value =>
      cases gives
      exact ⟨rfl, same⟩
  | error cause => cases gives

theorem run_toReal {real : Float} (ran : (toReal value).run machine = .ok real after) :
    (machine.heap.surface value).toReal = .ok real ∧ machine = after := by
  obtain ⟨_, _, shows, converts⟩ := run_bind_eq_ok ran
  cases shows
  exact run_ofValueResult converts

theorem run_popBoolean {holds : Bool} (ran : (popBoolean id).run machine = .ok holds after) :
    ∃ frame condition rest, machine.frames.frame? id = some frame ∧ frame.stack = condition :: rest ∧
      (machine.heap.surface condition).toBoolean = .ok holds ∧
      after = { machine with frames := machine.frames.set id { frame with stack := rest } } := by
  obtain ⟨condition, _, pops, converts⟩ := run_bind_eq_ok ran
  obtain ⟨frame, rest, found, stacked, rfl⟩ := run_pop pops
  obtain ⟨_, _, shows, converts⟩ := run_bind_eq_ok converts
  cases shows
  obtain ⟨converted, rfl⟩ := run_ofValueResult converts
  exact ⟨frame, condition, rest, found, stacked, converted, rfl⟩

theorem run_pushDatum {datum : Datum} (ran : (pushDatum id datum).run machine = .ok () after) :
    ∃ frame, machine.frames.frame? id = some frame ∧ after = { machine with
      heap := (Heap.build datum machine.heap).2
      frames := machine.frames.set id (frame.push (Heap.build datum machine.heap).1) } := by
  obtain ⟨_, _, builds, pushes⟩ := run_bind_eq_ok ran
  cases builds
  exact run_push pushes

/-- What is pushed comes on the operands that the frame was just given. -/
theorem run_push_set {arena : FrameArena} (framed : machine.frames = arena.set id frame)
    (inRange : id.index < arena.cells.size) (ran : (push id value).run machine = .ok () after) :
    after = { machine with frames := arena.set id (frame.push value) } := by
  obtain ⟨_, now, rfl⟩ := run_push ran
  rw [framed, FrameArena.frame?_set_self _ inRange] at now
  cases now
  rw [framed, FrameArena.set_set]

theorem run_pushDatum_set {arena : FrameArena} {datum : Datum}
    (framed : machine.frames = arena.set id frame) (inRange : id.index < arena.cells.size)
    (ran : (pushDatum id datum).run machine = .ok () after) :
    after = { machine with
      heap := (Heap.build datum machine.heap).2
      frames := arena.set id (frame.push (Heap.build datum machine.heap).1) } := by
  obtain ⟨_, now, rfl⟩ := run_pushDatum ran
  rw [framed, FrameArena.frame?_set_self _ inRange] at now
  cases now
  rw [framed, FrameArena.set_set]

theorem run_jump {target : Nat} (ran : (jump id target).run machine = .ok () after) :
    ∃ frame, machine.frames.frame? id = some frame ∧ after = { machine with
      frames := machine.frames.set id { frame with position := target } } := by
  obtain ⟨frame, _, reads, sets⟩ := run_bind_eq_ok ran
  obtain ⟨found, rfl⟩ := run_frame_eq_ok_iff.mp reads
  split at sets
  · cases sets
  · cases sets
    exact ⟨frame, found, rfl⟩

/-! Instructions of a frame with the given contents. -/

section Instructions

variable (live : machine.frames.frame? id = some frame)

include live

theorem run_popValue (ran : (execute natives number id .pop).run machine = .ok slice after) :
    slice = none ∧ ∃ value rest, frame.stack = value :: rest ∧
      after = { machine with frames := machine.frames.set id { frame with stack := rest } } := by
  obtain ⟨value, _, pops, ended⟩ := run_bind_eq_ok ran
  obtain ⟨rfl, rfl⟩ := run_pure_eq_ok_iff.mp ended
  obtain ⟨_, rest, again, stacked, same⟩ := run_pop pops
  cases live.symm.trans again
  exact ⟨rfl, value, rest, stacked, same⟩

theorem run_loopBack {target : Nat}
    (ran : (execute natives number id (.loopBack target)).run machine = .ok slice after) :
    slice = none ∧
      after = { machine with frames := machine.frames.set id { frame with position := target } } := by
  obtain ⟨_, _, jumps, ended⟩ := run_bind_eq_ok ran
  obtain ⟨rfl, rfl⟩ := run_pure_eq_ok_iff.mp ended
  obtain ⟨_, again, same⟩ := run_jump jumps
  cases live.symm.trans again
  exact ⟨rfl, same⟩

theorem run_jumpIfNot {target : Nat}
    (ran : (execute natives number id (.jumpIfNot target)).run machine = .ok slice after) :
    slice = none ∧ ∃ condition rest holds, frame.stack = condition :: rest ∧
      (machine.heap.surface condition).toBoolean = .ok holds ∧ after = { machine with
        frames := machine.frames.set id
          { frame with position := if holds then frame.position else target, stack := rest } } := by
  obtain ⟨holds, _, pops, goes⟩ := run_bind_eq_ok ran
  obtain ⟨_, condition, rest, again, stacked, converted, rfl⟩ := run_popBoolean pops
  cases live.symm.trans again
  cases holds with
  | true =>
      obtain ⟨rfl, rfl⟩ := run_pure_eq_ok_iff.mp goes
      exact ⟨rfl, condition, rest, true, stacked, converted, rfl⟩
  | false =>
      obtain ⟨_, _, jumps, ended⟩ := run_bind_eq_ok goes
      obtain ⟨rfl, rfl⟩ := run_pure_eq_ok_iff.mp ended
      obtain ⟨popped, now, rfl⟩ := run_jump jumps
      have inRange := FrameArena.index_lt_of_frame? live
      cases now.symm.trans (FrameArena.frame?_set_self _ inRange)
      refine ⟨rfl, condition, rest, false, stacked, converted, ?_⟩
      rw [FrameArena.set_set]
      rfl

/-- A counter above zero is replaced by a new one, which is one less. -/
theorem run_loopCount {rest : List Value} {count : Float} (stacked : frame.stack = value :: rest)
    (counts : (machine.heap.surface value).toReal = .ok count)
    (ran : (execute natives number id .loopCount).run machine = .ok slice after) :
    slice = none ∧ after =
      if 0.0 < count then
        let counter := Heap.build (.real (count - 1.0)) machine.heap
        let flag := Heap.build (.boolean true) counter.2
        { machine with
          heap := flag.2
          frames := machine.frames.set id { frame with stack := flag.1 :: counter.1 :: rest } }
      else
        let flag := Heap.build (.boolean false) machine.heap
        { machine with
          heap := flag.2
          frames := machine.frames.set id { frame with stack := flag.1 :: value :: rest } } := by
  have inRange := FrameArena.index_lt_of_frame? live
  obtain ⟨_, _, counted, ended⟩ := run_bind_eq_ok ran
  obtain ⟨rfl, rfl⟩ := run_pure_eq_ok_iff.mp ended
  obtain ⟨top, _, peeks, counted⟩ := run_bind_eq_ok counted
  obtain ⟨_, _, again, same, rfl⟩ := run_peek peeks
  cases live.symm.trans again
  cases stacked.symm.trans same
  obtain ⟨_, _, converts, counted⟩ := run_bind_eq_ok counted
  obtain ⟨converted, rfl⟩ := run_toReal converts
  cases counts.symm.trans converted
  refine ⟨rfl, ?_⟩
  split at counted
  · next positive =>
      rw [if_pos positive]
      obtain ⟨_, _, pops, counted⟩ := run_bind_eq_ok counted
      obtain ⟨_, below, again, same, rfl⟩ := run_pop pops
      cases live.symm.trans again
      cases stacked.symm.trans same
      obtain ⟨_, _, pushes, counted⟩ := run_bind_eq_ok counted
      cases run_pushDatum_set rfl inRange pushes
      exact run_pushDatum_set rfl inRange counted
  · next spent =>
      rw [if_neg spent]
      obtain ⟨_, now, rfl⟩ := run_pushDatum counted
      cases live.symm.trans now
      rw [Frame.push, stacked]

/-- A counter below the length of the array under it is replaced by a new one, which is one more, and
the element at the counter comes on top. -/
theorem run_loopForEach {array : Value} {rest : List Value} {position length : Nat}
    (stacked : frame.stack = value :: array :: rest)
    (counts : (machine.heap.surface value).position = .ok position)
    (long : machine.heap.length array = .ok length)
    (ran : (execute natives number id .loopForEach).run machine = .ok slice after) :
    slice = none ∧
      if position < length then
        let counter := Heap.build (.real (Float.ofNat position + 1.0)) machine.heap
        let flag := Heap.build (.boolean true) counter.2
        ∃ element, counter.2.index array position = .ok element ∧ after = { machine with
          heap := flag.2
          frames := machine.frames.set id
            { frame with stack := flag.1 :: element :: counter.1 :: array :: rest } }
      else
        let flag := Heap.build (.boolean false) machine.heap
        after = { machine with
          heap := flag.2
          frames := machine.frames.set id { frame with stack := flag.1 :: value :: array :: rest } } := by
  have inRange := FrameArena.index_lt_of_frame? live
  obtain ⟨_, _, iterated, ended⟩ := run_bind_eq_ok ran
  obtain ⟨rfl, rfl⟩ := run_pure_eq_ok_iff.mp ended
  obtain ⟨top, _, pops, iterated⟩ := run_bind_eq_ok iterated
  obtain ⟨_, _, again, same, rfl⟩ := run_pop pops
  cases live.symm.trans again
  cases stacked.symm.trans same
  obtain ⟨_, _, shows, iterated⟩ := run_bind_eq_ok iterated
  cases shows
  obtain ⟨_, _, places, iterated⟩ := run_bind_eq_ok iterated
  obtain ⟨placed, rfl⟩ := run_ofResult_eq_ok_iff.mp places
  cases counts.symm.trans placed
  obtain ⟨below, _, peeks, iterated⟩ := run_bind_eq_ok iterated
  obtain ⟨_, _, now, same, rfl⟩ := run_peek peeks
  cases now.symm.trans (FrameArena.frame?_set_self _ inRange)
  cases same
  obtain ⟨_, _, reads, iterated⟩ := run_bind_eq_ok iterated
  obtain ⟨measured, rfl⟩ := run_readHeap reads
  cases long.symm.trans measured
  refine ⟨rfl, ?_⟩
  split at iterated
  · next within =>
      rw [if_pos within]
      obtain ⟨_, _, pushes, iterated⟩ := run_bind_eq_ok iterated
      cases run_pushDatum_set rfl inRange pushes
      obtain ⟨element, _, reads, iterated⟩ := run_bind_eq_ok iterated
      obtain ⟨indexed, rfl⟩ := run_readHeap reads
      obtain ⟨_, _, pushes, iterated⟩ := run_bind_eq_ok iterated
      cases run_push_set rfl inRange pushes
      refine ⟨element, indexed, ?_⟩
      exact run_pushDatum_set rfl inRange iterated
  · next beyond =>
      rw [if_neg beyond]
      obtain ⟨_, _, pushes, iterated⟩ := run_bind_eq_ok iterated
      cases run_push_set rfl inRange pushes
      exact run_pushDatum_set rfl inRange iterated

end Instructions

end CoopScript.Action
