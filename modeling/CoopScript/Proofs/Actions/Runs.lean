import CoopScript.Machine.Step
import CoopScript.Proofs.Frames.Tally
import CoopScript.Proofs.Heap.Reading

/-!
What the instructions that write through a variable have done when they do not fail.
-/

namespace CoopScript

/-- Whether a value is a position shows without its elements. -/
theorem Heap.position_surface (heap : Heap) (value : Value) :
    (heap.surface value).position = (heap.view value).position := by
  simp only [Datum.position, Datum.toReal, payload_surface]

namespace Action

variable {α β : Type} {machine middle after : Machine} {id : FrameId} {value : Value}
  {place : Variable} {natives : Natives} {number : ThreadId} {slice : Option Slice}

theorem run_bind_eq_ok {action : Action α} {next : α → Action β} {result : β}
    (ran : (action >>= next).run machine = .ok result after) :
    ∃ first middle, action.run machine = .ok first middle ∧
      (next first).run middle = .ok result after := by
  rw [EStateM.run_bind] at ran
  cases began : action.run machine with
  | ok first middle =>
      rw [began] at ran
      exact ⟨first, middle, rfl, ran⟩
  | error error middle =>
      rw [began] at ran
      cases ran

theorem run_pure_eq_ok_iff {first result : α} :
    (pure first : Action α).run machine = .ok result after ↔ first = result ∧ machine = after := by
  rw [EStateM.run_pure, EStateM.Result.ok.injEq]

theorem run_ofResult_eq_ok_iff {result : Except MachineError α} {found : α} :
    (ofResult result).run machine = .ok found after ↔ result = .ok found ∧ machine = after := by
  cases result with
  | ok value => simp [ofResult]
  | error error => simp [ofResult]; nofun

theorem run_frame_eq_ok_iff {frame : Frame} :
    (Action.frame id).run machine = .ok frame after ↔
      machine.frames.frame? id = some frame ∧ machine = after := by
  unfold Action.frame
  simp only [EStateM.run_bind, EStateM.run_get, run_ofResult_eq_ok_iff, FrameArena.get_eq_ok_iff]

theorem run_push (ran : (push id value).run machine = .ok () after) :
    ∃ frame, machine.frames.frame? id = some frame ∧
      after = { machine with frames := machine.frames.set id (frame.push value) } := by
  obtain ⟨frame, _, reads, sets⟩ := run_bind_eq_ok ran
  obtain ⟨found, rfl⟩ := run_frame_eq_ok_iff.mp reads
  cases sets
  exact ⟨frame, found, rfl⟩

theorem run_pop (ran : (pop id).run machine = .ok value after) :
    ∃ frame rest, machine.frames.frame? id = some frame ∧ frame.stack = value :: rest ∧
      after = { machine with frames := machine.frames.set id { frame with stack := rest } } := by
  obtain ⟨frame, _, reads, pops⟩ := run_bind_eq_ok ran
  obtain ⟨found, rfl⟩ := run_frame_eq_ok_iff.mp reads
  obtain ⟨⟨top, popped⟩, _, takes, sets⟩ := run_bind_eq_ok pops
  obtain ⟨taken, rfl⟩ := run_ofResult_eq_ok_iff.mp takes
  cases sets
  unfold Frame.pop at taken
  split at taken
  · cases taken
  · next rest stacked =>
      cases taken
      exact ⟨frame, rest, found, stacked, rfl⟩

theorem run_readHeap {read : Heap → Except ValueError α} {result : α}
    (ran : (readHeap read).run machine = .ok result after) :
    read machine.heap = .ok result ∧ machine = after := by
  unfold readHeap at ran
  simp only [EStateM.run_bind, EStateM.run_get, ofValueResult] at ran
  obtain ⟨reads, same⟩ := run_ofResult_eq_ok_iff.mp ran
  cases found : read machine.heap with
  | error cause =>
      rw [found] at reads
      cases reads
  | ok value =>
      rw [found] at reads
      cases reads
      exact ⟨rfl, same⟩

theorem run_readSlot (ran : (readSlot id place).run machine = .ok value after) :
    ∃ holder frame, machine.frames.resolve id place.level = .ok holder ∧
      machine.frames.frame? holder = some frame ∧ frame.slots[place.slot]? = some value ∧
      machine = after := by
  obtain ⟨holder, _, resolves, reads⟩ := run_bind_eq_ok ran
  unfold Action.holder at resolves
  simp only [EStateM.run_bind, EStateM.run_get] at resolves
  obtain ⟨resolved, rfl⟩ := run_ofResult_eq_ok_iff.mp resolves
  obtain ⟨frame, _, reads, gives⟩ := run_bind_eq_ok reads
  obtain ⟨found, rfl⟩ := run_frame_eq_ok_iff.mp reads
  split at gives
  · next there =>
      obtain ⟨rfl, same⟩ := run_pure_eq_ok_iff.mp gives
      exact ⟨holder, frame, resolved, found, there, same⟩
  · cases gives

theorem run_writeSlot (ran : (writeSlot id place value).run machine = .ok () after) :
    ∃ holder frame, machine.frames.resolve id place.level = .ok holder ∧
      machine.frames.frame? holder = some frame ∧ after = { machine with
        frames := machine.frames.set holder
          { frame with slots := frame.slots.setIfInBounds place.slot value } } := by
  obtain ⟨holder, _, resolves, writes⟩ := run_bind_eq_ok ran
  unfold Action.holder at resolves
  simp only [EStateM.run_bind, EStateM.run_get] at resolves
  obtain ⟨resolved, rfl⟩ := run_ofResult_eq_ok_iff.mp resolves
  obtain ⟨frame, _, reads, sets⟩ := run_bind_eq_ok writes
  obtain ⟨found, rfl⟩ := run_frame_eq_ok_iff.mp reads
  split at sets
  · cases sets
    exact ⟨holder, frame, resolved, found, rfl⟩
  · cases sets

theorem run_writeThrough {target source : Value}
    (ran : (writeThrough target source).run machine = .ok () after) :
    ∃ own body, target = some own ∧ machine.heap.body? source = some body ∧
      after = { machine with heap := machine.heap.takeOver own source } := by
  obtain ⟨_, _, gets, ran⟩ := run_bind_eq_ok ran
  cases gets
  dsimp only at ran
  have stores (ran : (do
      let id ← ofValueResult (machine.heap.overwritten target source)
      changeHeap fun heap => ((), heap.takeOver id source)).run machine = .ok () after) :
      ∃ own body, target = some own ∧ machine.heap.body? source = some body ∧
        after = { machine with heap := machine.heap.takeOver own source } := by
    obtain ⟨own, _, overwrites, changes⟩ := run_bind_eq_ok ran
    unfold ofValueResult at overwrites
    obtain ⟨overwrites, rfl⟩ := run_ofResult_eq_ok_iff.mp overwrites
    cases changes
    cases overwritten : machine.heap.overwritten target source with
    | error cause =>
        rw [overwritten] at overwrites
        cases overwrites
    | ok id =>
        rw [overwritten] at overwrites
        cases overwrites
        obtain ⟨same, body, there⟩ := Heap.body?_of_overwritten overwritten
        exact ⟨own, body, same, there, rfl⟩
  revert ran
  split
  · split
    · intro ran
      cases ran
    · exact stores
  · exact stores

/-! Instructions. -/

theorem run_pushValue {literal : Datum}
    (ran : (execute natives number id (.pushValue literal)).run machine = .ok slice after) :
    slice = none ∧ ∃ frame, machine.frames.frame? id = some frame ∧ after = { machine with
      heap := (Heap.build literal machine.heap).2
      frames := machine.frames.set id (frame.push (Heap.build literal machine.heap).1) } := by
  obtain ⟨_, _, pushes, ended⟩ := run_bind_eq_ok ran
  obtain ⟨rfl, rfl⟩ := run_pure_eq_ok_iff.mp ended
  obtain ⟨value, _, builds, pushes⟩ := run_bind_eq_ok pushes
  cases builds
  exact ⟨rfl, run_push pushes⟩

theorem run_pushVariable
    (ran : (execute natives number id (.pushVariable place)).run machine = .ok slice after) :
    slice = none ∧ ∃ holder held value frame,
      machine.frames.resolve id place.level = .ok holder ∧
      machine.frames.frame? holder = some held ∧ held.slots[place.slot]? = some value ∧
      machine.frames.frame? id = some frame ∧
      after = { machine with frames := machine.frames.set id (frame.push value) } := by
  obtain ⟨value, _, reads, rest⟩ := run_bind_eq_ok ran
  obtain ⟨holder, held, resolved, found, there, rfl⟩ := run_readSlot reads
  obtain ⟨_, _, pushes, ended⟩ := run_bind_eq_ok rest
  obtain ⟨rfl, rfl⟩ := run_pure_eq_ok_iff.mp ended
  obtain ⟨frame, live, same⟩ := run_push pushes
  exact ⟨rfl, holder, held, value, frame, resolved, found, there, live, same⟩

theorem run_pushVariableWritable
    (ran : (execute natives number id (.pushVariableWritable place)).run machine = .ok slice after) :
    slice = none ∧ ∃ holder held shared, machine.frames.resolve id place.level = .ok holder ∧
      machine.frames.frame? holder = some held ∧ held.slots[place.slot]? = some shared ∧
      ∃ root heap, machine.heap.uniquify machine.roots shared = (root, heap) ∧
        ∃ frame, (machine.frames.set holder
            { held with slots := held.slots.setIfInBounds place.slot root }).frame? id = some frame ∧
          after = { machine with
            heap
            frames := (machine.frames.set holder
              { held with slots := held.slots.setIfInBounds place.slot root }).set id
                (frame.push root) } := by
  obtain ⟨shared, _, reads, rest⟩ := run_bind_eq_ok ran
  obtain ⟨holder, held, resolved, found, there, rfl⟩ := run_readSlot reads
  obtain ⟨_, _, gets, rest⟩ := run_bind_eq_ok rest
  cases gets
  obtain ⟨root, _, makes, rest⟩ := run_bind_eq_ok rest
  cases makes
  obtain ⟨_, _, writes, rest⟩ := run_bind_eq_ok rest
  obtain ⟨other, same, again, live, rfl⟩ := run_writeSlot writes
  obtain ⟨_, _, pushes, ended⟩ := run_bind_eq_ok rest
  obtain ⟨rfl, rfl⟩ := run_pure_eq_ok_iff.mp ended
  obtain ⟨frame, now, last⟩ := run_push pushes
  cases resolved.symm.trans again
  cases found.symm.trans live
  exact ⟨rfl, holder, held, shared, resolved, found, there, _, _, rfl, frame, now, last⟩

theorem run_indexWritable
    (ran : (execute natives number id .indexWritable).run machine = .ok slice after) :
    slice = none ∧ ∃ frame operand array rest, machine.frames.frame? id = some frame ∧
      frame.stack = operand :: array :: rest ∧
      ∃ position element, (machine.heap.view operand).position = .ok position ∧
        machine.heap.index array position = .ok element ∧
        ∃ handle heap, machine.heap.claim (array :: { machine with
            frames := machine.frames.set id { frame with stack := rest } }.roots) array position
              element = (handle, heap) ∧
          after = { machine with
            heap
            frames := machine.frames.set id { frame with stack := handle :: rest } } := by
  obtain ⟨operand, _, pops, ran⟩ := run_bind_eq_ok ran
  obtain ⟨frame, below, found, stacked, rfl⟩ := run_pop pops
  obtain ⟨datum, _, shows, ran⟩ := run_bind_eq_ok ran
  cases shows
  obtain ⟨position, _, places, ran⟩ := run_bind_eq_ok ran
  obtain ⟨placed, rfl⟩ := run_ofResult_eq_ok_iff.mp places
  rw [Heap.position_surface] at placed
  obtain ⟨array, _, pops, ran⟩ := run_bind_eq_ok ran
  obtain ⟨again, rest, live, under, rfl⟩ := run_pop pops
  have inRange := FrameArena.index_lt_of_frame? found
  rw [FrameArena.frame?_set_self _ inRange] at live
  cases live
  cases under
  rw [FrameArena.set_set] at ran
  obtain ⟨element, _, reads, ran⟩ := run_bind_eq_ok ran
  obtain ⟨indexed, rfl⟩ := run_readHeap reads
  obtain ⟨_, _, gets, ran⟩ := run_bind_eq_ok ran
  cases gets
  obtain ⟨handle, _, claims, ran⟩ := run_bind_eq_ok ran
  cases claims
  obtain ⟨_, _, pushes, ended⟩ := run_bind_eq_ok ran
  obtain ⟨rfl, rfl⟩ := run_pure_eq_ok_iff.mp ended
  obtain ⟨last, now, rfl⟩ := run_push pushes
  have held : last = { frame with stack := rest } := by
    have set := FrameArena.frame?_set_self { frame with stack := rest } inRange
    exact Option.some.inj (now.symm.trans set)
  subst held
  refine ⟨rfl, frame, operand, array, rest, found, stacked, position, element, placed, indexed, _, _,
    rfl, ?_⟩
  simp only [FrameArena.set_set]
  rfl

theorem run_assignWritable
    (ran : (execute natives number id .assignWritable).run machine = .ok slice after) :
    slice = none ∧ ∃ frame source own rest, machine.frames.frame? id = some frame ∧
      frame.stack = source :: some own :: rest ∧
      (∃ body, machine.heap.body? source = some body) ∧ after = { machine with
        heap := machine.heap.takeOver own source
        frames := machine.frames.set id { frame with stack := rest } } := by
  obtain ⟨source, _, pops, ran⟩ := run_bind_eq_ok ran
  obtain ⟨frame, below, found, stacked, rfl⟩ := run_pop pops
  obtain ⟨target, _, pops, ran⟩ := run_bind_eq_ok ran
  obtain ⟨again, rest, live, under, rfl⟩ := run_pop pops
  have inRange := FrameArena.index_lt_of_frame? found
  rw [FrameArena.frame?_set_self _ inRange] at live
  cases live
  cases under
  rw [FrameArena.set_set] at ran
  obtain ⟨_, _, writes, ended⟩ := run_bind_eq_ok ran
  obtain ⟨rfl, rfl⟩ := run_pure_eq_ok_iff.mp ended
  obtain ⟨own, body, rfl, there, rfl⟩ := run_writeThrough writes
  exact ⟨rfl, frame, source, own, rest, found, stacked, ⟨body, there⟩, rfl⟩

end Action

end CoopScript
