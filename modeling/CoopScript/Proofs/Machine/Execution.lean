import CoopScript.Proofs.Frames.Places
import CoopScript.Proofs.Machine.Moves

/-!
Threads that go on through the code of their current frame, one instruction a move.
-/

namespace CoopScript

/-- An instruction of a piece of code comes first, and the rest after it. -/
theorem cons_prefix_drop {Item : Type} {code rest : List Item} {instruction : Item}
    {position : Nat} (next : instruction :: rest <+: code.drop position) :
    code[position]? = some instruction ∧ rest <+: code.drop (position + 1) := by
  obtain ⟨tail, split⟩ := next
  constructor
  · rw [← List.head?_drop, ← split]
    rfl
  · refine ⟨tail, ?_⟩
    rw [← List.drop_drop, ← split]
    rfl

theorem append_prefix_drop {Item : Type} {code first rest : List Item} {position : Nat}
    (next : first ++ rest <+: code.drop position) : rest <+: code.drop (position + first.length) := by
  obtain ⟨tail, split⟩ := next
  refine ⟨tail, ?_⟩
  rw [← List.drop_drop, ← split, List.append_assoc, List.drop_left]

namespace Machine

open FrameArena

/-- The instructions of a block. -/
def code (machine : Machine) (id : BlockId) : List Instruction :=
  match machine.script.block? id with
  | some block => block.codes.toList.map Code.instruction
  | none => []

variable {machine : Machine} {natives : Natives} {number : ThreadId} {entry : Thread} {held : Frame}
  {instruction : Instruction}

/-- A stopped machine stays stopped. -/
theorem stopped_move (natives : Natives) (stopped : machine.stopped = true) :
    (machine.move natives).stopped = true := by
  unfold move
  split
  · rw [if_pos stopped]
    exact stopped
  · next id _ =>
      have halts : (Action.advance natives id).run machine = .ok (some .halted) machine := by
        simp only [Action.advance, EStateM.run_bind, EStateM.run_get, stopped, if_true]
        rfl
      rw [halts]
      exact stopped

/-- A machine that goes on after some moves was not stopped before. -/
theorem going_of_iterate (count : Nat)
    (going : ((Machine.move natives)^[count] machine).stopped = false) : machine.stopped = false := by
  induction count generalizing machine with
  | zero => exact going
  | succ count hypothesis =>
      by_contra stopped
      have still := stopped_move natives (Bool.not_eq_false _ ▸ stopped)
      rw [hypothesis going] at still
      cases still

/-- What becomes of a machine when an instruction of a frame is fetched. -/
structure Fetched (machine : Machine) (id : FrameId) (fetched : Machine) : Prop where
  script : fetched.script = machine.script
  threads : fetched.threads = machine.threads
  current : fetched.current = machine.current
  heap : fetched.heap = machine.heap
  frames : fetched.frames = machine.frames.edit id (.advanced 1 [])

theorem Fetched.value? {id : FrameId} {fetched : Machine} (passed : Fetched machine id fetched)
    (place : Place) : fetched.frames.value? place = machine.frames.value? place := by
  rw [passed.frames, value?_passed]

theorem Fetched.skeleton {id : FrameId} {fetched : Machine} (passed : Fetched machine id fetched) :
    fetched.frames.skeleton = machine.frames.skeleton := by
  rw [passed.frames, skeleton_advanced]

/-- The next instruction is fetched unless there were too many. -/
theorem fetch_cases {id : FrameId} (live : machine.frames.frame? id = some held)
    (next : (machine.code held.block)[held.position]? = some instruction) :
    (∃ fetched, Fetched machine id fetched ∧
      (Action.fetch id).run machine = .ok (some instruction) fetched) ∨
    ∃ error after, (Action.fetch id).run machine = .error error after := by
  cases block : machine.script.block? held.block with
  | none =>
      rw [code, block] at next
      cases next
  | some blocked =>
      simp only [code, block, List.getElem?_map, Array.getElem?_toList] at next
      obtain ⟨there, coded, rfl⟩ := Option.map_eq_some_iff.mp next
      rw [Action.run_fetch live block, coded]
      have passed := (edit_eq_set live (.advanced 1 [])).symm
      cases machine.limits.instructionLimit with
      | none =>
          refine .inl ⟨_, ?_, rfl⟩
          exact ⟨rfl, rfl, rfl, rfl, passed⟩
      | some limit =>
          dsimp only
          split
          · exact .inr ⟨_, _, rfl⟩
          · refine .inl ⟨_, ?_, rfl⟩
            exact ⟨rfl, rfl, rfl, rfl, passed⟩

theorem run_advance (natives : Natives) (alive : machine.stopped = false)
    (found : machine.threads.find? number = some entry) {fetched : Machine}
    (fetches : (Action.fetch entry.current).run machine = .ok (some instruction) fetched) :
    (Action.advance natives number).run machine =
      (Action.execute natives number entry.current instruction).run fetched := by
  simp only [Action.advance, EStateM.run_bind, EStateM.run_get, alive, Bool.false_eq_true, if_false,
    found, fetches]

/-- A machine that goes on made its last move by a step that went through. -/
theorem advance_of_move (current : machine.current = some number)
    (going : (machine.move natives).stopped = false) :
    ∃ slice after, (Action.advance natives number).run machine = .ok slice after ∧
      machine.move natives = afterStep number (.ok slice after) := by
  have moved : machine.move natives = afterStep number ((Action.advance natives number).run machine) := by
    simp only [move, current]
  cases ran : (Action.advance natives number).run machine with
  | ok slice after => exact ⟨slice, after, rfl, moved.trans (congrArg (afterStep number) ran)⟩
  | error error after =>
      rw [moved, ran] at going
      exact (Bool.false_ne_true (going.symm.trans (stopped_fail after error))).elim

/-- A move of a thread that goes on runs the next instruction of its current frame. -/
theorem run_of_move (current : machine.current = some number)
    (found : machine.threads.find? number = some entry)
    (live : machine.frames.frame? entry.current = some held)
    (next : (machine.code held.block)[held.position]? = some instruction)
    (going : (machine.move natives).stopped = false) :
    ∃ fetched slice after, Fetched machine entry.current fetched ∧
      (Action.execute natives number entry.current instruction).run fetched = .ok slice after ∧
      machine.move natives = afterStep number (.ok slice after) := by
  have alive : machine.stopped = false := going_of_iterate 1 going
  obtain ⟨slice, after, ran, moved⟩ := advance_of_move current going
  rcases fetch_cases live next with ⟨fetched, steps, fetches⟩ | ⟨error, last, fails⟩
  · exact ⟨fetched, slice, after, steps, (run_advance natives alive found fetches).symm.trans ran, moved⟩
  · simp only [Action.advance, EStateM.run_bind, EStateM.run_get, alive, Bool.false_eq_true,
      if_false, found, fails] at ran
    cases ran

end Machine

end CoopScript
