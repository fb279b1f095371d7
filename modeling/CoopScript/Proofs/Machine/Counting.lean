import CoopScript.Proofs.Actions.Uncounted
import CoopScript.Proofs.Machine.Stopping
import CoopScript.Proofs.Machine.Stride

/-!
The count of instructions in one run of the ready threads. Every move that needs an instruction is
counted, no other move is, and at the limit the machine fails instead of executing one more.
-/

namespace CoopScript

open MachineError

namespace Machine

variable {allowed : MachineError → Prop} {machine after : Machine} {natives : Natives}
  {fuel limit : Nat}

/-- The code of the instruction that the current thread comes to next, if it goes on and is not at
the end of a frame. -/
def next? (machine : Machine) : Option Code :=
  if machine.stopped then none
  else do
    let entry ← machine.threads.find? (← machine.current)
    let frame ← machine.frames.frame? entry.current
    frame.code? machine.script

/-- The next move needs an instruction. -/
def needs (machine : Machine) : Bool := machine.next?.isSome

/-- The limit leaves room for an instruction. -/
def hasRoom (machine : Machine) : Bool :=
  match machine.limits.instructionLimit with
  | some limit => machine.instructions < limit
  | none => true

/-- The next move executes an instruction. -/
def executes (machine : Machine) : Bool := machine.needs && machine.hasRoom

/-- The machines that move in a run of the ready threads. -/
def trail (natives : Natives) : Nat → Machine → List Machine
  | 0, _ => []
  | fuel + 1, machine =>
    if machine.state = .running then machine :: trail natives fuel (machine.move natives) else []

/-- The instructions that the ready threads come to in a run. -/
def needed (natives : Natives) (fuel : Nat) (machine : Machine) : Nat :=
  (machine.trail natives fuel).countP needs

/-- The instructions that the ready threads execute in a run. -/
def executed (natives : Natives) (fuel : Nat) (machine : Machine) : Nat :=
  (machine.trail natives fuel).countP executes

/-! Steps. -/

/-- The action adds so many instructions to the count, whether it has a result or fails. -/
def Counts {α : Type} (action : Action α) (machine : Machine) (count : Nat) : Prop :=
  action.Ensures (machine = ·) (fun _ after => after.instructions = machine.instructions + count)
    fun _ after => after.instructions = machine.instructions + count

/-- An instruction that is fetched is counted, also where the limit forbids it. -/
theorem counts_fetch (machine : Machine) (id : FrameId) : Counts (Action.fetch id) machine
    ((machine.frames.frame? id).bind (·.code? machine.script)).isSome.toNat := by
  intro _ equal
  subst equal
  cases live : machine.frames.frame? id with
  | none =>
      have gone : machine.frames.get id = .error (.frameNotLive id) := by
        rw [FrameArena.get, live]
      simp only [Action.fetch, Action.frame, EStateM.run_bind, EStateM.run_get, gone]
      rfl
  | some held =>
      cases found : machine.script.block? held.block with
      | none =>
          simp only [Action.fetch, EStateM.run_bind, Action.run_frame live, Action.run_block, found,
            Option.bind_some, Frame.code?, Option.bind_none]
          rfl
      | some block =>
          rw [Action.run_fetch live found]
          simp only [Frame.code?, found, Option.bind_some]
          cases block.codes[held.position]? with
          | none => rfl
          | some code =>
              cases machine.limits.instructionLimit with
              | none => rfl
              | some limit => by_cases beyond : limit < machine.instructions + 1 <;> simp [beyond]

theorem needs_of_found {number : ThreadId} {entry : Thread} (going : machine.stopped = false)
    (current : machine.current = some number) (found : machine.threads.find? number = some entry) :
    machine.needs =
      ((machine.frames.frame? entry.current).bind (·.code? machine.script)).isSome := by
  rw [needs, next?, going, current]
  simp only [Bool.false_eq_true, if_false, Option.bind_eq_bind, Option.bind_some, found]

/-- A step of the current thread counts the instruction that it needs. -/
theorem counts_advance {number : ThreadId} (current : machine.current = some number) :
    Counts (Action.advance natives number) machine machine.needs.toNat := by
  refine .bind_of_run (EStateM.run_get machine) ?_
  cases stopped : machine.stopped with
  | true =>
      have rests : machine.needs = false := by rw [needs, next?, stopped]; rfl
      simp only [if_true, rests]
      exact .pure fun after same => same ▸ rfl
  | false =>
      simp only [Bool.false_eq_true, if_false]
      cases found : machine.threads.find? number with
      | none =>
          have rests : machine.needs = false := by
            rw [needs, next?, stopped, current]
            simp only [Bool.false_eq_true, if_false, Option.bind_eq_bind, Option.bind_some, found]
            rfl
          simp only [rests]
          exact .pure fun after same => same ▸ rfl
      | some entry =>
          rw [needs_of_found stopped current found]
          refine .bind (machine.counts_fetch entry.current) fun fetched => ?_
          -- What follows the fetch does not count.
          cases fetched with
          | none =>
              have rest : Action.Uncounted (do
                return if ← Action.leave number then some Slice.finished else none) := inferInstance
              exact rest.ensures _
          | some instruction =>
              have rest : Action.Uncounted
                (Action.execute natives number entry.current instruction) := inferInstance
              exact rest.ensures _

/-- A move counts the instruction that it needs. -/
theorem instructions_move (natives : Natives) (machine : Machine) :
    (machine.move natives).instructions = machine.instructions + machine.needs.toNat := by
  cases current : machine.current with
  | none =>
      have rests : machine.needs = false := by
        rw [needs, next?, current]
        split <;> rfl
      rw [move, current, rests]
      dsimp only
      split
      · rfl
      · split <;> rfl
  | some number =>
      have counts : Counts (Action.advance natives number) machine _ := counts_advance current
      rw [move, current]
      dsimp only
      cases ran : (Action.advance natives number).run machine with
      | error error after => exact (instructions_fail after error).trans (counts.error rfl ran)
      | ok slice after =>
          have counted := counts.ok rfl ran
          rcases slice with _ | slice
          · exact counted
          · cases slice <;> exact counted

/-- The machine as it fails at its limit, at an instruction of the given line. -/
def exhausted (machine : Machine) (limit line : Nat) : Machine :=
  ({ machine with currentLine := line, instructions := machine.instructions + 1 }.fail
    (.instructionLimitExceeded limit)).settle

/-- An instruction without room under the limit ends the run. -/
theorem move_of_full (natives : Natives) (limited : machine.limits.instructionLimit = some limit)
    (needs : machine.needs = true) (full : limit ≤ machine.instructions) :
    ∃ line, machine.move natives = machine.exhausted limit line := by
  obtain ⟨code, next⟩ := Option.isSome_iff_exists.mp needs
  unfold next? at next
  split at next
  · cases next
  · next going =>
      have alive : machine.stopped = false := Bool.not_eq_true _ ▸ going
      obtain ⟨number, current, next⟩ := Option.bind_eq_some_iff.mp next
      obtain ⟨entry, found, next⟩ := Option.bind_eq_some_iff.mp next
      obtain ⟨held, live, next⟩ := Option.bind_eq_some_iff.mp next
      obtain ⟨block, listed, coded⟩ := Option.bind_eq_some_iff.mp next
      have fetches := Action.run_fetch live listed
      rw [coded, limited] at fetches
      simp only [if_pos (Nat.lt_succ_of_le full)] at fetches
      have advances : (Action.advance natives number).run machine =
          .error (.instructionLimitExceeded limit) { machine with
            currentLine := code.line
            instructions := machine.instructions + 1 } := by
        simp only [Action.advance, EStateM.run_bind, EStateM.run_get, alive, Bool.false_eq_true,
          if_false, found, fetches]
      refine ⟨code.line, ?_⟩
      rw [move, current]
      dsimp only
      rw [advances]
      rfl

/-! Runs. -/

theorem executes_eq (limited : machine.limits.instructionLimit = some limit) :
    machine.executes = (machine.needs && decide (machine.instructions < limit)) := by
  rw [executes, hasRoom, limited]

theorem trail_of_resting (natives : Natives) (fuel : Nat) (resting : machine.state ≠ .running) :
    machine.trail natives fuel = [] := by
  cases fuel with
  | zero => rfl
  | succ fuel => rw [trail, if_neg resting]

theorem needed_of_running (natives : Natives) (fuel : Nat) (running : machine.state = .running) :
    machine.needed natives (fuel + 1) =
      (machine.move natives).needed natives fuel + machine.needs.toNat := by
  rw [needed, trail, if_pos running, List.countP_cons, needed]
  cases machine.needs <;> rfl

theorem executed_of_running (natives : Natives) (fuel : Nat) (running : machine.state = .running) :
    machine.executed natives (fuel + 1) =
      (machine.move natives).executed natives fuel + machine.executes.toNat := by
  rw [executed, trail, if_pos running, List.countP_cons, executed]
  cases machine.executes <;> rfl

theorem Changes.limits (changes : Changes allowed machine after) :
    after.limits = machine.limits := by
  induction changes with
  | refl => rfl
  | tail _ change hypothesis => exact change.keeps.2.1.trans hypothesis

theorem resting_settle (machine : Machine) : machine.settle.state ≠ .running := by
  rw [settle]
  dsimp only
  split <;> simp

/-- A machine that reports its limit had no error before. -/
theorem error_exhausted (clean : machine.error = none) (limit line : Nat) :
    (machine.exhausted limit line).error = some (.instructionLimitExceeded limit) := by
  simp [exhausted, settle, fail, clean]

/-- A machine that needs an instruction has not failed. -/
theorem Candid.clean_of_needs (candid : machine.Candid) (needs : machine.needs = true) :
    machine.error = none := by
  refine candid.clean (Bool.eq_false_iff.mpr fun stopped => ?_)
  rw [Machine.needs, next?, if_pos stopped] at needs
  cases needs

section Runs

variable (own : ∀ error : MachineError, ¬ error.IsInternal → allowed error)
  (honest : natives.Honest allowed)

include own honest

/-- However far a run gets, it executes no more than what the limit leaves room for. -/
theorem executed_le (steady : machine.Steady allowed)
    (limited : machine.limits.instructionLimit = some limit) :
    machine.executed natives fuel ≤ limit - machine.instructions := by
  induction fuel generalizing machine with
  | zero => exact Nat.zero_le _
  | succ fuel hypothesis =>
      by_cases running : machine.state = .running
      · rw [executed_of_running natives fuel running, executes_eq limited]
        have changes := move_changes own honest steady running
        have later := hypothesis (steady.changes changes)
          ((congrArg Limits.instructionLimit changes.limits).trans limited)
        rw [instructions_move] at later
        cases needs : machine.needs with
        | false =>
            rw [needs] at later
            simpa using later
        | true =>
            by_cases room : machine.instructions < limit
            · rw [needs] at later
              simp only [Bool.toNat_true, Bool.true_and, decide_eq_true room] at later ⊢
              omega
            · obtain ⟨line, full⟩ := move_of_full natives limited needs (Nat.le_of_not_lt room)
              have rests : (machine.exhausted limit line).state ≠ .running := resting_settle _
              rw [full, executed, trail_of_resting natives fuel rests]
              simp [room]
      · rw [executed, trail_of_resting natives (fuel + 1) running]
        exact Nat.zero_le _

/-- A run executes every instruction that it needs, or the last one is one too many and the machine
fails with its limit. -/
theorem needed_cases (steady : machine.Steady allowed) (candid : machine.Candid)
    (limited : machine.limits.instructionLimit = some limit)
    (ended : moves natives fuel machine = some after) :
    machine.needed natives fuel = machine.executed natives fuel ∨
      machine.needed natives fuel = machine.executed natives fuel + 1 ∧
        machine.executed natives fuel = limit - machine.instructions ∧
        after.error = some (.instructionLimitExceeded limit) := by
  induction fuel generalizing machine with
  | zero => cases ended
  | succ fuel hypothesis =>
      by_cases running : machine.state = .running
      · rw [moves, if_pos running] at ended
        rw [executed_of_running natives fuel running, needed_of_running natives fuel running,
          executes_eq limited]
        have changes := move_changes own honest steady running
        by_cases full : machine.needs = true ∧ limit ≤ machine.instructions
        · obtain ⟨needs, full⟩ := full
          obtain ⟨line, moved⟩ := move_of_full natives limited needs full
          have rests : (machine.exhausted limit line).state ≠ .running := resting_settle _
          rw [moved] at ended ⊢
          rw [executed, needed, trail_of_resting natives fuel rests, needs]
          refine .inr ⟨by simp [full], by simp [full], ?_⟩
          obtain _ | fuel := fuel
          · cases ended
          · rw [moves, if_neg rests] at ended
            cases ended
            exact error_exhausted (candid.clean_of_needs needs) limit line
        · -- The instruction that the move needs is executed.
          have room : machine.needs = true → machine.instructions < limit := fun needs =>
            Nat.lt_of_not_le fun less => full ⟨needs, less⟩
          have executes : (machine.needs && decide (machine.instructions < limit)) =
              machine.needs := by
            cases needs : machine.needs with
            | false => rfl
            | true => simp [room needs]
          rw [executes]
          rcases hypothesis (steady.changes changes) (changes.candid candid)
            ((congrArg Limits.instructionLimit changes.limits).trans limited) ended with
            same | ⟨beyond, left, met⟩
          · exact .inl (by rw [same])
          · refine .inr ⟨by omega, ?_, met⟩
            rw [instructions_move] at left
            cases needs : machine.needs with
            | false => simpa [needs] using left
            | true =>
                have less := room needs
                rw [needs, Bool.toNat_true] at left
                rw [Bool.toNat_true]
                omega
      · rw [executed, needed, trail_of_resting natives (fuel + 1) running]
        exact .inl rfl

end Runs

end Machine

end CoopScript
