import Mathlib.Algebra.Order.BigOperators.Group.List
import Mathlib.Data.Prod.Lex
import CoopScript.Proofs.Machine.Counting

/-!
Runs of the ready threads end. Under a limit of instructions every move of a running machine leaves
room for fewer instructions or, with as many, leaves less to return from or, with as much, takes an
entry off the queue or ends a turn.
-/

namespace CoopScript

open MachineError

namespace ThreadSet

variable {set : ThreadSet} {id : ThreadId} {thread : Thread}

/-- The frames that all threads have still to return from. -/
def load (set : ThreadSet) : Nat := (set.threads.map fun entry => entry.2.depth + 1).sum

theorem mem_of_find? (found : set.find? id = some thread) : (id, thread) ∈ set.threads := by
  obtain ⟨before, after, split, _⟩ := List.lookup_eq_some_iff.mp found
  simp [split]

theorem load_remove_lt (found : set.find? id = some thread) : (set.remove id).load < set.load := by
  obtain ⟨before, after, split, _⟩ := List.lookup_eq_some_iff.mp found
  have sum (entries : List (ThreadId × Thread)) :
      ((entries.filter fun entry => entry.1 ≠ id).map fun entry => entry.2.depth + 1).sum ≤
        (entries.map fun entry => entry.2.depth + 1).sum :=
    (List.filter_sublist.map _).sum_le_sum fun _ _ => Nat.zero_le _
  have early := sum before
  have late := sum after
  simp only [load, remove, split, List.filter_append, List.map_append, List.sum_append,
    List.map_cons, List.sum_cons]
  rw [List.filter_cons_of_neg (by simp)]
  omega

/-- A thread that returns from a frame has one less to return from. -/
theorem load_update_lt (found : set.find? id = some thread) (inner : 0 < thread.depth)
    {change : Thread → Thread} (returns : ∀ thread, (change thread).depth = thread.depth - 1) :
    (set.update id change).load < set.load := by
  rw [load, load, update, List.map_map]
  refine List.sum_lt_sum _ _ (fun entry _ => ?_) ⟨_, mem_of_find? found, ?_⟩
  · dsimp only [Function.comp_apply]
    split
    · rw [returns]
      omega
    · rfl
  · simp only [Function.comp_apply, if_true, returns]
    omega

end ThreadSet

/-- A frame that is not the root of its thread stands above another one. -/
theorem FrameArena.Chain.two_le {arena : FrameArena} {root id : FrameId} {chain : List FrameId}
    (whole : arena.Chain root id chain) (inner : id ≠ root) : 2 ≤ chain.length := by
  cases whole with
  | root _ _ => exact (inner rfl).elim
  | inner _ _ _ _ rest => exact Nat.succ_le_succ rest.length_pos

namespace Action

open Machine (Executing)

variable {allowed : MachineError → Prop} {machine : Machine} {number : ThreadId} {entry : Thread}

theorem return_load {threads : ThreadSet} (found : threads.find? number = some entry)
    (deep : 0 < entry.depth) (parent : FrameId) (passes : Bool) (value : Value) :
    (do
      retire entry.current
      if passes then push parent value
      updateThread number fun thread => { thread with current := parent, depth := thread.depth - 1 }
      return false : Action Bool).Ensures (·.threads = threads)
        (fun _ after => after.threads.load < threads.load) fun _ _ => True := by
  have returns : (do
      updateThread number fun thread => { thread with current := parent, depth := thread.depth - 1 }
      return false : Action Bool).Ensures (·.threads = threads)
        (fun _ after => after.threads.load < threads.load) fun _ _ => True := by
    intro machine same
    subst same
    exact ThreadSet.load_update_lt found deep fun _ => rfl
  have retires : (retire entry.current).Ensures (·.threads = threads)
      (fun _ after => after.threads = threads) fun _ _ => True := .modify fun _ same => same
  refine retires.bind fun _ => ?_
  cases passes with
  | false => exact returns
  | true =>
      have pushes : (push parent value).Ensures (·.threads = threads)
          (fun _ after => after.threads = threads) fun _ _ => True := by
        intro machine same
        simp only [push, frame, EStateM.run_bind, EStateM.run_get]
        cases machine.frames.get parent with
        | error error => trivial
        | ok frame => exact same
      exact pushes.bind fun _ => returns

/-- The return from a frame takes it off its thread, or the thread out of the machine. -/
theorem leave_load (executing : machine.Executing allowed number entry) :
    (leave number).Ensures (machine = ·)
      (fun _ after => after.threads.load < machine.threads.load) fun _ _ => True := by
  have found := executing.found
  have looks : (thread number).run machine = .ok entry machine := by
    simp only [thread, EStateM.run_bind, EStateM.run_get, found]
    rfl
  refine .bind_of_run looks ?_
  split
  · intro _ equal
    subst equal
    exact ThreadSet.load_remove_lt found
  · next inner =>
      obtain ⟨chain, whole, length⟩ := executing.steady.coherent.chain number entry found
      have deep : 0 < entry.depth := by
        have longer := whole.two_le inner
        omega
      obtain ⟨held, live, _⟩ := executing.steady.coherent.live_current found
      refine .bind_of_run (run_frame live) ?_
      split
      · exact .throw fun _ _ => trivial
      · next parent named =>
          split
          · have empties : (setFrame entry.current { held with result := none }).Ensures (machine = ·)
                (fun _ after => after.threads = machine.threads) fun _ _ => True :=
              .modify fun _ same => same ▸ rfl
            exact empties.bind fun _ => return_load found deep parent true held.result
          · exact (return_load found deep parent false held.result).weaken (fun _ same => same ▸ rfl)
              (fun _ _ less => less) fun _ _ _ => trivial

end Action

namespace Machine

variable {allowed : MachineError → Prop} {machine after : Machine} {natives : Natives}
  {fuel limit : Nat}

/-- The entries of the queue and the turn that is on. -/
def pending (machine : Machine) : Nat :=
  2 * machine.threads.ready.length + machine.current.isSome.toNat

/-- What is left to do for a machine under a limit: instructions that it has room for, frames to
return from, and turns. -/
def remaining (limit : Nat) (machine : Machine) : Nat ×ₗ Nat ×ₗ Nat :=
  toLex (limit - machine.instructions, toLex (machine.threads.load, machine.pending))

theorem remaining_lt_of_instructions (room : machine.instructions < limit)
    (more : machine.instructions < after.instructions) :
    after.remaining limit < machine.remaining limit := by
  refine Prod.Lex.toLex_lt_toLex.mpr (.inl ?_)
  dsimp only
  omega

theorem remaining_lt_of_load (same : after.instructions = machine.instructions)
    (less : after.threads.load < machine.threads.load) :
    after.remaining limit < machine.remaining limit := by
  rw [remaining, remaining, same]
  exact Prod.Lex.toLex_lt_toLex.mpr (.inr ⟨rfl, Prod.Lex.toLex_lt_toLex.mpr (.inl less)⟩)

theorem remaining_lt_of_pending (same : after.instructions = machine.instructions)
    (threads : after.threads.load = machine.threads.load) (less : after.pending < machine.pending) :
    after.remaining limit < machine.remaining limit := by
  rw [remaining, remaining, same, threads]
  exact Prod.Lex.toLex_lt_toLex.mpr
    (.inr ⟨rfl, Prod.Lex.toLex_lt_toLex.mpr (.inr ⟨rfl, less⟩)⟩)

/-- A move without a current thread gives one its turn, if it does not end the run. -/
theorem move_of_idle (natives : Natives) (turn : machine.current = none) :
    (machine.move natives).state ≠ .running ∨
      (machine.move natives).remaining limit < machine.remaining limit := by
  rw [move, turn]
  dsimp only
  split
  · exact .inl (resting_settle machine)
  · rcases machine.threads.takeReady_cases with ⟨taken, _⟩ | ⟨gone, id, rest, queue, _, _, taken⟩
    · rw [taken]
      exact .inl (resting_settle _)
    · rw [taken]
      refine .inr (remaining_lt_of_pending rfl rfl ?_)
      simp only [pending, queue, turn, List.length_append, List.length_cons, Option.isSome_some,
        Option.isSome_none, Bool.toNat_true, Bool.toNat_false]
      omega

/-- A step without an instruction ends a turn or returns from a frame, if it does not end the run. -/
theorem move_of_unneeded (steady : machine.Steady allowed) {number : ThreadId}
    (current : machine.current = some number) (needs : machine.needs = false) :
    (machine.move natives).state ≠ .running ∨
      (machine.move natives).remaining limit < machine.remaining limit := by
  have count : (machine.move natives).instructions = machine.instructions := by
    rw [instructions_move, needs]
    rfl
  have moved : machine.move natives =
      afterStep number ((Action.advance natives number).run machine) := by
    rw [move, current]
  cases stopped : machine.stopped with
  | true =>
      have halts : (Action.advance natives number).run machine = .ok (some .halted) machine := by
        simp only [Action.advance, EStateM.run_bind, EStateM.run_get, stopped, if_true]
        rfl
      rw [moved, halts]
      exact .inl (resting_settle machine)
  | false =>
      cases found : machine.threads.find? number with
      | none =>
          have ends : (Action.advance natives number).run machine =
              .ok (some .finished) machine := by
            simp only [Action.advance, EStateM.run_bind, EStateM.run_get, stopped,
              Bool.false_eq_true, if_false, found]
            rfl
          rw [moved, ends] at count ⊢
          refine .inr (remaining_lt_of_pending count rfl ?_)
          simp [pending, afterStep, endSlice, log, current]
      | some entry =>
          have executing : machine.Executing allowed number entry := ⟨steady, current, found⟩
          obtain ⟨held, live, _⟩ := steady.coherent.live_current found
          obtain ⟨block, listed, _⟩ := steady.coherent.activates _ held live
          have ended : block.codes[held.position]? = none := by
            rw [needs_of_found stopped current found, live, Option.bind_some, Frame.code?, listed,
              Option.bind_some] at needs
            exact Option.not_isSome_iff_eq_none.mp (Bool.not_eq_true _ ▸ needs)
          have fetches := Action.run_fetch live listed
          rw [ended] at fetches
          have leaves := Action.leave_load executing
          have advances : (Action.advance natives number).run machine =
              (do return if ← Action.leave number then some Slice.finished else none :
                Action (Option Slice)).run machine := by
            simp only [Action.advance, EStateM.run_bind, EStateM.run_get, stopped,
              Bool.false_eq_true, if_false, found, fetches]
          rw [moved, advances] at count ⊢
          simp only [EStateM.run_bind] at count ⊢
          cases left : (Action.leave number).run machine with
          | error error after => exact .inl (resting_settle _)
          | ok ended after =>
              have less := leaves.ok rfl left
              rw [left] at count
              refine .inr (remaining_lt_of_load count ?_)
              cases ended <;> exact less

section Runs

variable (own : ∀ error : MachineError, ¬ error.IsInternal → allowed error)
  (honest : natives.Honest allowed)

/-- Every move brings a run under a limit nearer to its end. -/
theorem move_remaining_lt (steady : machine.Steady allowed)
    (limited : machine.limits.instructionLimit = some limit) :
    (machine.move natives).state ≠ .running ∨
      (machine.move natives).remaining limit < machine.remaining limit := by
  cases needs : machine.needs with
  | true =>
      by_cases full : limit ≤ machine.instructions
      · obtain ⟨line, moved⟩ := move_of_full natives limited needs full
        rw [moved]
        exact .inl (resting_settle _)
      · refine .inr (remaining_lt_of_instructions (Nat.lt_of_not_le full) ?_)
        rw [instructions_move, needs]
        exact Nat.lt_succ_self _
  | false =>
      cases current : machine.current with
      | none => exact move_of_idle natives current
      | some number => exact move_of_unneeded steady current needs

include own honest

/-- A run of the ready threads under a limit ends. -/
theorem moves_return (steady : machine.Steady allowed)
    (limited : machine.limits.instructionLimit = some limit) :
    ∃ fuel last, moves natives fuel machine = some last := by
  induction left : machine.remaining limit using WellFoundedLT.induction generalizing machine with
  | ind left hypothesis =>
      subst left
      by_cases running : machine.state = .running
      · have changes := move_changes own honest steady running
        rcases move_remaining_lt steady limited with rests | less
        · exact ⟨2, machine.move natives, by rw [moves, if_pos running, moves, if_neg rests]⟩
        · obtain ⟨fuel, last, ended⟩ := hypothesis _ less (steady.changes changes)
            ((congrArg Limits.instructionLimit changes.limits).trans limited) rfl
          exact ⟨fuel + 1, last, by rw [moves, if_pos running, ended]⟩
      · exact ⟨1, machine, by rw [moves, if_neg running]⟩

end Runs

/-- More fuel than it takes changes nothing. -/
theorem moves_of_le {more : Nat} (ended : moves natives fuel machine = some after)
    (enough : fuel ≤ more) : moves natives more machine = some after := by
  induction fuel generalizing machine more with
  | zero => cases ended
  | succ fuel hypothesis =>
      obtain ⟨more, rfl⟩ := Nat.exists_eq_add_of_lt enough
      rw [moves] at ended ⊢
      split at ended
      · next running =>
          rw [if_pos running]
          exact hypothesis ended (by omega)
      · next resting =>
          rw [if_neg resting]
          exact ended

end Machine

end CoopScript
