import CoopScript.Proofs.Actions.Runs
import CoopScript.Proofs.Machine.Turns
import CoopScript.Proofs.Number.Truncation
import CoopScript.Proofs.Threads.Waiting

/-!
How long threads wait. A thread that begins to wait for some ticks has no turn until they are over,
whatever happens to the machine in between.
-/

namespace CoopScript

open MachineError

/-- A value is read off the heap, which stays as it is. -/
theorem Action.run_toReal_eq_ok_iff {machine after : Machine} {value : Value} {number : Float} :
    (toReal value).run machine = .ok number after ↔
      (machine.heap.surface value).toReal = .ok number ∧ machine = after := by
  simp only [toReal, surface, ofValueResult, EStateM.run_bind, EStateM.run_get, EStateM.run_pure,
    run_ofResult_eq_ok_iff]
  cases (machine.heap.surface value).toReal <;> simp [MachineError.ofValueResult]

namespace Machine

variable {allowed : MachineError → Prop} {machine after : Machine} {number : ThreadId} {due : Nat}

/-- As long as a thread lives, it waits until a tick. -/
structure WaitsUntil (machine : Machine) (number : ThreadId) (due : Nat) : Prop where
  begun : machine.state ≠ .idle
  old : number.number < machine.threads.next.number
  waits : number ∈ machine.threads.ids → machine.ticks < due →
    (number, due - machine.ticks) ∈ machine.threads.waiting

/-- Nothing but a tick counts the waiting threads down. -/
theorem Change.waiting (steady : machine.Steady allowed) (begun : machine.state ≠ .idle)
    (change : Change allowed machine after) :
    after = machine.tick.begin ∨ after.ticks = machine.ticks ∧
      ∀ entry ∈ machine.threads.waiting, entry.1 ∈ after.threads.ids →
        entry ∈ after.threads.waiting := by
  have keeps {after : Machine} (ticks : after.ticks = machine.ticks)
      (kept : after.threads.waiting = machine.threads.waiting) :
      after = machine.tick.begin ∨ after.ticks = machine.ticks ∧
        ∀ entry ∈ machine.threads.waiting, entry.1 ∈ after.threads.ids →
          entry ∈ after.threads.waiting :=
    .inr ⟨ticks, fun entry waits _ => kept ▸ waits⟩
  cases change with
  | quiet quiet => exact keeps quiet.ticks (congrArg _ quiet.threads)
  | start idle => exact (begun idle).elim
  | tick => exact .inl rfl
  | finish => exact .inr ⟨rfl, fun _ waits live => ThreadSet.mem_waiting_remove waits live⟩
  | close => exact .inr ⟨rfl, fun _ waits live => ThreadSet.mem_waiting_remove waits live⟩
  | fail => exact keeps (ticks_fail ..) (congrArg _ (threads_fail ..))
  | terminate text => exact keeps (ticks_fail ..) (congrArg _ (threads_fail ..))
  | take => exact keeps rfl (ThreadSet.waiting_takeReady _)
  | rest => exact keeps rfl (ThreadSet.waiting_takeReady _)
  | wait current =>
      have absent := (steady.balanced.current_apart _ current).2
      exact .inr ⟨rfl, fun _ waits _ => ThreadSet.mem_waiting_park absent waits⟩
  | _ => exact keeps rfl rfl

theorem WaitsUntil.change (waits : machine.WaitsUntil number due) (steady : machine.Steady allowed)
    (change : Change allowed machine after) : after.WaitsUntil number due := by
  have advances := change.advances
  refine ⟨change.keeps.2.2 waits.begun, waits.old.trans_le advances.next_le, fun live early => ?_⟩
  have older : number ∈ machine.threads.ids :=
    (advances.older number live).resolve_right (Nat.not_le.mpr waits.old)
  rcases change.waiting steady waits.begun with rfl | ⟨ticks, kept⟩
  · have longer : machine.ticks + 1 < due := early
    have waiting := waits.waits older (Nat.lt_of_succ_lt longer)
    exact ThreadSet.mem_waiting_wake waiting (Nat.lt_sub_of_add_lt (Nat.add_comm .. ▸ longer))
  · rw [ticks] at early ⊢
    exact kept _ (waits.waits older early) live

theorem WaitsUntil.changes (waits : machine.WaitsUntil number due)
    (steady : machine.Steady allowed) (changes : Changes allowed machine after) :
    after.WaitsUntil number due := by
  induction changes with
  | refl => exact waits
  | tail before change hypothesis => exact hypothesis.change (steady.changes before) change

/-- A waiting thread has no turn, and its ticks count down. -/
theorem WaitsUntil.rests (waits : machine.WaitsUntil number due) (steady : machine.Steady allowed)
    (live : number ∈ machine.threads.ids) (early : machine.ticks < due) :
    machine.current ≠ some number ∧
      machine.threads.waitingTicks? number = some (due - machine.ticks) := by
  have waiting := waits.waits live early
  refine ⟨fun turn => ?_, steady.balanced.waitingTicks?_eq_some_iff.mpr waiting⟩
  exact (steady.balanced.current_apart number turn).2 (List.mem_map_of_mem waiting)

/-- A thread executes a wait, with an operand that reads as the given number. -/
structure BeginsToWait (natives : Natives) (machine : Machine) (number : ThreadId)
    (operand : Float) : Prop where
  turn : machine.current = some number
  waits : ∃ thread frame value rest, machine.threads.find? number = some thread ∧
    machine.frames.frame? thread.current = some frame ∧
    (machine.code frame.block)[frame.position]? = some .wait ∧ frame.stack = value :: rest ∧
    (machine.heap.surface value).toReal = .ok operand
  passes : (machine.move natives).stopped = false

variable {natives : Natives} {operand : Float}

/-- What the move makes of the thread that begins to wait. -/
theorem BeginsToWait.parks (begins : BeginsToWait natives machine number operand)
    (steady : machine.Steady allowed) :
    (machine.move natives).ticks = machine.ticks ∧
      (machine.move natives).threads = machine.threads.park number (Action.ticks operand) := by
  obtain ⟨thread, frame, value, rest, found, live, next, stacked, reads⟩ := begins.waits
  have alive : machine.stopped = false := going_of_iterate 1 begins.passes
  obtain ⟨slice, last, ran, moved⟩ := advance_of_move begins.turn begins.passes
  rcases fetch_cases live next with ⟨fetched, passed, fetches⟩ | ⟨error, failed, fails⟩
  · obtain ⟨quiet, _⟩ := (Action.calm_fetch steady.coherent live).ok fetches
    rw [run_advance natives alive found fetches, Action.execute] at ran
    obtain ⟨top, popped, pops, ran⟩ := Action.run_bind_eq_ok ran
    obtain ⟨held, others, there, first, rfl⟩ := Action.run_pop pops
    obtain ⟨ticks, same, reading, done⟩ := Action.run_bind_eq_ok ran
    obtain ⟨read, rfl⟩ := Action.run_toReal_eq_ok_iff.mp reading
    cases done
    have again : held = frame.advanced 1 [] := by
      rw [passed.frames, FrameArena.frame?_edit_self live] at there
      exact (Option.some.inj there).symm
    subst again
    obtain ⟨rfl, rfl⟩ := List.cons.inj (stacked.symm.trans first)
    rw [passed.heap, reads] at read
    cases read
    rw [moved]
    exact ⟨quiet.ticks, congrArg (ThreadSet.park · number _) quiet.threads⟩
  · simp only [Action.advance, EStateM.run_bind, EStateM.run_get, alive, Bool.false_eq_true,
      if_false, found, fails] at ran
    cases ran

theorem BeginsToWait.waitsUntil (own : ∀ error : MachineError, ¬ error.IsInternal → allowed error)
    (honest : natives.Honest allowed) (begins : BeginsToWait natives machine number operand)
    (steady : machine.Steady allowed) :
    (machine.move natives).WaitsUntil number (machine.ticks + Action.ticks operand) := by
  obtain ⟨thread, _, _, _, found, _⟩ := begins.waits
  obtain ⟨ticks, threads⟩ := begins.parks steady
  have running := steady.current_running begins.turn
  have live : number ∈ machine.threads.ids := ThreadSet.mem_ids_iff.mpr ⟨thread, found⟩
  have absent := (steady.balanced.current_apart number begins.turn).2
  refine ⟨(move_changes own honest steady running).begun (running ▸ nofun), ?_, fun _ _ => ?_⟩
  · rw [threads]
    exact steady.balanced.ids_lt number live
  · rw [ticks, threads, Nat.add_sub_cancel_left]
    exact ThreadSet.mem_waiting_park_self absent _

/-! The tick that ends a wait. -/

section Ticks

variable (own : ∀ error : MachineError, ¬ error.IsInternal → allowed error)
  (honest : natives.Honest allowed)

include own honest

/-- In a tick, the threads that are due come first. -/
theorem Steady.serves_due (steady : machine.Steady allowed)
    (begun : machine.state = .suspended ∨ machine.state = .finished)
    (going : machine.stopped = false) (count : Nat) :
    ∃ reached pending first others, Serves natives count machine.tick.begin machine.threads.due
      reached pending first others := by
  have resting : machine.state ≠ .running := by
    rcases begun with suspended | finished <;> simp_all
  refine serves_of_prefix own honest (steady.change (.tick begun going)) count ?_
  have queue : machine.tick.begin.threads.ready = machine.threads.ready ++ machine.threads.due :=
    steady.balanced.ready_wake
  rw [queue, (steady.resting resting).2 going]
  exact List.prefix_rfl

end Ticks

variable {program : Program} {limits : Limits}

/-- A thread that begins to wait has no turn before its ticks are over, which it can be seen to wait
for as long as it lives. In the tick that ends its wait it has a turn, unless it is closed before or
the machine does not go on as far. In every tick, the threads that are due have their first turns in
ascending order, and other turns come after them. -/
theorem Reachable.waits_for_ticks (reachable : Reachable program limits machine) :
    (∀ number operand, BeginsToWait program.natives machine number operand → ∀ later,
      Relation.ReflTransGen (Follows program limits) (machine.move program.natives) later →
      number ∈ later.threads.ids →
      let due := machine.ticks + max 1 (Binary64.decode operand).truncated
      (later.ticks < due → later.current ≠ some number ∧
        later.threads.waitingTicks? number = some (due - later.ticks)) ∧
      (later.ticks + 1 = due → later.state ≠ .running → later.stopped = false →
        number ∈ later.threads.due ∧ ∀ count,
        number ∈ later.tick.begin.turns program.natives count ∨
        number ∉ (later.tick.begin.moved program.natives count).threads.ids ∨
        ((later.tick.begin.moved program.natives count).state = .running ∨
          (later.tick.begin.moved program.natives count).stopped = true) ∧
        ∀ other ∈ later.tick.begin.turns program.natives count,
          other ∈ later.threads.due ∧ other.number < number.number)) ∧
    (machine.state = .suspended ∨ machine.state = .finished → machine.stopped = false →
      (machine.threads.due.Pairwise fun first second => first.number < second.number) ∧
      (∀ id, id ∈ machine.threads.due ↔ machine.threads.waitingTicks? id = some 1) ∧
      (∀ count, ∃ reached pending first others, Serves program.natives count machine.tick.begin
        machine.threads.due reached pending first others) ∧
      ∀ fuel result ended, machine.resume program.natives fuel = some (result, ended) →
        machine.tick.begin.moved program.natives fuel = ended ∧ ended.state ≠ .running) := by
  have own : ∀ error : MachineError, ¬ error.IsInternal → True := fun _ _ => trivial
  have honest : program.natives.Honest fun _ => True :=
    fun _ _ _ => Routine.honest_of_forall (fun _ => trivial) _
  have steady := reachable.steady own honest
  refine ⟨fun number operand begins later path live => ?_, fun begun going => ?_⟩
  · have running := steady.current_running begins.turn
    have steadily := steady.changes (move_changes own honest steady running)
    have changes := changes_of_follows own honest path
    have calm := steadily.changes changes
    have waits := (begins.waitsUntil own honest steady).changes steadily changes
    rw [Action.ticks_eq] at waits
    refine ⟨waits.rests calm live, fun last resting going => ?_⟩
    have early : later.ticks < machine.ticks + max 1 (Binary64.decode operand).truncated :=
      last ▸ Nat.lt_succ_self _
    have inside : number ∈ later.threads.due := by
      rw [calm.balanced.mem_due_iff, (waits.rests calm live early).2, ← last,
        Nat.add_sub_cancel_left]
    refine ⟨inside, fun count => ?_⟩
    obtain ⟨_, _, _, _, serves⟩ := calm.serves_due own honest
      (begun_of_state resting waits.begun) going count
    exact serves.turn_of_mem calm.balanced.due_sorted inside
  · exact ⟨steady.balanced.due_sorted, fun _ => steady.balanced.mem_due_iff,
      steady.serves_due own honest begun going, fun _ _ _ => moved_of_resume begun going⟩

/-! Two threads that wait for two ticks. -/

def sleeping : Program where
  script := {
    blocks := #[
      { kind := .sub, level := 0, codes := #[
        ⟨1, .call (.block ⟨1⟩) 0⟩, ⟨2, .pushValue (.real 2.75)⟩, ⟨2, .wait⟩, ⟨3, .nop⟩] },
      { kind := .microthread, level := 1, codes := #[
        ⟨5, .pushValue (.real 2.0)⟩, ⟨5, .wait⟩, ⟨6, .nop⟩] }]
    main := some ⟨0⟩ }

/-- The machine as it begins its first tick. -/
def sleepingBegun : Machine := ((sleeping.machine {}).started ⟨0⟩ sleeping.script.blocks[0]).begin

/-- The machine at the wait of the main thread. -/
def sleepingReady : Machine := (move sleeping.natives)^[3] sleepingBegun

/-- The frame of that wait. -/
def sleepingFrame : Frame :=
  { Frame.activate none ⟨0⟩ sleeping.script.blocks[0] [] with
    activation := 0, position := 2, stack := [some ⟨0⟩], pins := 2 }

/-- The machine at the end of its first tick. -/
def sleepingRested : Machine := (move sleeping.natives)^[4] (sleepingReady.move sleeping.natives)

/-- The machine after the next tick, in which both threads still wait. -/
def sleepingResting : Machine := sleepingRested.tick.begin.move sleeping.natives

theorem waits_for_ticks_sleeping : Reachable sleeping {} sleepingReady ∧
    BeginsToWait sleeping.natives sleepingReady ⟨0⟩ 2.75 ∧
    sleepingResting.threads.waitingTicks? ⟨0⟩ = some 1 ∧ ⟨0⟩ ∈ sleepingResting.threads.due ∧
    ∃ reached pending first others, Serves sleeping.natives 7 sleepingResting.tick.begin
      [⟨0⟩, ⟨1⟩] reached pending first others := by
  have begun : Reachable sleeping {} sleepingBegun := .step .initial (.start rfl)
  have reachable : Reachable sleeping {} sleepingReady := begun.iterate 3 (by decide +kernel)
  have begins : BeginsToWait sleeping.natives sleepingReady ⟨0⟩ 2.75 := by
    have coded : (sleepingReady.code ⟨0⟩)[2]? = some .wait := by
      rw [code, reachable.script]
      rfl
    have reads : (sleepingReady.heap.surface (some ⟨0⟩)).toReal = .ok 2.75 := by decide +kernel
    exact ⟨by decide +kernel, ⟨{ root := ⟨0⟩, current := ⟨0⟩ }, sleepingFrame, _, [],
      by decide +kernel, by decide +kernel, coded, rfl, reads⟩, by decide +kernel⟩
  have parked : Reachable sleeping {} (sleepingReady.move sleeping.natives) :=
    reachable.step (.move (by decide +kernel))
  have path : Path sleeping.natives (sleepingReady.move sleeping.natives) sleepingResting := by
    have rests : Path sleeping.natives (sleepingReady.move sleeping.natives) sleepingRested :=
      Path.iterate 4 (by decide +kernel)
    have ticks : Transition sleeping.natives [] sleepingRested sleepingRested.tick.begin :=
      .tick (.inl (by decide +kernel)) (by decide +kernel)
    exact (rests.tail ⟨_, ticks⟩).tail ⟨_, .move rfl⟩
  have live : ⟨0⟩ ∈ sleepingResting.threads.ids := by decide +kernel
  have due : sleepingReady.ticks + max 1 (Binary64.decode 2.75).truncated = 3 := by decide +kernel
  have now : sleepingResting.ticks = 2 := by decide +kernel
  obtain ⟨early, last⟩ := reachable.waits_for_ticks.1 ⟨0⟩ 2.75 begins sleepingResting
    (parked.follows path) live
  rw [due, now] at early last
  obtain ⟨_, _, serves, _⟩ := (parked.path path).waits_for_ticks.2 (.inl (by decide +kernel))
    (by decide +kernel)
  have both : sleepingResting.threads.due = [⟨0⟩, ⟨1⟩] := by decide +kernel
  exact ⟨reachable, begins, (early (by decide)).2, (last rfl (by decide +kernel) (by decide +kernel)).1,
    both ▸ serves 7⟩

end Machine

end CoopScript
