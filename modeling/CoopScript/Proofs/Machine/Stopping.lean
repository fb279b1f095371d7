import CoopScript.Proofs.Machine.Session

/-!
Stopping is final. The first error is recorded with its line and stays, a stopped machine never goes
on, and an entry that meets an error reports the first one.
-/

namespace CoopScript

open MachineError

namespace Machine

variable {allowed : MachineError → Prop} {machine after : Machine} {program : Program}
  {limits : Limits} {natives : Natives} {fuel : Nat} {error : MachineError}
  {result : Except MachineError TickOutcome}

/-! What is recorded. -/

/-- What a machine tells of its end fits together. -/
structure Candid (machine : Machine) : Prop where
  line : machine.error.isSome = machine.errorLine.isSome
  error_stopped : machine.error.isSome = true → machine.stopped = true
  terminated_error : machine.terminated = true → machine.error.isSome = true

/-- What was recorded of the end of a machine stays. -/
structure Sticks (before after : Machine) : Prop where
  error : ∀ error, before.error = some error →
    after.error = some error ∧ after.errorLine = before.errorLine
  stopped : before.stopped = true → after.stopped = true
  terminated : before.terminated = true → after.terminated = true

namespace Sticks

theorem of_eq (error : after.error = machine.error) (line : after.errorLine = machine.errorLine)
    (stopped : after.stopped = machine.stopped) (terminated : after.terminated = machine.terminated) :
    Sticks machine after where
  error := fun _ recorded => ⟨error.trans recorded, line⟩
  stopped := fun halted => stopped.trans halted
  terminated := fun marked => terminated.trans marked

theorem trans {last : Machine} (early : Sticks machine after) (late : Sticks after last) :
    Sticks machine last where
  error := by
    intro error recorded
    obtain ⟨kept, line⟩ := early.error error recorded
    obtain ⟨still, same⟩ := late.error error kept
    exact ⟨still, same.trans line⟩
  stopped := fun halted => late.stopped (early.stopped halted)
  terminated := fun marked => late.terminated (early.terminated marked)

/-- A machine that goes on had not stopped before. -/
theorem going (sticks : Sticks machine after) (alive : after.stopped = false) :
    machine.stopped = false := by
  by_contra halted
  rw [sticks.stopped (Bool.not_eq_false _ ▸ halted)] at alive
  cases alive

theorem fail (machine : Machine) (error : MachineError) : Sticks machine (machine.fail error) where
  error := by
    intro first recorded
    simp [Machine.fail, recorded]
  stopped := fun _ => stopped_fail machine error
  terminated := by
    intro marked
    unfold Machine.fail
    split <;> exact marked

end Sticks

theorem Candid.of_eq (candid : machine.Candid) (error : after.error = machine.error)
    (line : after.errorLine = machine.errorLine) (terminated : after.terminated = machine.terminated)
    (stopped : machine.stopped = true → after.stopped = true) : after.Candid where
  line := by rw [error, line, candid.line]
  error_stopped := fun recorded => stopped (candid.error_stopped (error ▸ recorded))
  terminated_error := fun marked => error ▸ candid.terminated_error (terminated ▸ marked)

/-- A machine that fails tells of its first error. -/
theorem candid_fail (line : machine.error.isSome = machine.errorLine.isSome) (error : MachineError) :
    (machine.fail error).Candid where
  line := by
    unfold fail
    split
    · exact line
    · rfl
  error_stopped := fun _ => stopped_fail machine error
  terminated_error := fun _ => by rw [error_fail]; rfl

/-- Every change keeps what a machine tells of its end fitting and what was recorded. -/
theorem Change.candid (change : Change allowed machine after) :
    Sticks machine after ∧ (machine.Candid → after.Candid) := by
  have kept {after : Machine} (error : after.error = machine.error)
      (line : after.errorLine = machine.errorLine) (stopped : after.stopped = machine.stopped)
      (terminated : after.terminated = machine.terminated) :
      Sticks machine after ∧ (machine.Candid → after.Candid) :=
    ⟨.of_eq error line stopped terminated, fun candid => candid.of_eq error line terminated
      fun halted => stopped.trans halted⟩
  have halts (machine : Machine) : Sticks machine machine.stop :=
    ⟨fun _ recorded => ⟨recorded, rfl⟩, fun _ => rfl, id⟩
  cases change with
  | quiet quiet => exact kept quiet.error quiet.errorLine quiet.stopped quiet.terminated
  | fail => exact ⟨.fail .., fun candid => candid_fail candid.line _⟩
  | stop => exact ⟨halts machine, fun candid => candid.of_eq rfl rfl rfl fun _ => rfl⟩
  | terminate text =>
      have marked : Sticks machine { machine with terminated := true } :=
        ⟨fun _ recorded => ⟨recorded, rfl⟩, id, fun _ => rfl⟩
      refine ⟨(marked.trans (.fail ..)).trans (halts _), fun candid => ?_⟩
      exact (@candid_fail { machine with terminated := true } candid.line _).of_eq
        rfl rfl rfl fun _ => rfl
  | _ => exact kept rfl rfl rfl rfl

theorem Changes.sticks (changes : Changes allowed machine after) : Sticks machine after := by
  induction changes with
  | refl => exact .of_eq rfl rfl rfl rfl
  | tail _ change hypothesis => exact hypothesis.trans change.candid.1

theorem Changes.candid (changes : Changes allowed machine after) (candid : machine.Candid) :
    after.Candid := by
  induction changes with
  | refl => exact candid
  | tail _ change hypothesis => exact change.candid.2 hypothesis

theorem candid_initial (program : Program) (limits : Limits) : (program.machine limits).Candid :=
  ⟨rfl, nofun, nofun⟩

/-! Sessions. -/

section Sessions

variable (own : ∀ error : MachineError, ¬ error.IsInternal → allowed error)
  (honest : program.natives.Honest allowed)

include own honest

theorem Reachable.candid (reachable : Reachable program limits machine) : machine.Candid := by
  induction reachable with
  | initial => exact candid_initial program limits
  | step before transition hypothesis =>
      exact (transition.changes own honest (before.steady own honest)).candid hypothesis

theorem Visible.candid (visible : Visible program limits machine) : machine.Candid := by
  cases visible with
  | host reachable => exact reachable.candid own honest
  | native reachable invokes comes =>
      have steady := reachable.steady own honest
      obtain ⟨running, quiet, honestly⟩ := invokes.quiet honest steady
      have called : Change allowed _ _ := .quiet quiet
      have begun := called.candid.2 (reachable.candid own honest)
      exact (Comes.served own (steady.quiet quiet) (quiet.state.trans running) honestly
        comes).1.changes.candid begun

end Sessions

/-! What entries report. -/

/-- A machine reports the error that is on record. -/
theorem Candid.outcome (candid : machine.Candid) (recorded : machine.error = some error) :
    machine.outcome = .error error := by
  have stopped := candid.error_stopped (by rw [recorded]; rfl)
  rw [Machine.outcome, recorded, stopped]

/-- A machine that goes on has not failed. -/
theorem Candid.clean (candid : machine.Candid) (going : machine.stopped = false) :
    machine.error = none := by
  by_contra met
  rw [candid.error_stopped (Option.isSome_iff_ne_none.mpr met)] at going
  cases going

theorem state_settle_of_stopped (stopped : machine.settle.stopped = true) :
    machine.settle.state = .finished := by
  have halted : machine.stopped = true := stopped
  simp only [settle, halted, Bool.true_or, if_true]

section Entries

variable (own : ∀ error : MachineError, ¬ error.IsInternal → allowed error)
  (honest : natives.Honest allowed)

include own honest

/-- A move goes on running or settles the machine. -/
theorem move_settles (steady : machine.Steady allowed) (running : machine.state = .running) :
    (machine.move natives).state = .running ∨ ∃ before, machine.move natives = settle before := by
  unfold move
  split
  · split
    · exact .inr ⟨_, rfl⟩
    · split
      · exact .inl running
      · exact .inr ⟨_, rfl⟩
  · next number turn =>
      have advanced := Action.advance_achieves own honest steady turn machine rfl
      cases ran : (Action.advance natives number).run machine with
      | error error after => exact .inr ⟨_, rfl⟩
      | ok slice after =>
          rw [ran] at advanced
          have goes : after.state = .running := advanced.2.1.trans running
          cases slice with
          | none => exact .inl goes
          | some slice =>
              cases slice with
              | halted => exact .inr ⟨_, rfl⟩
              | _ => exact .inl goes

theorem moves_settled (steady : machine.Steady allowed) (running : machine.state = .running)
    (ended : moves natives fuel machine = some after) : ∃ before, after = settle before := by
  induction fuel generalizing machine with
  | zero => cases ended
  | succ fuel hypothesis =>
      rw [moves, if_pos running] at ended
      rcases move_settles own honest steady running with goes | ⟨before, settled⟩
      · exact hypothesis (steady.changes (move_changes own honest steady running)) goes ended
      · obtain ⟨path, _⟩ := moves_path ended
        cases fuel with
        | zero => cases ended
        | succ fuel =>
            have rests : ¬ (machine.move natives).state = .running := by
              rw [settled, settle]
              dsimp only
              split <;> simp
            rw [moves, if_neg rests] at ended
            cases ended
            exact ⟨before, settled⟩

theorem drain_fails (steady : machine.begin.Steady allowed) (candid : machine.begin.Candid)
    (ended : machine.drain natives fuel = some (result, after)) (recorded : after.error = some error) :
    result = .error error ∧ after.state = .finished := by
  obtain ⟨last, moved, same⟩ := Option.map_eq_some_iff.mp ended
  cases same
  obtain ⟨path, _⟩ := moves_path moved
  have told := (path.changes own honest steady).candid candid
  obtain ⟨before, rfl⟩ := moves_settled own honest steady rfl moved
  exact ⟨told.outcome recorded,
    state_settle_of_stopped (told.error_stopped (by rw [recorded]; rfl))⟩

theorem run_fails (steady : machine.Steady allowed) (candid : machine.Candid)
    (clean : machine.error = none) (ended : machine.run natives fuel = some (result, after))
    (recorded : after.error = some error) : result = .error error ∧ after.state = .finished := by
  unfold run at ended
  split at ended
  · cases ended
    rw [clean] at recorded
    cases recorded
  · next begun =>
      have changes : Changes allowed machine _ := start_changes begun
      exact drain_fails own honest (steady.changes changes) (changes.candid candid) ended recorded

theorem resume_fails (steady : machine.Steady allowed) (candid : machine.Candid)
    (resting : machine.state ≠ .running) (clean : machine.error = none)
    (ended : machine.resume natives fuel = some (result, after))
    (recorded : after.error = some error) : result = .error error ∧ after.state = .finished := by
  have unchanged : after = machine → result = .error error ∧ after.state = .finished := by
    intro same
    rw [same, clean] at recorded
    cases recorded
  unfold resume at ended
  split at ended
  · cases ended
    exact unchanged rfl
  · next running => exact (resting running).elim
  · next begun _ =>
      split at ended
      · cases ended
        exact unchanged rfl
      · next going =>
          have tick : Change allowed machine machine.tick.begin :=
            .tick (begun_of_state resting begun) (Bool.not_eq_true _ ▸ going)
          exact drain_fails own honest (steady.change tick) (tick.candid.2 candid) ended recorded

theorem deliver_fails (steady : machine.Steady allowed) (candid : machine.Candid)
    (begun : machine.state = .suspended ∨ machine.state = .finished) (clean : machine.error = none)
    {event : String} {arguments : List Value} {id : BlockId}
    (handled : machine.handler event arguments.length = .ok id)
    (ended : machine.deliver natives fuel event id arguments = some (result, after))
    (recorded : after.error = some error) : result = .error error ∧ after.state = .finished := by
  have resting : machine.state ≠ .running := by
    rcases begun with suspended | finished <;> simp_all
  have keeps := keeps_spawnHandler event id arguments machine rfl
  unfold deliver at ended
  split at ended
  · next spawned =>
      rw [spawned] at keeps
      rw [if_neg (keeps.1 ▸ resting)] at ended
      have changes := deliver_changes steady begun (not_stopped_of_handler handled) spawned
      exact drain_fails own honest (steady.changes changes) (changes.candid candid) ended recorded
  · next refused =>
      rw [refused] at keeps
      rw [if_neg (keeps.1 ▸ resting)] at ended
      cases ended
      rw [error_fail, keeps.2, clean] at recorded
      cases recorded
      exact ⟨rfl, rfl⟩

theorem call_fails (steady : machine.Steady allowed) (candid : machine.Candid)
    (resting : machine.state ≠ .running) (clean : machine.error = none) {event : String}
    {arguments : List Value}
    (ended : machine.call natives fuel event arguments = some (result, after))
    (recorded : after.error = some error) : result = .error error ∧ after.state = .finished := by
  unfold call at ended
  split at ended
  · cases ended
    rw [clean] at recorded
    cases recorded
  · next id handled =>
      split at ended
      · split at ended
        · next outcome between ran =>
            -- The first tick went well, so no error is on record yet.
            have fresh : between.error = none := by
              by_contra met
              obtain ⟨first, met⟩ := Option.ne_none_iff_exists'.mp met
              cases (run_fails own honest steady candid clean ran met).1
            split at ended
            · cases ended
              rw [fresh] at recorded
              cases recorded
            · next going =>
                obtain ⟨path, rested⟩ := run_path resting ran
                have changes := path.changes own honest steady
                exact deliver_fails own honest (steady.changes changes) (changes.candid candid)
                  (begun_of_state rested (run_begun own honest steady ran)) fresh
                  (handler_of_script handled changes.script (Bool.not_eq_true _ ▸ going)) ended recorded
        · exact run_fails own honest steady candid clean ended recorded
      · next begun =>
          exact deliver_fails own honest steady candid (begun_of_state resting begun) clean handled
            ended recorded

end Entries

/-! Entries into a machine that has stopped. -/

section Stopped

variable (stopped : machine.stopped = true)

include stopped

theorem run_of_stopped (natives : Natives) (fuel : Nat) :
    ∃ result, machine.run natives fuel = some (result, machine) := by
  have refused : ∃ error, machine.start = .error error := by
    rw [start_eq, stopped]
    split
    · exact ⟨_, rfl⟩
    · exact ⟨_, rfl⟩
  obtain ⟨error, refused⟩ := refused
  exact ⟨.error error, by rw [run, refused]⟩

theorem resume_of_stopped (natives : Natives) (fuel : Nat) :
    ∃ result, machine.resume natives fuel = some (result, machine) := by
  unfold resume
  split
  · exact ⟨_, rfl⟩
  · exact ⟨_, rfl⟩
  · exact ⟨_, if_pos stopped⟩

theorem call_of_stopped (natives : Natives) (fuel : Nat) (event : String) (arguments : List Value) :
    ∃ result, machine.call natives fuel event arguments = some (result, machine) := by
  unfold call
  split
  · exact ⟨_, rfl⟩
  · next handled =>
      have going := not_stopped_of_handler handled
      rw [stopped] at going
      cases going

end Stopped

/-- In every machine that the host or a native function sees, an error has its line and stops the
machine, and a terminated machine has one. Whatever is seen later, the error, its line and the stop
are the same. An entry from outside a tick in which an error is recorded reports that error and
leaves the machine finished. Every entry into a stopped machine comes back at once and leaves the
whole machine as it was. -/
theorem Visible.stops_for_good (visible : Visible program limits machine) :
    ((machine.error.isSome ↔ machine.errorLine.isSome) ∧
      (machine.error.isSome → machine.stopped = true) ∧
      (machine.terminated = true → machine.stopped = true ∧ machine.error.isSome)) ∧
    (∀ later, Relation.ReflTransGen (Follows program limits) machine later →
      (∀ error, machine.error = some error →
        later.error = some error ∧ later.errorLine = machine.errorLine) ∧
      (machine.stopped = true → later.stopped = true) ∧
      (machine.terminated = true → later.terminated = true)) ∧
    (machine.state ≠ .running → machine.error = none →
      ∀ fuel event arguments result after error,
        machine.run program.natives fuel = some (result, after) ∨
        machine.resume program.natives fuel = some (result, after) ∨
        machine.call program.natives fuel event arguments = some (result, after) →
        after.error = some error → result = .error error ∧ after.state = .finished) ∧
    (machine.stopped = true → ∀ fuel event arguments,
      (∃ result, machine.run program.natives fuel = some (result, machine)) ∧
      (∃ result, machine.resume program.natives fuel = some (result, machine)) ∧
      (∃ result, machine.call program.natives fuel event arguments = some (result, machine))) := by
  have own : ∀ error : MachineError, ¬ error.IsInternal → True := fun _ _ => trivial
  have honest : program.natives.Honest fun _ => True :=
    fun _ _ _ => Routine.honest_of_forall (fun _ => trivial) _
  have steady := visible.steady own honest
  have candid := visible.candid own honest
  refine ⟨⟨by rw [candid.line], candid.error_stopped, fun marked => ?_⟩, fun later path => ?_, ?_,
    fun stopped fuel event arguments => ?_⟩
  · have recorded := candid.terminated_error marked
    exact ⟨candid.error_stopped recorded, recorded⟩
  · have sticks := (changes_of_follows own honest path).sticks
    exact ⟨sticks.error, sticks.stopped, sticks.terminated⟩
  · intro resting clean fuel event arguments result after error ended recorded
    rcases ended with ran | resumed | called
    · exact run_fails own honest steady candid clean ran recorded
    · exact resume_fails own honest steady candid resting clean resumed recorded
    · exact call_fails own honest steady candid resting clean called recorded
  · exact ⟨run_of_stopped stopped .., resume_of_stopped stopped .., call_of_stopped stopped ..⟩

/-! A native function that raises one error and returns another. -/

def raising : Program where
  script := {
    blocks := #[{ kind := .sub, level := 0, codes := #[⟨7, .call (.native ⟨0⟩) 0⟩] }]
    main := some ⟨0⟩ }
  natives := #[{
    name := "raise"
    arity := some 0
    body := fun _ => .ask (.raise "first") fun _ => .done (.error (.script "second")) }]

theorem stops_for_good_raising : Visible raising {} (raising.machine {}) ∧
    ∃ after, (raising.machine {}).run raising.natives 3 = some (.error (.script "first"), after) ∧
      after.state = .finished := by
  have visible : Visible raising {} (raising.machine {}) := .host .initial
  have recorded : ((raising.machine {}).run raising.natives 3).map (fun ended => ended.2.error) =
      some (some (.script "first")) := by decide +kernel
  obtain ⟨⟨result, after⟩, ran, met⟩ := Option.map_eq_some_iff.mp recorded
  obtain ⟨rfl, finished⟩ :=
    (Visible.stops_for_good visible).2.2.1 nofun rfl 3 "" [] result after _ (.inl ran) met
  exact ⟨visible, after, ran, finished⟩

end Machine

end CoopScript
