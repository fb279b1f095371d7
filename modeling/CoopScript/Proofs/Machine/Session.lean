import CoopScript.Program
import CoopScript.Proofs.Machine.Moves

/-!
Sessions: all that a host can do with a machine of a program, in any order, with every move of the
machine on the way, and what native functions see while they run.
-/

namespace CoopScript

open MachineError

namespace Machine

/-- A move of a running machine, or something that the host does to one that does not run, with the
handles that the host hands over. -/
inductive Transition (natives : Natives) : List Value → Machine → Machine → Prop
  | move {machine : Machine} : machine.state = .running →
      Transition natives [] machine (machine.move natives)
  /-- The first tick begins. -/
  | start {machine started : Machine} : machine.start = .ok started →
      Transition natives [] machine started.begin
  /-- The next tick begins. -/
  | tick {machine : Machine} : machine.state = .suspended ∨ machine.state = .finished →
      machine.stopped = false → Transition natives [] machine machine.tick.begin
  /-- The handler of an event begins. -/
  | deliver {machine after : Machine} {event : String} {arguments : List Value} {id : BlockId} :
      machine.state = .suspended ∨ machine.state = .finished →
      machine.handler event arguments.length = .ok id →
      (Action.spawnHandler event id arguments).run machine = .ok () after →
      Transition natives arguments machine after.begin
  /-- The handler of an event is one thread too many. -/
  | reject {machine after : Machine} {event : String} {arguments : List Value} {id : BlockId}
      {error : MachineError} :
      machine.state = .suspended ∨ machine.state = .finished →
      machine.handler event arguments.length = .ok id →
      (Action.spawnHandler event id arguments).run machine = .error error after →
      Transition natives arguments machine { after.fail error with state := .finished }
  /-- The host uses an operation that does not make the machine run. -/
  | operate {machine : Machine} (request : Request) : machine.state ≠ .running →
      request.isEntry = false →
      Transition natives request.handles machine (request.perform machine).2
  | clear {machine : Machine} : machine.state ≠ .running →
      Transition natives [] machine machine.clearJournal

/-- One transition after another. -/
abbrev Path (natives : Natives) : Machine → Machine → Prop :=
  Relation.ReflTransGen fun machine after => ∃ handed, Transition natives handed machine after

/-- A machine of a program at any time in any session. -/
inductive Reachable (program : Program) (limits : Limits) : Machine → Prop
  | initial : Reachable program limits (program.machine limits)
  | step {machine after : Machine} {handed : List Value} : Reachable program limits machine →
      Transition program.natives handed machine after → Reachable program limits after

/-- The current thread is about to call a native function, whose routine goes on from there. -/
inductive Invokes (natives : Natives) (machine : Machine) :
    Routine (Except MachineError Value) → Machine → Prop
  | intro {number : ThreadId} {entry : Thread} {instruction : Instruction} {id : NativeId}
      {count : Nat} {pushesResult : Bool} {fetched start : Machine}
      {routine : Routine (Except MachineError Value)} :
      machine.current = some number → machine.stopped = false →
      machine.threads.find? number = some entry →
      (Action.fetch entry.current).run machine = .ok (some instruction) fetched →
      instruction.call? = some (.native id, count, pushesResult) →
      (Action.prepareNative natives entry.current id count).run fetched = .ok routine start →
      Invokes natives machine routine start

end Machine

/-- A routine that was begun in one machine has a rest to play in another. -/
inductive Routine.Comes {α : Type} : Routine α → Machine → Routine α → Machine → Prop
  | here {routine : Routine α} {machine : Machine} : Comes routine machine routine machine
  | later {request : Request} {next : request.Reply → Routine α} {machine seen : Machine}
      {rest : Routine α} :
      Comes (next (request.perform machine).1) (request.perform machine).2 rest seen →
      Comes (.ask request next) machine rest seen

namespace Machine

/-- A machine of a program as the host or a native function sees it. -/
inductive Visible (program : Program) (limits : Limits) : Machine → Prop
  | host {machine : Machine} : Reachable program limits machine → Visible program limits machine
  | native {machine start seen : Machine} {routine rest : Routine (Except MachineError Value)} :
      Reachable program limits machine → Invokes program.natives machine routine start →
      routine.Comes start rest seen → Visible program limits seen

/-- What the host or a native function sees next after a machine that it saw. -/
inductive Follows (program : Program) (limits : Limits) : Machine → Machine → Prop
  | transition {machine after : Machine} {handed : List Value} : Reachable program limits machine →
      Transition program.natives handed machine after → Follows program limits machine after
  /-- A native function is called. -/
  | invoke {machine start : Machine} {routine : Routine (Except MachineError Value)} :
      Reachable program limits machine → Invokes program.natives machine routine start →
      Follows program limits machine start
  /-- A native function gets an answer. -/
  | answer {machine start seen : Machine} {routine : Routine (Except MachineError Value)}
      {request : Request} {next : request.Reply → Routine (Except MachineError Value)} :
      Reachable program limits machine → Invokes program.natives machine routine start →
      routine.Comes start (.ask request next) seen →
      Follows program limits seen (request.perform seen).2
  /-- A native function returns. -/
  | conclude {machine start seen : Machine} {routine : Routine (Except MachineError Value)}
      {result : Except MachineError Value} :
      Reachable program limits machine → Invokes program.natives machine routine start →
      routine.Comes start (.done result) seen →
      Follows program limits seen (machine.move program.natives)

variable {program : Program} {limits : Limits} {natives : Natives} {fuel : Nat}
  {machine after : Machine} {result : Except MachineError TickOutcome}
  {allowed : MachineError → Prop} {handed : List Value}

/-! Sessions are made of changes. -/

theorem Steady.initial (program : Program) (limits : Limits) :
    (program.machine limits).Steady allowed where
  coherent := Coherent.empty program.script
  balanced := ThreadSet.Balanced.empty
  placed := fun _ => nofun
  resting := fun _ => ⟨rfl, fun _ => rfl⟩
  begun := by simp [Program.machine]
  blameless := by simp [Program.machine]

/-- The machine in its first tick, with its main thread in a frame of the given block. -/
def started (machine : Machine) (main : BlockId) (block : Block) : Machine :=
  let (root, frames) := machine.frames.allocate (.activate none main block [])
  { machine with
    frames := frames.pin root
    globals := some root
    threads := (machine.threads.spawn root).2
    ticks := 1 }.log (.mainThreadStarted machine.threads.next)

theorem start_eq (machine : Machine) :
    machine.start =
      if machine.state ≠ .idle then .error .alreadyStarted
      else if machine.stopped then .error .halted
      else
        match machine.script.main with
        | none => .error .noEntryBlock
        | some main =>
          match machine.script.block? main with
          | none => .error (.unknownBlock main.index)
          | some block => .ok (machine.started main block) := by
  unfold start
  by_cases begun : machine.state ≠ .idle
  · simp only [if_pos begun]
    rfl
  · simp only [if_neg begun]
    cases machine.stopped with
    | true => rfl
    | false =>
        cases machine.script.main with
        | none => rfl
        | some main =>
            simp only [Action.run_enter]
            cases machine.script.block? main <;> rfl

/-- A machine starts only once, with a block of its script. -/
theorem started_of_start (begun : machine.start = .ok after) :
    machine.state = .idle ∧ machine.stopped = false ∧
      ∃ main block, machine.script.block? main = some block ∧ after = machine.started main block := by
  rw [start_eq] at begun
  split at begun
  · cases begun
  · next idle =>
      split at begun
      · cases begun
      · next going =>
          split at begun
          · cases begun
          · split at begun
            · cases begun
            · next main _ _ block found =>
                cases begun
                exact ⟨not_not.mp idle, Bool.not_eq_true _ ▸ going, main, block, found, rfl⟩

/-- An event may be called if it has a handler that takes so many arguments and the machine goes on. -/
theorem handler_spec {event : String} {count : Nat} {id : BlockId}
    (handled : machine.handler event count = .ok id) :
    machine.script.event? event = some id ∧
      (∃ block, machine.script.block? id = some block ∧ block.arguments = count) ∧
      machine.stopped = false := by
  unfold handler at handled
  split at handled
  · cases handled
  · next named =>
      split at handled
      · cases handled
      · next block found =>
          split at handled
          · cases handled
          · next fits =>
              split at handled
              · cases handled
              · next going =>
                  cases handled
                  exact ⟨named, ⟨block, found, not_not.mp fits⟩, Bool.not_eq_true _ ▸ going⟩

theorem not_stopped_of_handler {event : String} {count : Nat} {id : BlockId}
    (handled : machine.handler event count = .ok id) : machine.stopped = false :=
  (handler_spec handled).2.2

section Sessions

variable (own : ∀ error : MachineError, ¬ error.IsInternal → allowed error)
  (honest : natives.Honest allowed)

theorem start_changes (begun : machine.start = .ok after) :
    Changes allowed machine after.begin := by
  obtain ⟨idle, going, main, block, found, rfl⟩ := started_of_start begun
  have fits : Coherent.Fits machine.script machine.frames (.activate none main block []) :=
    Action.fits_activate found nofun
  refine .tail (.single (.start idle going fits rfl)) (.quiet ?_)
  exact { Quiet.refl _ with }

theorem deliver_changes (steady : machine.Steady allowed)
    (begun : machine.state = .suspended ∨ machine.state = .finished)
    (going : machine.stopped = false) {event : String} {id : BlockId} {arguments : List Value}
    (spawned : (Action.spawnHandler event id arguments).run machine = .ok () after) :
    Changes allowed machine after.begin := by
  rw [run_spawnHandler] at spawned
  rcases Action.launch_cases steady.holds_globals id arguments with
    missing | ⟨frame, fits, ⟨limit, maximum, many, run⟩ | ⟨few, run⟩⟩
  · rw [missing] at spawned
    cases spawned
  · rw [run] at spawned
    cases spawned
  · rw [run] at spawned
    cases spawned
    have spawn := @Change.spawn allowed machine.begin frame rfl fits few
    exact .tail (.tail (.single (.begin begun going)) spawn) (.quiet { Quiet.refl _ with })

include own in
theorem reject_changes (steady : machine.Steady allowed)
    (begun : machine.state = .suspended ∨ machine.state = .finished) {event : String}
    {id : BlockId} {arguments : List Value} {error : MachineError}
    (refused : (Action.spawnHandler event id arguments).run machine = .error error after) :
    Changes allowed machine { after.fail error with state := .finished } ∧ allowed error := by
  have resting : ¬(machine.state = .running ∨ machine.state = .idle) := by
    rcases begun with suspended | finished <;> simp_all
  -- To fail and to stop marks a machine that rests as finished.
  have failing {after : Machine} (changes : Changes allowed machine after)
      (state : after.state = machine.state) (blame : allowed error) :
      Changes allowed machine { after.fail error with state := .finished } := by
    refine .tail (.tail (.tail changes (.fail blame)) .stop) (.quiet ?_)
    exact { Quiet.refl (after.fail error).stop with
      state := by simp [stop, state, resting]
      stopped := by simp [stop] }
  rw [run_spawnHandler] at refused
  rcases Action.launch_cases steady.holds_globals id arguments with
    missing | ⟨frame, fits, ⟨limit, maximum, many, run⟩ | ⟨few, run⟩⟩
  · rw [missing] at refused
    cases refused
    have blame := own (.unknownBlock id.index) (not_isInternal rfl)
    exact ⟨failing .refl rfl blame, blame⟩
  · rw [run] at refused
    cases refused
    have blame := own (.threadLimitExceeded limit) (not_isInternal rfl)
    exact ⟨failing (.single (.refuse fits maximum many)) rfl blame, blame⟩
  · rw [run] at refused
    cases refused

include own honest in
theorem Transition.changes (steady : machine.Steady allowed)
    (transition : Transition natives handed machine after) : Changes allowed machine after := by
  cases transition with
  | move running => exact move_changes own honest steady running
  | start begun => exact start_changes begun
  | tick begun going => exact .single (.tick begun going)
  | deliver begun handled spawned =>
      exact deliver_changes steady begun (not_stopped_of_handler handled) spawned
  | reject begun _ refused => exact (reject_changes own steady begun refused).1
  | operate request _ simple => exact request.perform_changes own steady simple
  | clear _ => exact .single (.quiet { Quiet.refl machine with })

end Sessions

/-- Every machine in a session is steady. -/
theorem Reachable.steady (own : ∀ error : MachineError, ¬ error.IsInternal → allowed error)
    (honest : program.natives.Honest allowed) (reachable : Reachable program limits machine) :
    machine.Steady allowed := by
  induction reachable with
  | initial => exact Steady.initial program limits
  | step _ transition hypothesis =>
      exact hypothesis.changes (transition.changes own honest hypothesis)

/-- Native functions find the machine as the call left it. -/
theorem Invokes.quiet (honest : natives.Honest allowed)
    {routine : Routine (Except MachineError Value)} (steady : machine.Steady allowed)
    (invokes : Invokes natives machine routine after) :
    machine.state = .running ∧ machine.Quiet after ∧ routine.Honest allowed := by
  cases invokes with
  | intro current going found fetches called prepares =>
      have executing : machine.Executing allowed _ _ := ⟨steady, current, found⟩
      obtain ⟨held, live, _⟩ := steady.coherent.live_current found
      obtain ⟨fetched, _⟩ := (Action.calm_fetch steady.coherent live).ok fetches
      obtain ⟨prepared, honest⟩ :=
        (Action.calm_prepareNative honest (executing.quiet fetched) _ _).ok prepares
      exact ⟨steady.current_running current, fetched.trans prepared, honest⟩

theorem Comes.served {α : Type} {seen : Machine}
    (own : ∀ error : MachineError, ¬ error.IsInternal → allowed error)
    {routine rest : Routine (Except MachineError α)} (steady : machine.Steady allowed)
    (running : machine.state = .running) (honest : routine.Honest allowed)
    (comes : routine.Comes machine rest seen) :
    Served allowed machine seen ∧ rest.Honest allowed := by
  induction comes with
  | here => exact ⟨.refl _, honest⟩
  | @later request next machine seen rest _ hypothesis =>
      obtain ⟨served, allows⟩ := request.perform_served own steady running
      obtain ⟨later, blame⟩ := hypothesis (steady.changes served.changes)
        (served.state.trans running) (honest _ allows)
      exact ⟨served.trans later, blame⟩

theorem Comes.play {α : Type} {seen : Machine} {routine rest : Routine α}
    (comes : routine.Comes machine rest seen) : routine.play machine = rest.play seen := by
  induction comes with
  | here => rfl
  | later _ hypothesis => exact hypothesis

/-- Every machine that the host or a native function sees is steady. -/
theorem Visible.steady (own : ∀ error : MachineError, ¬ error.IsInternal → allowed error)
    (honest : program.natives.Honest allowed) (visible : Visible program limits machine) :
    machine.Steady allowed := by
  cases visible with
  | host reachable => exact reachable.steady own honest
  | native reachable invokes comes =>
      have steady := reachable.steady own honest
      obtain ⟨running, quiet, honest⟩ := invokes.quiet honest steady
      have ready := steady.quiet quiet
      exact ready.changes
        (Comes.served own ready (quiet.state.trans running) honest comes).1.changes

/-- Inside a move, the current thread calls the native function and goes on with what it returns. -/
theorem Invokes.advance {routine : Routine (Except MachineError Value)}
    (invokes : Invokes natives machine routine after) :
    ∃ number entry pushesResult, machine.current = some number ∧
      machine.threads.find? number = some entry ∧
      (Action.advance natives number).run machine =
        (Action.concludeNative number entry.current pushesResult (routine.play after).1).run
          (routine.play after).2 := by
  cases invokes with
  | @intro number entry instruction id count pushesResult _ _ _ current going found fetches called
      prepares =>
      refine ⟨number, entry, pushesResult, current, found, ?_⟩
      simp only [Action.advance, EStateM.run_bind, EStateM.run_get, going, Bool.false_eq_true,
        if_false, found, fetches]
      simp only [Action.execute_call called, Action.call, Action.callNative, EStateM.run_bind,
        prepares, EStateM.run_modifyGet]

/-- The current thread goes on after a native function that it called. -/
theorem Served.conclude_changes (own : ∀ error : MachineError, ¬ error.IsInternal → allowed error)
    (served : Served allowed machine after) (steady : machine.Steady allowed) {number : ThreadId}
    {entry : Thread} (current : machine.current = some number)
    (found : machine.threads.find? number = some entry) (pushesResult : Bool)
    {returned : Except MachineError Value} (blame : ∀ error, returned = .error error → allowed error) :
    Changes allowed after (afterStep number
      ((Action.concludeNative number entry.current pushesResult returned).run after)) := by
  have later := steady.changes served.changes
  refine afterStep_changes later (served.current.trans current)
    (Action.concludeNative_achieves own later ?_ pushesResult blame)
  intro thread lives
  have old := steady.balanced.ids_lt number (ThreadSet.mem_ids_iff.mpr ⟨entry, found⟩)
  rcases served.threads number old with same | gone
  · rw [lives, found] at same
    exact Option.some.inj same
  · rw [lives] at gone
    cases gone

/-- What the host or a native function sees next comes by changes. -/
theorem Follows.changes (own : ∀ error : MachineError, ¬ error.IsInternal → allowed error)
    (honest : program.natives.Honest allowed) (follows : Follows program limits machine after) :
    Changes allowed machine after := by
  cases follows with
  | transition reachable transition =>
      exact transition.changes own honest (reachable.steady own honest)
  | invoke reachable invokes =>
      exact .single (.quiet (invokes.quiet honest (reachable.steady own honest)).2.1)
  | @answer first start _ routine request next reachable invokes comes =>
      have steady := reachable.steady own honest
      obtain ⟨running, quiet, honest⟩ := invokes.quiet honest steady
      have ready := steady.quiet quiet
      obtain ⟨served, _⟩ := Comes.served own ready (quiet.state.trans running) honest comes
      exact (request.perform_served own (ready.changes served.changes)
        (served.state.trans (quiet.state.trans running))).1.changes
  | @conclude first start _ routine result reachable invokes comes =>
      have steady := reachable.steady own honest
      obtain ⟨running, quiet, honest⟩ := invokes.quiet honest steady
      have ready := steady.quiet quiet
      obtain ⟨served, blame⟩ := Comes.served own ready (quiet.state.trans running) honest comes
      obtain ⟨number, entry, pushesResult, current, found, advances⟩ := invokes.advance
      rw [Comes.play comes] at advances
      have moved : first.move program.natives = afterStep number
          ((Action.concludeNative number entry.current pushesResult result).run machine) := by
        simp only [move, current, advances, Routine.play]
      rw [moved]
      have held : start.threads.find? number = some entry := quiet.threads ▸ found
      exact served.conclude_changes own ready (quiet.current.trans current) held pushesResult blame

theorem changes_of_follows (own : ∀ error : MachineError, ¬ error.IsInternal → allowed error)
    (honest : program.natives.Honest allowed)
    (path : Relation.ReflTransGen (Follows program limits) machine after) :
    Changes allowed machine after := by
  induction path with
  | refl => exact .refl
  | tail _ follows hypothesis => exact hypothesis.trans (follows.changes own honest)

/-! What the host gets back is reachable. -/

theorem Reachable.path (reachable : Reachable program limits machine)
    (path : Path program.natives machine after) : Reachable program limits after := by
  induction path with
  | refl => exact reachable
  | tail _ transition hypothesis =>
      obtain ⟨_, transition⟩ := transition
      exact hypothesis.step transition

theorem Reachable.follows (reachable : Reachable program limits machine)
    (path : Path program.natives machine after) :
    Relation.ReflTransGen (Follows program limits) machine after := by
  induction path with
  | refl => exact .refl
  | tail before transition hypothesis =>
      obtain ⟨_, transition⟩ := transition
      exact hypothesis.tail (.transition (reachable.path before) transition)

/-- What each of some moves keeps holds after all of them. -/
theorem iterate_move {property : Machine → Prop} (holds : property machine) (count : Nat)
    (keeps : ∀ earlier < count, property ((move natives)^[earlier] machine) →
      property (((move natives)^[earlier] machine).move natives)) :
    property ((move natives)^[count] machine) := by
  induction count with
  | zero => exact holds
  | succ count hypothesis =>
      rw [Function.iterate_succ_apply']
      have sofar := hypothesis fun earlier less => keeps earlier (Nat.lt_succ_of_lt less)
      exact keeps count (Nat.lt_succ_self count) sofar

theorem Path.iterate (count : Nat)
    (running : ∀ earlier < count, ((move natives)^[earlier] machine).state = .running) :
    Path natives machine ((move natives)^[count] machine) :=
  @iterate_move natives machine (Path natives machine) .refl count fun earlier less sofar =>
    sofar.tail ⟨_, .move (running earlier less)⟩

theorem Reachable.iterate (reachable : Reachable program limits machine) (count : Nat)
    (running : ∀ earlier < count, ((move program.natives)^[earlier] machine).state = .running) :
    Reachable program limits ((move program.natives)^[count] machine) :=
  reachable.path (Path.iterate count running)

theorem Path.changes (own : ∀ error : MachineError, ¬ error.IsInternal → allowed error)
    (honest : natives.Honest allowed) (steady : machine.Steady allowed)
    (path : Path natives machine after) : Changes allowed machine after := by
  induction path with
  | refl => exact .refl
  | tail _ transition hypothesis =>
      obtain ⟨_, transition⟩ := transition
      exact hypothesis.trans (transition.changes own honest (steady.changes hypothesis))

theorem moves_path (ended : moves natives fuel machine = some after) :
    Path natives machine after ∧ after.state ≠ .running := by
  induction fuel generalizing machine with
  | zero => cases ended
  | succ fuel hypothesis =>
      unfold moves at ended
      split at ended
      · next running =>
          obtain ⟨path, resting⟩ := hypothesis ended
          exact ⟨.head ⟨_, .move running⟩ path, resting⟩
      · next resting =>
          cases ended
          exact ⟨.refl, resting⟩

theorem drain_path (ended : machine.drain natives fuel = some (result, after)) :
    Path natives machine.begin after ∧ after.state ≠ .running ∧ result = after.outcome := by
  obtain ⟨last, moved, same⟩ := Option.map_eq_some_iff.mp ended
  cases same
  obtain ⟨path, resting⟩ := moves_path moved
  exact ⟨path, resting, rfl⟩

theorem run_path (resting : machine.state ≠ .running)
    (ended : machine.run natives fuel = some (result, after)) :
    Path natives machine after ∧ after.state ≠ .running := by
  unfold run at ended
  split at ended
  · cases ended
    exact ⟨.refl, resting⟩
  · next begun =>
      obtain ⟨path, resting, _⟩ := drain_path ended
      exact ⟨.head ⟨_, .start begun⟩ path, resting⟩

theorem begun_of_state (resting : machine.state ≠ .running) (begun : machine.state ≠ .idle) :
    machine.state = .suspended ∨ machine.state = .finished := by
  cases state : machine.state <;> simp_all

theorem resume_path (resting : machine.state ≠ .running)
    (ended : machine.resume natives fuel = some (result, after)) :
    Path natives machine after ∧ after.state ≠ .running := by
  unfold resume at ended
  split at ended
  · cases ended
    exact ⟨.refl, resting⟩
  · next running => exact (resting running).elim
  · next begun _ =>
      split at ended
      · cases ended
        exact ⟨.refl, resting⟩
      · next going =>
          obtain ⟨path, last, _⟩ := drain_path ended
          exact ⟨.head ⟨_, .tick (begun_of_state resting begun) (Bool.not_eq_true _ ▸ going)⟩ path, last⟩

/-- A handler that is queued or rejected changes neither the state nor the error. -/
theorem keeps_spawnHandler (event : String) (id : BlockId) (arguments : List Value) :
    (Action.spawnHandler event id arguments).Ensures (machine = ·)
      (fun _ after => after.state = machine.state ∧ after.error = machine.error)
      fun _ after => after.state = machine.state ∧ after.error = machine.error := by
  intro _ equal
  subst equal
  rw [run_spawnHandler, Action.run_launch]
  cases machine.script.block? id with
  | none => exact ⟨rfl, rfl⟩
  | some block =>
      cases machine.limits.maxThreads with
      | none => exact ⟨rfl, rfl⟩
      | some limit =>
          by_cases many : limit ≤ machine.threads.size
          · simp only [if_pos many, and_self]
          · simp only [if_neg many, log, and_self]

theorem deliver_path (begun : machine.state = .suspended ∨ machine.state = .finished)
    {event : String} {arguments : List Value} {id : BlockId}
    (handled : machine.handler event arguments.length = .ok id)
    (ended : machine.deliver natives fuel event id arguments = some (result, after)) :
    Path natives machine after ∧ after.state ≠ .running := by
  have resting : machine.state ≠ .running := by
    rcases begun with suspended | finished <;> simp_all
  have keeps := keeps_spawnHandler event id arguments machine rfl
  unfold deliver at ended
  split at ended
  · next spawned =>
      rw [spawned] at keeps
      rw [if_neg (keeps.1 ▸ resting)] at ended
      obtain ⟨path, last, _⟩ := drain_path ended
      exact ⟨.head ⟨_, .deliver begun handled spawned⟩ path, last⟩
  · next refused =>
      rw [refused] at keeps
      rw [if_neg (keeps.1 ▸ resting)] at ended
      cases ended
      exact ⟨.single ⟨_, .reject begun handled refused⟩, nofun⟩

/-- A handler stays what it is as long as the machine has not stopped. -/
theorem handler_of_script {event : String} {count : Nat} {id : BlockId}
    (handled : machine.handler event count = .ok id) (script : after.script = machine.script)
    (going : after.stopped = false) : after.handler event count = .ok id := by
  unfold handler at handled ⊢
  rw [script, going, ← not_stopped_of_handler handled]
  exact handled

theorem Changes.script (changes : Changes allowed machine after) :
    after.script = machine.script := by
  induction changes with
  | refl => rfl
  | tail _ change hypothesis => exact change.keeps.1.trans hypothesis

/-- The script of a machine is that of its program. -/
theorem Reachable.script (reachable : Reachable program limits machine) :
    machine.script = program.script := by
  have own : ∀ error : MachineError, ¬ error.IsInternal → True := fun _ _ => trivial
  have honest : program.natives.Honest fun _ => True :=
    fun _ _ _ => Routine.honest_of_forall (fun _ => trivial) _
  induction reachable with
  | initial => rfl
  | step before transition hypothesis =>
      exact (transition.changes own honest (before.steady own honest)).script.trans hypothesis

theorem Changes.begun (changes : Changes allowed machine after) (begun : machine.state ≠ .idle) :
    after.state ≠ .idle := by
  induction changes with
  | refl => exact begun
  | tail _ change hypothesis => exact change.keeps.2.2 hypothesis

/-- A first tick that goes well leaves a machine that has begun. -/
theorem run_begun (own : ∀ error : MachineError, ¬ error.IsInternal → allowed error)
    (honest : natives.Honest allowed) (steady : machine.Steady allowed) {outcome : TickOutcome}
    (ended : machine.run natives fuel = some (.ok outcome, after)) : after.state ≠ .idle := by
  unfold run at ended
  split at ended
  · cases ended
  · next started =>
      have entered := steady.changes (start_changes started)
      exact ((drain_path ended).1.changes own honest entered).begun nofun

/-- A call of the host, which may begin with the first tick. -/
theorem call_path (own : ∀ error : MachineError, ¬ error.IsInternal → allowed error)
    (honest : natives.Honest allowed)
    (steady : machine.Steady allowed) (resting : machine.state ≠ .running) {event : String}
    {arguments : List Value}
    (ended : machine.call natives fuel event arguments = some (result, after)) :
    Path natives machine after ∧ after.state ≠ .running := by
  unfold call at ended
  split at ended
  · cases ended
    exact ⟨.refl, resting⟩
  · next id handled =>
      split at ended
      · split at ended
        · next outcome between ran =>
            obtain ⟨first, rested⟩ := run_path resting ran
            split at ended
            · cases ended
              exact ⟨first, rested⟩
            · next going =>
                have changes := first.changes own honest steady
                have deeper := run_begun own honest steady ran
                refine (deliver_path (begun_of_state rested deeper) (handler_of_script handled
                  changes.script (Bool.not_eq_true _ ▸ going)) ended).imp_left first.trans
        · exact run_path resting ended
      · next begun => exact deliver_path (begun_of_state resting begun) handled ended

/-! A session in which a native function closes the thread that called it. -/

def closing : Program where
  script := {
    blocks := #[{ kind := .sub, level := 0, codes := #[⟨1, .call (.native ⟨0⟩) 0⟩] }]
    main := some ⟨0⟩ }
  natives := #[{
    name := "close"
    arity := some 0
    body := fun _ => .ask (.close ⟨0⟩) fun _ => .done (.ok none) }]

theorem closing_honest : closing.natives.Honest allowed := by
  intro native inside arguments
  obtain rfl := Array.mem_singleton.mp inside
  exact fun _ _ => nofun

/-- The machine as it begins its first tick. -/
def closingBegun : Machine := ((closing.machine {}).started ⟨0⟩ closing.script.blocks[0]).begin

theorem reachable_closingBegun : Reachable closing {} closingBegun := .step .initial (.start rfl)

/-- The machine as the native function leaves it. -/
def closed : Machine where
  script := closing.script
  frames := {
    cells := #[some { Frame.activate none ⟨0⟩ closing.script.blocks[0] [] with
      position := 1
      pins := 1
      retired := true }]
    liveCount := 1
    activations := 1 }
  threads := { next := ⟨1⟩ }
  globals := some ⟨0⟩
  current := some ⟨0⟩
  state := .running
  currentLine := 1
  instructions := 1
  ticks := 1
  events := #[.mainThreadStarted ⟨0⟩, .nativeCall "close" 0, .threadClosed ⟨0⟩]

theorem visible_closed : Visible closing {} closed :=
  .native (reachable_closingBegun.step (.move rfl)) (.intro rfl rfl rfl rfl rfl rfl) (.later .here)

end Machine

end CoopScript
