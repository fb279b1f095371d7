import CoopScript.Proofs.Machine.Discreet
import CoopScript.Proofs.Machine.Limiting

/-!
Rejected entries. They change nothing, whether the host or a native function is rejected, and also
where a frame was made before the last check and is taken back.
-/

namespace CoopScript

open MachineError

namespace Entry

/-- What a native function asks for when it uses the entry. -/
def request : Entry → Request
  | run => .run
  | resume => .resume
  | call event arguments => .call event arguments

/-- What a native function gets back from the entry. -/
def result : (entry : Entry) → entry.request.Reply → Except MachineError TickOutcome
  | run, reply => reply
  | resume, reply => reply
  | call _ _, reply => reply

/-- The machine does not let the entry begin, for the reason that the error gives. -/
inductive Rejects (machine : Machine) : Entry → MachineError → Prop
  | alreadyStarted : machine.state ≠ .idle → Rejects machine .run .alreadyStarted
  | stoppedBefore : machine.state = .idle → machine.stopped = true → Rejects machine .run .halted
  | noEntryBlock : machine.script.main = none → Rejects machine .run .noEntryBlock
  | unknownMain {main : BlockId} : machine.script.main = some main →
      machine.script.block? main = none → Rejects machine .run (.unknownBlock main.index)
  | notStarted : machine.state = .idle → Rejects machine .resume .notStarted
  | reentrant : machine.state = .running → Rejects machine .resume .reentrant
  | unknownEvent {event : String} {arguments : List Value} : machine.script.event? event = none →
      Rejects machine (.call event arguments) (.unknownEvent event)
  | unknownHandler {event : String} {arguments : List Value} {id : BlockId} :
      machine.script.event? event = some id → machine.script.block? id = none →
      Rejects machine (.call event arguments) (.unknownBlock id.index)
  | argumentCount {event : String} {arguments : List Value} {id : BlockId} {block : Block} :
      machine.script.event? event = some id → machine.script.block? id = some block →
      block.arguments ≠ arguments.length →
      Rejects machine (.call event arguments)
        (.argumentCount event block.arguments arguments.length)
  | halted {event : String} {arguments : List Value} : machine.stopped = true →
      Rejects machine (.call event arguments) .halted
  /-- The first tick cannot begin. -/
  | unstarted {event : String} {arguments : List Value} {error : MachineError} :
      machine.state = .idle → Rejects machine .run error →
      Rejects machine (.call event arguments) error
  | threadLimitExceeded {event : String} {arguments : List Value} {limit : Nat} :
      machine.state = .running → machine.limits.maxThreads = some limit →
      limit ≤ machine.threads.size →
      Rejects machine (.call event arguments) (.threadLimitExceeded limit)

end Entry

namespace Machine

/-- Nothing but the books of the arena has changed: the same frames are alive at the same places with
all that they hold. -/
structure Restored (machine after : Machine) : Prop where
  same : after = { machine with frames := after.frames }
  frames : ∀ id, after.frames.frame? id = machine.frames.frame? id
  liveCount : after.frames.liveCount = machine.frames.liveCount

/-- The machine once the rest of a native function has been played and the current thread, which called
it, has gone on. -/
def finishNative (number : ThreadId) (frame : FrameId) (pushesResult : Bool)
    (rest : Routine (Except MachineError Value)) (machine : Machine) : Machine :=
  afterStep number ((do
    Action.concludeNative number frame pushesResult (← modifyGet rest.play)).run machine)

/-- What the host sees of a machine that runs on: how the entry ends, and all that operations come to
after that. -/
def prospect (natives : Natives) (fuel : Nat) (operations : List Operation) (machine : Machine) :
    Option (Except MachineError TickOutcome × Report × List (Answer × Report)) := do
  let rested ← moves natives fuel machine
  let (told, _) ← rested.session natives fuel operations
  return (rested.outcome, rested.report, told)

variable {machine after : Machine} {natives : Natives} {fuel : Nat} {entry : Entry}
  {error : MachineError} {allowed : MachineError → Prop} {residue : Residue}

theorem Restored.refl (machine : Machine) : machine.Restored machine := ⟨rfl, fun _ => rfl, rfl⟩

/-- The residue of a new frame leaves the older frames as they are. -/
theorem Steady.restored (steady : machine.Steady allowed)
    (same : after = machine ∨ after = (Residue.of machine.frames).machine machine) :
    machine.Restored after := by
  rcases same with rfl | rfl
  · exact .refl after
  · exact ⟨rfl, FrameArena.frame?_residue_of steady.coherent.counted, rfl⟩

/-! Entries into a running machine. -/

theorem rejects_of_handler {event : String} {arguments : List Value}
    (failed : machine.handler event arguments.length = .error error) :
    (Entry.call event arguments).Rejects machine error := by
  unfold handler at failed
  split at failed
  · next missing =>
      cases failed
      exact .unknownEvent missing
  · next id named =>
      split at failed
      · next missing =>
          cases failed
          exact .unknownHandler named missing
      · next block found =>
          split at failed
          · next different =>
              cases failed
              exact .argumentCount named found different
          · split at failed
            · next stopped =>
                cases failed
                exact .halted stopped
            · cases failed

/-- The handler of an event has a block, so its launch does not miss it. -/
theorem launch_ne_unknownBlock {event : String} {count : Nat} {id : BlockId}
    (handled : machine.handler event count = .ok id) {parent : Option FrameId}
    {arguments : List Value} :
    (Action.launch parent id arguments).run machine ≠ .error (.unknownBlock id.index) machine := by
  obtain ⟨_, ⟨block, found, _⟩, _⟩ := handler_spec handled
  intro missing
  rw [Action.run_launch, found] at missing
  dsimp only at missing
  split at missing
  · split at missing <;> cases missing
  · cases missing

/-- A running machine answers every entry at once. -/
theorem enter_of_running (fuel : Nat) (running : machine.state = .running) (entry : Entry) :
    entry.enter natives fuel machine =
      some (Prod.map entry.result (fun after => after) (entry.request.perform machine)) := by
  cases entry with
  | run =>
      have begun : machine.state ≠ .idle := by simp [running]
      rw [Entry.enter, run, start_eq, if_pos begun]
      rfl
  | resume =>
      rw [Entry.enter, resume, running]
      rfl
  | call event arguments => exact call_of_running fuel running event arguments

/-- The machine is as before, or a frame came and went. -/
theorem perform_rejected (steady : machine.Steady allowed) (running : machine.state = .running)
    (rejected : entry.result (entry.request.perform machine).1 = .error error) :
    entry.Rejects machine error ∧ ((entry.request.perform machine).2 = machine ∨
      (entry.request.perform machine).2 = (Residue.of machine.frames).machine machine) := by
  have begun : machine.state ≠ .idle := by simp [running]
  cases entry with
  | run =>
      cases rejected
      exact ⟨.alreadyStarted begun, .inl rfl⟩
  | resume =>
      cases rejected
      exact ⟨.reentrant running, .inl rfl⟩
  | call event arguments =>
      simp only [Entry.request, Entry.result, Request.perform, enqueue] at rejected ⊢
      cases handled : machine.handler event arguments.length with
      | error error =>
          rw [handled] at rejected
          cases rejected
          exact ⟨rejects_of_handler handled, .inl rfl⟩
      | ok id =>
          rw [handled] at rejected
          simp only [run_spawnHandler] at rejected ⊢
          rcases Action.launch_cases steady.holds_globals id arguments with
            missing | ⟨frame, fits, ⟨limit, maximum, many, run⟩ | ⟨_, run⟩⟩
          · exact absurd missing (launch_ne_unknownBlock handled)
          · -- the frame of the handler is there when the threads are counted
            simp only [run] at rejected ⊢
            cases rejected
            refine ⟨.threadLimitExceeded running maximum many, .inr ?_⟩
            rw [FrameArena.retire_allocate steady.coherent.counted fits.unpinned fits.outside]
            rfl
          · simp only [run] at rejected
            cases rejected

/-- There is no handler for a rejected call, or the first tick cannot begin, or the machine runs and has
too many threads. -/
theorem rejects_call_cases {event : String} {arguments : List Value}
    (rejects : (Entry.call event arguments).Rejects machine error) :
    (∃ cause, machine.handler event arguments.length = .error cause) ∨
    (∃ cause, machine.state = .idle ∧ Entry.run.Rejects machine cause) ∨
    machine.state = .running ∧ ∃ limit, machine.limits.maxThreads = some limit ∧
      limit ≤ machine.threads.size := by
  cases handled : machine.handler event arguments.length with
  | error cause => exact .inl ⟨cause, rfl⟩
  | ok id =>
      obtain ⟨named, ⟨block, found, count⟩, going⟩ := handler_spec handled
      cases rejects with
      | unknownEvent missing => cases named.symm.trans missing
      | unknownHandler named' missing =>
          cases named.symm.trans named'
          cases found.symm.trans missing
      | argumentCount named' found' different =>
          cases named.symm.trans named'
          cases found.symm.trans found'
          exact absurd count different
      | halted stopped => cases going.symm.trans stopped
      | unstarted idle rejects => exact .inr (.inl ⟨_, idle, rejects⟩)
      | threadLimitExceeded running maximum many =>
          exact .inr (.inr ⟨running, _, maximum, many⟩)

/-- Each reason is enough for the running machine to refuse. -/
theorem perform_of_rejects (steady : machine.Steady allowed) (running : machine.state = .running)
    (rejects : entry.Rejects machine error) :
    ∃ cause, entry.result (entry.request.perform machine).1 = .error cause := by
  cases entry with
  | run => exact ⟨.alreadyStarted, rfl⟩
  | resume => exact ⟨.reentrant, rfl⟩
  | call event arguments =>
      simp only [Entry.request, Entry.result, Request.perform, enqueue]
      cases handled : machine.handler event arguments.length with
      | error cause => exact ⟨cause, rfl⟩
      | ok id =>
          simp only [run_spawnHandler]
          rcases rejects_call_cases rejects with ⟨_, failed⟩ | ⟨_, idle, _⟩ | ⟨_, limit, maximum, many⟩
          · cases handled.symm.trans failed
          · cases running.symm.trans idle
          · rcases Action.launch_cases steady.holds_globals id arguments with
              missing | ⟨frame, _, ⟨_, _, _, run⟩ | ⟨few, _⟩⟩
            · exact ⟨_, by rw [missing]⟩
            · exact ⟨_, by rw [run]⟩
            · exact absurd many (few limit maximum).not_ge

/-! Entries of the host. -/

/-- What an entry reports after a run is on record. -/
theorem error_of_drain (ended : machine.drain natives fuel = some (.error error, after)) :
    after.error = some error := by
  obtain ⟨last, _, same⟩ := Option.map_eq_some_iff.mp ended
  obtain ⟨told, rfl⟩ := Prod.mk.inj same
  unfold outcome at told
  split at told
  · next recorded _ =>
      cases told
      exact recorded
  · cases told

theorem error_of_deliver (resting : machine.state ≠ .running) (clean : machine.error = none)
    {event : String} {id : BlockId} {arguments : List Value}
    (ended : machine.deliver natives fuel event id arguments = some (.error error, after)) :
    after.error = some error := by
  have keeps := keeps_spawnHandler event id arguments machine rfl
  unfold deliver at ended
  split at ended
  · next spawned =>
      rw [spawned] at keeps
      rw [if_neg (keeps.1 ▸ resting)] at ended
      exact error_of_drain ended
  · next refused =>
      rw [refused] at keeps
      rw [if_neg (keeps.1 ▸ resting)] at ended
      cases ended
      rw [error_fail, keeps.2, clean]
      rfl

theorem rejects_of_start (failed : machine.start = .error error) :
    Entry.run.Rejects machine error := by
  rw [start_eq] at failed
  split at failed
  · next begun =>
      cases failed
      exact .alreadyStarted begun
  · next idle =>
      split at failed
      · next stopped =>
          cases failed
          exact .stoppedBefore (not_not.mp idle) stopped
      · split at failed
        · next missing =>
            cases failed
            exact .noEntryBlock missing
        · next main named =>
            split at failed
            · next missing =>
                cases failed
                exact .unknownMain named missing
            · cases failed

/-- Each reason keeps the machine from starting. -/
theorem start_of_rejects (rejects : Entry.run.Rejects machine error) :
    ∃ cause, machine.start = .error cause := by
  rw [start_eq]
  split
  · exact ⟨_, rfl⟩
  · next idle =>
      split
      · exact ⟨_, rfl⟩
      · next going =>
          cases rejects with
          | alreadyStarted begun => exact absurd begun idle
          | stoppedBefore _ stopped => exact absurd stopped going
          | noEntryBlock missing => exact ⟨.noEntryBlock, by rw [missing]⟩
          | unknownMain named missing =>
              simp only [named, missing]
              exact ⟨_, rfl⟩

/-- An entry that there is a reason to reject ends at once, with an error for which there is a reason,
and leaves the machine as it was. -/
theorem enter_of_rejects (steady : machine.Steady allowed) (rejects : entry.Rejects machine error)
    (natives : Natives) (fuel : Nat) :
    ∃ cause after, entry.enter natives fuel machine = some (.error cause, after) ∧
      entry.Rejects machine cause ∧ machine.Restored after := by
  by_cases running : machine.state = .running
  · obtain ⟨cause, rejected⟩ := perform_of_rejects steady running rejects
    obtain ⟨reason, same⟩ := perform_rejected steady running rejected
    refine ⟨cause, _, ?_, reason, steady.restored same⟩
    rw [enter_of_running fuel running]
    exact congrArg some (Prod.ext rejected rfl)
  · cases entry with
    | run =>
        obtain ⟨cause, failed⟩ := start_of_rejects rejects
        exact ⟨cause, machine, by rw [Entry.enter, run, failed], rejects_of_start failed, .refl machine⟩
    | resume =>
        cases rejects with
        | notStarted idle =>
            exact ⟨_, machine, by rw [Entry.enter, resume, idle], .notStarted idle, .refl machine⟩
        | reentrant begun => exact absurd begun running
    | call event arguments =>
        cases handled : machine.handler event arguments.length with
        | error cause =>
            exact ⟨cause, machine, by rw [Entry.enter, call, handled], rejects_of_handler handled,
              .refl machine⟩
        | ok id =>
            rcases rejects_call_cases rejects with ⟨_, failed⟩ | ⟨_, idle, rejects⟩ | ⟨begun, _⟩
            · cases handled.symm.trans failed
            · -- the first tick is not begun
              obtain ⟨cause, failed⟩ := start_of_rejects rejects
              refine ⟨cause, machine, ?_, .unstarted idle (rejects_of_start failed), .refl machine⟩
              simp only [Entry.enter, call, handled, if_pos idle, run, failed]
            · exact absurd begun running

theorem run_error (candid : machine.Candid)
    (ended : machine.run natives fuel = some (.error error, after)) :
    Entry.run.Rejects machine error ∧ machine.Restored after ∨
      machine.error = none ∧ after.error = some error := by
  unfold run at ended
  split at ended
  · next failed =>
      cases ended
      exact .inl ⟨rejects_of_start failed, .refl machine⟩
  · next began =>
      exact .inr ⟨candid.clean (started_of_start began).2.1, error_of_drain ended⟩

theorem resume_error (candid : machine.Candid)
    (ended : machine.resume natives fuel = some (.error error, after)) :
    Entry.resume.Rejects machine error ∧ machine.Restored after ∨
      machine.error = none ∧ after.error = some error := by
  unfold resume at ended
  split at ended
  · next idle =>
      cases ended
      exact .inl ⟨.notStarted idle, .refl machine⟩
  · next running =>
      cases ended
      exact .inl ⟨.reentrant running, .refl machine⟩
  · split at ended
    · cases ended
    · next going => exact .inr ⟨candid.clean (Bool.not_eq_true _ ▸ going), error_of_drain ended⟩

section Entries

variable (own : ∀ error : MachineError, ¬ error.IsInternal → allowed error)
  (honest : natives.Honest allowed)

include own honest

/-- A call of the host is rejected, or the machine fails, or its first tick stops it. -/
theorem call_error (steady : machine.Steady allowed) (candid : machine.Candid)
    (resting : machine.state ≠ .running) {event : String} {arguments : List Value}
    (ended : machine.call natives fuel event arguments = some (.error error, after)) :
    (Entry.call event arguments).Rejects machine error ∧ machine.Restored after ∨
      machine.error = none ∧ after.error = some error ∨
      error = .halted ∧ machine.stopped = false ∧ after.stopped = true := by
  unfold call at ended
  split at ended
  · next failed =>
      cases ended
      exact .inl ⟨rejects_of_handler failed, .refl machine⟩
  · next id handled =>
      have going := not_stopped_of_handler handled
      have clean := candid.clean going
      split at ended
      · next idle =>
          split at ended
          · next outcome between ran =>
              split at ended
              · next stopped =>
                  cases ended
                  exact .inr (.inr ⟨rfl, going, stopped⟩)
              · next alive =>
                  obtain ⟨path, rested⟩ := run_path resting ran
                  have ticked := path.changes own honest steady
                  have fresh := (ticked.candid candid).clean (Bool.not_eq_true _ ▸ alive)
                  exact .inr (.inl ⟨clean, error_of_deliver rested fresh ended⟩)
          · rcases run_error candid ended with ⟨rejects, restored⟩ | failed
            · exact .inl ⟨.unstarted idle rejects, restored⟩
            · exact .inr (.inl failed)
      · exact .inr (.inl ⟨clean, error_of_deliver resting clean ended⟩)

theorem enter_error (steady : machine.Steady allowed) (candid : machine.Candid)
    (ended : entry.enter natives fuel machine = some (.error error, after)) :
    entry.Rejects machine error ∧ machine.Restored after ∨
      machine.error = none ∧ after.error = some error ∨
      error = .halted ∧ machine.stopped = false ∧ after.stopped = true := by
  by_cases running : machine.state = .running
  · rw [enter_of_running fuel running] at ended
    have rejected := congrArg Prod.fst (Option.some.inj ended)
    have left : (entry.request.perform machine).2 = after := congrArg Prod.snd (Option.some.inj ended)
    obtain ⟨rejects, same⟩ := perform_rejected steady running rejected
    exact .inl ⟨rejects, left ▸ steady.restored same⟩
  · cases entry with
    | run => exact (run_error candid ended).imp_right .inl
    | resume => exact (resume_error candid ended).imp_right .inl
    | call event arguments => exact call_error own honest steady candid running ended

end Entries

/-! Native functions that are rejected. -/

section Natives

variable {program : Program} {limits : Limits} {start : Machine} {number : ThreadId} {thread : Thread}
  {routine rest : Routine (Except MachineError Value)}

theorem finishNative_eq (number : ThreadId) (frame : FrameId) (pushesResult : Bool)
    (rest : Routine (Except MachineError Value)) (machine : Machine) :
    finishNative number frame pushesResult rest machine = afterStep number
      ((Action.concludeNative number frame pushesResult (rest.play machine).1).run
        (rest.play machine).2) := by
  rw [finishNative, EStateM.run_bind, EStateM.run_modifyGet]

theorem Comes.discreet (discreet : routine.Discreet) (comes : routine.Comes start rest machine) :
    rest.Discreet := by
  induction comes with
  | here => exact discreet
  | later _ hypothesis => exact hypothesis (discreet _).1

theorem Invokes.discreet (discreet : natives.Discreet)
    (invokes : Invokes natives machine routine start) : routine.Discreet := by
  cases invokes with
  | intro _ _ _ _ _ prepares => exact Action.prepareNative_discreet discreet prepares

/-- In a move, the current thread goes on after the native function that it called. -/
theorem Invokes.finishes {caller : Machine} (invokes : Invokes natives caller routine start)
    (comes : routine.Comes start rest machine) :
    ∃ number thread pushesResult, caller.current = some number ∧
      caller.threads.find? number = some thread ∧
      caller.move natives = finishNative number thread.current pushesResult rest machine := by
  obtain ⟨number, thread, pushesResult, current, found, advances⟩ := invokes.advance
  rw [Comes.play comes] at advances
  refine ⟨number, thread, pushesResult, current, found, ?_⟩
  rw [finishNative_eq, ← advances, move, current]

theorem finishNative_hosts (hosts : residue.Hosts machine)
    (served : Served (fun _ => True) start machine) (steady : start.Steady fun _ => True)
    (running : machine.state = .running) (current : start.current = some number)
    (found : start.threads.find? number = some thread) (pushesResult : Bool)
    (rest : Routine (Except MachineError Value)) :
    residue.Hosts (finishNative number thread.current pushesResult rest machine) := by
  have honest : rest.Honest fun _ => True := Routine.honest_of_forall (fun _ => trivial) rest
  obtain ⟨played, blame⟩ := rest.play_served (fun _ _ => trivial) hosts.steady running honest
  have concluded := (served.trans played).conclude_changes (fun _ _ => trivial) steady current found
    pushesResult blame
  rw [finishNative_eq]
  exact hosts.changes (Relation.ReflTransGen.trans played.changes concluded)

theorem finishNative_residue (hosts : residue.Hosts machine) (running : machine.state = .running)
    (discreet : rest.Discreet) (number : ThreadId) (frame : FrameId) (pushesResult : Bool) :
    finishNative number frame pushesResult rest (residue.machine machine) =
      residue.machine (finishNative number frame pushesResult rest machine) :=
  afterStep_residue (Action.echoesAt_conclude hosts running discreet number frame pushesResult) number

theorem prospect_residue (honest : natives.Honest fun _ => True) (discreet : natives.Discreet)
    (fuel : Nat) (operations : List Operation) (hosts : residue.Hosts machine) :
    prospect natives fuel operations (residue.machine machine) =
      prospect natives fuel operations machine := by
  obtain ⟨same, later⟩ := moves_residue honest discreet fuel hosts
  unfold prospect
  rw [same]
  cases moved : moves natives fuel machine with
  | none => rfl
  | some rested =>
      have told := session_residue honest discreet fuel operations (later rested moved)
      simp only [Option.map_some, Option.bind_eq_bind, Option.bind_some, told.same, report_residue]
      cases session natives fuel operations rested <;> rfl

/-- An entry for whose rejection there is a reason in the machine ends at once with an error for which
there is one, and the machine is restored. An entry that fails without such a reason leaves its error on
record in a machine that had none, or it is a call that has found the machine stopped by its first tick.
A native function is rejected for such a reason only and finds the machine restored. If no native
function looks at the books of the arena, the one that has been rejected returns what it would have
returned without the attempt, and the host sees what it would have seen. -/
theorem Visible.rejections_change_nothing (visible : Visible program limits machine) :
    (∀ fuel (entry : Entry),
      (∀ reason, entry.Rejects machine reason → ∃ error after,
        entry.enter program.natives fuel machine = some (.error error, after) ∧
          entry.Rejects machine error ∧ machine.Restored after) ∧
      ∀ error after, entry.enter program.natives fuel machine = some (.error error, after) →
        (entry.Rejects machine error → machine.Restored after) ∧
        ((∀ reason, ¬ entry.Rejects machine reason) →
          machine.error = none ∧ after.error = some error ∨
          error = .halted ∧ machine.stopped = false ∧ after.stopped = true)) ∧
    ∀ caller start routine (entry : Entry) next error,
      Reachable program limits caller → Invokes program.natives caller routine start →
      routine.Comes start (.ask entry.request next) machine →
      entry.result (entry.request.perform machine).1 = .error error →
        entry.Rejects machine error ∧ machine.Restored (entry.request.perform machine).2 ∧
        (program.natives.Discreet → ∃ number thread pushesResult,
          caller.current = some number ∧ caller.threads.find? number = some thread ∧
          caller.move program.natives =
            finishNative number thread.current pushesResult (.ask entry.request next) machine ∧
          ((Routine.ask entry.request next).play machine).1 =
            ((next (entry.request.perform machine).1).play machine).1 ∧
          ∀ fuel operations, prospect program.natives fuel operations (caller.move program.natives) =
            prospect program.natives fuel operations
              (finishNative number thread.current pushesResult
                (next (entry.request.perform machine).1) machine)) := by
  have own : ∀ error : MachineError, ¬ error.IsInternal → True := fun _ _ => trivial
  have honest : program.natives.Honest fun _ => True :=
    fun _ _ _ => Routine.honest_of_forall (fun _ => trivial) _
  have steady := visible.steady own honest
  refine ⟨fun fuel entry => ⟨fun reason rejects => enter_of_rejects steady rejects _ fuel,
    fun error after ended => ⟨fun rejects => ?_, fun unfounded => ?_⟩⟩, ?_⟩
  · obtain ⟨_, _, also, _, restored⟩ := enter_of_rejects steady rejects program.natives fuel
    cases ended.symm.trans also
    exact restored
  · rcases enter_error own honest steady (visible.candid own honest) ended with ⟨rejects, _⟩ | fails
    · exact absurd rejects (unfounded error)
    · exact fails
  intro caller start routine entry next error reachable invokes comes rejected
  obtain ⟨calling, quiet, given⟩ := invokes.quiet honest (reachable.steady own honest)
  have ready := (reachable.steady own honest).quiet quiet
  have started := quiet.state.trans calling
  have served := (Comes.served own ready started given comes).1
  have running := served.state.trans started
  obtain ⟨rejects, same⟩ := perform_rejected steady running rejected
  refine ⟨rejects, steady.restored same, fun discreet => ?_⟩
  obtain ⟨number, thread, pushesResult, current, found, finishes⟩ := invokes.finishes comes
  have asks : finishNative number thread.current pushesResult (.ask entry.request next) machine =
      finishNative number thread.current pushesResult (next (entry.request.perform machine).1)
        (entry.request.perform machine).2 := rfl
  have plays : (Routine.ask entry.request next).play machine =
      (next (entry.request.perform machine).1).play (entry.request.perform machine).2 := rfl
  refine ⟨number, thread, pushesResult, current, found, finishes, ?_⟩
  rw [finishes, asks, plays]
  rcases same with same | same
  · rw [same]
    exact ⟨rfl, fun _ _ => rfl⟩
  · -- What goes on is the machine beside the residue, and the other one was never asked.
    have hosts : (Residue.of machine.frames).Hosts machine := ⟨steady, le_rfl⟩
    have asking := Comes.discreet (invokes.discreet discreet) comes
    have discreetly := (asking (entry.request.perform machine).1).1
    rw [same, (discreetly.play hosts running).1, finishNative_residue hosts running discreetly]
    refine ⟨rfl, fun fuel operations => ?_⟩
    apply prospect_residue honest discreet
    exact finishNative_hosts hosts served ready running (quiet.current.trans current)
      (quiet.threads ▸ found) pushesResult _

end Natives

/-! A native function that asks for one thread too many and goes on. -/

/-- How the function goes on after the reply. -/
def summonReply (reply : Except MachineError TickOutcome) : Routine (Except MachineError Value) :=
  match reply with
  | .error _ => .done (.ok none)
  | .ok _ => .done (.error (.script "granted"))

def summoningBlock : Block where
  kind := .sub
  level := 0
  codes := #[⟨1, .call (.native ⟨0⟩) 0⟩]

def summoning : Program where
  script := {
    blocks := #[summoningBlock, { kind := .sub, level := 1 }]
    main := some ⟨0⟩
    events := [("summon", ⟨1⟩)] }
  natives := #[{
    name := "summon"
    arity := some 0
    body := fun _ => .ask (.call "summon" []) summonReply }]

def oneThread : Limits := { maxThreads := some 1 }

theorem discreet_summoning : summoning.natives.Discreet := by
  intro native inside arguments
  obtain rfl := Array.mem_singleton.mp inside
  intro reply
  refine ⟨?_, fun other same => congrArg summonReply same⟩
  cases reply <;> trivial

/-- The machine as it begins its first tick. -/
def summoningBegun : Machine := ((summoning.machine oneThread).started ⟨0⟩ summoningBlock).begin

/-- The machine as the native function finds it. -/
def summoningCalled : Machine :=
  { summoningBegun.move summoning.natives with
    frames := summoningBegun.frames.set ⟨0⟩
      { Frame.activate none ⟨0⟩ summoningBlock [] with position := 1, pins := 1 }
    currentLine := 1
    instructions := 1
    events := #[.mainThreadStarted ⟨0⟩, .nativeCall "summon" 0] }

theorem reachable_summoningMoved :
    Reachable summoning oneThread (summoningBegun.move summoning.natives) :=
  .step (.step .initial (.start rfl)) (.move rfl)

theorem invokes_summoningCalled : Invokes summoning.natives (summoningBegun.move summoning.natives)
    (.ask (Entry.call "summon" []).request summonReply) summoningCalled :=
  .intro rfl rfl rfl rfl rfl rfl

theorem rejections_change_nothing_summoning : Visible summoning oneThread summoningCalled ∧
    (Entry.call "summon" []).Rejects summoningCalled (.threadLimitExceeded 1) ∧
    summoningCalled.Restored (Request.perform (.call "summon" []) summoningCalled).2 ∧
    (Request.perform (.call "summon" []) summoningCalled).2.frames.activations = 2 ∧
    summoningCalled.frames.activations = 1 ∧
    (∀ fuel, ∃ error after,
      (Entry.call "summon" []).enter summoning.natives fuel summoningCalled =
        some (.error error, after) ∧ summoningCalled.Restored after) ∧
    ∀ fuel operations,
      prospect summoning.natives fuel operations
          ((summoningBegun.move summoning.natives).move summoning.natives) =
        prospect summoning.natives fuel operations
          (finishNative ⟨0⟩ ⟨0⟩ false (.done (.ok none)) summoningCalled) := by
  have visible : Visible summoning oneThread summoningCalled :=
    .native reachable_summoningMoved invokes_summoningCalled .here
  obtain ⟨hosting, calling⟩ := Visible.rejections_change_nothing visible
  obtain ⟨rejects, restored, lasting⟩ := calling _ _ _
    (.call "summon" []) summonReply (.threadLimitExceeded 1) reachable_summoningMoved
    invokes_summoningCalled .here rfl
  obtain ⟨number, thread, pushesResult, current, found, moved, _, same⟩ := lasting discreet_summoning
  cases current
  cases found
  refine ⟨visible, rejects, restored, rfl, rfl, fun fuel => ?_, fun fuel operations => ?_⟩
  · obtain ⟨error, after, ended, _, restored⟩ := (hosting fuel _).1 _ rejects
    exact ⟨error, after, ended, restored⟩
  rw [same]
  cases pushesResult with
  | false => rfl
  | true =>
      -- The instruction leaves no result on the stack.
      have held := congrArg (fun machine => (machine.frames.frame? ⟨0⟩).map Frame.stack) moved
      exact absurd held (by decide +kernel)

end Machine

end CoopScript
