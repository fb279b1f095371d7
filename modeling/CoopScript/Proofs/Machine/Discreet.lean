import CoopScript.Proofs.Actions.Echoing
import CoopScript.Proofs.Machine.Session

/-!
Native functions that do not look at the serial numbers of activations and the vacant cells of the
arena, which no public operation of a machine shows. With them, a machine beside the residue of a frame
that is gone goes on as it would have gone on without it.
-/

namespace CoopScript

open CoopScript.Action (EchoesAt Echoes echo_bind)

/-- The frame without its serial number. -/
def Frame.undated (frame : Frame) : Frame := { frame with activation := 0 }

/-- The machines differ at most in serial numbers and in vacant cells. -/
structure Machine.Resembles (machine other : Machine) : Prop where
  same : other = { machine with frames := other.frames }
  frames : ∀ id,
    (other.frames.frame? id).map Frame.undated = (machine.frames.frame? id).map Frame.undated
  liveCount : other.frames.liveCount = machine.frames.liveCount

/-- The replies are the same to those who do not look there. -/
def Request.Concurs : (request : Request) → request.Reply → request.Reply → Prop
  | inspect, reply, other => Machine.Resembles reply other
  | _, reply, other => other = reply

/-- A routine that goes on in the same way after replies that concur. -/
def Routine.Discreet {α : Type} : Routine α → Prop
  | .done _ => True
  | .ask request next => ∀ reply, (next reply).Discreet ∧
      ∀ other, request.Concurs reply other → next other = next reply

/-- All native functions are discreet. -/
def Natives.Discreet (natives : Natives) : Prop :=
  ∀ native ∈ natives, ∀ arguments, (native.body arguments).Discreet

/-- A steady machine in which the frame came and went. -/
structure Residue.Hosts (residue : Residue) (machine : Machine) : Prop where
  steady : machine.Steady fun _ => True
  late : residue.start ≤ machine.frames.activations

/-- What comes of the machine comes of it beside the residue. -/
structure Residue.Agrees {α : Type} (residue : Residue) (plain beside : Option (α × Machine)) :
    Prop where
  same : beside = plain.map (Prod.map (fun result => result) residue.machine)
  hosts : ∀ result after, plain = some (result, after) → residue.Hosts after

variable {α β : Type} {residue : Residue} {machine after : Machine} {natives : Natives}
  {plain beside : Option (α × Machine)}

namespace Residue

theorem resembles_machine (residue : Residue) (machine : Machine) :
    machine.Resembles (residue.machine machine) where
  same := rfl
  frames := by
    intro id
    rw [frames_machine, FrameArena.frame?_residue, Option.map_map]
    rfl
  liveCount := rfl

namespace Hosts

variable (hosts : residue.Hosts machine)

include hosts

theorem suits : residue.Suits machine := ⟨⟨_, hosts.steady.coherent.counted⟩, hosts.late⟩

theorem changes (changes : Machine.Changes (fun _ => True) machine after) :
    residue.Hosts after where
  steady := hosts.steady.changes changes
  late := hosts.late.trans (Machine.Changes.continues hosts.steady changes).activations

theorem quiet (quiet : machine.Quiet after) : residue.Hosts after :=
  hosts.changes (.single (.quiet quiet))

end Hosts

namespace Agrees

/-- Neither run comes to an end with so little fuel. -/
theorem unfinished : residue.Agrees (none : Option (α × Machine)) none :=
  ⟨rfl, fun _ _ ended => absurd ended.symm (Option.some_ne_none _)⟩

theorem done (result : α) (hosts : residue.Hosts after) :
    residue.Agrees (some (result, after)) (some (result, residue.machine after)) := by
  refine ⟨rfl, ?_⟩
  rintro _ _ ⟨⟩
  exact hosts

theorem map (change : α → β) (agrees : residue.Agrees plain beside) :
    residue.Agrees (plain.map (Prod.map change fun machine => machine))
      (beside.map (Prod.map change fun machine => machine)) := by
  constructor
  · rw [agrees.same, Option.map_map, Option.map_map]
    rfl
  · intro result after ended
    obtain ⟨⟨first, _⟩, held, same⟩ := Option.map_eq_some_iff.mp ended
    cases same
    exact agrees.hosts first _ held

end Agrees

end Residue

/-! Requests and routines. -/

theorem Machine.enqueue_residue (hosts : residue.Hosts machine) (event : String)
    (arguments : List Value) : (residue.machine machine).enqueue event arguments =
      Prod.map (fun reply => reply) residue.machine (machine.enqueue event arguments) := by
  have handled : (residue.machine machine).handler event arguments.length =
      machine.handler event arguments.length := rfl
  simp only [enqueue, handled]
  cases machine.handler event arguments.length with
  | error error => rfl
  | ok id =>
      have echo :=
        Action.echoesAt_spawnHandler hosts.suits hosts.steady.holds_globals event id arguments
      dsimp only [EchoesAt] at echo ⊢
      generalize (Action.spawnHandler event id arguments).run machine = plain at echo ⊢
      generalize (Action.spawnHandler event id arguments).run _ = beside at echo ⊢
      cases echo <;> rfl

/-- A request comes to the same, and the replies concur. -/
theorem Request.perform_residue (hosts : residue.Hosts machine) (request : Request) :
    (request.perform (residue.machine machine)).2 = residue.machine (request.perform machine).2 ∧
      request.Concurs (request.perform machine).1 (request.perform (residue.machine machine)).1 := by
  have both {first second : request.Reply × Machine} (same : second =
      Prod.map (fun reply => reply) residue.machine first) (plain : request ≠ .inspect) :
      second.2 = residue.machine first.2 ∧ request.Concurs first.1 second.1 := by
    subst same
    refine ⟨rfl, ?_⟩
    cases request with
    | inspect => exact absurd rfl plain
    | _ => rfl
  cases request with
  | run => exact ⟨rfl, rfl⟩
  | resume => exact ⟨rfl, rfl⟩
  | call event arguments => exact both (Machine.enqueue_residue hosts event arguments) nofun
  | stop => exact ⟨rfl, rfl⟩
  | raise text => exact ⟨Machine.raise_residue residue machine text, rfl⟩
  | terminate text => exact ⟨Machine.terminate_residue residue machine text, rfl⟩
  | close thread =>
      have counted := hosts.steady.coherent.counted
      exact both (Machine.closeThread_residue residue machine counted thread) nofun
  | inspect => exact ⟨rfl, residue.resembles_machine machine⟩
  | allocate datum => exact ⟨rfl, rfl⟩
  | overwrite target source =>
      simp only [perform, Residue.heap_machine]
      cases machine.heap.overwrite target source <;> exact ⟨rfl, rfl⟩
  | setData data => exact ⟨rfl, rfl⟩
  | note text => exact ⟨rfl, rfl⟩

/-- A discreet routine plays in the same way. -/
theorem Routine.Discreet.play {routine : Routine (Except MachineError Value)}
    (discreet : routine.Discreet) (hosts : residue.Hosts machine)
    (running : machine.state = .running) :
    routine.play (residue.machine machine) =
        Prod.map (fun result => result) residue.machine (routine.play machine) ∧
      residue.Hosts (routine.play machine).2 := by
  induction routine generalizing machine with
  | done result => exact ⟨rfl, hosts⟩
  | ask request next hypothesis =>
      obtain ⟨same, concurs⟩ := request.perform_residue hosts
      -- The replies may differ, but what the routine does next is the same.
      obtain ⟨rest, goes⟩ := discreet (request.perform machine).1
      obtain ⟨served, _⟩ := request.perform_served (fun _ _ => trivial) hosts.steady running
      have later := hypothesis _ rest (hosts.changes served.changes) (served.state.trans running)
      simp only [Routine.play, same, goes _ concurs]
      exact later

/-! Steps of a thread. -/

namespace Action

variable {number : ThreadId} {entry : Thread}

/-- What is prepared is the routine of one of the native functions. -/
theorem prepareNative_discreet (discreet : natives.Discreet) {frame : FrameId} {id : NativeId}
    {count : Nat} {routine : Routine (Except MachineError Value)}
    (prepared : (prepareNative natives frame id count).run machine = .ok routine after) :
    routine.Discreet := by
  rcases prepareNative_cases natives frame id count with
    missing | ⟨native, inside, ⟨_, refused⟩ | prepares⟩
  · rw [missing] at prepared
    cases prepared
  · rw [refused] at prepared
    cases prepared
  · rw [prepares, EStateM.run_bind] at prepared
    cases popped : (popMany frame count).run machine with
    | error error middle =>
        rw [popped] at prepared
        cases prepared
    | ok arguments middle =>
        rw [popped] at prepared
        cases prepared
        exact discreet native inside arguments

instance (frame : FrameId) (id : NativeId) (count : Nat) :
    Echoes residue (prepareNative natives frame id count) := by
  rcases prepareNative_cases natives frame id count with
    missing | ⟨_, _, ⟨_, refused⟩ | prepares⟩
  · rw [missing]
    infer_instance
  · rw [refused]
    infer_instance
  · rw [prepares]
    infer_instance

instance (number : ThreadId) (frame : FrameId) (pushesResult : Bool)
    (result : Except MachineError Value) :
    Echoes residue (concludeNative number frame pushesResult result) := by
  refine Echoes.bind inferInstance fun value => echoes_get_bind (fun _ _ => rfl) fun machine => ?_
  infer_instance

/-- What a native function still does, and how the current thread goes on. -/
theorem echoesAt_conclude (hosts : residue.Hosts machine) (running : machine.state = .running)
    {rest : Routine (Except MachineError Value)} (discreet : rest.Discreet) (number : ThreadId)
    (frame : FrameId) (pushesResult : Bool) :
    EchoesAt residue machine (do
      concludeNative number frame pushesResult (← modifyGet rest.play)) := by
  obtain ⟨same, later⟩ := discreet.play hosts running
  have plays : EchoesAt residue machine
      (modifyGet rest.play : Action (Except MachineError Value)) := by
    have echo := Residue.Echo.ok (rest.play machine).1 later.suits
    rw [EchoesAt, EStateM.run_modifyGet, EStateM.run_modifyGet, same]
    exact echo
  exact plays.bind fun result after _ suits => Echoes.always after suits

variable (honest : natives.Honest fun _ => True) (discreet : natives.Discreet)

include honest discreet

theorem echoesAt_callNative (hosts : residue.Hosts machine)
    (executing : machine.Executing (fun _ => True) number entry) (id : NativeId) (count : Nat)
    (pushesResult : Bool) :
    EchoesAt residue machine (callNative natives number entry.current id count pushesResult) := by
  have prepares : Echoes residue (prepareNative natives entry.current id count) := inferInstance
  refine (prepares.always machine hosts.suits).bind fun routine ready prepared _ => ?_
  obtain ⟨quiet, _⟩ := (calm_prepareNative honest executing id count).ok prepared
  have going := executing.quiet quiet
  exact echoesAt_conclude (hosts.quiet quiet) (going.steady.current_running going.current)
    (prepareNative_discreet discreet prepared) number entry.current pushesResult

theorem echoesAt_execute (hosts : residue.Hosts machine)
    (executing : machine.Executing (fun _ => True) number entry) (instruction : Instruction) :
    EchoesAt residue machine (execute natives number entry.current instruction) := by
  have called (callee : Callee) (count : Nat) (pushesResult : Bool) :
      EchoesAt residue machine (call natives number entry.current callee count pushesResult) := by
    cases callee with
    | native id => exact echoesAt_callNative honest discreet hosts executing id count pushesResult
    | block id =>
        obtain ⟨held, live, _⟩ := hosts.steady.coherent.live_current executing.found
        exact echoesAt_callBlock hosts.suits live id count pushesResult
  cases simple : instruction.call? with
  | none => exact (echoes_execute entry.current simple).always machine hosts.suits
  | some site =>
      obtain ⟨callee, count, pushesResult⟩ := site
      rw [execute_call simple]
      exact called callee count pushesResult

/-- A step of the current thread. -/
theorem echoesAt_advance (hosts : residue.Hosts machine) (current : machine.current = some number) :
    EchoesAt residue machine (advance natives number) := by
  simp only [EchoesAt, advance, EStateM.run_bind, EStateM.run_get]
  refine echo_ite .rfl (.ok _ hosts.suits) ?_
  rw [Residue.threads_machine]
  cases found : machine.threads.find? number with
  | none => exact .ok _ hosts.suits
  | some entry =>
      have executing : machine.Executing (fun _ => True) number entry :=
        ⟨hosts.steady, current, found⟩
      obtain ⟨held, live, _⟩ := hosts.steady.coherent.live_current found
      have fetches : Echoes residue (fetch entry.current) := inferInstance
      refine echo_bind (fetches.always machine hosts.suits) fun fetched after ran suits => ?_
      obtain ⟨quiet, _⟩ := (calm_fetch hosts.steady.coherent live).ok ran
      cases fetched with
      | none => exact Echoes.always after suits
      | some instruction =>
          exact echoesAt_execute honest discreet (hosts.quiet quiet) (executing.quiet quiet) instruction

end Action

namespace Machine

theorem afterStep_residue {first second : EStateM.Result MachineError Machine (Option Slice)}
    (echo : residue.Echo first second) (id : ThreadId) :
    afterStep id second = residue.machine (afterStep id first) := by
  cases echo with
  | error error _ => exact congrArg settle (fail_residue residue _ error)
  | ok slice _ =>
      cases slice with
      | none => rfl
      | some slice => exact endSlice_residue residue _ id slice

theorem started_residue (hosts : residue.Hosts machine) (main : BlockId) (block : Block) :
    (residue.machine machine).started main block = residue.machine (machine.started main block) := by
  have outside : ∀ parent, (Frame.activate none main block []).parent = some parent →
      ∃ around, machine.frames.frame? parent = some around := nofun
  have allocated := FrameArena.allocate_residue hosts.steady.coherent.counted hosts.late outside
  simp only [started, Residue.frames_machine, allocated, FrameArena.pin_residue]
  rfl

theorem start_residue (hosts : residue.Hosts machine) :
    (residue.machine machine).start = machine.start.map residue.machine := by
  simp only [start_eq, Residue.state_machine, Residue.stopped_machine, Residue.script_machine,
    started_residue hosts]
  split
  · rfl
  · split
    · rfl
    · split
      · rfl
      · split <;> rfl

/-- A machine that runs already answers a call at once. -/
theorem call_of_running (fuel : Nat) (running : machine.state = .running) (event : String)
    (arguments : List Value) :
    machine.call natives fuel event arguments = some (machine.enqueue event arguments) := by
  unfold call enqueue
  cases machine.handler event arguments.length with
  | error error => rfl
  | ok id =>
      have keeps := keeps_spawnHandler event id arguments machine rfl
      simp only [running, deliver]
      cases ran : (Action.spawnHandler event id arguments).run machine with
      | ok result after =>
          rw [ran] at keeps
          simp [keeps.1, running]
      | error error after =>
          rw [ran] at keeps
          simp [keeps.1, running]

variable (honest : natives.Honest fun _ => True) (discreet : natives.Discreet) (fuel : Nat)

include honest discreet

theorem move_residue (hosts : residue.Hosts machine) (running : machine.state = .running) :
    (residue.machine machine).move natives = residue.machine (machine.move natives) ∧
      residue.Hosts (machine.move natives) := by
  have later := hosts.changes (move_changes (fun _ _ => trivial) honest hosts.steady running)
  refine ⟨?_, later⟩
  cases turn : machine.current with
  | some id =>
      have there : (residue.machine machine).current = some id := turn
      rw [move, move, there, turn]
      exact afterStep_residue (Action.echoesAt_advance honest discreet hosts turn) id
  | none =>
      simp only [move, Residue.current_machine, turn, Residue.stopped_machine,
        Residue.threads_machine]
      split
      · rfl
      · cases machine.threads.takeReady with
        | mk next threads => cases next <;> rfl

theorem moves_residue (hosts : residue.Hosts machine) :
    moves natives fuel (residue.machine machine) = (moves natives fuel machine).map residue.machine ∧
      ∀ after, moves natives fuel machine = some after → residue.Hosts after := by
  induction fuel generalizing machine with
  | zero => exact ⟨rfl, fun after ended => absurd ended.symm (Option.some_ne_none after)⟩
  | succ fuel hypothesis =>
      rw [moves, moves, Residue.state_machine]
      split
      · next running =>
          obtain ⟨same, later⟩ := move_residue honest discreet hosts running
          rw [same]
          exact hypothesis later
      · refine ⟨rfl, ?_⟩
        rintro _ ⟨⟩
        exact hosts

theorem drain_residue (hosts : residue.Hosts machine.begin) :
    residue.Agrees (machine.drain natives fuel) ((residue.machine machine).drain natives fuel) := by
  obtain ⟨same, later⟩ := moves_residue honest discreet fuel hosts
  constructor
  · show (moves natives fuel (residue.machine machine.begin)).map _ = _
    rw [same, drain]
    cases moves natives fuel machine.begin <;> rfl
  · intro result after ended
    obtain ⟨_, moved, same⟩ := Option.map_eq_some_iff.mp ended
    cases same
    exact later _ moved

theorem run_residue (hosts : residue.Hosts machine) :
    residue.Agrees (machine.run natives fuel) ((residue.machine machine).run natives fuel) := by
  unfold run
  rw [start_residue hosts]
  cases begun : machine.start with
  | error error => exact .done _ hosts
  | ok started => exact drain_residue honest discreet fuel (hosts.changes (start_changes begun))

theorem resume_residue (hosts : residue.Hosts machine) :
    residue.Agrees (machine.resume natives fuel) ((residue.machine machine).resume natives fuel) := by
  have ticks (begun : machine.state = .suspended ∨ machine.state = .finished) :
      residue.Agrees (if machine.stopped then some (.ok .finished, machine)
          else machine.tick.drain natives fuel)
        (if machine.stopped then some (.ok .finished, residue.machine machine)
          else (residue.machine machine).tick.drain natives fuel) := by
    split
    · exact .done _ hosts
    · next going =>
        have tick : Change (fun _ => True) machine machine.tick.begin :=
          .tick begun (Bool.not_eq_true _ ▸ going)
        exact drain_residue honest discreet fuel (hosts.changes (.single tick))
  unfold resume
  rw [Residue.state_machine, Residue.stopped_machine]
  cases state : machine.state with
  | idle => exact .done _ hosts
  | running => exact .done _ hosts
  | suspended => exact ticks (.inl state)
  | finished => exact ticks (.inr state)

theorem deliver_residue (hosts : residue.Hosts machine)
    (begun : machine.state = .suspended ∨ machine.state = .finished) {event : String}
    {id : BlockId} {arguments : List Value}
    (handled : machine.handler event arguments.length = .ok id) :
    residue.Agrees (machine.deliver natives fuel event id arguments)
      ((residue.machine machine).deliver natives fuel event id arguments) := by
  have echo := Action.echoesAt_spawnHandler hosts.suits hosts.steady.holds_globals event id arguments
  have keeps := keeps_spawnHandler event id arguments machine rfl
  have resting : machine.state ≠ .running := by
    rcases begun with suspended | finished <;> simp_all
  dsimp only [EchoesAt] at echo
  unfold deliver
  cases ran : (Action.spawnHandler event id arguments).run machine with
  | ok result after =>
      rw [ran] at echo keeps
      generalize (Action.spawnHandler event id arguments).run _ = there at echo ⊢
      have entered := deliver_changes hosts.steady begun (not_stopped_of_handler handled) ran
      cases echo
      dsimp only
      rw [Residue.state_machine, keeps.1, if_neg resting, if_neg resting]
      exact drain_residue honest discreet fuel (hosts.changes entered)
  | error error after =>
      rw [ran] at echo keeps
      generalize (Action.spawnHandler event id arguments).run _ = there at echo ⊢
      have rejected := (reject_changes (fun _ _ => trivial) hosts.steady begun ran).1
      cases echo
      dsimp only
      rw [Residue.state_machine, keeps.1, if_neg resting, if_neg resting, fail_residue]
      exact .done _ (hosts.changes rejected)

theorem call_residue (hosts : residue.Hosts machine) (event : String) (arguments : List Value) :
    residue.Agrees (machine.call natives fuel event arguments)
      ((residue.machine machine).call natives fuel event arguments) := by
  by_cases running : machine.state = .running
  · have there : (residue.machine machine).state = .running := running
    obtain ⟨served, _⟩ :=
      machine.enqueue_served (fun _ _ => trivial) hosts.steady running event arguments
    rw [call_of_running fuel running, call_of_running fuel there, enqueue_residue hosts]
    exact .done _ (hosts.changes served.changes)
  · have handles : (residue.machine machine).handler event arguments.length =
        machine.handler event arguments.length := rfl
    unfold call
    rw [handles, Residue.state_machine]
    cases handled : machine.handler event arguments.length with
    | error error => exact .done _ hosts
    | ok id =>
        dsimp only
        split
        · have ran := run_residue honest discreet fuel hosts
          rw [ran.same]
          cases first : machine.run natives fuel with
          | none => exact .unfinished
          | some ended =>
              obtain ⟨result, between⟩ := ended
              have later := ran.hosts result between first
              cases result with
              | error error => exact .done _ later
              | ok outcome =>
                  simp only [Option.map_some, Prod.map_apply]
                  by_cases stopped : between.stopped
                  · have there : (residue.machine between).stopped := stopped
                    rw [if_pos stopped, if_pos there]
                    exact .done _ later
                  · have there : ¬ (residue.machine between).stopped := stopped
                    rw [if_neg stopped, if_neg there]
                    obtain ⟨path, rested⟩ := run_path running first
                    have changes := path.changes (fun _ _ => trivial) honest hosts.steady
                    have begun := begun_of_state rested
                      (run_begun (fun _ _ => trivial) honest hosts.steady first)
                    exact deliver_residue honest discreet fuel later begun
                      (handler_of_script handled changes.script (Bool.not_eq_true _ ▸ stopped))
        · next begun =>
            exact deliver_residue honest discreet fuel hosts (begun_of_state running begun) handled

end Machine

/-! Operations of the host. -/

theorem Argument.pass_residue (argument : Argument) (hosts : residue.Hosts machine) :
    argument.pass (residue.machine machine) =
        Prod.map (fun value => value) residue.machine (argument.pass machine) ∧
      residue.Hosts (argument.pass machine).2 := by
  cases argument with
  | fresh datum => exact ⟨rfl, hosts.quiet { Machine.Quiet.refl machine with }⟩
  | global slot => exact ⟨by simp only [pass, Machine.global?_residue, Prod.map_apply], hosts⟩

theorem Argument.passAll_residue (arguments : List Argument) (hosts : residue.Hosts machine) :
    passAll arguments (residue.machine machine) =
        Prod.map (fun values => values) residue.machine (passAll arguments machine) ∧
      residue.Hosts (passAll arguments machine).2 := by
  induction arguments generalizing machine with
  | nil => exact ⟨rfl, hosts⟩
  | cons argument rest hypothesis =>
      obtain ⟨same, passed⟩ := argument.pass_residue hosts
      obtain ⟨others, later⟩ := hypothesis passed
      refine ⟨?_, later⟩
      simp only [passAll, same, Prod.map_snd, Prod.map_fst, others]
      rfl

theorem Residue.Hosts.perform (hosts : residue.Hosts machine) (request : Request)
    (simple : request.isEntry = false) : residue.Hosts (request.perform machine).2 :=
  hosts.changes (request.perform_changes (fun _ _ => trivial) hosts.steady simple)

theorem Machine.overwriteGlobal_residue (slot : Nat) (source : Value)
    (hosts : residue.Hosts machine) :
    residue.Agrees (some (machine.overwriteGlobal slot source))
      (some ((residue.machine machine).overwriteGlobal slot source)) := by
  obtain ⟨same, concurs⟩ := Request.perform_residue hosts
    (.overwrite (machine.global? slot).join source)
  have there : (residue.machine machine).overwriteGlobal slot source =
      Prod.map (fun reply => reply) residue.machine (machine.overwriteGlobal slot source) := by
    rw [overwriteGlobal, global?_residue]
    exact Prod.ext concurs same
  have performed : residue.Hosts (machine.overwriteGlobal slot source).2 :=
    hosts.perform (.overwrite (machine.global? slot).join source) rfl
  rw [there]
  exact .done _ performed

section Sessions

variable (honest : natives.Honest fun _ => True) (discreet : natives.Discreet) (fuel : Nat)

include honest discreet

theorem Operation.perform_residue (operation : Operation) (hosts : residue.Hosts machine) :
    residue.Agrees (operation.perform (Machine.move natives) fuel machine)
      (operation.perform (Machine.move natives) fuel (residue.machine machine)) := by
  cases operation with
  | run =>
      simp only [perform, Machine.runBy_move]
      exact (Machine.run_residue honest discreet fuel hosts).map _
  | resume =>
      simp only [perform, Machine.resumeBy_move]
      exact (Machine.resume_residue honest discreet fuel hosts).map _
  | call event arguments =>
      obtain ⟨same, passed⟩ := Argument.passAll_residue arguments hosts
      simp only [perform, same, Machine.callBy_move, Prod.map_fst, Prod.map_snd]
      exact (Machine.call_residue honest discreet fuel passed event _).map _
  | stop => exact .done _ (hosts.perform .stop rfl)
  | raise text =>
      simp only [perform, Machine.raise_residue]
      exact .done _ (hosts.perform (.raise text) rfl)
  | terminate text =>
      simp only [perform, Machine.terminate_residue]
      exact .done _ (hosts.perform (.terminate text) rfl)
  | close thread =>
      simp only [perform, Machine.closeThread_residue residue machine hosts.steady.coherent.counted]
      exact .done _ (hosts.perform (.close thread) rfl)
  | overwrite slot source =>
      obtain ⟨same, passed⟩ := source.pass_residue hosts
      simp only [perform, same, Prod.map_fst, Prod.map_snd]
      exact (Machine.overwriteGlobal_residue slot _ passed).map Answer.overwritten
  | setData data => exact .done _ (hosts.perform (.setData data) rfl)
  | takeJournal => exact .done _ (hosts.quiet { Machine.Quiet.refl machine with })

/-- Whatever the host does, it sees the same. -/
theorem Machine.session_residue (operations : List Operation) (hosts : residue.Hosts machine) :
    residue.Agrees (session natives fuel operations machine)
      (session natives fuel operations (residue.machine machine)) := by
  induction operations generalizing machine with
  | nil => exact .done _ hosts
  | cons operation rest hypothesis =>
      have performed := operation.perform_residue honest discreet fuel hosts
      simp only [session, performed.same]
      cases first : operation.perform (move natives) fuel machine with
      | none => exact .unfinished
      | some ended =>
          obtain ⟨answer, after⟩ := ended
          simp only [Option.map_some, Prod.map_apply, Option.bind_eq_bind, Option.bind_some,
            report_residue]
          have later := hypothesis (performed.hosts answer after first)
          have told := later.map ((answer, after.report) :: ·)
          rw [Option.map_eq_bind, Option.map_eq_bind] at told
          exact told

end Sessions

end CoopScript
