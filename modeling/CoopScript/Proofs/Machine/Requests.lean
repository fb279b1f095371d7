import CoopScript.Machine.Reply
import CoopScript.Proofs.Actions.Calls
import CoopScript.Proofs.Frames.Stack

/-!
What native functions and the host do to a machine through its public operations.
-/

namespace CoopScript

open FrameArena MachineError Machine

variable {allowed : MachineError → Prop} {machine after : Machine}

/-! Closing a thread. -/

namespace Machine

/-- Machines whose frames have the same parents find the same frames of a thread. -/
theorem chain_map {other : Machine} {change : Frame → Frame}
    (frames : ∀ id, other.frames.frame? id = (machine.frames.frame? id).map change)
    (parents : ∀ frame, (change frame).parent = frame.parent) (root : FrameId) (fuel : Nat)
    (id : FrameId) (inner : List (FrameId × Frame)) :
    other.chain root fuel id (inner.map fun entry => (entry.1, change entry.2)) =
      (machine.chain root fuel id inner).map fun entry => (entry.1, change entry.2) := by
  induction fuel generalizing id inner with
  | zero => rfl
  | succ fuel hypothesis =>
      simp only [chain, frames]
      cases machine.frames.frame? id with
      | none => rfl
      | some frame =>
          simp only [Option.map_some, parents]
          split
          · rfl
          · cases frame.parent with
            | none => rfl
            | some parent => exact hypothesis parent ((id, frame) :: inner)

/-- The frames of a thread are its call stack, outermost first. -/
theorem chain_eq {root id : FrameId} {stack : CallStack}
    (whole : machine.frames.Stack root id stack) (fuel : Nat) (enough : stack.length ≤ fuel)
    (inner : List (FrameId × Frame)) :
    ∃ frames : List (FrameId × Frame), machine.chain root fuel id inner = frames ++ inner ∧
      frames.map (fun entry => (entry.1, entry.2.control)) = stack.reverse := by
  induction whole generalizing fuel inner with
  | @root shown found _ =>
      obtain ⟨frame, live, rfl⟩ := control?_eq_some_iff.mp found
      cases fuel with
      | zero => simp at enough
      | succ fuel =>
          rw [Machine.chain, live]
          simp only [if_true]
          exact ⟨[(root, frame)], rfl, rfl⟩
  | @inner id parent shown outer found _ different named _ hypothesis =>
      obtain ⟨frame, live, rfl⟩ := control?_eq_some_iff.mp found
      cases fuel with
      | zero => simp at enough
      | succ fuel =>
          obtain ⟨frames, same, names⟩ :=
            hypothesis fuel (by simpa using enough) ((id, frame) :: inner)
          have parent : frame.parent = some parent := named
          rw [Machine.chain, live]
          simp only [if_neg different, parent]
          exact ⟨frames ++ [(id, frame)], by simp [same], by simp [names]⟩

/-- A steady machine finds all frames of a thread. -/
theorem Steady.threadFrames_eq (steady : machine.Steady allowed) {id : ThreadId} {thread : Thread}
    (found : machine.threads.find? id = some thread) {stack : CallStack}
    (whole : machine.frames.Stack thread.root thread.current stack) :
    (machine.threadFrames thread).map (fun entry => (entry.1, entry.2.control)) = stack.reverse := by
  obtain ⟨chain, outward, length⟩ := steady.coherent.chain id thread found
  rw [outward.unique whole.chain, List.length_map] at length
  obtain ⟨frames, same, shown⟩ := chain_eq whole (thread.depth + 1) length.le []
  rw [threadFrames, same, List.append_nil, shown]

/-- A closed thread is gone, and its frames retire from the current one outward. -/
theorem closeThread_eq (steady : machine.Steady allowed) {id : ThreadId} {thread : Thread}
    (found : machine.threads.find? id = some thread) :
    ∃ chain, machine.frames.Chain thread.root thread.current chain ∧
      (machine.closeThread id).2 = { machine with
        frames := chain.foldl FrameArena.retire machine.frames
        threads := machine.threads.remove id }.log (.threadClosed id) := by
  obtain ⟨chain, outward, _⟩ := steady.coherent.chain id thread found
  obtain ⟨stack, whole, rfl⟩ := outward.stack
  have names := congrArg (List.map (·.1)) (steady.threadFrames_eq found whole)
  rw [List.map_map, List.map_reverse] at names
  have closed : (machine.threadFrames thread).reverse.foldl
      (fun arena entry => arena.retire entry.1) machine.frames =
        (stack.map (·.1)).foldl FrameArena.retire machine.frames := by
    rw [← List.reverse_reverse (stack.map (·.1)), ← names, ← List.map_reverse, List.foldl_map]
    rfl
  refine ⟨_, outward, ?_⟩
  simp only [closeThread, found, closed]

theorem closeThread_changes (steady : machine.Steady allowed) (id : ThreadId) :
    Changes allowed machine (machine.closeThread id).2 := by
  cases found : machine.threads.find? id with
  | none =>
      simp only [closeThread, found]
      exact .refl
  | some thread =>
      obtain ⟨chain, whole, closed⟩ := closeThread_eq steady found
      rw [closed]
      refine .tail (.single (.close found whole)) (.quiet ?_)
      exact { Machine.Quiet.refl _ with }

theorem find?_closeThread (machine : Machine) (id other : ThreadId) :
    (machine.closeThread id).2.threads.find? other = machine.threads.find? other ∨
      (machine.closeThread id).2.threads.find? other = none := by
  unfold closeThread
  split
  · exact .inl rfl
  · simp only [log, ThreadSet.find?_remove]
    by_cases same : other = id
    · exact .inr (same ▸ Function.update_self ..)
    · exact .inl (Function.update_of_ne same ..)

section

variable (machine : Machine) (id : ThreadId)

@[simp] theorem state_closeThread : (machine.closeThread id).2.state = machine.state := by
  unfold closeThread
  split <;> rfl

@[simp] theorem current_closeThread : (machine.closeThread id).2.current = machine.current := by
  unfold closeThread
  split <;> rfl

@[simp] theorem next_closeThread :
    (machine.closeThread id).2.threads.next = machine.threads.next := by
  unfold closeThread
  split <;> rfl

end

end Machine

/-! Requests. -/

/-- The requests that make a machine run. -/
def Request.isEntry : Request → Bool
  | run => true
  | resume => true
  | call _ _ => true
  | _ => false

/-- The handles that a request hands over to the machine. -/
def Request.handles : Request → List Value
  | call _ arguments => arguments
  | overwrite target source => [target, source]
  | _ => []

/-- Nothing of a reply blames the machine for more than is allowed. -/
def Request.Allows (allowed : MachineError → Prop) : (request : Request) → request.Reply → Prop
  | run, reply => ∀ error, reply = .error error → allowed error
  | resume, reply => ∀ error, reply = .error error → allowed error
  | call _ _, reply => ∀ error, reply = .error error → allowed error
  | inspect, reply => ∀ error, Machine.error reply = some error → allowed error
  | _, _ => True

/-- A routine that returns only errors that are allowed, as long as it hears of no others. -/
def Routine.Honest {α : Type} (allowed : MachineError → Prop) :
    Routine (Except MachineError α) → Prop
  | .done result => ∀ error, result = .error error → allowed error
  | .ask request next => ∀ reply, request.Allows allowed reply → (next reply).Honest allowed

/-- All native functions are honest. -/
def Natives.Honest (natives : Natives) (allowed : MachineError → Prop) : Prop :=
  ∀ native ∈ natives, ∀ arguments, (native.body arguments).Honest allowed

/-- Every routine is honest if every error is allowed. -/
theorem Routine.honest_of_forall {α : Type} (all : ∀ error, allowed error)
    (routine : Routine (Except MachineError α)) : routine.Honest allowed := by
  induction routine with
  | done result => exact fun error _ => all error
  | ask request next hypothesis => exact fun reply _ => hypothesis reply

/-- What a running machine goes through while it answers a native function. -/
structure Machine.Served (allowed : MachineError → Prop) (machine after : Machine) : Prop where
  changes : Changes allowed machine after
  state : after.state = machine.state
  current : after.current = machine.current
  next : machine.threads.next.number ≤ after.threads.next.number
  threads : ∀ id, id.number < machine.threads.next.number →
    after.threads.find? id = machine.threads.find? id ∨ after.threads.find? id = none

namespace Machine.Served

theorem refl (machine : Machine) : Served allowed machine machine :=
  ⟨.refl, rfl, rfl, le_rfl, fun _ _ => .inl rfl⟩

theorem trans {last : Machine} (early : Served allowed machine after)
    (late : Served allowed after last) : Served allowed machine last where
  changes := early.changes.trans late.changes
  state := late.state.trans early.state
  current := late.current.trans early.current
  next := early.next.trans late.next
  threads := by
    intro id old
    rcases late.threads id (old.trans_le early.next) with same | gone
    · rw [same]
      exact early.threads id old
    · exact .inr gone

theorem of_threads (changes : Changes allowed machine after) (state : after.state = machine.state)
    (current : after.current = machine.current) (threads : after.threads = machine.threads) :
    Served allowed machine after :=
  ⟨changes, state, current, threads ▸ le_rfl, fun _ _ => .inl (threads ▸ rfl)⟩

end Machine.Served

section Perform

variable (own : ∀ error : MachineError, ¬ error.IsInternal → allowed error)

include own

theorem Machine.handler_allowed {event : String} {count : Nat} {error : MachineError}
    (failed : machine.handler event count = .error error) : allowed error := by
  refine own error fun internal => ?_
  obtain ⟨description, rfl⟩ := internal.runtime
  unfold handler at failed
  split at failed
  · cases failed
  · split at failed
    · cases failed
    · split at failed
      · cases failed
      · split at failed <;> cases failed

omit own in
/-- What the call of a handler does beyond the launch of its thread. -/
theorem run_spawnHandler {event : String} {id : BlockId} {arguments : List Value} :
    (Action.spawnHandler event id arguments).run machine =
      match (Action.launch machine.globals id arguments).run machine with
      | .ok thread after => .ok () (after.log (.eventThreadSpawned event thread))
      | .error error after => .error error after := by
  simp only [Action.spawnHandler, EStateM.run_bind, EStateM.run_get]
  cases (Action.launch machine.globals id arguments).run machine <;> rfl

theorem Machine.enqueue_served (steady : machine.Steady allowed)
    (running : machine.state = .running) (event : String) (arguments : List Value) :
    Served allowed machine (machine.enqueue event arguments).2 ∧
      ∀ error, (machine.enqueue event arguments).1 = .error error → allowed error := by
  have limit (number : Nat) : ¬ (MachineError.threadLimitExceeded number).IsInternal :=
    not_isInternal rfl
  simp only [enqueue]
  cases handled : machine.handler event arguments.length with
  | error error =>
      refine ⟨.refl _, ?_⟩
      intro _ equal
      cases equal
      exact machine.handler_allowed own handled
  | ok id =>
      simp only [run_spawnHandler]
      rcases Action.launch_cases steady.holds_globals id arguments with
        missing | ⟨frame, fits, ⟨number, maximum, many, run⟩ | ⟨few, run⟩⟩
      · simp only [missing]
        refine ⟨.refl _, ?_⟩
        intro _ equal
        cases equal
        exact own _ (not_isInternal rfl)
      · simp only [run]
        refine ⟨.of_threads (.single (.refuse fits maximum many)) rfl rfl rfl, ?_⟩
        intro _ equal
        cases equal
        exact own _ (limit number)
      · simp only [run]
        refine ⟨⟨.tail (.single (.spawn running fits few)) (.quiet ?_), rfl, rfl, Nat.le_succ _,
          fun other old => ?_⟩, nofun⟩
        · exact { Machine.Quiet.refl _ with }
        · have different : other ≠ machine.threads.next := by
            intro equal
            subst equal
            exact Nat.lt_irrefl _ old
          refine .inl ?_
          simp only [log, ThreadSet.find?_spawn steady.balanced.find?_next]
          exact Function.update_of_ne different ..

/-- Operations that do not make a machine run are changes of any steady machine. -/
theorem Request.perform_changes (steady : machine.Steady allowed) {request : Request}
    (simple : request.isEntry = false) : Changes allowed machine (request.perform machine).2 := by
  have script (text : String) : allowed (.script text) :=
    own _ (not_isInternal rfl)
  have terminated (text : String) : allowed (.terminated text) :=
    own _ (not_isInternal rfl)
  have quietly {after : Machine} (quiet : machine.Quiet after) : Changes allowed machine after :=
    .single (.quiet quiet)
  cases request with
  | run => cases simple
  | resume => cases simple
  | call event arguments => cases simple
  | stop => exact .single .stop
  | raise text => exact .tail (.single (.fail (script text))) .stop
  | terminate text => exact .single (.terminate text (terminated text))
  | close id => exact closeThread_changes steady id
  | inspect => exact .refl
  | allocate datum => exact quietly { Machine.Quiet.refl machine with }
  | overwrite target source =>
      simp only [perform]
      split
      · exact quietly { Machine.Quiet.refl machine with }
      · exact .refl
  | setData data => exact quietly { Machine.Quiet.refl machine with }
  | note text => exact quietly { Machine.Quiet.refl machine with }

theorem Request.perform_served (steady : machine.Steady allowed)
    (running : machine.state = .running) (request : Request) :
    Served allowed machine (request.perform machine).2 ∧
      request.Allows allowed (request.perform machine).1 := by
  have changes (simple : request.isEntry = false) := perform_changes own steady simple
  have stop (machine : Machine) (running : machine.state = .running) :
      machine.stop.state = machine.state := by simp [Machine.stop, running]
  cases request with
  | run =>
      refine ⟨.refl _, ?_⟩
      intro _ equal
      cases equal
      exact own _ (not_isInternal rfl)
  | resume =>
      refine ⟨.refl _, ?_⟩
      intro _ equal
      cases equal
      exact own _ (not_isInternal rfl)
  | call event arguments => exact machine.enqueue_served own steady running event arguments
  | stop => exact ⟨.of_threads (changes rfl) (stop _ running) rfl rfl, trivial⟩
  | raise text =>
      exact ⟨.of_threads (changes rfl) ((stop _ (by simp [running])).trans (state_fail ..))
        (current_fail ..) (threads_fail ..), trivial⟩
  | terminate text =>
      exact ⟨.of_threads (changes rfl) ((stop _ (by simp [running])).trans (state_fail ..))
        (current_fail ..) (threads_fail ..), trivial⟩
  | close id =>
      exact ⟨⟨changes rfl, state_closeThread .., current_closeThread ..,
        (congrArg ThreadId.number (next_closeThread machine id)).ge,
        fun other _ => find?_closeThread machine id other⟩, trivial⟩
  | inspect => exact ⟨.refl _, steady.blameless⟩
  | allocate datum => exact ⟨.of_threads (changes rfl) rfl rfl rfl, trivial⟩
  | overwrite target source =>
      refine ⟨.of_threads (changes rfl) ?_ ?_ ?_, trivial⟩ <;>
        · simp only [perform]
          split <;> rfl
  | setData data => exact ⟨.of_threads (changes rfl) rfl rfl rfl, trivial⟩
  | note text => exact ⟨.of_threads (changes rfl) rfl rfl rfl, trivial⟩

/-- A routine is answered request by request. -/
theorem Routine.play_served {α : Type} (steady : machine.Steady allowed)
    (running : machine.state = .running) {routine : Routine (Except MachineError α)}
    (honest : routine.Honest allowed) :
    Served allowed machine (routine.play machine).2 ∧
      ∀ error, (routine.play machine).1 = .error error → allowed error := by
  induction routine generalizing machine with
  | done result => exact ⟨.refl _, honest⟩
  | ask request next hypothesis =>
      obtain ⟨served, allows⟩ := request.perform_served own steady running
      obtain ⟨later, blame⟩ := hypothesis _ (steady.changes served.changes)
        (served.state.trans running) (honest _ allows)
      exact ⟨served.trans later, blame⟩

end Perform

end CoopScript
