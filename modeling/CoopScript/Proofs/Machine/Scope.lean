import CoopScript.Proofs.Actions.Footing
import CoopScript.Proofs.Machine.Session

/-!
Sessions in which hosts and native functions pass on only handles that they got, which name bodies
of the heap. Their machines stay grounded.
-/

namespace CoopScript

open Machine (Grounded Knows Transition)

/-- A routine that, beginning in this machine, passes on only handles that the heap has. -/
def Routine.Faithful : Routine (Except MachineError Value) → Machine → Prop
  | .done result, machine => ∀ value, result = .ok value → machine.heap.Has value
  | .ask request next, machine =>
    (∀ handle ∈ request.handles, machine.heap.Has handle) ∧
      (next (request.perform machine).1).Faithful (request.perform machine).2

/-- The native functions pass on only handles that the heap has, since they cannot make any up. -/
def Natives.Faithful (natives : Natives) : Prop :=
  ∀ native ∈ natives, ∀ (arguments : List Value) (machine : Machine), machine.Grounded →
    (∀ value ∈ arguments, machine.heap.Has value) → (native.body arguments).Faithful machine

/-- A machine of a program in a session whose host hands over only handles that the heap has. -/
inductive Machine.Faithful (program : Program) (limits : Limits) : Machine → Prop
  | initial : Faithful program limits (program.machine limits)
  | step {machine after : Machine} {handed : List Value} : Faithful program limits machine →
      Transition program.natives handed machine after →
      (∀ handle ∈ handed, machine.heap.Has handle) → Faithful program limits after

variable {machine after : Machine} {natives : Natives} {known : Set Value} {number : ThreadId}
  {program : Program} {limits : Limits} {handed : List Value}

namespace Machine

theorem Faithful.reachable (faithful : machine.Faithful program limits) :
    Reachable program limits machine := by
  induction faithful with
  | initial => exact .initial
  | step _ transition _ hypothesis => exact hypothesis.step transition

namespace Grounded

theorem of_eq (grounded : machine.Grounded) (heap : after.heap = machine.heap)
    (frames : after.frames = machine.frames) : after.Grounded :=
  (@Knows.of_eq machine after ∅ ⟨grounded, nofun⟩ heap frames).grounded

theorem fail (grounded : machine.Grounded) (error : MachineError) : (machine.fail error).Grounded :=
  grounded.of_eq (heap_fail ..) (frames_fail ..)

theorem setFrames (grounded : machine.Grounded) {frames : FrameArena}
    (within : frames.Within {value | machine.heap.Has value}) : { machine with frames }.Grounded :=
  ⟨grounded.sound, within⟩

theorem setHeap (grounded : machine.Grounded) {heap : Heap} (sound : heap.Sound)
    (size : machine.heap.size ≤ heap.size) : { machine with heap }.Grounded :=
  (@Knows.setHeap machine ∅ ⟨grounded, nofun⟩ heap sound size).grounded

theorem closeThread (grounded : machine.Grounded) (id : ThreadId) :
    (machine.closeThread id).2.Grounded := by
  unfold Machine.closeThread
  split
  · exact grounded
  · next thread _ =>
      have within (entries : List (FrameId × Frame)) {arena : FrameArena}
          (before : arena.Within {value | machine.heap.Has value}) :
          (entries.foldl (fun arena entry => arena.retire entry.1) arena).Within
            {value | machine.heap.Has value} := by
        induction entries generalizing arena with
        | nil => exact before
        | cons entry rest hypothesis => exact hypothesis (before.retire entry.1)
      exact (grounded.setFrames (within _ grounded.within)).of_eq rfl rfl

theorem settle (grounded : machine.Grounded) : machine.settle.Grounded := grounded.of_eq rfl rfl

theorem endSlice (grounded : machine.Grounded) (id : ThreadId) (slice : Slice) :
    (machine.endSlice id slice).Grounded := by
  cases slice <;> exact grounded.of_eq rfl rfl

end Grounded

end Machine

/-! Requests. -/

theorem Action.grounds_spawnHandler (event : String) (id : BlockId) {arguments : List Value}
    (held : ∀ value ∈ arguments, value ∈ known) : (spawnHandler event id arguments).Grounds known :=
  grounds_get.bind fun _ => (grounds_launch _ id fun value inside => .inl (held value inside)).bind
    fun _ => grounds_log _

/-- A machine that is handed what its heap has stays grounded. -/
theorem Request.grounded_perform (request : Request) (grounded : machine.Grounded)
    (given : ∀ handle ∈ request.handles, machine.heap.Has handle) :
    (request.perform machine).2.Grounded := by
  cases request with
  | run => exact grounded
  | resume => exact grounded
  | call event arguments =>
      simp only [perform, Machine.enqueue]
      have knows : machine.Knows {value | value ∈ arguments} := ⟨grounded, given⟩
      split
      · exact grounded
      · next id _ =>
          have spawns : (Action.spawnHandler event id arguments).Grounds {value | value ∈ arguments} :=
            Action.grounds_spawnHandler event id fun _ inside => inside
          split
          · next run => exact (spawns.ok knows run).grounded
          · next run => exact spawns.error knows run
  | stop => exact grounded.of_eq rfl rfl
  | raise text => exact (grounded.fail _).of_eq rfl rfl
  | terminate text =>
      have marked : { machine with terminated := true }.Grounded := grounded.of_eq rfl rfl
      exact (marked.fail _).of_eq rfl rfl
  | close id => exact grounded.closeThread id
  | inspect => exact grounded
  | allocate datum =>
      have made := Heap.made_build datum machine.heap grounded.sound
      exact grounded.setHeap made.sound made.extended.size
  | overwrite target source =>
      simp only [perform, Heap.overwrite]
      cases overwrites : machine.heap.overwritten target source with
      | error cause => exact grounded
      | ok id =>
          obtain ⟨rfl, body, found⟩ := Heap.body?_of_overwritten overwrites
          have replaces := Heap.replaces_takeOver grounded.sound (given _ List.mem_cons_self) found
          exact grounded.setHeap replaces.sound replaces.size
  | setData data => exact grounded.of_eq rfl rfl
  | note text => exact grounded.of_eq rfl rfl

/-- A faithful routine keeps the machine grounded and returns a value that the heap has. -/
theorem Routine.Faithful.play {routine : Routine (Except MachineError Value)}
    (faithful : routine.Faithful machine) (grounded : machine.Grounded) :
    (routine.play machine).2.Grounded ∧ ∀ value, (routine.play machine).1 = .ok value →
      (routine.play machine).2.heap.Has value := by
  induction routine generalizing machine with
  | done result => exact ⟨grounded, faithful⟩
  | ask request next hypothesis =>
      obtain ⟨given, later⟩ := faithful
      exact hypothesis _ later (request.grounded_perform grounded given)

/-! Moves. -/

namespace Action

/-- From grounded machines the action leads to grounded machines, whether it fails or not. -/
def Secure {α : Type} (action : Action α) : Prop :=
  action.Ensures Grounded (fun _ => Grounded) fun _ => Grounded

theorem Grounds.secure {α : Type} {gives : α → Set Value} {action : Action α}
    (grounds : action.Grounds ∅ gives) : action.Secure :=
  Ensures.weaken grounds (fun _ grounded => ⟨grounded, nofun⟩) (fun _ _ knows => knows.grounded)
    fun _ _ => id

theorem Secure.bind {α β : Type} {action : Action α} {next : α → Action β} (first : action.Secure)
    (rest : ∀ result, (next result).Secure) : (action >>= next).Secure :=
  Ensures.bind first rest

variable (faithful : natives.Faithful)

include faithful

/-- The routine of a native function begins in a grounded machine that has its arguments. -/
theorem prepareNative_faithful (frame : FrameId) (native : NativeId) (count : Nat) :
    (prepareNative natives frame native count).Ensures Grounded
      (fun routine machine => machine.Grounded ∧ routine.Faithful machine) fun _ => Grounded := by
  rcases prepareNative_cases natives frame native count with
    missing | ⟨native, inside, ⟨_, refused⟩ | prepares⟩
  · rw [missing]
    exact .throw fun _ => id
  · rw [refused]
    exact .throw fun _ => id
  · rw [prepares]
    have popped := Ensures.weaken (@grounds_popMany ∅ frame count)
      (fun _ grounded => ⟨grounded, by simp⟩) (fun _ _ => id) fun _ _ => id
    apply popped.bind
    intro arguments
    refine Ensures.bind (grounds_log _) fun _ => .pure fun machine knows => ⟨knows.grounded, ?_⟩
    apply faithful native inside arguments machine knows.grounded
    exact fun value among => knows.has value (.inl (.inr among))

omit faithful in
theorem grounds_concludeNative (number : ThreadId) (frame : FrameId) (pushesResult : Bool)
    (value : Value) :
    (concludeNative number frame pushesResult (.ok value)).Grounds {value} := by
  simp only [concludeNative, ofResult, pure_bind]
  apply grounds_get.bind
  intro machine
  split
  · exact grounds_pure (Set.empty_subset _)
  · split
    · exact grounds_pure (Set.empty_subset _)
    · split
      · exact (grounds_push (.inl rfl)).going
      · exact grounds_pure (Set.empty_subset _)

theorem callNative_secure (number : ThreadId) (frame : FrameId) (native : NativeId) (count : Nat)
    (pushesResult : Bool) : (callNative natives number frame native count pushesResult).Secure := by
  refine Ensures.bind (prepareNative_faithful faithful frame native count) fun routine => ?_
  have played : (modifyGet routine.play : Action (Except MachineError Value)).Ensures
      (fun machine => machine.Grounded ∧ routine.Faithful machine)
      (fun result machine => machine.Grounded ∧ ∀ value, result = .ok value → machine.heap.Has value)
      fun _ => Grounded := fun _ begun => begun.2.play begun.1
  apply played.bind
  intro result
  cases result with
  | error error => exact fun _ ended => ended.1
  | ok value =>
      refine Ensures.weaken (grounds_concludeNative number frame pushesResult value) ?_
        (fun _ _ knows => knows.grounded) fun _ _ => id
      intro machine ended
      refine ⟨ended.1, fun other same => ?_⟩
      rw [Set.mem_singleton_iff.mp same]
      exact ended.2 value rfl

theorem execute_secure (number : ThreadId) (frame : FrameId) (instruction : Instruction) :
    (execute natives number frame instruction).Secure := by
  have called (callee : Callee) (count : Nat) (pushesResult : Bool) :
      (call natives number frame callee count pushesResult).Secure := by
    cases callee with
    | native id => exact callNative_secure faithful number frame id count pushesResult
    | block id => exact (grounds_callBlock number frame id count pushesResult).secure
  cases simple : instruction.call? with
  | none => exact (grounds_execute natives number frame simple).secure
  | some site =>
      obtain ⟨callee, count, pushesResult⟩ := site
      rw [execute_call simple]
      exact called callee count pushesResult

/-- A step of a thread keeps a grounded machine grounded. -/
theorem advance_secure (number : ThreadId) : (advance natives number).Secure := by
  have ended (slice : Option Slice) : (pure slice : Action (Option Slice)).Secure :=
    .pure fun _ => id
  apply grounds_get.secure.bind
  intro machine
  split
  · exact ended _
  · split
    · exact ended _
    · next thread _ =>
        apply (grounds_fetch thread.current).secure.bind
        intro fetched
        split
        · apply (grounds_leave number).secure.bind
          intro gone
          split
          · exact ended _
          · exact ended _
        · exact execute_secure faithful number thread.current _

end Action

namespace Machine

theorem Grounded.afterStep {step : Action (Option Slice)} (secure : step.Secure)
    (grounded : machine.Grounded) : (afterStep number (step.run machine)).Grounded := by
  cases ran : step.run machine with
  | error error after => exact ((secure.error grounded ran).fail error).settle
  | ok slice after =>
      have ended := secure.ok grounded ran
      cases slice with
      | none => exact ended
      | some slice => exact ended.endSlice number slice

theorem Grounded.move (faithful : natives.Faithful) (grounded : machine.Grounded) :
    (machine.move natives).Grounded := by
  unfold Machine.move
  split
  · split
    · exact grounded.settle
    · split
      · exact grounded.of_eq rfl rfl
      · exact Grounded.settle (grounded.of_eq rfl rfl)
  · exact grounded.afterStep (Action.advance_secure faithful _)

theorem Grounded.transition (faithful : natives.Faithful) (grounded : machine.Grounded)
    (transition : Transition natives handed machine after)
    (given : ∀ handle ∈ handed, machine.heap.Has handle) : after.Grounded := by
  have spawns (event : String) (id : BlockId) :
      (Action.spawnHandler event id handed).Grounds {value | value ∈ handed} :=
    Action.grounds_spawnHandler event id fun _ inside => inside
  have knows : machine.Knows {value | value ∈ handed} := ⟨grounded, given⟩
  cases transition with
  | move => exact grounded.move faithful
  | start begun =>
      obtain ⟨_, _, main, block, _, rfl⟩ := started_of_start begun
      have within : (machine.frames.allocate (.activate none main block [])).2.Within
          {value | machine.heap.Has value} := by
        apply grounded.within.allocate
        intro value held
        rcases Action.mem_values_activate held with rfl | given
        · exact machine.heap.has_none
        · cases given
      exact (grounded.setFrames (within.pin _)).of_eq rfl rfl
  | tick => exact grounded.of_eq rfl rfl
  | deliver _ _ spawned => exact ((spawns _ _).ok knows spawned).grounded.of_eq rfl rfl
  | reject _ _ refused => exact (((spawns _ _).error knows refused).fail _).of_eq rfl rfl
  | operate request => exact request.grounded_perform grounded given
  | clear => exact grounded.of_eq rfl rfl

/-- Moves of a running machine. -/
theorem Faithful.iterate (session : machine.Faithful program limits) (count : Nat)
    (running : ∀ before < count, ((Machine.move program.natives)^[before] machine).state = .running) :
    ((Machine.move program.natives)^[count] machine).Faithful program limits :=
  iterate_move session count fun before less earlier => earlier.step (.move (running before less)) nofun

/-- The machines of a faithful session are grounded. -/
theorem Faithful.grounded (faithful : program.natives.Faithful)
    (session : machine.Faithful program limits) : machine.Grounded := by
  induction session with
  | initial => exact ⟨Heap.sound_empty, .empty _⟩
  | step _ transition given hypothesis => exact hypothesis.transition faithful transition given

end Machine

end CoopScript
