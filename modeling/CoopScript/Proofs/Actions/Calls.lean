import CoopScript.Proofs.Actions.Instructions

/-!
The actions that take frames and threads in and let them go: calls of blocks, microthreads, and the
return to the caller. Each is a sequence of changes of a steady machine.
-/

namespace CoopScript

open FrameArena MachineError
open Coherent (Fits)

namespace Machine

/-- One change after another. -/
abbrev Changes (allowed : MachineError → Prop) : Machine → Machine → Prop :=
  Relation.ReflTransGen (Change allowed)

/-- A steady machine that executes a thread. -/
structure Executing (allowed : MachineError → Prop) (machine : Machine) (number : ThreadId)
    (entry : Thread) : Prop where
  steady : machine.Steady allowed
  current : machine.current = some number
  found : machine.threads.find? number = some entry

variable {allowed : MachineError → Prop} {machine after : Machine} {number : ThreadId}
  {entry : Thread}

theorem Executing.quiet (executing : machine.Executing allowed number entry)
    (quiet : machine.Quiet after) : after.Executing allowed number entry where
  steady := executing.steady.quiet quiet
  current := quiet.current.trans executing.current
  found := by
    rw [quiet.threads]
    exact executing.found

/-- A frame of the machine is alive around or at the end of a chain of parents, if it is given. -/
def Holds (machine : Machine) (id : Option FrameId) : Prop :=
  ∀ outer, id = some outer → ∃ frame, machine.frames.frame? outer = some frame

theorem Executing.holds_current (executing : machine.Executing allowed number entry) :
    machine.Holds (some entry.current) := by
  intro _ equal
  cases equal
  obtain ⟨frame, live, _⟩ := executing.steady.coherent.live_current executing.found
  exact ⟨frame, live⟩

theorem Steady.holds_globals (steady : machine.Steady allowed) : machine.Holds machine.globals := by
  intro outer named
  obtain ⟨frame, live, _⟩ := steady.coherent.outermost outer named
  exact ⟨frame, live⟩

end Machine

namespace Action

open Machine (Change Changes Executing Steady Holds)

variable {α β : Type} {allowed : MachineError → Prop} {machine after : Machine}
  {number : ThreadId} {entry : Thread} {good : α → Machine → Prop}

/-- From this machine on, the action is a sequence of changes, keeps the current thread its turn,
and fails with allowed errors only. -/
def Achieves (action : Action α) (allowed : MachineError → Prop) (machine : Machine)
    (good : α → Machine → Prop) : Prop :=
  action.Ensures (machine = ·)
    (fun result after => Changes allowed machine after ∧ after.state = machine.state ∧
      after.current = machine.current ∧ good result after)
    fun error after => Changes allowed machine after ∧ after.state = machine.state ∧
      after.current = machine.current ∧ allowed error

theorem Achieves.pure {result : α} (holds : good result machine) :
    Achieves (Pure.pure result) allowed machine good := by
  intro _ equal
  subst equal
  exact ⟨.refl, rfl, rfl, holds⟩

theorem Achieves.get_bind {next : Machine → Action β} {good : β → Machine → Prop}
    (rest : (next machine).Achieves allowed machine good) :
    ((get : Action Machine) >>= next).Achieves allowed machine good := by
  intro _ equal
  subst equal
  exact rest machine rfl

theorem Achieves.weaken {action : Action α} {good' : α → Machine → Prop}
    (achieves : action.Achieves allowed machine good)
    (later : ∀ result after, good result after → good' result after) :
    action.Achieves allowed machine good' :=
  Ensures.weaken achieves (fun _ => id)
    (fun result after => And.imp_right (And.imp_right (And.imp_right (later result after))))
    fun _ _ => id

theorem Achieves.throw_bind {error : MachineError} {next : α → Action β}
    {good : β → Machine → Prop} (blame : allowed error) :
    Achieves (MonadExcept.throw error >>= next) allowed machine good := by
  intro _ equal
  subst equal
  exact ⟨.refl, rfl, rfl, blame⟩

/-- What an action achieves after some changes it achieves from where they began. -/
theorem Achieves.since {action : Action α} (achieves : action.Achieves allowed after good)
    (changes : Changes allowed machine after) (state : after.state = machine.state)
    (current : after.current = machine.current) :
    action.Ensures (after = ·)
      (fun result last => Changes allowed machine last ∧ last.state = machine.state ∧
        last.current = machine.current ∧ good result last)
      fun error last => Changes allowed machine last ∧ last.state = machine.state ∧
        last.current = machine.current ∧ allowed error := by
  refine Ensures.weaken achieves (fun _ => id) ?_ ?_
  · intro _ later given
    obtain ⟨more, states, currents, ended⟩ := given
    exact ⟨changes.trans more, states.trans state, currents.trans current, ended⟩
  · intro _ later given
    obtain ⟨more, states, currents, blame⟩ := given
    exact ⟨changes.trans more, states.trans state, currents.trans current, blame⟩

theorem Achieves.bind {action : Action α} {next : α → Action β} {good : β → Machine → Prop}
    {middle : α → Machine → Prop} (first : action.Achieves allowed machine middle)
    (rest : ∀ result after, Changes allowed machine after → after.state = machine.state →
      after.current = machine.current → middle result after →
      (next result).Achieves allowed after good) :
    (action >>= next).Achieves allowed machine good :=
  Ensures.bind first fun result after ⟨changes, state, current, holds⟩ =>
    (rest result after changes state current holds).since changes state current after rfl

/-- The machine's own errors are allowed. -/
theorem Calm.achieves {action : Action α} {sure : α → Prop} (calm : action.Calm machine sure)
    (own : ∀ error : MachineError, ¬ error.IsInternal → allowed error) :
    action.Achieves allowed machine fun result after => machine.Quiet after ∧ sure result := by
  refine Ensures.weaken calm ?_ ?_ ?_
  · intro _ equal
    subst equal
    exact Machine.Quiet.refl _
  · intro result after given
    obtain ⟨quiet, holds⟩ := given
    exact ⟨.single (.quiet quiet), quiet.state, quiet.current, quiet, holds⟩
  · intro error after given
    obtain ⟨quiet, sane⟩ := given
    exact ⟨.single (.quiet quiet), quiet.state, quiet.current, own error sane⟩

/-! New activations. -/

theorem fits_activate {parent : Option FrameId} {id : BlockId} {block : Block}
    {arguments : List Value} (found : machine.script.block? id = some block)
    (outside : machine.Holds parent) :
    Fits machine.script machine.frames (.activate parent id block arguments) where
  activates := ⟨block, found, rfl, rfl, rfl⟩
  unpinned := rfl
  running := rfl
  outside := outside

theorem run_block {id : BlockId} :
    (Action.block id).run machine =
      match machine.script.block? id with
      | some block => .ok block machine
      | none => .error (.unknownBlock id.index) machine := by
  simp only [Action.block, EStateM.run_bind, EStateM.run_get]
  cases machine.script.block? id <;> rfl

theorem run_frame {id : FrameId} {held : Frame} (found : machine.frames.frame? id = some held) :
    (frame id).run machine = .ok held machine := by
  simp only [frame, EStateM.run_bind, EStateM.run_get, get_of_frame? found]
  rfl

theorem run_setFrame (id : FrameId) (held : Frame) :
    (setFrame id held).run machine =
      .ok () { machine with frames := machine.frames.set id held } := rfl

theorem run_enter {parent : Option FrameId} {id : BlockId} {arguments : List Value} :
    (enter parent id arguments).run machine =
      match machine.script.block? id with
      | some block =>
        .ok (machine.frames.allocate (.activate parent id block arguments)).1
          { machine with
            frames := (machine.frames.allocate (.activate parent id block arguments)).2 }
      | none => .error (.unknownBlock id.index) machine := by
  simp only [enter, EStateM.run_bind, run_block]
  cases machine.script.block? id <;> rfl

/-- A new thread begins with a new frame, unless there are too many threads. -/
theorem run_launch {parent : Option FrameId} {id : BlockId} {arguments : List Value} :
    (launch parent id arguments).run machine =
      match machine.script.block? id with
      | some block =>
        let (root, frames) := machine.frames.allocate (.activate parent id block arguments)
        match machine.limits.maxThreads with
        | some limit =>
          if limit ≤ machine.threads.size then
            .error (.threadLimitExceeded limit) { machine with frames := frames.retire root }
          else
            .ok machine.threads.next
              { machine with frames, threads := (machine.threads.spawn root).2 }
        | none =>
          .ok machine.threads.next { machine with frames, threads := (machine.threads.spawn root).2 }
      | none => .error (.unknownBlock id.index) machine := by
  simp only [launch, EStateM.run_bind, run_enter]
  cases machine.script.block? id with
  | none => rfl
  | some block =>
      simp only [spawn, EStateM.run_bind, EStateM.run_get]
      cases machine.limits.maxThreads with
      | none => rfl
      | some limit =>
          dsimp only
          split <;> rfl

/-- The changes that a launch makes of a machine: the script has no such block, there are too many
threads, or the new thread stands in the queue. -/
theorem launch_cases {parent : Option FrameId} (outside : machine.Holds parent) (id : BlockId)
    (arguments : List Value) :
    (launch parent id arguments).run machine = .error (.unknownBlock id.index) machine ∨
    ∃ frame, Fits machine.script machine.frames frame ∧
      ((∃ limit, machine.limits.maxThreads = some limit ∧ limit ≤ machine.threads.size ∧
        (launch parent id arguments).run machine = .error (.threadLimitExceeded limit)
          { machine with
            frames := (machine.frames.allocate frame).2.retire (machine.frames.allocate frame).1 }) ∨
      (∀ limit, machine.limits.maxThreads = some limit → machine.threads.size < limit) ∧
        (launch parent id arguments).run machine = .ok machine.threads.next
          { machine with
            frames := (machine.frames.allocate frame).2
            threads := (machine.threads.spawn (machine.frames.allocate frame).1).2 }) := by
  rw [run_launch]
  cases found : machine.script.block? id with
  | none => exact .inl rfl
  | some block =>
      refine .inr ⟨.activate parent id block arguments, fits_activate found outside, ?_⟩
      cases maximum : machine.limits.maxThreads with
      | none => exact .inr ⟨nofun, rfl⟩
      | some limit =>
          dsimp only
          by_cases many : limit ≤ machine.threads.size
          · exact .inl ⟨limit, rfl, many, if_pos many⟩
          · refine .inr ⟨?_, if_neg many⟩
            intro _ equal
            cases equal
            omega

theorem run_popMany {id : FrameId} {held : Frame} (live : machine.frames.frame? id = some held)
    (count : Nat) : (popMany id count).run machine =
      if held.stack.length < count then .error .stackUnderflow machine
      else .ok (held.stack.take count).reverse { machine with
        frames := machine.frames.set id { held with stack := held.stack.drop count } } := by
  simp only [popMany, EStateM.run_bind, run_frame live, Frame.popMany]
  by_cases few : held.stack.length < count
  · rw [if_pos few, if_pos few]
    rfl
  · rw [if_neg few, if_neg few]
    rfl

/-- A call within the thread makes a new frame its current one, or it fails and changes nothing. -/
theorem run_descend (executing : machine.Executing allowed number entry) (id : BlockId)
    (arguments : List Value) (pushesResult : Bool) :
    (∃ error, ¬ error.IsInternal ∧
      (descend number entry.current id arguments pushesResult).run machine = .error error machine) ∨
    ∃ block child frames, machine.script.block? id = some block ∧
      entry.depth + 1 < machine.limits.maxCallDepth ∧
      (child, frames) =
        machine.frames.allocate (.activate (some entry.current) id block arguments) ∧
      (descend number entry.current id arguments pushesResult).run machine =
        .ok () { machine with
          frames := frames.set child { (Frame.activate (some entry.current) id block arguments) with
            activation := machine.frames.activations
            returnsResult := pushesResult }
          threads := machine.threads.update number fun thread => { thread with
            current := child
            depth := entry.depth + 1 } } := by
  simp only [descend, EStateM.run_bind, EStateM.run_get, executing.found, Option.map_some,
    Option.getD_some]
  by_cases deep : machine.limits.maxCallDepth ≤ entry.depth + 1
  · rw [if_pos deep]
    exact .inl ⟨_, not_isInternal rfl, rfl⟩
  · rw [if_neg deep]
    simp only [EStateM.run_bind, run_enter]
    cases named : machine.script.block? id with
    | none => exact .inl ⟨_, not_isInternal rfl, rfl⟩
    | some block =>
        have fits : Fits machine.script machine.frames
            (.activate (some entry.current) id block arguments) :=
          fits_activate named executing.holds_current
        have grown := executing.steady.coherent.counted.grown fits.outside
        have reached := run_frame (show { machine with
          frames := (machine.frames.allocate (.activate (some entry.current) id block arguments)).2
        }.frames.frame? _ = _ from grown.new)
        simp only [reached, run_setFrame]
        exact .inr ⟨block, _, _, rfl, not_le.mp deep, rfl, rfl⟩

/-- A call of a block takes the arguments and goes into the block, or lets a microthread do so. -/
theorem run_callBlock {id : FrameId} {held : Frame} (live : machine.frames.frame? id = some held)
    (number : ThreadId) (callee : BlockId) (count : Nat) (pushesResult : Bool) :
    (∃ error, ¬ error.IsInternal ∧
      (callBlock number id callee count pushesResult).run machine = .error error machine) ∨
    ∃ block, machine.script.block? callee = some block ∧ block.arguments = count ∧
      (pushesResult = true → block.kind = .function) ∧ count ≤ held.stack.length ∧
      (callBlock number id callee count pushesResult).run machine =
        (if block.kind = .microthread then do
          let spawned ← launch (some id) callee (held.stack.take count).reverse
          log (.microthreadSpawned spawned block.displayName)
          return none
        else do
          descend number id callee (held.stack.take count).reverse pushesResult
          return none : Action (Option Slice)).run { machine with
            frames := machine.frames.set id { held with stack := held.stack.drop count } } := by
  simp only [callBlock, EStateM.run_bind, run_block]
  cases named : machine.script.block? callee with
  | none => exact .inl ⟨_, not_isInternal rfl, rfl⟩
  | some block =>
      dsimp only
      by_cases few : block.arguments ≠ count
      · rw [if_pos few]
        exact .inl ⟨_, not_isInternal rfl, rfl⟩
      · rw [if_neg few]
        by_cases mute : (pushesResult && decide (block.kind ≠ .function)) = true
        · rw [if_pos mute]
          exact .inl ⟨_, not_isInternal rfl, rfl⟩
        · rw [if_neg mute]
          simp only [EStateM.run_bind, run_popMany live]
          by_cases lacking : held.stack.length < count
          · rw [if_pos lacking]
            exact .inl ⟨_, not_isInternal rfl, rfl⟩
          · rw [if_neg lacking]
            refine .inr ⟨block, rfl, not_not.mp few, by simpa using mute, not_lt.mp lacking, ?_⟩
            by_cases micro : block.kind = .microthread
            · simp only [if_pos micro, EStateM.run_bind]
            · simp only [if_neg micro, EStateM.run_bind]

section Calls

variable (own : ∀ error : MachineError, ¬ error.IsInternal → allowed error)

include own

theorem launch_achieves {parent : Option FrameId} {id : BlockId} {arguments : List Value}
    (running : machine.state = .running) (outside : machine.Holds parent) :
    (launch parent id arguments).Achieves allowed machine fun _ _ => True := by
  intro _ equal
  subst equal
  rcases launch_cases outside id arguments with
    missing | ⟨frame, fits, ⟨limit, maximum, many, run⟩ | ⟨few, run⟩⟩
  · rw [missing]
    exact ⟨.refl, rfl, rfl, own _ (not_isInternal rfl)⟩
  · rw [run]
    exact ⟨.single (.refuse fits maximum many), rfl, rfl,
      own _ (not_isInternal rfl)⟩
  · rw [run]
    exact ⟨.single (.spawn running fits few), rfl, rfl, trivial⟩

/-- A call within the thread, which may be only so deep. -/
theorem descend_achieves (executing : machine.Executing allowed number entry) (id : BlockId)
    (arguments : List Value) (pushesResult : Bool) :
    (descend number entry.current id arguments pushesResult).Achieves allowed machine
      fun _ _ => True := by
  intro _ equal
  subst equal
  rcases run_descend executing id arguments pushesResult with
    ⟨error, sane, failed⟩ | ⟨block, child, frames, named, shallow, allocated, ran⟩
  · rw [failed]
    exact ⟨.refl, rfl, rfl, own _ sane⟩
  · have fits : Fits machine.script machine.frames
        (.activate (some entry.current) id block arguments) :=
      fits_activate named executing.holds_current
    have grown := executing.steady.coherent.counted.grown fits.outside
    obtain ⟨rfl, rfl⟩ := Prod.mk_inj.mp allocated
    rw [ran]
    refine ⟨.tail (.single (.descend executing.current executing.found fits rfl shallow))
      (.quiet ?_), rfl, rfl, trivial⟩
    exact { Machine.Quiet.refl _ with frames := skeleton_set grown.new rfl }

/-- A call of a block, which a microthread executes beside the caller. -/
theorem callBlock_achieves (executing : machine.Executing allowed number entry) (id : BlockId)
    (count : Nat) (pushesResult : Bool) :
    (callBlock number entry.current id count pushesResult).Achieves allowed machine
      fun slice _ => slice = none := by
  obtain ⟨held, live, _⟩ := executing.steady.coherent.live_current executing.found
  intro _ equal
  subst equal
  rcases run_callBlock live number id count pushesResult with
    ⟨error, sane, failed⟩ | ⟨block, _, _, _, _, ran⟩
  · rw [failed]
    exact ⟨.refl, rfl, rfl, own _ sane⟩
  · rw [ran]
    let popped := { machine with
      frames := machine.frames.set entry.current { held with stack := held.stack.drop count } }
    have quiet : machine.Quiet popped :=
      { Machine.Quiet.refl machine with frames := skeleton_set live rfl }
    have going : popped.Executing allowed number entry := executing.quiet quiet
    have running := going.steady.current_running going.current
    have called : (if block.kind = .microthread then do
          let spawned ← launch (some entry.current) id (held.stack.take count).reverse
          log (.microthreadSpawned spawned block.displayName)
          return none
        else do
          descend number entry.current id (held.stack.take count).reverse pushesResult
          return none : Action (Option Slice)).Achieves allowed popped fun slice _ => slice = none := by
      split
      · apply (launch_achieves own running going.holds_current).bind
        intro spawned last _ _ _ _
        apply ((calm_log _).achieves own).bind
        intro _ _ _ _ _ _
        exact .pure rfl
      · apply (descend_achieves own going id _ pushesResult).bind
        intro _ _ _ _ _ _
        exact .pure rfl
    exact called.since (.single (.quiet quiet)) rfl rfl popped rfl

omit own in
/-- A thread returns to the frame around its current one, which may get a value. -/
theorem ascend_achieves (executing : machine.Executing allowed number entry)
    (inner : entry.current ≠ entry.root) {frame : Frame} {parent : FrameId}
    (live : machine.frames.frame? entry.current = some frame) (named : frame.parent = some parent)
    (passes : Bool) (value : Value) :
    (do
      retire entry.current
      if passes then push parent value
      updateThread number fun thread => { thread with current := parent, depth := thread.depth - 1 }
      return false : Action Bool).Achieves allowed machine fun ended after =>
        ended = true → number ∉ after.threads.ids := by
  intro _ equal
  subst equal
  have ascend := @Change.ascend allowed machine _ _ _ _ executing.current executing.found inner live named
  obtain ⟨_, names, different, ⟨around, outside, runs⟩, _⟩ :=
    executing.steady.coherent.ascend executing.found inner live
  rw [named] at names
  cases names
  cases passes with
  | false => exact ⟨.single ascend, rfl, rfl, nofun⟩
  | true =>
      obtain ⟨pins, kept⟩ := retire_kept live different outside runs
      have reached := run_frame (show { machine with
        frames := machine.frames.retire entry.current }.frames.frame? parent = _ from kept)
      simp only [if_true, EStateM.run_bind, retire, EStateM.run_modify, push, reached]
      refine ⟨.tail (.single ascend) (.quiet ?_), rfl, rfl, nofun⟩
      exact { Machine.Quiet.refl _ with frames := skeleton_set kept rfl }

/-- The return from the current frame of a thread, or the end of the thread. -/
theorem leave_achieves (executing : machine.Executing allowed number entry) :
    (leave number).Achieves allowed machine fun ended after =>
      ended = true → number ∉ after.threads.ids := by
  apply ((calm_thread executing.found).achieves own).bind
  intro held after _ _ _ early
  obtain ⟨quiet, rfl⟩ := early
  have going := executing.quiet quiet
  split
  · next last =>
      intro _ equal
      subst equal
      refine ⟨.single (.finish going.current going.found last), rfl, rfl, fun _ inside => ?_⟩
      rw [ThreadSet.ids_remove] at inside
      simpa using (List.mem_filter.mp inside).2
  · next inner =>
      obtain ⟨before, live, _⟩ := going.steady.coherent.live_current going.found
      obtain ⟨around, outward, _⟩ := going.steady.coherent.ascend going.found inner live
      apply ((calm_frame live).achieves own).bind
      intro now _ _ _ _ late
      obtain ⟨still, alike⟩ := late
      have names : now.parent = some around := (congrArg (·.parent) alike).trans outward
      have returned {machine : Machine} (quiet : after.Quiet machine) (passes : Bool) :=
        have ⟨_, there, same⟩ := frame?_of_skeleton quiet.frames live
        ascend_achieves (going.quiet quiet) inner there
          ((congrArg Frame.parent same).trans outward) passes now.result
      split
      · next missing =>
          rw [names] at missing
          cases missing
      · next parent named =>
          rw [names] at named
          cases named
          split
          · obtain ⟨_, there, same⟩ := frame?_of_skeleton still.frames live
            have calm := calm_setFrame there (show Frame.skeleton { now with result := none } = _ from
              alike.trans same.symm)
            refine (calm.achieves own).bind ?_
            intro _ _ _ _ _ given
            obtain ⟨emptied, _⟩ := given
            exact returned (still.trans emptied) true
          · exact returned still false

end Calls

end Action

end CoopScript
