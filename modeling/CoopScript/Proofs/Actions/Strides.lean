import CoopScript.Proofs.Machine.Stride

/-!
Every instruction, and with it every step, takes its thread one stride on, and spares the other
threads.
-/

namespace CoopScript

open FrameArena MachineError

namespace Action

open Machine (Executing Spares Stacked)

variable {allowed : MachineError → Prop} {machine : Machine} {number : ThreadId} {entry : Thread}
  {id : FrameId} {frame : Frame} {outer : CallStack} {natives : Natives} {instruction : Instruction}

/-- What an instruction leaves of its thread and the other ones, whether it fails or not. -/
def Strides (action : Action (Option Slice)) (machine : Machine) (number : ThreadId)
    (instruction : Instruction) (stack : CallStack) : Prop :=
  action.Ensures (machine = ·)
    (fun _ after => Spares (some number) machine after ∧
      after.Continues number (instruction.Effect machine.script stack))
    fun _ after => after.currentLine = machine.currentLine ∧
      (instruction.breaks = false → after.Continues number (Machine.Restacks stack))

/-- Instructions that neither call nor unwind. -/
theorem plain_strides (executing : machine.Executing allowed number entry)
    (stacked : machine.Stacked number ((entry.current, frame) :: outer))
    (simple : instruction.call? = none) (plain : instruction.unwinds = false) :
    (execute natives number entry.current instruction).Strides machine number instruction
      ((entry.current, frame) :: outer) := by
  intro _ equal
  subst equal
  have altered := @execute_alters entry.current natives number _ simple plain machine machine (.refl _)
  cases ran : (execute natives number entry.current instruction).run machine with
  | ok slice after =>
      rw [ran] at altered
      obtain ⟨spares, position, operands, still⟩ :=
        executing.steady.works stacked altered
      exact ⟨spares, .inr ⟨_, still, .within plain⟩⟩
  | error error after =>
      rw [ran] at altered
      obtain ⟨spares, operands, still⟩ := executing.steady.restacks stacked altered
      exact ⟨spares.line, fun _ => .inr ⟨_, still, _, _, _, _, rfl, rfl⟩⟩

/-! Unwinding. -/

/-- A break of a loop leaves the line as it is, whether it fails or not. -/
theorem breakLoop_line (root : FrameId) (fuel : Nat) (id : FrameId) (line : Nat) :
    (breakLoop root fuel id).Ensures (·.currentLine = line) (fun _ after => after.currentLine = line)
      fun _ after => after.currentLine = line := by
  have reads (id : FrameId) : (Action.frame id).Ensures (·.currentLine = line)
      (fun _ after => after.currentLine = line) fun _ after => after.currentLine = line := by
    intro machine same
    simp only [Action.frame, EStateM.run_bind, EStateM.run_get]
    cases machine.frames.get id <;> exact same
  have sets (id : FrameId) (frame : Frame) : (setFrame id frame).Ensures (·.currentLine = line)
      (fun _ after => after.currentLine = line) fun _ after => after.currentLine = line :=
    .modify fun _ same => same
  induction fuel generalizing id with
  | zero => exact .throw fun _ same => same
  | succ fuel hypothesis =>
      refine (reads id).bind fun current => (sets id _).bind fun _ => ?_
      extract_lets next
      split
      · exact fun _ same => same
      · unfold next
        split
        · exact .throw fun _ same => same
        · next parent _ =>
            split
            · exact (reads parent).bind fun caller => sets parent _
            · exact hypothesis parent

theorem unwinds_strides (executing : machine.Executing allowed number entry)
    (stacked : machine.Stacked number ((entry.current, frame) :: outer))
    (unwinds : instruction.unwinds = true) :
    (execute natives number entry.current instruction).Strides machine number instruction
      ((entry.current, frame) :: outer) := by
  have steady := executing.steady
  obtain ⟨_, _, _, _, whole⟩ := stacked.current executing.found
  have distinct := whole.nodup steady.coherent.counted
  have looks : (Action.thread number).run machine = .ok entry machine := by
    simp only [Action.thread, EStateM.run_bind, EStateM.run_get, executing.found]
    rfl
  have rests {frames : FrameArena} {new : CallStack}
      (becomes : machine.frames.Becomes frames ((entry.current, frame) :: outer) new) :
      Spares (some number) machine { machine with frames } ∧
        { machine with frames }.Stacked number new := steady.rests stacked rfl rfl becomes
  intro _ equal
  subst equal
  cases instruction with
  | breakLoop =>
      have line := breakLoop_line entry.root (entry.depth + 1) entry.current _ machine rfl
      simp only [execute, EStateM.run_bind, looks]
      cases ran : (breakLoop entry.root (entry.depth + 1) entry.current).run machine with
      | ok result after =>
          obtain ⟨frames, new, rfl, ends, becomes⟩ := run_breakLoop whole distinct ran
          obtain ⟨spares, still⟩ := rests becomes
          exact ⟨spares, .inr ⟨new, still, .breakLoop ends⟩⟩
      | error error after =>
          rw [ran] at line
          exact ⟨line, by simp [Instruction.breaks]⟩
  | breakRoutine =>
      obtain ⟨chain, outward, length⟩ := steady.coherent.chain number entry executing.found
      have depth : ((entry.current, frame) :: outer).length ≤ entry.depth + 1 := by
        rw [← length, outward.unique whole.chain, List.length_map]
      obtain ⟨frames, ran, becomes⟩ := run_breakRoutine whole distinct depth
      obtain ⟨spares, still⟩ := rests becomes
      simp only [execute, EStateM.run_bind, looks, ran]
      exact ⟨spares, .inr ⟨_, still, .breakRoutine⟩⟩
  | setResult =>
      rcases setResult_cases natives executing.found whole distinct with
        ⟨value, rest, new, frames, operands, sets, ran, becomes⟩ | ⟨error, after, ran, alters⟩
      · rw [ran]
        obtain ⟨spares, still⟩ := rests becomes
        exact ⟨spares, .inr ⟨_, still, .setResult operands sets⟩⟩
      · rw [ran]
        obtain ⟨spares, operands, still⟩ := steady.restacks stacked alters
        exact ⟨spares.line, fun _ => .inr ⟨_, still, _, _, _, _, rfl, rfl⟩⟩
  | _ => cases unwinds

/-! Native functions. -/

/-- What becomes of a thread and the others after its native function has run. -/
theorem conclude_restacks (steady : machine.Steady allowed)
    (continues : machine.Continues number (Machine.Restacks ((id, frame) :: outer)))
    (pushesResult : Bool) (result : Except MachineError Value) :
    (concludeNative number id pushesResult result).Ensures (machine = ·)
      (fun _ after => Spares (some number) machine after ∧
        after.Continues number (Machine.Restacks ((id, frame) :: outer)))
      fun _ after => Spares (some number) machine after ∧
        after.Continues number (Machine.Restacks ((id, frame) :: outer)) := by
  rcases continues with gone | ⟨new, stacked, restacked⟩
  · have stays : (concludeNative number id pushesResult result).Ensures (machine = ·)
        (fun _ => (machine = ·)) fun _ => (machine = ·) := by
      cases result with
      | error error => exact fun _ equal => equal
      | ok value =>
          intro _ equal
          subst equal
          have missing : machine.threads.contains number = false := by
            simp [ThreadSet.contains, gone]
          simp only [concludeNative, ofResult, pure_bind, EStateM.run_bind, EStateM.run_get, missing]
          cases machine.stopped <;> rfl
    have kept (after : Machine) (same : machine = after) :
        Spares (some number) machine after ∧
          after.Continues number (Machine.Restacks ((id, frame) :: outer)) := by
      subst same
      exact ⟨.refl _, .inl gone⟩
    exact stays.weaken (fun _ holds => holds) (fun _ => kept) fun _ => kept
  · obtain ⟨_, _, _, operands, same, rfl⟩ := restacked
    obtain ⟨same, rfl⟩ := List.cons.inj same
    cases same
    have modest : Modest id (concludeNative number id pushesResult result) := inferInstance
    have concluded (after : Machine) (alters : machine.Alters Frame.bare id after) :
        Spares (some number) machine after ∧
          after.Continues number (Machine.Restacks ((id, frame) :: outer)) := by
      obtain ⟨spares, later, still⟩ := steady.restacks stacked alters
      exact ⟨spares, .inr ⟨_, still, id, frame, outer, later, rfl, rfl⟩⟩
    refine (modest.ensures machine).weaken ?_ (fun _ => concluded) fun _ => concluded
    intro _ equal
    subst equal
    exact .refl _

section Calls

variable (own : ∀ error : MachineError, ¬ error.IsInternal → allowed error)

include own

theorem callNative_strides (honest : natives.Honest allowed)
    (executing : machine.Executing allowed number entry)
    (stacked : machine.Stacked number ((entry.current, frame) :: outer)) (native : NativeId)
    (count : Nat) (pushesResult : Bool) :
    (callNative natives number entry.current native count pushesResult).Ensures (machine = ·)
      (fun _ after => Spares (some number) machine after ∧
        after.Continues number (Machine.Restacks ((entry.current, frame) :: outer)))
      fun _ after => after.currentLine = machine.currentLine ∧
        after.Continues number (Machine.Restacks ((entry.current, frame) :: outer)) := by
  have steady := executing.steady
  have modest : Modest entry.current (prepareNative natives entry.current native count) :=
    inferInstance
  intro _ equal
  subst equal
  have altered := modest.ensures machine machine (.refl _)
  have calm := calm_prepareNative honest executing native count machine (.refl _)
  simp only [callNative, EStateM.run_bind]
  cases prepared : (prepareNative natives entry.current native count).run machine with
  | error error after =>
      rw [prepared] at altered
      obtain ⟨spares, operands, still⟩ := steady.restacks stacked altered
      exact ⟨spares.line, .inr ⟨_, still, _, _, _, _, rfl, rfl⟩⟩
  | ok routine start =>
      rw [prepared] at altered calm
      obtain ⟨quiet, honest⟩ := calm
      obtain ⟨spares, operands, still⟩ := steady.restacks stacked altered
      have ready := executing.quiet quiet
      have running := ready.steady.current_running ready.current
      obtain ⟨served, _⟩ := routine.play_served own ready.steady running honest
      have played := ready.steady.spares_play own running honest
      have later := ready.steady.changes served.changes
      have continues : (routine.play start).2.Continues number
          (Machine.Restacks ((entry.current, frame) :: outer)) :=
        (played.continues ready.steady later still).weaken fun _ same =>
          ⟨_, _, _, operands, rfl, same⟩
      have ended := conclude_restacks later continues pushesResult
        (routine.play start).1 _ rfl
      have sofar := spares.trans (played.weaken (some number))
      simp only [EStateM.run_modifyGet]
      cases concluded : (concludeNative number entry.current pushesResult
          (routine.play start).1).run (routine.play start).2 with
      | ok slice after =>
          rw [concluded] at ended
          exact ⟨sofar.trans ended.1, ended.2⟩
      | error error after =>
          rw [concluded] at ended
          exact ⟨(sofar.trans ended.1).line, ended.2⟩

/-- A microthread begins beside its caller, which stays as it is. -/
theorem spawn_strides {stack : CallStack} (executing : machine.Executing allowed number entry)
    (stacked : machine.Stacked number stack) (id : BlockId) (arguments : List Value)
    (event : ThreadId → Event) :
    (do
      let spawned ← launch (some entry.current) id arguments
      log (event spawned)
      return none : Action (Option Slice)).Ensures (machine = ·)
        (fun _ after => Spares none machine after ∧ after.Continues number (· = stack))
        fun _ after => Spares none machine after ∧ after.Continues number (· = stack) := by
  have steady := executing.steady
  have running := steady.current_running executing.current
  have spared := steady.spares_launch executing.holds_current id arguments
  have achieved := @launch_achieves allowed machine own _ id arguments running executing.holds_current
  have launched : (launch (some entry.current) id arguments).Ensures (machine = ·)
      (fun _ after => Spares none machine after ∧ after.Continues number (· = stack))
      fun _ after => Spares none machine after ∧ after.Continues number (· = stack) := by
    intro _ equal
    have spared := spared _ equal
    have achieved := achieved _ equal
    subst equal
    cases ran : (launch (some entry.current) id arguments).run machine with
    | ok spawned after =>
        rw [ran] at spared achieved
        exact ⟨spared, spared.continues steady (steady.changes achieved.1) stacked⟩
    | error error after =>
        rw [ran] at spared achieved
        exact ⟨spared, spared.continues steady (steady.changes achieved.1) stacked⟩
  refine launched.bind fun spawned => ?_
  intro after given
  obtain ⟨spares, continues⟩ := given
  exact ⟨spares.trans (.of_eq rfl rfl rfl), continues⟩

omit own in
/-- A call within the thread puts a new frame in a vacant place, or it changes nothing. -/
theorem descend_strides (executing : machine.Executing allowed number entry)
    (stacked : machine.Stacked number ((entry.current, frame) :: outer)) (id : BlockId)
    (arguments : List Value) (pushesResult : Bool) :
    (descend number entry.current id arguments pushesResult).Ensures (machine = ·)
      (fun _ after => Spares (some number) machine after ∧
        ∃ block child serial, machine.script.block? id = some block ∧
          machine.frames.frame? child = none ∧
          after.frames.frame? child =
            some { (Frame.activate (some entry.current) id block arguments) with
              activation := serial
              returnsResult := pushesResult } ∧
          after.Stacked number ((child, { (Frame.activate (some entry.current) id block []).control with
            activation := serial
            returnsResult := pushesResult }) :: (entry.current, frame) :: outer))
      fun _ after => machine = after := by
  intro _ equal
  subst equal
  rcases run_descend executing id arguments pushesResult with
    ⟨error, _, failed⟩ | ⟨block, child, frames, named, _, same, ran⟩
  · rw [failed]
  · have fits : Coherent.Fits machine.script machine.frames
        (.activate (some entry.current) id block arguments) :=
      fits_activate named executing.holds_current
    have grown := executing.steady.coherent.counted.grown fits.outside
    rw [← same] at grown
    have found := executing.found
    have kept (other : FrameId) (different : other ≠ child) (new : Frame) :
        (frames.set child new).control? other = machine.frames.control? other := by
      rw [control?_set grown.new, if_neg different, grown.control? different]
    rw [ran]
    refine ⟨executing.steady.spares_descend grown.vacant (fun other different => kept other different _)
      found _, block, child, machine.frames.activations, named, grown.vacant,
      frame?_set_self _ (index_lt_of_frame? grown.new), ?_⟩
    obtain ⟨_, _, _, _, whole⟩ := stacked.current found
    refine ⟨{ entry with current := child, depth := entry.depth + 1 }, ?_, .inner ?_ rfl ?_ rfl ?_⟩
    · rw [ThreadSet.find?_update found]
      exact Function.update_self ..
    · rw [control?_set grown.new, if_pos rfl]
      rfl
    · obtain ⟨outermost, inside, names⟩ := List.mem_map.mp whole.chain.root_mem
      exact names ▸ (stacked.ne_of_vacant grown.vacant inside).symm
    · exact whole.transport fun held inside =>
        (kept _ (stacked.ne_of_vacant grown.vacant inside) _).trans (whole.shown inside)

theorem callBlock_strides (executing : machine.Executing allowed number entry)
    (stacked : machine.Stacked number ((entry.current, frame) :: outer)) {callee : BlockId}
    {count : Nat} {pushesResult : Bool}
    (called : instruction.call? = some (.block callee, count, pushesResult)) :
    (callBlock number entry.current callee count pushesResult).Strides machine number instruction
      ((entry.current, frame) :: outer) := by
  have plain : instruction.unwinds = false := by
    cases instruction <;> first | rfl | cases called
  obtain ⟨_, _, _, _, whole⟩ := stacked.current executing.found
  obtain ⟨held, live, rfl, _⟩ := head_frame (whole.shown List.mem_cons_self)
  intro _ equal
  subst equal
  rcases run_callBlock live number callee count pushesResult with
    ⟨error, _, failed⟩ | ⟨block, within, _, returns, _, ran⟩
  · rw [failed]
    exact ⟨rfl, fun _ => .inr ⟨_, stacked, _, _, _, held.stack, rfl, rfl⟩⟩
  · rw [ran]
    let popped := { machine with
      frames := machine.frames.set entry.current { held with stack := held.stack.drop count } }
    obtain ⟨spares, still⟩ : Spares (some number) machine popped ∧ popped.Stacked number _ :=
      executing.steady.stores stacked live rfl rfl
    have quiet : machine.Quiet popped :=
      { Machine.Quiet.refl machine with frames := skeleton_set live rfl }
    have going : popped.Executing allowed number entry := executing.quiet quiet
    by_cases micro : block.kind = .microthread
    · rw [if_pos micro]
      have spawned := spawn_strides own going still callee (held.stack.take count).reverse
        (fun thread => .microthreadSpawned thread block.displayName)
      refine spawned.weaken (fun _ holds => holds) (fun _ after given => ?_)
        (fun _ after given => ?_) popped rfl
      · refine ⟨spares.trans (given.1.weaken _), given.2.weaken ?_⟩
        rintro _ rfl
        exact .within plain
      · refine ⟨(given.1.line).trans spares.line, fun _ => given.2.weaken ?_⟩
        rintro _ rfl
        exact ⟨_, _, _, _, rfl, rfl⟩
    · rw [if_neg micro]
      have descended := descend_strides going still callee (held.stack.take count).reverse
        pushesResult popped rfl
      simp only [EStateM.run_bind]
      cases ran : (descend number entry.current callee (held.stack.take count).reverse
          pushesResult).run popped with
      | ok _ after =>
          rw [ran] at descended
          obtain ⟨later, _, child, serial, named, _, _, entered⟩ := descended
          cases within.symm.trans named
          exact ⟨spares.trans later, .inr ⟨_, entered, .call called named returns⟩⟩
      | error error after =>
          rw [ran] at descended
          obtain rfl : popped = after := descended
          exact ⟨rfl, fun _ => .inr ⟨_, still, _, _, _, _, rfl, rfl⟩⟩

theorem execute_strides (honest : natives.Honest allowed)
    (executing : machine.Executing allowed number entry)
    (stacked : machine.Stacked number ((entry.current, frame) :: outer)) (instruction : Instruction) :
    (execute natives number entry.current instruction).Strides machine number instruction
      ((entry.current, frame) :: outer) := by
  have called {callee : Callee} {count : Nat} {pushesResult : Bool}
      (calls : instruction.call? = some (callee, count, pushesResult)) :
      (call natives number entry.current callee count pushesResult).Strides machine number instruction
        ((entry.current, frame) :: outer) := by
    cases callee with
    | block id => exact callBlock_strides own executing stacked calls
    | native id =>
        have plain : instruction.unwinds = false := by
          cases instruction <;> first | rfl | cases calls
        refine (callNative_strides own honest executing stacked id count pushesResult).weaken
          (fun _ holds => holds) (fun _ after given => ⟨given.1, given.2.weaken ?_⟩)
          fun _ after given => ⟨given.1, fun _ => given.2⟩
        rintro _ ⟨_, _, _, operands, same, rfl⟩
        obtain ⟨same, rfl⟩ := List.cons.inj same
        cases same
        exact .within plain
  cases simple : instruction.call? with
  | none =>
      cases unwinds : instruction.unwinds with
      | false => exact plain_strides executing stacked simple unwinds
      | true => exact unwinds_strides executing stacked unwinds
  | some site =>
      rw [execute_call simple]
      exact called simple

end Calls

/-! Returning. -/

/-- A thread that returns to the frame around its current one. -/
theorem ascend_strides (executing : machine.Executing allowed number entry)
    (inner : entry.current ≠ entry.root)
    (stacked : machine.Stacked number ((entry.current, frame) :: outer)) {parent : FrameId}
    (named : frame.parent = some parent) :
    Spares (some number) machine { machine with
      frames := machine.frames.retire entry.current
      threads := machine.threads.update number fun thread => { thread with
        current := parent
        depth := thread.depth - 1 } } ∧
    ∃ caller rest, outer = (parent, caller) :: rest ∧ { machine with
      frames := machine.frames.retire entry.current
      threads := machine.threads.update number fun thread => { thread with
        current := parent
        depth := thread.depth - 1 } }.Stacked number outer := by
  have found := executing.found
  have steady := executing.steady
  obtain ⟨_, _, _, _, whole⟩ := stacked.current found
  obtain ⟨held, live, rfl, _⟩ := head_frame (whole.shown List.mem_cons_self)
  refine ⟨steady.spares_retire found rfl rfl fun id different => ?_, ?_⟩
  · rw [ThreadSet.find?_update found]
    exact Function.update_of_ne different ..
  · have apart {entry' : FrameId × Frame} (inside : entry' ∈ outer) : entry'.1 ≠ entry.current :=
      whole.ne_of_mem_outer steady.coherent.counted inside
    obtain ⟨_, names, rest⟩ := whole.outward inner
    cases names.symm.trans named
    obtain ⟨caller, further, rfl, _⟩ := rest.cases_head
    refine ⟨caller, further, rfl, { entry with current := parent, depth := entry.depth - 1 }, ?_,
      rest.transport fun entry' inside => ?_⟩
    · rw [ThreadSet.find?_update found]
      exact Function.update_self ..
    · exact control?_retire live (apart inside) (rest.shown inside) (rest.running inside)

/-- The frame around gets the value that it asked for. -/
theorem return_strides (executing : machine.Executing allowed number entry)
    (inner : entry.current ≠ entry.root)
    (stacked : machine.Stacked number ((entry.current, frame) :: outer)) {parent : FrameId}
    (named : frame.parent = some parent) (passes : Bool) (value : Value) :
    (do
      retire entry.current
      if passes then push parent value
      updateThread number fun thread => { thread with current := parent, depth := thread.depth - 1 }
      return false : Action Bool).Ensures (machine = ·)
        (fun _ after => Spares (some number) machine after ∧ ∃ caller rest,
          outer = (parent, caller) :: rest ∧
            after.Stacked number ((parent, if passes then caller.push value else caller) :: rest))
        fun _ _ => True := by
  have found := executing.found
  obtain ⟨spares, caller, rest, rfl, still⟩ := ascend_strides executing inner stacked named
  intro _ equal
  subst equal
  cases passes with
  | false => exact ⟨spares, caller, rest, rfl, still⟩
  | true =>
      have ascended : Machine.Steady allowed { machine with
          frames := machine.frames.retire entry.current
          threads := machine.threads.update number fun thread => { thread with
            current := parent
            depth := thread.depth - 1 } } := by
        obtain ⟨_, _, same, shown, _⟩ := stacked.current found
        obtain ⟨held, live, rfl⟩ := control?_eq_some_iff.mp shown
        cases (List.cons.inj same).1
        exact executing.steady.change (.ascend executing.current found inner live named)
      obtain ⟨_, around⟩ := still.whole
      obtain ⟨held, there, rfl, _⟩ := head_frame (around.shown List.mem_cons_self)
      have reached := run_frame (show { machine with
        frames := machine.frames.retire entry.current }.frames.frame? parent = _ from there)
      simp only [if_true, EStateM.run_bind, retire, EStateM.run_modify, push, reached]
      obtain ⟨pushes, pushed⟩ := ascended.stores still there
        (show (held.push value).parent = _ from rfl) rfl
      exact ⟨spares.trans pushes, _, _, rfl, pushed⟩

/-- The return from the current frame, which may leave a result, or the end of the thread. -/
theorem leave_strides (executing : machine.Executing allowed number entry)
    (stacked : machine.Stacked number ((entry.current, frame) :: outer)) :
    (leave number).Ensures (machine = ·)
      (fun _ after => Spares (some number) machine after ∧ after.Continues number fun new =>
        ∃ parent caller rest, outer = (parent, caller) :: rest ∧
          new = (parent, if frame.returnsResult then caller.push frame.result else caller) :: rest)
      fun _ _ => True := by
  have found := executing.found
  have steady := executing.steady
  obtain ⟨_, _, _, _, whole⟩ := stacked.current found
  obtain ⟨held, live, rfl, reads⟩ := head_frame (whole.shown List.mem_cons_self)
  have looks : (Action.thread number).run machine = .ok entry machine := by
    simp only [Action.thread, EStateM.run_bind, EStateM.run_get, found]
    rfl
  refine .bind_of_run looks ?_
  split
  · intro _ equal
    subst equal
    refine ⟨steady.spares_retire found rfl rfl fun id different => ?_, .inl ?_⟩
    · rw [ThreadSet.find?_remove]
      exact Function.update_of_ne different ..
    · rw [ThreadSet.find?_remove]
      exact Function.update_self ..
  · next inner =>
      refine .bind_of_run reads ?_
      split
      · exact .throw fun _ _ => trivial
      · next parent named =>
          split
          · next returns =>
              -- The result is taken out of the frame before it retires, and pushed after that.
              let emptied := { machine with
                frames := machine.frames.set entry.current { held with result := none } }
              obtain ⟨spares, still⟩ : Spares (some number) machine emptied ∧ emptied.Stacked number _ :=
                steady.stores stacked live rfl rfl
              have quiet : machine.Quiet emptied :=
                { Machine.Quiet.refl machine with frames := skeleton_set live rfl }
              refine .bind_of_run (run_setFrame ..) ?_
              refine (return_strides (executing.quiet quiet) inner still named true
                held.result).weaken (fun _ same => same) ?_ fun _ _ _ => trivial
              rintro _ after ⟨later, caller, rest, rfl, returned⟩
              refine ⟨spares.trans later, .inr ⟨_, returned, parent, caller, rest, rfl, ?_⟩⟩
              rw [if_pos rfl, if_pos (by exact returns)]
              rfl
          · next mute =>
              refine (return_strides executing inner stacked named false
                held.result).weaken (fun _ same => same) ?_ fun _ _ _ => trivial
              rintro _ after ⟨spares, caller, rest, rfl, returned⟩
              refine ⟨spares, .inr ⟨_, returned, parent, caller, rest, rfl, ?_⟩⟩
              rw [if_neg Bool.false_ne_true, if_neg (by exact mute)]

/-! Steps. -/

/-- The next instruction of a thread is counted against the limit, and left behind. -/
theorem fetch_strides (executing : machine.Executing allowed number entry)
    (stacked : machine.Stacked number ((entry.current, frame) :: outer)) :
    match frame.code? machine.script with
    | none => (fetch entry.current).run machine = .ok none machine
    | some code =>
      (∃ limit, machine.limits.instructionLimit = some limit ∧ limit < machine.instructions + 1 ∧
        (fetch entry.current).run machine = .error (.instructionLimitExceeded limit) { machine with
          currentLine := code.line
          instructions := machine.instructions + 1 }) ∨
      (∀ limit, machine.limits.instructionLimit = some limit → machine.instructions + 1 ≤ limit) ∧
        ∃ fetched, (fetch entry.current).run machine = .ok (some code.instruction) fetched ∧
          Spares (some number) { machine with currentLine := code.line } fetched ∧
          machine.Quiet fetched ∧ fetched.Stacked number ((entry.current, frame.passed) :: outer) := by
  have steady := executing.steady
  obtain ⟨_, whole⟩ := stacked.whole
  obtain ⟨held, live, rfl, _⟩ := head_frame (whole.shown List.mem_cons_self)
  obtain ⟨block, found, _⟩ := steady.coherent.activates entry.current held live
  have coded : held.control.code? machine.script = block.codes[held.position]? := by
    simp only [Frame.code?, Frame.control, found, Option.bind_some]
  rw [coded, run_fetch live found]
  cases block.codes[held.position]? with
  | none => rfl
  | some code =>
      let counted := { machine with
        currentLine := code.line
        instructions := machine.instructions + 1 }
      let fetched := { counted with
        frames := machine.frames.set entry.current held.passed }
      have ready : counted.Executing allowed number entry :=
        executing.quiet { Machine.Quiet.refl machine with }
      obtain ⟨spares, still⟩ : Spares (some number) counted fetched ∧ fetched.Stacked number _ :=
        ready.steady.stores stacked live rfl rfl
      have quiet : machine.Quiet fetched :=
        { Machine.Quiet.refl machine with frames := skeleton_set live rfl }
      have counts : Spares (some number) { machine with currentLine := code.line } counted :=
        .of_eq rfl rfl rfl
      have passes := counts.trans spares
      cases maximum : machine.limits.instructionLimit with
      | none => exact .inr ⟨by simp, fetched, rfl, passes, quiet, still⟩
      | some limit =>
          dsimp only
          by_cases beyond : limit < machine.instructions + 1
          · rw [if_pos beyond]
            exact .inl ⟨limit, rfl, beyond, rfl⟩
          · rw [if_neg beyond]
            refine .inr ⟨?_, fetched, rfl, passes, quiet, still⟩
            rintro _ ⟨⟩
            omega

/-- A step that goes through executes the next instruction once it is left behind. -/
theorem execute_of_advance (executing : machine.Executing allowed number entry)
    (alive : machine.stopped = false)
    (stacked : machine.Stacked number ((entry.current, frame) :: outer)) {code : Code}
    (coded : frame.code? machine.script = some code) {slice : Option Slice} {after : Machine}
    (ran : (advance natives number).run machine = .ok slice after) :
    ∃ fetched, (execute natives number entry.current code.instruction).run fetched = .ok slice after ∧
      Spares (some number) { machine with currentLine := code.line } fetched ∧
      machine.Quiet fetched ∧ fetched.Stacked number ((entry.current, frame.passed) :: outer) := by
  have fetches := fetch_strides executing stacked
  rw [coded] at fetches
  simp only [advance, EStateM.run_bind, EStateM.run_get, alive, Bool.false_eq_true, if_false,
    executing.found] at ran
  rcases fetches with ⟨limit, _, _, failed⟩ | ⟨_, fetched, passes, known⟩
  · simp only [failed] at ran
    cases ran
  · simp only [passes] at ran
    exact ⟨fetched, ran, known⟩

/-- A step of the current thread that goes through. -/
theorem advance_strides (own : ∀ error : MachineError, ¬ error.IsInternal → allowed error)
    (honest : natives.Honest allowed) (executing : machine.Executing allowed number entry)
    (alive : machine.stopped = false)
    (stacked : machine.Stacked number ((entry.current, frame) :: outer)) {slice : Option Slice}
    {after : Machine} (ran : (advance natives number).run machine = .ok slice after) :
    (∃ line, Spares (some number) { machine with currentLine := line } after) ∧
      after.Continues number (Stride machine.script ((entry.current, frame) :: outer)) := by
  cases coded : frame.code? machine.script with
  | none =>
      have fetches := fetch_strides executing stacked
      simp only [coded] at fetches
      simp only [advance, EStateM.run_bind, EStateM.run_get, alive, Bool.false_eq_true, if_false,
        executing.found, fetches] at ran
      have left := leave_strides executing stacked machine rfl
      cases leaves : (leave number).run machine with
      | error error after =>
          rw [leaves] at ran
          cases ran
      | ok ended last =>
          rw [leaves] at ran left
          cases ran
          refine ⟨⟨machine.currentLine, left.1⟩, left.2.weaken ?_⟩
          rintro _ ⟨parent, caller, rest, rfl, rfl⟩
          exact .leave coded
  | some code =>
      obtain ⟨fetched, goes, spares, quiet, still⟩ := execute_of_advance executing alive stacked coded ran
      have executed := execute_strides own honest (executing.quiet quiet) still code.instruction
        fetched rfl
      rw [goes, quiet.script] at executed
      exact ⟨⟨code.line, spares.trans executed.1⟩, executed.2.weaken fun _ => .execute coded⟩

end Action

end CoopScript
