import CoopScript.Proofs.Machine.Requests

/-!
The moves of a running machine: every step of a thread and every turn is a sequence of changes.
-/

namespace CoopScript

open FrameArena MachineError Machine

variable {allowed : MachineError → Prop} {machine : Machine} {number : ThreadId} {entry : Thread}
  {natives : Natives}

/-- What holds of the machine when a slice ends as it does. -/
def Slice.Ends (number : ThreadId) : Option Slice → Machine → Prop
  | none, _ => True
  | some .yielded, machine => number ∈ machine.threads.ids
  | some (.waiting ticks), machine => number ∈ machine.threads.ids ∧ 1 ≤ ticks
  | some .finished, machine => number ∉ machine.threads.ids
  | some .halted, machine => machine.stopped = true

theorem Slice.Gentle.ends {slice : Option Slice} (gentle : Gentle slice)
    (live : number ∈ machine.threads.ids) : Ends number slice machine := by
  cases gentle with
  | going => trivial
  | yielded => exact live
  | waiting positive => exact ⟨live, positive⟩

theorem Machine.Executing.mem_ids (executing : machine.Executing allowed number entry) :
    number ∈ machine.threads.ids := ThreadSet.mem_ids_iff.mpr ⟨entry, executing.found⟩

namespace Action

/-! The next instruction. -/

/-- The next instruction of a live frame is fetched from its block, and counted against the limit. -/
theorem run_fetch {id : FrameId} {held : Frame} {block : Block}
    (live : machine.frames.frame? id = some held)
    (found : machine.script.block? held.block = some block) :
    (fetch id).run machine =
      match block.codes[held.position]? with
      | none => .ok none machine
      | some code =>
        let counted := { machine with
          currentLine := code.line
          instructions := machine.instructions + 1 }
        let ready := { counted with
          frames := machine.frames.set id { held with position := held.position + 1 } }
        match machine.limits.instructionLimit with
        | some limit =>
          if limit < machine.instructions + 1 then .error (.instructionLimitExceeded limit) counted
          else .ok (some code.instruction) ready
        | none => .ok (some code.instruction) ready := by
  simp only [fetch, EStateM.run_bind, run_frame live, run_block, found]
  cases block.codes[held.position]? with
  | none => rfl
  | some code =>
      simp only [EStateM.run_bind, EStateM.run_modify, count, EStateM.run_get]
      cases machine.limits.instructionLimit with
      | none => rfl
      | some limit =>
          by_cases beyond : limit < machine.instructions + 1
          · simp only [if_pos beyond]
            rfl
          · simp only [if_neg beyond]
            rfl

theorem calm_fetch {id : FrameId} {held : Frame} (coherent : Coherent machine.script machine.frames
    machine.globals machine.threads.find?) (live : machine.frames.frame? id = some held) :
    (fetch id).Calm machine := by
  intro after quiet
  obtain ⟨now, there, alike⟩ := frame?_of_skeleton quiet.frames live
  obtain ⟨block, found, _⟩ := coherent.activates id held live
  have blocks : now.block = held.block := congrArg (·.block) alike
  rw [← quiet.script, ← blocks] at found
  rw [run_fetch there found]
  have counted (line instructions : Nat) :
      machine.Quiet { after with currentLine := line, instructions } := { quiet with }
  cases block.codes[now.position]? with
  | none => exact ⟨quiet, trivial⟩
  | some code =>
      have ready : machine.Quiet { after with
          currentLine := code.line
          instructions := after.instructions + 1
          frames := after.frames.set id { now with position := now.position + 1 } } :=
        { quiet with frames := (skeleton_set there (by rfl)).trans quiet.frames }
      cases after.limits.instructionLimit with
      | none => exact ⟨ready, trivial⟩
      | some limit =>
          dsimp only
          by_cases beyond : limit < after.instructions + 1
          · rw [if_pos beyond]
            exact ⟨counted _ _, not_isInternal rfl⟩
          · rw [if_neg beyond]
            exact ⟨ready, trivial⟩

section Moves

variable (own : ∀ error : MachineError, ¬ error.IsInternal → allowed error)
  (honest : natives.Honest allowed)

/-! Native functions. -/

include honest in
theorem calm_prepareNative (executing : machine.Executing allowed number entry) (id : NativeId)
    (count : Nat) : (prepareNative natives entry.current id count).Calm machine
      fun routine => routine.Honest allowed := by
  obtain ⟨held, live, _⟩ := executing.steady.coherent.live_current executing.found
  rcases prepareNative_cases natives entry.current id count with
    missing | ⟨native, inside, ⟨_, refused⟩ | prepares⟩
  · rw [missing]
    exact calm_throw (not_isInternal rfl)
  · rw [refused]
    exact calm_throw (not_isInternal rfl)
  · rw [prepares]
    exact (calm_popMany live count).bind fun arguments _ => (calm_log _).bind fun _ _ =>
      calm_pure (honest native inside arguments)

include own in
theorem concludeNative_achieves (steady : machine.Steady allowed)
    (kept : ∀ thread, machine.threads.find? number = some thread → thread = entry)
    (pushesResult : Bool) {result : Except MachineError Value}
    (blame : ∀ error, result = .error error → allowed error) :
    (concludeNative number entry.current pushesResult result).Achieves allowed machine
      (Slice.Ends number) := by
  cases result with
  | error error => exact .throw_bind (blame error rfl)
  | ok value =>
      simp only [concludeNative, ofResult, pure_bind]
      refine .get_bind ?_
      split
      · next stopped => exact .pure stopped
      · split
        · next missing =>
            refine .pure fun live => ?_
            rw [Bool.not_eq_true', ← Bool.not_eq_true, ThreadSet.contains_iff_mem_ids] at missing
            exact missing live
        · next live =>
            rw [Bool.not_eq_true', Bool.not_eq_false, ThreadSet.contains_iff] at live
            obtain ⟨thread, found⟩ := live
            obtain rfl := kept thread found
            obtain ⟨held, live, _⟩ := steady.coherent.live_current found
            split
            · refine ((calm_push live value).going.achieves own).weaken ?_
              intro slice after given
              obtain ⟨quiet, gentle⟩ := given
              exact gentle.ends (quiet.threads ▸ ThreadSet.mem_ids_iff.mpr ⟨thread, found⟩)
            · exact .pure trivial

include own honest in
theorem callNative_achieves (executing : machine.Executing allowed number entry) (id : NativeId)
    (count : Nat) (pushesResult : Bool) :
    (callNative natives number entry.current id count pushesResult).Achieves allowed machine
      (Slice.Ends number) := by
  refine ((calm_prepareNative honest executing id count).achieves own).bind ?_
  intro routine after _ _ _ given
  obtain ⟨quiet, honest⟩ := given
  have going := executing.quiet quiet
  have running := going.steady.current_running going.current
  obtain ⟨served, blame⟩ := routine.play_served own going.steady running honest
  have played : (modifyGet routine.play : Action (Except MachineError Value)).Achieves allowed
      after fun result last => result = (routine.play after).1 ∧ last = (routine.play after).2 := by
    intro _ equal
    subst equal
    exact ⟨served.changes, served.state, served.current, rfl, rfl⟩
  refine played.bind ?_
  intro _ _ _ _ _ given
  obtain ⟨rfl, rfl⟩ := given
  refine concludeNative_achieves own (going.steady.changes served.changes)
    (fun thread found => ?_) pushesResult blame
  have old := going.steady.balanced.ids_lt number going.mem_ids
  rcases served.threads number old with same | gone
  · rw [found, going.found] at same
    exact Option.some.inj same
  · rw [found] at gone
    cases gone

/-! Steps of a thread. -/

include own honest in
theorem execute_achieves (executing : machine.Executing allowed number entry)
    (instruction : Instruction) :
    (execute natives number entry.current instruction).Achieves allowed machine
      (Slice.Ends number) := by
  have called (callee : Callee) (count : Nat) (pushesResult : Bool) :
      (call natives number entry.current callee count pushesResult).Achieves allowed machine
        (Slice.Ends number) := by
    cases callee with
    | native id => exact callNative_achieves own honest executing id count pushesResult
    | block id =>
        refine (callBlock_achieves own executing id count pushesResult).weaken ?_
        intro _ after equal
        subst equal
        trivial
  cases simple : instruction.call? with
  | none =>
      have calm := calm_execute natives executing.steady.coherent executing.found simple
      refine (calm.achieves own).weaken ?_
      intro slice after given
      obtain ⟨quiet, gentle⟩ := given
      exact gentle.ends (executing.quiet quiet).mem_ids
  | some site =>
      obtain ⟨callee, count, pushesResult⟩ := site
      rw [execute_call simple]
      exact called callee count pushesResult

include own honest in
/-- A step of the current thread of a steady machine is a sequence of changes. -/
theorem advance_achieves (steady : machine.Steady allowed)
    (current : machine.current = some number) :
    (advance natives number).Achieves allowed machine (Slice.Ends number) := by
  refine .get_bind ?_
  split
  · next stopped => exact .pure stopped
  · split
    · next missing =>
        refine .pure fun live => ?_
        obtain ⟨thread, found⟩ := ThreadSet.mem_ids_iff.mp live
        rw [missing] at found
        cases found
    · next entry found =>
        have executing : machine.Executing allowed number entry := ⟨steady, current, found⟩
        obtain ⟨held, live, _⟩ := steady.coherent.live_current found
        apply ((calm_fetch steady.coherent live).achieves own).bind
        intro fetched after _ _ _ early
        have going := executing.quiet early.1
        split
        · apply (leave_achieves own going).bind
          intro ended last _ _ _ gone
          split
          · next ends => exact .pure (gone ends)
          · exact .pure trivial
        · next instruction => exact execute_achieves own honest going instruction

end Moves

end Action

/-! Turns. -/

namespace Machine

section Turns

variable (own : ∀ error : MachineError, ¬ error.IsInternal → allowed error)
  (honest : natives.Honest allowed)

theorem endSlice_changes (steady : machine.Steady allowed) (current : machine.current = some number)
    {slice : Slice} (ends : Slice.Ends number (some slice) machine) :
    Changes allowed machine (machine.endSlice number slice) := by
  cases slice with
  | yielded => exact .single (.yield current ends)
  | waiting ticks => exact .single (.wait current ends.1 ends.2)
  | finished =>
      refine .tail (.single (.relinquish current ends)) (.quiet ?_)
      exact { Quiet.refl _ with }
  | halted => exact .single (.halt (steady.current_running current) ends)

/-- Whatever step the current thread takes, what becomes of the machine is a sequence of changes. -/
theorem afterStep_changes (steady : machine.Steady allowed) (current : machine.current = some number)
    {step : Action (Option Slice)} (achieves : step.Achieves allowed machine (Slice.Ends number)) :
    Changes allowed machine (afterStep number (step.run machine)) := by
  have running := steady.current_running current
  have ended := achieves machine rfl
  cases ran : step.run machine with
  | error error after =>
      rw [ran] at ended
      obtain ⟨changes, state, _, blame⟩ := ended
      exact (changes.tail (.fail blame)).tail (.halt (by simp [state, running]) (by simp))
  | ok slice after =>
      rw [ran] at ended
      obtain ⟨changes, _, turn, ends⟩ := ended
      cases slice with
      | none => exact changes
      | some slice =>
          exact changes.trans (endSlice_changes (steady.changes changes) (turn.trans current) ends)

include own honest in
/-- A move of a steady machine is a sequence of changes. -/
theorem move_changes (steady : machine.Steady allowed) (running : machine.state = .running) :
    Changes allowed machine (machine.move natives) := by
  unfold move
  split
  · next turn =>
      split
      · next stopped => exact .single (.halt running stopped)
      · next going =>
          have ongoing : machine.stopped = false := Bool.not_eq_true _ ▸ going
          split
          · next id threads taken =>
              have take := @Change.take allowed machine id running turn ongoing (by rw [taken])
              rw [taken] at take
              exact .single take
          · next threads taken =>
              have rest := @Change.rest allowed machine running turn ongoing (by rw [taken])
              rw [taken] at rest
              exact .single rest
  · next number turn =>
      exact afterStep_changes steady turn (Action.advance_achieves own honest steady turn)

end Turns

end Machine

end CoopScript
