import CoopScript.Proofs.Actions.Calls
import CoopScript.Proofs.Actions.Modest

/-!
Instructions that look out along the frames of their thread: what they make of its call stack.
-/

namespace CoopScript

open FrameArena

/-- A frame with nothing left to execute. -/
def Frame.over (frame : Frame) : Frame := { frame with position := frame.finish }

namespace CallStack

/-- The frames out to the innermost routine are over, or all of them. -/
def endRoutine : CallStack → CallStack
  | [] => []
  | (id, frame) :: outer =>
    (id, frame.over) :: if frame.kind.isRoutine then outer else endRoutine outer

/-- The frames out to the innermost loop block are over, and the frame around it passes over its next
instruction. There is none if a routine or the root comes before. -/
def endLoop : CallStack → Option CallStack
  | (id, frame) :: (parent, caller) :: outer =>
    if frame.kind.isRoutine then none
    else if frame.kind = .loop then
      some ((id, frame.over) :: (parent, { caller with position := caller.position + 1 }) :: outer)
    else (endLoop ((parent, caller) :: outer)).map ((id, frame.over) :: ·)
  | _ => none

/-- The innermost function has a result. There is none if another routine or the root comes before. -/
def withResult (value : Value) : CallStack → Option CallStack
  | [] => none
  | (id, frame) :: outer =>
    if frame.kind = .function then some ((id, { frame with result := value }) :: outer)
    else if frame.kind.isRoutine then none
    else (withResult value outer).map ((id, frame) :: ·)

end CallStack

open CallStack (endRoutine endLoop withResult)

namespace FrameArena

/-- The frames of one stack go on as those of another, and no other frame is about anything else. -/
structure Becomes (before after : FrameArena) (old new : CallStack) : Prop where
  alike : new.map tie = old.map tie
  shown : ∀ entry ∈ new, after.control? entry.1 = some entry.2
  others : ∀ other, (∀ entry ∈ old, entry.1 ≠ other) → after.control? other = before.control? other

namespace Becomes

variable {before middle after : FrameArena} {id root : FrameId} {frame new : Frame}
  {outer changed : CallStack}

theorem stack {stack : CallStack} (becomes : before.Becomes after stack changed) (whole : before.Stack root id stack) :
    after.Stack root id changed := whole.goOn becomes.alike becomes.shown

theorem refl {stack : CallStack} (whole : before.Stack root id stack) :
    before.Becomes before stack stack :=
  ⟨rfl, fun _ => whole.shown, fun _ _ => rfl⟩

/-- The first frame of a stack is stored with other contents. -/
theorem set_head {held new : Frame} (whole : before.Stack root id ((id, held.control) :: outer))
    (absent : ∀ entry ∈ outer, entry.1 ≠ id) (found : before.frame? id = some held)
    (parent : new.parent = held.parent) (retired : new.retired = held.retired) :
    before.Becomes (before.set id new) ((id, held.control) :: outer) ((id, new.control) :: outer) where
  alike := congrArg (· :: outer.map tie) (by simp [tie, Frame.control, parent, retired])
  shown := by
    intro entry inside
    rw [control?_set found]
    rcases List.mem_cons.mp inside with rfl | further
    · rw [if_pos rfl]
    · rw [if_neg (absent entry further)]
      exact whole.shown (List.mem_cons_of_mem _ further)
  others := by
    intro other missing
    rw [control?_set found, if_neg (missing _ List.mem_cons_self).symm]

/-- After the first frame the ones around it change. -/
theorem outward (first : before.Becomes middle ((id, frame) :: outer) ((id, new) :: outer))
    (rest : middle.Becomes after outer changed) (absent : ∀ entry ∈ outer, entry.1 ≠ id) :
    before.Becomes after ((id, frame) :: outer) ((id, new) :: changed) where
  alike := by
    have head := (List.cons.inj first.alike).1
    rw [List.map_cons, List.map_cons, head, rest.alike]
  shown := by
    intro entry inside
    rcases List.mem_cons.mp inside with rfl | further
    · rw [rest.others id absent]
      exact first.shown _ List.mem_cons_self
    · exact rest.shown entry further
  others := by
    intro other missing
    rw [rest.others other fun entry inside => missing entry (List.mem_cons_of_mem _ inside)]
    exact first.others other missing

theorem trans {old between new : CallStack} (early : before.Becomes middle old between)
    (late : middle.Becomes after between new) : before.Becomes after old new where
  alike := late.alike.trans early.alike
  shown := late.shown
  others := by
    intro other missing
    refine (late.others other fun entry inside same => ?_).trans (early.others other missing)
    have named : other ∈ between.map (·.1) := same ▸ List.mem_map.mpr ⟨entry, inside, rfl⟩
    rw [names_of_ties early.alike] at named
    obtain ⟨first, there, alike⟩ := List.mem_map.mp named
    exact missing first there alike

end Becomes

/-- No other frame of a stack without repetitions has the name of the first. -/
theorem absent_of_nodup {id : FrameId} {frame : Frame} {outer : CallStack}
    (distinct : (((id, frame) :: outer).map (·.1)).Nodup) : ∀ entry ∈ outer, entry.1 ≠ id := by
  intro entry inside same
  exact (List.nodup_cons.mp distinct).1 (same ▸ List.mem_map.mpr ⟨entry, inside, rfl⟩)

end FrameArena

namespace Action

variable {machine after : Machine} {root id : FrameId} {fuel : Nat} {stack : CallStack}
  {natives : Natives} {number : ThreadId} {slice : Option Slice}

/-- What a stack shows of its first frame is what is stored of it. -/
theorem head_frame {frame : Frame}
    (shown : machine.frames.control? id = some frame) :
    ∃ held, machine.frames.frame? id = some held ∧ frame = held.control ∧
      (Action.frame id).run machine = .ok held machine := by
  obtain ⟨held, live, same⟩ := control?_eq_some_iff.mp shown
  exact ⟨held, live, same.symm, run_frame live⟩

theorem run_over (id : FrameId) (held : Frame) :
    (setFrame id { held with position := held.finish }).run machine =
      .ok () { machine with frames := machine.frames.set id held.over } := rfl

theorem run_breakRoutine (whole : machine.frames.Stack root id stack)
    (distinct : (stack.map (·.1)).Nodup) (enough : stack.length ≤ fuel) :
    ∃ frames, (breakRoutine root fuel id).run machine = .ok () { machine with frames } ∧
      machine.frames.Becomes frames stack (endRoutine stack) := by
  induction fuel generalizing machine id stack with
  | zero =>
      have positive := whole.chain.length_pos
      simp at positive
      omega
  | succ fuel hypothesis =>
      obtain ⟨frame, outer, rfl, found⟩ := whole.cases_head
      obtain ⟨held, live, rfl, reads⟩ := head_frame found
      have absent := absent_of_nodup distinct
      have ended : machine.frames.Becomes (machine.frames.set id held.over)
          ((id, held.control) :: outer) ((id, held.control.over) :: outer) :=
        .set_head whole absent live rfl rfl
      simp only [breakRoutine, EStateM.run_bind, reads, run_over]
      by_cases last : id = root ∨ held.kind.isRoutine = true
      · have same : endRoutine ((id, held.control) :: outer) = (id, held.control.over) :: outer := by
          rw [endRoutine]
          split
          · rfl
          · next nested =>
              obtain rfl := last.resolve_right nested
              cases whole with
              | root _ _ => rfl
              | inner _ _ different _ _ => exact (different rfl).elim
        rw [if_pos (by simpa using last), same]
        exact ⟨_, rfl, ended⟩
      · obtain ⟨inner, nested⟩ := not_or.mp last
        rw [if_neg (by simpa using last)]
        cases whole with
        | root _ _ => exact (inner rfl).elim
        | inner _ _ _ named outward =>
            have names : held.parent = some _ := named
            simp only [names]
            have kept : (machine.frames.set id held.over).Stack root _ outer :=
              outward.transport fun entry inside => ended.shown entry (List.mem_cons_of_mem _ inside)
            obtain ⟨frames, ran, becomes⟩ := @hypothesis
              { machine with frames := machine.frames.set id held.over } _ outer kept
              (List.nodup_cons.mp distinct).2 (by simpa using enough)
            have same : endRoutine ((id, held.control) :: outer) =
                (id, held.control.over) :: endRoutine outer := by
              rw [endRoutine, if_neg (by exact nested)]
            rw [same]
            exact ⟨frames, ran, ended.outward becomes absent⟩

/-- A break of a loop that goes well. -/
theorem run_breakLoop (whole : machine.frames.Stack root id stack)
    (distinct : (stack.map (·.1)).Nodup)
    (ran : (breakLoop root fuel id).run machine = .ok () after) :
    ∃ frames new, after = { machine with frames } ∧ endLoop stack = some new ∧
      machine.frames.Becomes frames stack new := by
  induction fuel generalizing machine id stack with
  | zero => cases ran
  | succ fuel hypothesis =>
      obtain ⟨frame, outer, rfl, found⟩ := whole.cases_head
      obtain ⟨held, live, rfl, reads⟩ := head_frame found
      have absent := absent_of_nodup distinct
      have ended : machine.frames.Becomes (machine.frames.set id held.over)
          ((id, held.control) :: outer) ((id, held.control.over) :: outer) :=
        .set_head whole absent live rfl rfl
      simp only [breakLoop, EStateM.run_bind, reads, run_over] at ran
      split at ran
      · cases ran
      · next last =>
          obtain ⟨inner, nested⟩ : ¬ id = root ∧ ¬ held.kind.isRoutine = true := by simpa using last
          cases whole with
          | root _ _ => exact (inner rfl).elim
          | @inner _ parent _ _ _ _ _ named outward =>
              have kept : (machine.frames.set id held.over).Stack root parent outer :=
                outward.transport fun entry inside => ended.shown entry (List.mem_cons_of_mem _ inside)
              obtain ⟨around, further, rfl, _⟩ := kept.cases_head
              have within := (List.nodup_cons.mp distinct).2
              have names : held.parent = some parent := named
              simp only [names] at ran
              split at ran
              · next loop =>
                  obtain ⟨caller, there, rfl, reads⟩ := @head_frame
                    { machine with frames := machine.frames.set id held.over } _ _
                    (kept.shown List.mem_cons_self)
                  simp only [EStateM.run_bind, reads, run_setFrame] at ran
                  cases ran
                  have passed : (machine.frames.set id held.over).Becomes
                      ((machine.frames.set id held.over).set parent
                        { caller with position := caller.position + 1 })
                      ((parent, caller.control) :: further)
                      ((parent, { caller.control with position := caller.position + 1 }) ::
                        further) :=
                    .set_head kept (absent_of_nodup within) there rfl rfl
                  refine ⟨_, _, rfl, ?_, ended.outward passed absent⟩
                  rw [endLoop, if_neg (by exact nested), if_pos (by exact loop)]
                  rfl
              · next other =>
                  obtain ⟨frames, new, rfl, ends, becomes⟩ := hypothesis kept within ran
                  refine ⟨frames, (id, held.control.over) :: new, rfl, ?_,
                    ended.outward becomes absent⟩
                  rw [endLoop, if_neg (by exact nested), if_neg (by exact other), ends]
                  rfl

/-- The search for the function whose result is set. -/
theorem run_resultFrame (whole : machine.frames.Stack root id stack)
    (distinct : (stack.map (·.1)).Nodup) (value : Value) :
    (∃ target held new, (resultFrame root fuel id).run machine = .ok target machine ∧
      machine.frames.frame? target = some held ∧ withResult value stack = some new ∧
      machine.frames.Becomes (machine.frames.set target { held with result := value }) stack new) ∨
    ∃ error, (resultFrame root fuel id).run machine = .error error machine := by
  induction fuel generalizing id stack with
  | zero => exact .inr ⟨_, rfl⟩
  | succ fuel hypothesis =>
      obtain ⟨frame, outer, rfl, found⟩ := whole.cases_head
      obtain ⟨held, live, rfl, reads⟩ := head_frame found
      have absent := absent_of_nodup distinct
      have stays := Becomes.refl whole
      simp only [resultFrame, EStateM.run_bind, reads]
      by_cases function : held.kind = .function
      · rw [if_pos function]
        refine .inl ⟨id, held, _, rfl, live, ?_, .set_head whole absent live rfl rfl⟩
        rw [withResult, if_pos (by exact function)]
        rfl
      · rw [if_neg function]
        split
        · next parent named =>
            split
            · exact .inr ⟨_, rfl⟩
            · next last =>
                obtain ⟨inner, nested⟩ : ¬ id = root ∧ ¬ held.kind.isRoutine = true := by
                  simpa using last
                cases whole with
                | root _ _ => exact (inner rfl).elim
                | inner _ _ _ names outward =>
                    cases names.symm.trans named
                    rcases hypothesis outward (List.nodup_cons.mp distinct).2 with
                      ⟨target, function, new, ran, there, sets, becomes⟩ | failed
                    · refine .inl ⟨target, function, (id, held.control) :: new, ran, there, ?_, ?_⟩
                      · rw [withResult, if_neg (by assumption), if_neg (by exact nested), sets]
                        rfl
                      · exact stays.outward becomes absent
                    · exact .inr failed
        · exact .inr ⟨_, rfl⟩

/-- The result is set to the value on top of the stack. Where that fails, no more than an operand is
gone. -/
theorem setResult_cases {entry : Thread} {frame : Frame} {outer : CallStack}
    (natives : Natives) (found : machine.threads.find? number = some entry)
    (whole : machine.frames.Stack entry.root id ((id, frame) :: outer))
    (distinct : (((id, frame) :: outer).map (·.1)).Nodup) :
    (∃ value rest new frames, frame.stack = value :: rest ∧
      withResult value ((id, { frame with stack := rest }) :: outer) = some new ∧
      (execute natives number id .setResult).run machine = .ok none { machine with frames } ∧
      machine.frames.Becomes frames ((id, frame) :: outer) new) ∨
    ∃ error after, (execute natives number id .setResult).run machine = .error error after ∧
      machine.Alters Frame.bare id after := by
  obtain ⟨held, live, rfl, reads⟩ := head_frame (whole.shown List.mem_cons_self)
  have absent := absent_of_nodup distinct
  have looks (machine : Machine) (found : machine.threads.find? number = some entry) :
      (Action.thread number).run machine = .ok entry machine := by
    simp only [Action.thread, EStateM.run_bind, EStateM.run_get, found]
    rfl
  cases operands : held.stack with
  | nil =>
      refine .inr ⟨.stackUnderflow, machine, ?_, .refl machine⟩
      simp only [execute, pop, EStateM.run_bind, reads, Frame.pop, operands]
      rfl
  | cons value rest =>
      let popped := { machine with frames := machine.frames.set id { held with stack := rest } }
      have pops : (pop id).run machine = .ok value popped := by
        simp only [pop, EStateM.run_bind, reads, Frame.pop, operands]
        rfl
      have taken : machine.frames.Becomes popped.frames ((id, held.control) :: outer)
          ((id, { held.control with stack := rest }) :: outer) :=
        .set_head whole absent live rfl rfl
      simp only [execute, EStateM.run_bind, pops, looks popped found]
      rcases @run_resultFrame popped _ _ (entry.depth + 1) _ (taken.stack whole) distinct value with
        ⟨target, function, new, ran, there, sets, becomes⟩ | ⟨error, failed⟩
      · refine .inl ⟨value, rest, new, _, operands, sets, ?_, taken.trans becomes⟩
        simp only [ran, run_frame there, run_setFrame]
        rfl
      · refine .inr ⟨error, popped, ?_, .setFrame live rfl⟩
        simp only [failed]

end Action

end CoopScript
