import CoopScript.Proofs.Actions.Calm

/-!
All instructions but the calls are calm, and end the slice of their thread only by yielding or
waiting.
-/

namespace CoopScript

open FrameArena MachineError

/-- How an instruction other than a call may end: it lets its thread go on, yield or wait. -/
inductive Slice.Gentle : Option Slice → Prop
  | going : Gentle none
  | yielded : Gentle (some .yielded)
  | waiting {ticks : Nat} : 1 ≤ ticks → Gentle (some (.waiting ticks))

/-- The callee of a call, with the number of its arguments and whether its result is asked for. -/
def Instruction.call? : Instruction → Option (Callee × Nat × Bool)
  | .call callee arguments => some (callee, arguments, false)
  | .callAndPushResult callee arguments => some (callee, arguments, true)
  | _ => none

namespace Action

variable {origin : Machine} {id root : FrameId} {before : Frame} {further : FrameId → Nat}

/-- Both instructions that call come to the same. -/
theorem execute_call {natives : Natives} {number : ThreadId} {instruction : Instruction}
    {callee : Callee} {count : Nat} {pushesResult : Bool}
    (called : instruction.call? = some (callee, count, pushesResult)) :
    execute natives number id instruction = call natives number id callee count pushesResult := by
  cases instruction with
  | call _ _ =>
      cases called
      rfl
  | callAndPushResult _ _ =>
      cases called
      rfl
  | _ => cases called

/-! Leaving blocks. -/

theorem calm_breakLoop (counted : origin.frames.Counted further) (root : FrameId) (fuel : Nat)
    (found : origin.frames.frame? id = some before) : (breakLoop root fuel id).Calm origin := by
  have outside : ¬ MachineError.breakOutsideLoop.IsInternal := not_isInternal rfl
  induction fuel generalizing id before with
  | zero => exact calm_throw outside
  | succ fuel hypothesis =>
      apply (calm_frame found).bind
      intro held alike
      apply (calm_setFrame found (by exact alike)).bind
      intro _ _
      extract_lets next
      split
      · exact calm_throw_bind outside
      · unfold next
        split
        · exact calm_throw outside
        · next parent named =>
            have names : before.parent = some parent := (congrArg (·.parent) alike).symm.trans named
            obtain ⟨around, live, _⟩ := counted.parent_older id before parent found names
            split
            · exact (calm_frame live).bind fun caller same => calm_setFrame live same
            · exact hypothesis live

theorem calm_breakRoutine {chain : List FrameId} {fuel : Nat}
    (whole : origin.frames.Chain root id chain) (enough : chain.length ≤ fuel) :
    (breakRoutine root fuel id).Calm origin := by
  induction fuel generalizing id chain with
  | zero =>
      have positive := whole.length_pos
      omega
  | succ fuel hypothesis =>
      obtain ⟨before, found⟩ := whole.live
      apply (calm_frame found).bind
      intro held alike
      apply (calm_setFrame found (by exact alike)).bind
      intro _ _
      split
      · exact calm_pure trivial
      · next going =>
          have inner : id ≠ root := by
            intro equal
            subst equal
            simp at going
          obtain ⟨parent, outer, rfl, named, rest⟩ := whole.inward inner found
          have names : held.parent = some parent := (congrArg (·.parent) alike).trans named
          simp only [names]
          exact hypothesis rest (by simpa using enough)

theorem calm_resultFrame (counted : origin.frames.Counted further) (root : FrameId) (fuel : Nat)
    (found : origin.frames.frame? id = some before) :
    (resultFrame root fuel id).Calm origin fun target =>
      ∃ held, origin.frames.frame? target = some held := by
  induction fuel generalizing id before with
  | zero => exact calm_throw not_isInternal_resultOutside
  | succ fuel hypothesis =>
      apply (calm_frame found).bind
      intro held alike
      split
      · exact calm_pure ⟨before, found⟩
      · split
        · next parent named =>
            have names : before.parent = some parent := (congrArg (·.parent) alike).symm.trans named
            obtain ⟨around, live, _⟩ := counted.parent_older id before parent found names
            split
            · exact calm_throw not_isInternal_resultOutside
            · exact hypothesis live
        · exact calm_throw not_isInternal_resultOutside

/-! Values. -/

theorem calm_writeThrough (target source : Value) : (writeThrough target source).Calm origin := by
  apply calm_get.bind
  intro machine _
  dsimp only
  have rest : (do
      let id ← ofValueResult (machine.heap.overwritten target source)
      changeHeap fun heap => ((), heap.takeOver id source)).Calm origin :=
    (calm_ofValueResult _).bind fun _ _ => calm_changeHeap _
  split
  · split
    · exact calm_throw_bind (not_isInternal rfl)
    · exact rest
  · exact rest

theorem calm_constructArray (elements : List Value) : (constructArray elements).Calm origin := by
  unfold constructArray
  split
  · exact calm_build _
  · apply (calm_readHeap _).bind
    intro _ _
    exact (calm_readHeap _).bind fun _ _ => calm_allocate _

theorem calm_stepVariable (counted : origin.frames.Counted further)
    (found : origin.frames.frame? id = some before) (place : Variable) (forward : Bool) :
    (stepVariable id place forward).Calm origin := by
  apply (calm_readSlot counted found place).bind
  intro _ _
  apply (calm_surface _).bind
  intro datum _
  apply (calm_ofResult (datum.step_sane forward)).bind
  intro _ _
  exact (calm_build _).bind fun _ _ => calm_writeSlot counted found place _

/-! Loops. -/

theorem calm_countLoop (found : origin.frames.frame? id = some before) :
    (countLoop id).Calm origin := by
  apply (calm_peek found).bind
  intro _ _
  apply (calm_toReal _).bind
  intro count _
  split
  · apply (calm_pop found).bind
    intro _ _
    exact (calm_pushDatum found _).bind fun _ _ => calm_pushDatum found _
  · exact calm_pushDatum found _

theorem calm_iterateLoop (found : origin.frames.frame? id = some before) :
    (iterateLoop id).Calm origin := by
  apply (calm_pop found).bind
  intro _ _
  apply (calm_surface _).bind
  intro datum _
  apply (calm_ofResult datum.position_sane).bind
  intro position _
  apply (calm_peek found).bind
  intro _ _
  apply (calm_readHeap _).bind
  intro length _
  split
  · apply (calm_pushDatum found _).bind
    intro _ _
    apply (calm_readHeap _).bind
    intro _ _
    exact (calm_push found _).bind fun _ _ => calm_pushDatum found _
  · exact (calm_push found _).bind fun _ _ => calm_pushDatum found _

/-! Instructions. -/

theorem Calm.going {action : Action Unit} (calm : action.Calm origin) :
    (do action; return none).Calm origin Slice.Gentle :=
  calm.bind fun _ _ => calm_pure .going

theorem one_le_ticks (number : Float) : 1 ≤ ticks number := Nat.le_max_left _ _

/-- The current frame of a coherent machine executes any instruction but a call calmly. -/
theorem calm_execute {number : ThreadId} {entry : Thread} (natives : Natives)
    (coherent : Coherent origin.script origin.frames origin.globals origin.threads.find?)
    (running : origin.threads.find? number = some entry) {instruction : Instruction}
    (simple : instruction.call? = none) :
    (execute natives number entry.current instruction).Calm origin Slice.Gentle := by
  have counted := coherent.counted
  obtain ⟨before, found, _⟩ := coherent.live_current running
  obtain ⟨chain, whole, length⟩ := coherent.chain number entry running
  cases instruction with
  | call callee arguments => cases simple
  | callAndPushResult callee arguments => cases simple
  | nop => exact calm_pure .going
  | pushValue literal => exact (calm_pushDatum found literal).going
  | pushVariable place =>
      apply (calm_readSlot counted found place).bind
      intro _ _
      exact (calm_push found _).going
  | pushVariableWritable place =>
      apply (calm_readSlot counted found place).bind
      intro _ _
      apply calm_get.bind
      intro _ _
      apply (calm_changeHeap _).bind
      intro _ _
      apply (calm_writeSlot counted found place _).bind
      intro _ _
      exact (calm_push found _).going
  | assign place =>
      apply (calm_pop found).bind
      intro _ _
      exact (calm_writeSlot counted found place _).going
  | assignWritable =>
      apply (calm_pop found).bind
      intro _ _
      apply (calm_pop found).bind
      intro _ _
      exact (calm_writeThrough _ _).going
  | dup =>
      apply (calm_peek found).bind
      intro _ _
      exact (calm_push found _).going
  | swap =>
      apply (calm_frame found).bind
      intro held alike
      apply (calm_ofResult (Frame.sane_swap held)).bind
      intro swapped same
      exact (calm_setFrame found ((skeleton_swap same).trans alike)).going
  | pop => exact (calm_pop found).bind fun _ _ => calm_pure .going
  | arith operator =>
      apply (calm_pop found).bind
      intro _ _
      apply (calm_pop found).bind
      intro _ _
      apply calm_get.bind
      intro machine _
      apply (calm_ofResult (machine.heap.arith_sane operator _ _)).bind
      intro _ _
      exact (calm_pushDatum found _).going
  | unary operator =>
      apply (calm_pop found).bind
      intro _ _
      apply calm_get.bind
      intro machine _
      apply (calm_ofResult (machine.heap.unary_sane operator _)).bind
      intro _ _
      exact (calm_pushDatum found _).going
  | compare operator =>
      apply (calm_pop found).bind
      intro _ _
      apply (calm_pop found).bind
      intro _ _
      apply (calm_readHeap _).bind
      intro _ _
      exact (calm_pushDatum found _).going
  | logicAnd =>
      apply (calm_popBoolean found).bind
      intro _ _
      apply (calm_popBoolean found).bind
      intro _ _
      exact (calm_pushDatum found _).going
  | logicOr =>
      apply (calm_popBoolean found).bind
      intro _ _
      apply (calm_popBoolean found).bind
      intro _ _
      exact (calm_pushDatum found _).going
  | constructArray count =>
      apply (calm_popMany found count).bind
      intro _ _
      apply (calm_constructArray _).bind
      intro _ _
      exact (calm_push found _).going
  | index =>
      apply (calm_pop found).bind
      intro _ _
      apply (calm_surface _).bind
      intro datum _
      apply (calm_ofResult datum.position_sane).bind
      intro _ _
      apply (calm_pop found).bind
      intro _ _
      apply (calm_readHeap _).bind
      intro _ _
      exact (calm_push found _).going
  | indexWritable =>
      apply (calm_pop found).bind
      intro _ _
      apply (calm_surface _).bind
      intro datum _
      apply (calm_ofResult datum.position_sane).bind
      intro _ _
      apply (calm_pop found).bind
      intro _ _
      apply (calm_readHeap _).bind
      intro _ _
      apply calm_get.bind
      intro _ _
      apply (calm_changeHeap _).bind
      intro _ _
      exact (calm_push found _).going
  | append =>
      apply (calm_pop found).bind
      intro _ _
      apply (calm_pop found).bind
      intro _ _
      apply (calm_readHeap _).bind
      intro _ _
      apply (calm_allocate _).bind
      intro _ _
      exact (calm_push found _).going
  | concatenate =>
      apply (calm_pop found).bind
      intro _ _
      apply (calm_pop found).bind
      intro _ _
      apply (calm_readHeap _).bind
      intro _ _
      apply (calm_allocate _).bind
      intro _ _
      exact (calm_push found _).going
  | jump target => exact (calm_jump found target).going
  | jumpIf target =>
      apply (calm_popBoolean found).bind
      intro holds _
      split
      · exact (calm_jump found target).going
      · exact calm_pure .going
  | jumpIfNot target =>
      apply (calm_popBoolean found).bind
      intro holds _
      split
      · exact (calm_jump found target).going
      · exact calm_pure .going
  | jumpIfNoPop target =>
      apply (calm_peekBoolean found).bind
      intro holds _
      split
      · exact (calm_jump found target).going
      · exact calm_pure .going
  | jumpIfNotNoPop target =>
      apply (calm_peekBoolean found).bind
      intro holds _
      split
      · exact (calm_jump found target).going
      · exact calm_pure .going
  | loopBack target => exact (calm_jump found target).going
  | loopCount => exact (calm_countLoop found).going
  | loopForEach => exact (calm_iterateLoop found).going
  | breakLoop =>
      apply (calm_thread running).bind
      intro held same
      exact (calm_breakLoop counted _ _ found).going
  | breakRoutine =>
      apply (calm_thread running).bind
      intro held same
      subst same
      exact (calm_breakRoutine whole length.le).going
  | setResult =>
      apply (calm_pop found).bind
      intro _ _
      apply (calm_thread running).bind
      intro held same
      apply (calm_resultFrame counted _ _ found).bind
      intro target live
      obtain ⟨first, live⟩ := live
      apply (calm_frame live).bind
      intro _ alike
      exact (calm_setFrame live (by exact alike)).going
  | yield => exact calm_pure .yielded
  | wait =>
      apply (calm_pop found).bind
      intro _ _
      apply (calm_toReal _).bind
      intro number _
      exact calm_pure (.waiting (one_le_ticks number))
  | inlineInc place => exact (calm_stepVariable counted found place true).going
  | inlineDec place => exact (calm_stepVariable counted found place false).going
  | inlineAssign operator place =>
      apply (calm_pop found).bind
      intro _ _
      apply (calm_readSlot counted found place).bind
      intro _ _
      apply calm_get.bind
      intro machine _
      apply (calm_ofResult (machine.heap.arith_sane operator _ _)).bind
      intro _ _
      apply (calm_build _).bind
      intro _ _
      exact (calm_writeSlot counted found place _).going

end Action

end CoopScript
