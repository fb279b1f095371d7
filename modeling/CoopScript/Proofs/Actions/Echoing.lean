import CoopScript.Proofs.Actions.Echoes
import CoopScript.Proofs.Actions.Instructions

/-!
Instructions on a machine beside the residue of a frame that is gone.
-/

namespace CoopScript

variable {α β : Type} {residue : Residue} {machine : Machine} {natives : Natives} {number : ThreadId}

namespace Action

/-! Breaks and results. -/

theorem echo_move {there : FrameId} {frame : Frame} (suits : residue.Suits machine)
    (found : machine.frames.frame? there = some frame) (position : Nat) :
    residue.Echo ((setFrame there { frame with position }).run machine)
      ((setFrame there { residue.frame frame with position }).run (residue.machine machine)) :=
  @echo_setFrame residue machine there suits frame { frame with position } found rfl

theorem echoes_breakLoop (root : FrameId) (fuel : Nat) (id : FrameId) :
    Echoes residue (breakLoop root fuel id) := by
  induction fuel generalizing id with
  | zero => exact inferInstanceAs (Echoes residue (throw _))
  | succ fuel hypothesis =>
      have passes (parent : FrameId) : Echoes residue (do
          let caller ← frame parent
          setFrame parent { caller with position := caller.position + 1 }) :=
        ⟨fun _ suits => echo_frame suits fun caller found => echo_move suits found _⟩
      refine ⟨fun machine suits => echo_frame suits fun current found => ?_⟩
      refine echo_bind (echo_move suits found _) fun _ after _ later => ?_
      refine @Echoes.always _ _ _ ?_ after later
      cases current.parent <;>
        · dsimp only
          infer_instance

theorem echoes_breakRoutine (root : FrameId) (fuel : Nat) (id : FrameId) :
    Echoes residue (breakRoutine root fuel id) := by
  induction fuel generalizing id with
  | zero => exact inferInstanceAs (Echoes residue (throw _))
  | succ fuel hypothesis =>
      refine ⟨fun machine suits => echo_frame suits fun current found => ?_⟩
      refine echo_bind (echo_move suits found _) fun _ after _ later => ?_
      refine @Echoes.always _ _ _ ?_ after later
      cases current.parent <;>
        · dsimp only
          infer_instance

theorem echoes_resultFrame (root : FrameId) (fuel : Nat) (id : FrameId) :
    Echoes residue (resultFrame root fuel id) := by
  induction fuel generalizing id with
  | zero => exact inferInstanceAs (Echoes residue (throw _))
  | succ fuel hypothesis =>
      apply echoes_frame_bind (fun _ => rfl)
      intro current
      cases current.parent <;>
        · dsimp only
          infer_instance

attribute [instance] echoes_breakLoop echoes_breakRoutine echoes_resultFrame

/-! Parts of instructions. -/

instance : Echoes residue count := by
  have counts : Echoes residue
      (modify fun machine => { machine with instructions := machine.instructions + 1 } :
        Action PUnit) :=
    echoes_modify (fun _ => rfl) fun _ => rfl
  refine counts.bind fun _ => echoes_get_bind (fun _ _ => rfl) fun machine => ?_
  split <;> infer_instance

/-- The next instruction is the same, and is left behind in the same way. -/
theorem echoes_fetch (id : FrameId) : Echoes residue (fetch id) := by
  refine ⟨fun machine suits => echo_frame suits fun frame found => ?_⟩
  simp only [EStateM.run_bind, run_block, Frame.block_residue, Frame.position_residue,
    Residue.script_machine]
  cases machine.script.block? frame.block with
  | none => exact .error _ suits
  | some block =>
      dsimp only
      cases block.codes[frame.position]? with
      | none => exact .ok none suits
      | some code =>
          let counted := { machine with
            currentLine := code.line
            instructions := machine.instructions + 1 }
          have ready : residue.Suits counted := suits.of_frames rfl
          have passes : residue.Echo
              ((setFrame id { frame with position := frame.position + 1 } >>= fun _ =>
                pure (some code.instruction)).run counted)
              ((setFrame id { residue.frame frame with position := frame.position + 1 } >>= fun _ =>
                pure (some code.instruction)).run (residue.machine counted)) :=
            echo_bind (echo_move ready found _) fun _ _ _ later => .ok _ later
          simp only [EStateM.run_bind, EStateM.run_modify, count, EStateM.run_get,
            Residue.limits_machine]
          cases machine.limits.instructionLimit with
          | none => exact passes
          | some limit =>
              have counts : (residue.machine machine).instructions = machine.instructions := rfl
              by_cases beyond : limit < machine.instructions + 1
              · simp only [counts, if_pos beyond]
                exact .error _ ready
              · simp only [counts, if_neg beyond]
                exact passes

attribute [instance] echoes_fetch

instance (elements : List Value) : Echoes residue (constructArray elements) := by
  unfold constructArray
  split <;> infer_instance

instance (id : FrameId) (place : Variable) (forward : Bool) :
    Echoes residue (stepVariable id place forward) := by
  unfold stepVariable
  infer_instance

instance (id : FrameId) : Echoes residue (countLoop id) := by
  unfold countLoop
  infer_instance

instance (id : FrameId) : Echoes residue (iterateLoop id) := by
  have steps (array : Value) (position : Nat) : Echoes residue (do
      pushDatum id (.real (Float.ofNat position + 1.0))
      push id (← readHeap fun heap => heap.index array position)
      pushDatum id (.boolean true)) := inferInstance
  unfold iterateLoop
  infer_instance

instance (target source : Value) : Echoes residue (writeThrough target source) := by
  apply echoes_get_bind (fun _ _ => rfl)
  intro machine
  dsimp only
  split
  · split <;> infer_instance
  · infer_instance

/-- What is found out about the values of a machine is used. -/
theorem echoes_find {result : Machine → Except MachineError α} {next : α → Action β}
    (same : ∀ machine, result (residue.machine machine) = result machine)
    (rest : ∀ found, Echoes residue (next found)) :
    Echoes residue (do next (← ofResult (result (← get)))) :=
  echoes_get_bind (fun machine _ => congrArg (ofResult · >>= next) (same machine)) fun _ =>
    Echoes.bind inferInstance rest

/-- Instructions without a call. -/
theorem echoes_execute (id : FrameId) {instruction : Instruction}
    (simple : instruction.call? = none) :
    Echoes residue (execute natives number id instruction) := by
  cases instruction with
  | call callee count => cases simple
  | callAndPushResult callee count => cases simple
  | pushVariableWritable place =>
      refine Echoes.bind inferInstance fun shared => ?_
      refine echoes_get_bind (fun machine _ => ?_) fun machine => ?_
      · rw [Machine.roots_residue]
      · infer_instance
  | indexWritable =>
      refine Echoes.bind inferInstance fun operand => Echoes.bind inferInstance fun datum => ?_
      refine Echoes.bind inferInstance fun position => Echoes.bind inferInstance fun array => ?_
      refine Echoes.bind inferInstance fun element => ?_
      refine echoes_get_bind (fun machine _ => ?_) fun machine => ?_
      · rw [Machine.roots_residue]
      · infer_instance
  | arith operator =>
      refine Echoes.bind inferInstance fun second => Echoes.bind inferInstance fun first => ?_
      exact echoes_find (fun _ => rfl) inferInstance
  | unary operator =>
      refine Echoes.bind inferInstance fun operand => ?_
      exact echoes_find (fun _ => rfl) inferInstance
  | inlineAssign operator place =>
      refine Echoes.bind inferInstance fun second => Echoes.bind inferInstance fun first => ?_
      exact echoes_find (fun _ => rfl) inferInstance
  | swap =>
      refine ⟨fun machine suits => echo_frame suits fun frame found => ?_⟩
      rw [Frame.swap_residue]
      cases swapped : frame.swap with
      | error error => exact .error error suits
      | ok new =>
          have set := echo_setFrame suits found (skeleton_swap swapped)
          show residue.Echo ((setFrame id new >>= fun _ => pure none).run machine)
            ((setFrame id (residue.frame new) >>= fun _ => pure none).run (residue.machine machine))
          exact echo_bind set fun _ _ _ later => .ok none later
  | setResult =>
      refine Echoes.bind inferInstance fun value => Echoes.bind inferInstance fun entry => ?_
      refine Echoes.bind inferInstance fun target => ?_
      refine ⟨fun machine suits => echo_frame suits fun frame found => ?_⟩
      have set := @echo_setFrame residue machine target suits frame
        { frame with result := value } found rfl
      exact echo_bind set fun _ _ _ later => .ok none later
  | _ =>
      unfold execute
      infer_instance

/-! Calls of blocks. -/

/-- A call within the thread goes into a new frame. -/
theorem echoesAt_descend (suits : residue.Suits machine) {id : FrameId}
    (holds : machine.Holds (some id)) (block : BlockId) (arguments : List Value)
    (pushesResult : Bool) :
    EchoesAt residue machine (descend number id block arguments pushesResult) := by
  have begins (child : FrameId) (depth : Nat) : Echoes residue (do
      setFrame child { (← frame child) with returnsResult := pushesResult }
      updateThread number fun entry => { entry with current := child, depth }) := by
    refine ⟨fun machine suits => echo_frame suits fun frame found => ?_⟩
    have set := @echo_setFrame residue machine child suits frame
      { frame with returnsResult := pushesResult } found rfl
    exact echo_bind set fun _ after _ later => Echoes.always after later
  refine echo_ite .rfl (.error _ suits) ?_
  exact (echoesAt_enter suits holds block arguments).bind fun child after _ later =>
    (begins child _).always after later

theorem echoesAt_callBlock (suits : residue.Suits machine) {id : FrameId} {held : Frame}
    (live : machine.frames.frame? id = some held) (callee : BlockId) (count : Nat)
    (pushesResult : Bool) :
    EchoesAt residue machine (callBlock number id callee count pushesResult) := by
  simp only [EchoesAt, callBlock, EStateM.run_bind, run_block, Residue.script_machine]
  cases machine.script.block? callee with
  | none => exact .error _ suits
  | some block =>
      refine echo_ite .rfl (.error _ suits) (echo_ite .rfl (.error _ suits) ?_)
      have pops : Echoes residue (popMany id count) := inferInstance
      refine echo_bind (pops.always machine suits) fun arguments after ran later => ?_
      have holds : after.Holds (some id) := by
        rintro _ ⟨⟩
        have popped := ((calm_popMany live count).ok ran).1
        obtain ⟨now, there, _⟩ := FrameArena.frame?_of_skeleton popped.frames live
        exact ⟨now, there⟩
      refine echo_ite .rfl ?_ ?_
      · exact (echoesAt_launch later holds callee arguments).bind fun _ last _ still =>
          Echoes.always last still
      · exact (echoesAt_descend later holds callee arguments pushesResult).bind fun _ last _ still =>
          Echoes.always last still

end Action

end CoopScript
