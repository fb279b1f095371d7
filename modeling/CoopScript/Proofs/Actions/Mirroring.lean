import CoopScript.Proofs.Actions.Mirrors
import CoopScript.Proofs.Actions.Runs
import CoopScript.Proofs.Machine.Moves
import CoopScript.Proofs.Machine.Surroundings
import CoopScript.Proofs.Machine.Uniform

/-!
Instructions on a machine whose heap has its place inside another one. Those that look into whole
trees, and native functions, need a machine whose heap is sound.
-/

namespace CoopScript

variable {α β γ : Type} {lodging : Lodging} {natives : Natives} {number : ThreadId}

namespace Action

/-! Breaks and results. -/

theorem mirrors_move (id : FrameId) (frame : Frame) (position : Nat) :
    Mirrors lodging (fun result => result) (setFrame id { frame with position })
      (setFrame id { frame.rename lodging.place with position }) :=
  inferInstanceAs (Mirrors lodging _ (setFrame id { frame with position })
    (setFrame id (Frame.rename lodging.place { frame with position })))

/-- How a break of a loop goes on from a frame of this kind below the outer one. -/
def breakOut (root : FrameId) (fuel : Nat) (id : FrameId) (kind : BlockKind)
    (outer : Option FrameId) : Action Unit := do
  if id = root || kind.isRoutine then throw .breakOutsideLoop
  match outer with
  | none => throw .breakOutsideLoop
  | some parent =>
    if kind = .loop then
      let caller ← frame parent
      setFrame parent { caller with position := caller.position + 1 }
    else breakLoop root fuel parent

/-- How a break of a routine goes on. -/
def leaveOut (root : FrameId) (fuel : Nat) (id : FrameId) (kind : BlockKind)
    (outer : Option FrameId) : Action Unit := do
  if id = root || kind.isRoutine then return
  match outer with
  | none => throw (.frameWithoutCaller id)
  | some parent => breakRoutine root fuel parent

/-- How the search for the frame of a result goes on. -/
def resultOut (root : FrameId) (fuel : Nat) (id : FrameId) (kind : BlockKind)
    (outer : Option FrameId) : Action FrameId := do
  if kind = .function then return id
  match outer with
  | some parent =>
    if id = root || kind.isRoutine then throw (.runtime "result set outside of a function")
    else resultFrame root fuel parent
  | none => throw (.runtime "result set outside of a function")

theorem breakLoop_succ (root : FrameId) (fuel : Nat) (id : FrameId) :
    breakLoop root (fuel + 1) id = (do
      let current ← frame id
      setFrame id { current with position := current.finish }
      breakOut root fuel id current.kind current.parent) := rfl

theorem breakRoutine_succ (root : FrameId) (fuel : Nat) (id : FrameId) :
    breakRoutine root (fuel + 1) id = (do
      let current ← frame id
      setFrame id { current with position := current.finish }
      leaveOut root fuel id current.kind current.parent) := rfl

theorem resultFrame_succ (root : FrameId) (fuel : Nat) (id : FrameId) :
    resultFrame root (fuel + 1) id = (do
      let current ← frame id
      resultOut root fuel id current.kind current.parent) := rfl

theorem mirrors_breakLoop (root : FrameId) (fuel : Nat) (id : FrameId) :
    Mirrors lodging (fun result => result) (breakLoop root fuel id) (breakLoop root fuel id) := by
  induction fuel generalizing id with
  | zero => exact mirrors_throw _ _
  | succ fuel hypothesis =>
      have passes (parent : FrameId) : Mirrors lodging (fun result => result)
          (do
            let caller ← frame parent
            setFrame parent { caller with position := caller.position + 1 })
          (do
            let caller ← frame parent
            setFrame parent { caller with position := caller.position + 1 }) :=
        Mirrors.bind inferInstance fun caller => mirrors_move parent caller (caller.position + 1)
      have breaks (kind : BlockKind) (outer : Option FrameId) : Mirrors lodging (fun result => result)
          (breakOut root fuel id kind outer) (breakOut root fuel id kind outer) := by
        unfold breakOut
        cases outer <;>
          · dsimp only
            infer_instance
      rw [breakLoop_succ]
      exact Mirrors.bind inferInstance fun current =>
        Mirrors.bind (mirrors_move id current current.finish) fun _ =>
          breaks current.kind current.parent

theorem mirrors_breakRoutine (root : FrameId) (fuel : Nat) (id : FrameId) :
    Mirrors lodging (fun result => result) (breakRoutine root fuel id)
      (breakRoutine root fuel id) := by
  induction fuel generalizing id with
  | zero => exact mirrors_throw _ _
  | succ fuel hypothesis =>
      have breaks (kind : BlockKind) (outer : Option FrameId) : Mirrors lodging (fun result => result)
          (leaveOut root fuel id kind outer) (leaveOut root fuel id kind outer) := by
        unfold leaveOut
        cases outer <;>
          · dsimp only
            infer_instance
      rw [breakRoutine_succ]
      exact Mirrors.bind inferInstance fun current =>
        Mirrors.bind (mirrors_move id current current.finish) fun _ =>
          breaks current.kind current.parent

theorem mirrors_resultFrame (root : FrameId) (fuel : Nat) (id : FrameId) :
    Mirrors lodging (fun result => result) (resultFrame root fuel id) (resultFrame root fuel id) := by
  induction fuel generalizing id with
  | zero => exact mirrors_throw _ _
  | succ fuel hypothesis =>
      have looks (kind : BlockKind) (outer : Option FrameId) : Mirrors lodging (fun result => result)
          (resultOut root fuel id kind outer) (resultOut root fuel id kind outer) := by
        unfold resultOut
        cases outer <;>
          · dsimp only
            infer_instance
      rw [resultFrame_succ]
      exact Mirrors.bind inferInstance fun current => looks current.kind current.parent

attribute [instance] mirrors_breakLoop mirrors_breakRoutine mirrors_resultFrame

/-! Parts of instructions. -/

instance : Mirrors lodging (fun result => result) count count := by
  have counts : Mirrors lodging (fun result => result)
      (modify fun machine => { machine with instructions := machine.instructions + 1 } : Action PUnit)
      (modify fun machine => { machine with instructions := machine.instructions + 1 }) :=
    mirrors_modify (fun _ => .of_eq rfl rfl) fun _ => rfl
  refine Mirrors.bind counts fun _ => mirrors_get_bind fun machine _ => ?_
  rw [Lodging.limits_machine, Lodging.instructions_machine]
  split <;> infer_instance

instance (id : FrameId) : Mirrors lodging (fun result => result) (fetch id) (fetch id) := by
  have lines (line : Nat) : Mirrors lodging (fun result => result)
      (modify fun machine => { machine with currentLine := line } : Action PUnit)
      (modify fun machine => { machine with currentLine := line }) :=
    mirrors_modify (fun _ => .of_eq rfl rfl) fun _ => rfl
  have fetches (frame : Frame) (block : Block) : Mirrors lodging (fun result => result)
      (do
        match block.codes[frame.position]? with
        | none => return none
        | some code =>
          modify fun machine => { machine with currentLine := code.line }
          count
          setFrame id { frame with position := frame.position + 1 }
          return some code.instruction : Action (Option Instruction))
      (do
        match block.codes[frame.position]? with
        | none => return none
        | some code =>
          modify fun machine => { machine with currentLine := code.line }
          count
          setFrame id { frame.rename lodging.place with position := frame.position + 1 }
          return some code.instruction) := by
    have moves := @mirrors_move lodging id frame (frame.position + 1)
    split <;> infer_instance
  exact Mirrors.bind inferInstance fun frame =>
    Mirrors.bind (inferInstanceAs (Mirrors lodging _ (block frame.block) (block frame.block)))
      fun block => fetches frame block

instance (elements : List Value) : Mirrors lodging lodging.value (constructArray elements)
    (constructArray (elements.map lodging.value)) := by
  unfold constructArray
  cases elements with
  | nil => exact inferInstanceAs (Mirrors lodging _ (build _) (build _))
  | cons first rest =>
      have allocates (element : Ty) : Mirrors lodging lodging.value
          (do allocate (← readHeap fun heap => heap.arrayBody (.array element) (first :: rest)))
          (do allocate (← readHeap fun heap =>
            heap.arrayBody (.array element) ((first :: rest).map lodging.value))) := inferInstance
      exact Mirrors.bind inferInstance allocates

instance (id : FrameId) (place : Variable) (forward : Bool) : Mirrors lodging (fun result => result)
    (stepVariable id place forward) (stepVariable id place forward) := by
  unfold stepVariable
  infer_instance

instance (id : FrameId) : Mirrors lodging (fun result => result) (countLoop id) (countLoop id) := by
  unfold countLoop
  infer_instance

instance (id : FrameId) :
    Mirrors lodging (fun result => result) (iterateLoop id) (iterateLoop id) := by
  have steps (array : Value) (position : Nat) : Mirrors lodging (fun result => result)
      (do
        pushDatum id (.real (Float.ofNat position + 1.0))
        push id (← readHeap fun heap => heap.index array position)
        pushDatum id (.boolean true))
      (do
        pushDatum id (.real (Float.ofNat position + 1.0))
        push id (← readHeap fun heap => heap.index (lodging.value array) position)
        pushDatum id (.boolean true)) := inferInstance
  unfold iterateLoop
  infer_instance

instance (number : ThreadId) (id : FrameId) (callee : BlockId) (arguments : List Value)
    (pushesResult : Bool) : Mirrors lodging (fun result => result)
      (descend number id callee arguments pushesResult)
      (descend number id callee (arguments.map lodging.value) pushesResult) := by
  have enters (depth : Nat) : Mirrors lodging (fun result => result)
      (do
        let child ← enter (some id) callee arguments
        setFrame child { (← frame child) with returnsResult := pushesResult }
        updateThread number fun entry => { entry with current := child, depth })
      (do
        let child ← enter (some id) callee (arguments.map lodging.value)
        setFrame child { (← frame child) with returnsResult := pushesResult }
        updateThread number fun entry => { entry with current := child, depth }) := by
    refine Mirrors.bind inferInstance fun child => Mirrors.bind inferInstance fun frame => ?_
    have sets : Mirrors lodging (fun result => result)
        (setFrame child { frame with returnsResult := pushesResult })
        (setFrame child { frame.rename lodging.place with returnsResult := pushesResult }) :=
      inferInstanceAs (Mirrors lodging _ (setFrame child { frame with returnsResult := pushesResult })
        (setFrame child (Frame.rename lodging.place { frame with returnsResult := pushesResult })))
    infer_instance
  apply mirrors_get_bind
  intro machine _
  rw [Lodging.limits_machine, Lodging.threads_machine]
  infer_instance

instance (number : ThreadId) (id : FrameId) (callee : BlockId) (count : Nat) (pushesResult : Bool) :
    Mirrors lodging (fun result => result) (callBlock number id callee count pushesResult)
      (callBlock number id callee count pushesResult) := by
  unfold callBlock
  have begins (block : Block) : Mirrors lodging (fun result => result)
      (do
        let arguments ← popMany id count
        if block.kind = .microthread then
          let spawned ← launch (some id) callee arguments
          log (.microthreadSpawned spawned block.displayName)
        else
          descend number id callee arguments pushesResult
        return none : Action (Option Slice))
      (do
        let arguments ← popMany id count
        if block.kind = .microthread then
          let spawned ← launch (some id) callee arguments
          log (.microthreadSpawned spawned block.displayName)
        else
          descend number id callee arguments pushesResult
        return none) := inferInstance
  infer_instance

/-! Instructions that look into whole trees. -/

/-- What writing through a handle does once all that matters of the target is known. -/
def store (targetType sourceType : Option Ty) (bare : Bool)
    (overwritten : Except ValueError BodyId) (source : Value) : Action Unit := do
  match targetType, sourceType with
  | some targetType, some sourceType =>
    let compatible := targetType = sourceType || (targetType.isArray && sourceType.isArray && bare)
    if !compatible then
      throw (.typeMismatch s!"cannot store {sourceType.display} into {targetType.display}")
  | _, _ => pure ()
  let id ← ofValueResult overwritten
  changeHeap fun heap => ((), heap.takeOver id source)

theorem writeThrough_eq (target source : Value) :
    writeThrough target source = get >>= fun machine =>
      store (machine.heap.type? target) (machine.heap.type? source)
        (machine.heap.isBare target || machine.heap.isBare source)
        (machine.heap.overwritten target source) source := rfl

theorem mirrorsFrom_store (targetType sourceType : Option Ty) (bare : Bool)
    (overwritten : Except ValueError BodyId) (source : Value) :
    MirrorsFrom lodging Machine.Grounded (fun result => result)
      (store targetType sourceType bare overwritten source)
      (store targetType sourceType bare (overwritten.map lodging.place) (lodging.value source)) := by
  have taken (id : BodyId) : MirrorsFrom lodging Machine.Grounded (fun result => result)
      (changeHeap fun heap => ((), heap.takeOver id source))
      (changeHeap fun heap => ((), heap.takeOver (lodging.place id) (lodging.value source))) := by
    apply mirrorsFrom_changeHeap
    · intro machine grounded fits
      exact Prod.ext rfl (Lodging.takeOver_heap fits grounded.sound id source)
    · exact fun heap => heap.size_le_takeOver id source
  have stores : MirrorsFrom lodging Machine.Grounded (fun result => result)
      (do
        let id ← ofValueResult overwritten
        changeHeap fun heap => ((), heap.takeOver id source))
      (do
        let id ← ofValueResult (overwritten.map lodging.place)
        changeHeap fun heap => ((), heap.takeOver id (lodging.value source))) :=
    ((mirrors_ofValueResult lodging.place overwritten).from _).bind
      (grounds_ofValueResult overwritten).secure taken
  unfold store
  split
  · dsimp only
    split
    · have refused (error : MachineError) : (throw error : Action Unit).Secure := fun _ => id
      exact ((mirrors_throw id _).from _).bind (refused _) fun _ => stores
    · exact stores
  · exact stores

theorem mirrorsFrom_writeThrough (target source : Value) :
    MirrorsFrom lodging Machine.Grounded (fun result => result) (writeThrough target source)
      (writeThrough (lodging.value target) (lodging.value source)) := by
  rw [writeThrough_eq, writeThrough_eq]
  apply mirrorsFrom_get_bind
  intro machine _ fits
  rw [Lodging.heap_machine, Lodging.type?_heap fits, Lodging.type?_heap fits, Lodging.isBare_heap fits,
    Lodging.isBare_heap fits, Lodging.overwritten_heap fits]
  exact mirrorsFrom_store _ _ _ _ source

/-- What is found out about a whole tree is the same there, and so is what it is used for. -/
theorem mirrorsFrom_find {result result' : Machine → Except MachineError γ}
    {next : γ → Action α} {next' : γ → Action α}
    (same : ∀ machine, machine.Grounded → lodging.size ≤ machine.heap.size →
      result' (lodging.machine machine) = result machine)
    (rest : ∀ found, Mirrors lodging (fun result => result) (next found) (next' found)) :
    MirrorsFrom lodging Machine.Grounded (fun result => result)
      (do next (← ofResult (result (← get)))) (do next' (← ofResult (result' (← get)))) := by
  apply mirrorsFrom_get_bind
  intro machine grounded fits
  rw [same machine grounded fits]
  exact (Mirrors.bind inferInstance rest).from _

theorem mirrorsFrom_pop_bind {next next' : Value → Action α} (id : FrameId)
    (rest : ∀ value, MirrorsFrom lodging Machine.Grounded (fun result => result) (next value)
      (next' (lodging.value value))) :
    MirrorsFrom lodging Machine.Grounded (fun result => result) (pop id >>= next)
      (pop id >>= next') :=
  (Mirrors.from inferInstance _).bind (grounds_pop id).secure rest

/-- Instructions whose effect does not depend on what else there is in the heap. -/
theorem mirrorsFrom_execute (id : FrameId) {instruction : Instruction}
    (simple : instruction.call? = none)
    (read : ∀ place, instruction ≠ .pushVariableWritable place) (claim : instruction ≠ .indexWritable) :
    MirrorsFrom lodging Machine.Grounded (fun result => result)
      (execute natives number id instruction) (execute natives number id instruction) := by
  cases instruction with
  | call callee count => cases simple
  | callAndPushResult callee count => cases simple
  | pushVariableWritable place => exact absurd rfl (read place)
  | indexWritable => exact absurd rfl claim
  | arith operator =>
      refine mirrorsFrom_pop_bind id fun second => mirrorsFrom_pop_bind id fun first => ?_
      apply mirrorsFrom_find
      · intro machine grounded fits
        exact Lodging.arith_heap fits grounded.sound operator first second
      · infer_instance
  | unary operator =>
      refine mirrorsFrom_pop_bind id fun operand => ?_
      apply mirrorsFrom_find
      · intro machine grounded fits
        exact Lodging.unary_heap fits grounded.sound operator operand
      · infer_instance
  | compare operator =>
      refine mirrorsFrom_pop_bind id fun second => mirrorsFrom_pop_bind id fun first => ?_
      apply mirrorsFrom_find
      · intro machine grounded fits
        exact congrArg MachineError.ofValueResult (Lodging.order_heap fits grounded.sound first second)
      · infer_instance
  | assignWritable =>
      refine mirrorsFrom_pop_bind id fun source => mirrorsFrom_pop_bind id fun target => ?_
      exact (mirrorsFrom_writeThrough target source).ending inferInstance
  | inlineAssign operator place =>
      refine mirrorsFrom_pop_bind id fun second => ?_
      refine (Mirrors.from inferInstance _).bind (grounds_readSlot id place).secure fun first => ?_
      apply mirrorsFrom_find
      · intro machine grounded fits
        exact Lodging.arith_heap fits grounded.sound operator first second
      · infer_instance
  | swap =>
      have swaps (frame : Frame) : Mirrors lodging (fun result => result)
          (do
            setFrame id (← ofResult frame.swap)
            return none : Action (Option Slice))
          (do
            setFrame id (← ofResult (frame.rename lodging.place).swap)
            return none) := by
        rw [Frame.swap_rename]
        exact Mirrors.bind (mirrors_ofResult _ _) inferInstance
      exact (Mirrors.bind inferInstance swaps).from _
  | setResult =>
      have sets (target : FrameId) (frame : Frame) (result : Value) :
          Mirrors lodging (fun result => result) (setFrame target { frame with result })
            (setFrame target { frame.rename lodging.place with result := lodging.value result }) :=
        inferInstanceAs (Mirrors lodging _ (setFrame target { frame with result })
          (setFrame target (Frame.rename lodging.place { frame with result })))
      apply Mirrors.from
      refine Mirrors.bind inferInstance fun value => Mirrors.bind inferInstance fun entry => ?_
      refine Mirrors.bind inferInstance fun target => Mirrors.bind inferInstance fun frame => ?_
      exact Mirrors.bind (sets target frame value) inferInstance
  | _ =>
      apply Mirrors.from
      unfold execute
      infer_instance

end Action

/-! Among others. -/

/-- A handle in the other heap on a literal with the given tree, which the machine cannot reach. -/
structure Lodging.Offers (lodging : Lodging) (literal : Value) (datum : Datum) : Prop where
  founded : lodging.host.Founded literal
  view : lodging.host.view literal = datum
  spared : lodging.Spared literal

/-- Nothing that others hold is in reach of the machine, and the literals are those of the script. -/
structure Lodging.Suits (lodging : Lodging) (around : Surroundings) (script : Script) : Prop where
  spared : ∀ value ∈ around.handles, lodging.Spared value
  literals : ∀ id position datum, script.instruction? id position = some (.pushValue datum) →
    lodging.Offers (around.literal id position) datum

namespace Lodging

theorem Offers.view_heap {literal : Value} {datum : Datum} (offers : lodging.Offers literal datum)
    (heap : Heap) : (lodging.heap heap).view literal = datum := by
  rw [offers.spared.spares.view offers.founded, offers.view]

end Lodging

namespace Action

/-- A copy of the literal is as good as a new value. -/
theorem mirrors_copyLiteral {literal : Value} {datum : Datum} (offers : lodging.Offers literal datum) :
    Mirrors lodging lodging.value (build datum) (changeHeap fun heap => heap.deepCopy literal) := by
  apply mirrors_changeHeap
  · intro heap fits
    rw [Heap.deepCopy, offers.view_heap]
    exact Lodging.build_heap datum heap fits
  · exact fun heap => heap.size_le_build datum

section Handles

variable {handles : List Value} (spared : ∀ value ∈ handles, lodging.Spared value)

include spared

/-- A value that only others hold as well is not shared. -/
theorem mirrors_uniquify (roots : List Value) (shared : Value) : Mirrors lodging lodging.value
    (changeHeap fun heap => heap.uniquify roots shared)
    (changeHeap fun heap =>
      heap.uniquify (handles ++ roots.map lodging.value) (lodging.value shared)) := by
  apply mirrors_changeHeap
  · exact fun heap fits => Lodging.uniquify_heap fits spared shared
  · exact fun heap => heap.size_le_uniquify roots shared

theorem mirrors_claim (roots : List Value) (array : Value) (position : Nat) (element : Value) :
    Mirrors lodging lodging.value
      (changeHeap fun heap => heap.claim roots array position element)
      (changeHeap fun heap => heap.claim (handles ++ roots.map lodging.value) (lodging.value array)
        position (lodging.value element)) := by
  apply mirrors_changeHeap
  · exact fun heap fits => Lodging.claim_heap fits spared array position element
  · exact fun heap => heap.size_le_claim roots array position element

end Handles

/-- A look at a frame changes nothing. -/
theorem frame_bind_frame {α : Type} (id : FrameId) (next : Frame → Action α) :
    frame id >>= (fun _ => frame id >>= next) = frame id >>= next := by
  funext machine
  change EStateM.run _ machine = EStateM.run _ machine
  simp only [EStateM.run_bind]
  cases ran : (frame id).run machine with
  | error error after => rfl
  | ok origin after =>
      obtain ⟨_, rfl⟩ := run_frame_eq_ok_iff.mp ran
      simp only [ran]

theorem frame_bind_fetch {α : Type} (id : FrameId) (next : Option Instruction → Action α) :
    frame id >>= (fun _ => fetch id >>= next) = fetch id >>= next := by
  unfold fetch
  simp only [bind_assoc]
  exact frame_bind_frame id _

/-- What is fetched is the instruction of the script at the position of the frame. -/
theorem fetched_there {machine after : Machine} {id : FrameId} {origin : Frame}
    {instruction : Instruction} (live : machine.frames.frame? id = some origin)
    (ran : (fetch id).run machine = .ok (some instruction) after) :
    machine.script.instruction? origin.block origin.position = some instruction := by
  cases found : machine.script.block? origin.block with
  | none =>
      simp only [fetch, EStateM.run_bind, run_frame live, run_block, found] at ran
      cases ran
  | some block =>
      rw [run_fetch live found] at ran
      cases coded : block.codes[origin.position]? with
      | none =>
          rw [coded] at ran
          cases ran
      | some code =>
          simp only [Script.instruction?, found, Option.bind_some, coded, Option.map_some]
          rw [coded] at ran
          dsimp only at ran
          split at ran
          · split at ran
            · cases ran
            · cases ran
              rfl
          · cases ran
            rfl

theorem fetch_there (id : FrameId) (script : Script) (origin : Frame) :
    (fetch id).Ensures
      (fun machine => (machine.Grounded ∧ machine.script = script) ∧
        machine.frames.frame? id = some origin)
      (fun fetched machine => machine.Grounded ∧ ∀ instruction, fetched = some instruction →
        script.instruction? origin.block origin.position = some instruction)
      fun _ _ => True := by
  rintro machine ⟨⟨grounded, rfl⟩, live⟩
  cases ran : (fetch id).run machine with
  | error error after => trivial
  | ok fetched after =>
      refine ⟨(grounds_fetch id).secure.ok grounded ran, ?_⟩
      rintro instruction rfl
      exact fetched_there live ran

section Company

variable {around : Surroundings} {literal : Value} (faithful : natives.Faithful)
  (uniform : natives.Uniform)

include faithful uniform

/-- An instruction does among others what it does alone. -/
theorem mirrorsFrom_executeAmong (spared : ∀ value ∈ around.handles, lodging.Spared value)
    (id : FrameId) (instruction : Instruction)
    (offers : ∀ datum, instruction = .pushValue datum → lodging.Offers literal datum) :
    MirrorsFrom lodging Machine.Grounded (fun result => result)
      (execute natives number id instruction)
      (executeAmong natives around literal number id instruction) := by
  have calls (callee : Callee) (count : Nat) (pushesResult : Bool) :
      MirrorsFrom lodging Machine.Grounded (fun result => result)
        (call natives number id callee count pushesResult)
        (call natives number id callee count pushesResult) := by
    cases callee with
    | native native =>
        exact mirrorsFrom_callNative faithful uniform number id native count pushesResult
    | block block =>
        have blocks : Mirrors lodging (fun result => result)
            (callBlock number id block count pushesResult)
            (callBlock number id block count pushesResult) := inferInstance
        exact blocks.from _
  cases instruction with
  | pushValue datum =>
      apply Mirrors.from
      simp only [execute, executeAmong, pushDatum, bind_assoc]
      exact Mirrors.bind (mirrors_copyLiteral (offers datum rfl)) inferInstance
  | pushVariableWritable place =>
      apply Mirrors.from
      refine Mirrors.bind inferInstance fun shared => mirrors_get_bind fun machine _ => ?_
      rw [Machine.roots_lodging]
      exact Mirrors.bind (mirrors_uniquify spared machine.roots shared) inferInstance
  | indexWritable =>
      apply Mirrors.from
      refine Mirrors.bind inferInstance fun index => Mirrors.bind inferInstance fun datum => ?_
      refine Mirrors.bind inferInstance fun position => Mirrors.bind inferInstance fun array => ?_
      refine Mirrors.bind inferInstance fun element => mirrors_get_bind fun machine _ => ?_
      rw [Machine.roots_lodging]
      have claims := mirrors_claim spared (array :: machine.roots) array position element
      exact Mirrors.bind claims inferInstance
  | call callee count => exact calls callee count false
  | callAndPushResult callee count => exact calls callee count true
  | _ => exact mirrorsFrom_execute id rfl (by simp) (by simp)

theorem mirrorsFrom_advanceAmong {script : Script} (suits : lodging.Suits around script)
    (number : ThreadId) :
    MirrorsFrom lodging (fun machine => machine.Grounded ∧ machine.script = script)
      (fun result => result) (advance natives number) (advanceAmong natives around number) := by
  apply mirrorsFrom_get_bind
  intro machine _ fits
  rw [Lodging.stopped_machine, Lodging.threads_machine]
  split
  · exact Mirrors.from inferInstance _
  · cases machine.threads.find? number with
    | none => exact Mirrors.from inferInstance _
    | some thread =>
        dsimp only
        rw [← frame_bind_fetch]
        have framed : (frame thread.current).Ensures
            (fun machine => machine.Grounded ∧ machine.script = script)
            (fun origin machine => (machine.Grounded ∧ machine.script = script) ∧
              machine.frames.frame? thread.current = some origin) fun _ _ => True := by
          intro machine holds
          cases ran : (frame thread.current).run machine with
          | error error after => trivial
          | ok origin after =>
              obtain ⟨live, rfl⟩ := run_frame_eq_ok_iff.mp ran
              exact ⟨holds, live⟩
        refine (Mirrors.from inferInstance _).bind framed fun origin => ?_
        refine (Mirrors.from inferInstance _).bind (fetch_there thread.current script origin)
          fun fetched => ?_
        refine MirrorsFrom.given fun there => ?_
        cases fetched with
        | none => exact Mirrors.from inferInstance _
        | some instruction =>
            apply mirrorsFrom_executeAmong faithful uniform suits.spared
            rintro datum rfl
            exact suits.literals _ _ datum (there _ rfl)

end Company

end Action

end CoopScript
