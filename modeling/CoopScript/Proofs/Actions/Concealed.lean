import CoopScript.Proofs.Actions.Concealing

/-!
Every instruction keeps a body concealed, as long as the frame that executes it is not the owner, and
so do calls of blocks and the return from them.
-/

namespace CoopScript

/-- A new frame holds its arguments and nothing else. -/
theorem Frame.not_mem_slots_activate {secret : Secret} {arguments : List Value}
    (others : secret.handle ∉ arguments) (parent : Option FrameId) (id : BlockId) (block : Block) :
    secret.handle ∉ (activate parent id block arguments).slots := by
  intro inside
  simp only [activate, List.mem_toArray] at inside
  rcases List.mem_append.mp (List.mem_of_mem_take inside) with given | filling
  · exact others given
  · cases List.eq_of_mem_replicate filling

namespace Action

variable {secret : Secret} {id root : FrameId} {value : Value} {arguments : List Value}

/-! Activations and threads. -/

instance (event : Event) : Conceals secret (log event) :=
  conceals_modify (fun _ => rfl) fun _ => rfl

instance (id : BlockId) : Conceals secret (block id) := by
  unfold block
  have finds (machine : Machine) : Conceals secret
      (match machine.script.block? id with
      | some block => return block
      | none => throw (.unknownBlock id.index) : Action Block) := by
    split <;> infer_instance
  infer_instance

instance (id : ThreadId) : Conceals secret (thread id) := by
  unfold thread
  have finds (machine : Machine) : Conceals secret
      (match machine.threads.find? id with
      | some thread => return thread
      | none => throw (.threadGone id) : Action Thread) := by
    split <;> infer_instance
  infer_instance

instance (id : ThreadId) (change : Thread → Thread) : Conceals secret (updateThread id change) :=
  conceals_modify (fun _ => rfl) fun _ => rfl

instance (id : FrameId) : Conceals secret (retire id) :=
  conceals_modifyFrames fun _ before => before.retire id

theorem conceals_enter (others : secret.handle ∉ arguments) (parent : Option FrameId) (id : BlockId) :
    Conceals secret (enter parent id arguments) := by
  refine conceals_bind fun block => ⟨fun machine before => ⟨trivial, before.heap, ?_⟩⟩
  exact before.frames.allocate (Frame.not_mem_slots_activate others parent id block)
    (Option.some_ne_none _).symm List.not_mem_nil

instance (root : FrameId) : Conceals secret (spawn root) := by
  have spawns : Conceals secret (modifyGet fun machine =>
      let (id, threads) := machine.threads.spawn root
      (id, { machine with threads }) : Action ThreadId) :=
    ⟨fun _ before => ⟨trivial, before.of_eq rfl rfl⟩⟩
  have checks (machine : Machine) : Conceals secret (do
      match machine.limits.maxThreads with
      | some limit =>
        if limit ≤ machine.threads.size then
          retire root
          throw (.threadLimitExceeded limit)
      | none => pure ()
      modifyGet fun machine =>
        let (id, threads) := machine.threads.spawn root
        (id, { machine with threads }) : Action ThreadId) := by
    split <;> infer_instance
  unfold spawn
  infer_instance

theorem conceals_launch (others : secret.handle ∉ arguments) (parent : Option FrameId) (id : BlockId) :
    Conceals secret (launch parent id arguments) := by
  have enters := conceals_enter others parent id
  unfold launch
  infer_instance

theorem conceals_spawnHandler (others : secret.handle ∉ arguments) (event : String) (id : BlockId) :
    Conceals secret (spawnHandler event id arguments) := by
  have launches (parent : Option FrameId) := conceals_launch others parent id
  unfold spawnHandler
  infer_instance

/-! Leaving blocks. -/

instance conceals_breakLoop (root : FrameId) (fuel : Nat) (id : FrameId) :
    Conceals secret (breakLoop root fuel id) := by
  induction fuel generalizing id with
  | zero => exact inferInstanceAs (Conceals secret (throw MachineError.breakOutsideLoop : Action Unit))
  | succ fuel hypothesis =>
      have steps (parent : FrameId) : Conceals secret (do
          let caller ← frame parent
          setFrame parent { caller with position := caller.position + 1 }) :=
        (yields_frame parent).then fun caller hidden => conceals_goTo hidden _
      have breaks (current : Frame) : Conceals secret (do
          match current.parent with
          | none => throw .breakOutsideLoop
          | some parent =>
            if current.kind = .loop then
              let caller ← frame parent
              setFrame parent { caller with position := caller.position + 1 }
            else breakLoop root fuel parent : Action Unit) := by
        split <;> infer_instance
      refine (yields_frame id).then fun current hidden => ?_
      have ends := conceals_goTo hidden current.finish
      infer_instance

instance conceals_breakRoutine (root : FrameId) (fuel : Nat) (id : FrameId) :
    Conceals secret (breakRoutine root fuel id) := by
  induction fuel generalizing id with
  | zero =>
      exact inferInstanceAs (Conceals secret (throw (MachineError.frameWithoutCaller id) : Action Unit))
  | succ fuel hypothesis =>
      have breaks (current : Frame) : Conceals secret (do
          match current.parent with
          | none => throw (.frameWithoutCaller id)
          | some parent => breakRoutine root fuel parent : Action Unit) := by
        split <;> infer_instance
      refine (yields_frame id).then fun current hidden => ?_
      have ends := conceals_goTo hidden current.finish
      infer_instance

instance conceals_resultFrame (root : FrameId) (fuel : Nat) (id : FrameId) :
    Conceals secret (resultFrame root fuel id) := by
  induction fuel generalizing id with
  | zero => exact inferInstanceAs (Conceals secret (throw (MachineError.runtime _) : Action FrameId))
  | succ fuel hypothesis =>
      unfold resultFrame
      refine (yields_frame id).then fun current _ => ?_
      split
      · infer_instance
      · split <;> infer_instance

/-! Values. -/

/-- Another body takes over a value. -/
theorem conceals_writeThrough {target : Value} (other : target ≠ secret.handle) (source : Value) :
    Conceals secret (writeThrough target source) := by
  have rest (machine : Machine) : Conceals secret (do
      let id ← ofValueResult (machine.heap.overwritten target source)
      changeHeap fun heap => ((), heap.takeOver id source)) := by
    cases overwrites : machine.heap.overwritten target source with
    | error cause => exact ⟨fun _ before => before⟩
    | ok id =>
        obtain ⟨rfl, _⟩ := Heap.body?_of_overwritten overwrites
        have different : id ≠ secret.own := fun same => other (congrArg some same)
        have takes : (changeHeap fun heap => ((), heap.takeOver id source)).Yields secret fun _ => True :=
          yields_changeHeap fun _ hidden => ⟨hidden.takeOver different source, trivial⟩
        exact ⟨fun machine before => takes machine before⟩
  unfold writeThrough
  refine conceals_bind fun machine => ?_
  have rest := rest machine
  dsimp only
  split <;> infer_instance

theorem yields_constructArray {elements : List Value} (others : secret.handle ∉ elements) :
    (constructArray elements).Yields secret (· ≠ secret.handle) := by
  unfold constructArray
  split
  · exact yields_build _
  · next first rest =>
      refine Conceals.yields.bind fun element _ => ?_
      have made : (readHeap fun heap => heap.arrayBody (.array element) (first :: rest)).Yields secret
          fun body => ¬ body.Holds secret.handle :=
        yields_readHeap fun _ _ _ made holds => others (Heap.holds_of_arrayBody made holds)
      exact made.bind fun body away => yields_allocate away

instance (id : FrameId) (count : Nat) : Conceals secret (popMany id count) := by
  refine ⟨yields_restack fun frame values rest hidden popped => ⟨trivial, ?_⟩⟩
  unfold Frame.popMany at popped
  split at popped
  · cases popped
  · cases popped
    exact ⟨hidden.slots, hidden.result,
      fun away inside => hidden.operands away (List.mem_of_mem_drop inside)⟩

instance (id : FrameId) (place : Variable) (forward : Bool) :
    Conceals secret (stepVariable id place forward) := by
  have writes (datum : Datum) : Conceals secret (do writeSlot id place (← build datum)) :=
    (yields_build datum).then fun _ other => conceals_writeSlot other id place
  unfold stepVariable
  infer_instance

theorem yields_uniquify (other : value ≠ secret.handle) (roots : List Value) :
    (changeHeap fun heap => heap.uniquify roots value).Yields secret (· ≠ secret.handle) :=
  yields_changeHeap fun _ hidden => hidden.uniquify other roots

theorem yields_claim {array element : Value} (other : array ≠ secret.handle)
    (different : element ≠ secret.handle) (roots : List Value) (position : Nat) :
    (changeHeap fun heap => heap.claim roots array position element).Yields secret (· ≠ secret.handle) :=
  yields_changeHeap fun _ hidden => hidden.claim other different roots position

/-! Loops. -/

instance (id : FrameId) : Conceals secret (countLoop id) := by
  unfold countLoop
  infer_instance

theorem conceals_iterateLoop (away : id ≠ secret.owner) : Conceals secret (iterateLoop id) := by
  refine (yields_pop away).then fun counter other => ?_
  have restores := conceals_push other id
  have element (array : Value) (position : Nat) : Conceals secret (do
      push id (← readHeap fun heap => heap.index array position)
      pushDatum id (.boolean true)) :=
    (yields_index array position).then fun _ other =>
      have := conceals_push other id
      inferInstance
  infer_instance

/-! Calls and returns. -/

instance : Conceals secret count := by
  have counts : Conceals secret (modify fun machine =>
      { machine with instructions := machine.instructions + 1 } : Action PUnit) :=
    conceals_modify (fun _ => rfl) fun _ => rfl
  have checks (machine : Machine) : Conceals secret (do
      match machine.limits.instructionLimit with
      | some limit => if limit < machine.instructions then throw (.instructionLimitExceeded limit)
      | none => pure () : Action Unit) := by
    split <;> infer_instance
  unfold count
  infer_instance

instance (id : FrameId) : Conceals secret (fetch id) := by
  refine (yields_frame id).then fun frame hidden => ?_
  have passes := conceals_goTo hidden (frame.position + 1)
  have notes (line : Nat) : Conceals secret (modify fun machine =>
      { machine with currentLine := line } : Action PUnit) :=
    conceals_modify (fun _ => rfl) fun _ => rfl
  have fetches (block : Block) : Conceals secret (do
      match block.codes[frame.position]? with
      | none => return none
      | some code =>
        modify fun machine => { machine with currentLine := code.line }
        count
        setFrame id { frame with position := frame.position + 1 }
        return some code.instruction : Action (Option Instruction)) := by
    split <;> infer_instance
  infer_instance

theorem conceals_descend (others : secret.handle ∉ arguments) (thread : ThreadId) (frame : FrameId)
    (id : BlockId) (pushesResult : Bool) :
    Conceals secret (descend thread frame id arguments pushesResult) := by
  have enters := conceals_enter others (some frame) id
  have marks (child : FrameId) (change : Thread → Thread) : Conceals secret (do
      setFrame child { (← Action.frame child) with returnsResult := pushesResult }
      updateThread thread change) :=
    (yields_frame child).then fun held hidden =>
      have : Conceals secret (setFrame child { held with returnsResult := pushesResult }) :=
        conceals_setFrame ⟨hidden.slots, hidden.result, hidden.operands⟩
      inferInstance
  unfold descend
  infer_instance

theorem conceals_callBlock (away : id ≠ secret.owner) (thread : ThreadId) (callee : BlockId)
    (count : Nat) (pushesResult : Bool) :
    Conceals secret (callBlock thread id callee count pushesResult) := by
  have begins (block : Block) : Conceals secret (do
      let arguments ← popMany id count
      if block.kind = .microthread then
        let spawned ← launch (some id) callee arguments
        log (.microthreadSpawned spawned block.displayName)
      else
        descend thread id callee arguments pushesResult
      return none : Action (Option Slice)) :=
    (yields_popMany away count).then fun _ others =>
      have := conceals_launch others (some id) callee
      have := conceals_descend others thread id callee pushesResult
      inferInstance
  unfold callBlock
  infer_instance

theorem conceals_leave (number : ThreadId) : Conceals secret (leave number) := by
  have removes : Conceals secret (modify fun machine =>
      { machine with threads := machine.threads.remove number } : Action PUnit) :=
    conceals_modify (fun _ => rfl) fun _ => rfl
  have returns (thread : Thread) : Conceals secret (do
      let frame ← frame thread.current
      match frame.parent with
      | none => throw (.frameWithoutCaller thread.current)
      | some parent =>
        if frame.returnsResult then setFrame thread.current { frame with result := none }
        retire thread.current
        if frame.returnsResult then push parent frame.result
        updateThread number fun thread => { thread with current := parent, depth := thread.depth - 1 }
        return false : Action Bool) := by
    refine (yields_frame thread.current).then fun frame hidden => ?_
    have empties : Conceals secret (setFrame thread.current { frame with result := none }) :=
      conceals_setFrame ⟨hidden.slots, nofun, hidden.operands⟩
    have pushes (parent : FrameId) := conceals_push hidden.result parent
    split <;> infer_instance
  unfold leave
  infer_instance

/-! Native functions. -/

theorem conceals_prepareNative (natives : Natives) (frame : FrameId) (id : NativeId) (count : Nat) :
    Conceals secret (prepareNative natives frame id count) := by
  rcases prepareNative_cases natives frame id count with
    missing | ⟨native, _, ⟨_, refused⟩ | prepares⟩
  · exact missing ▸ inferInstance
  · exact refused ▸ inferInstance
  · exact prepares ▸ inferInstance

theorem conceals_concludeNative {result : Except MachineError Value} (other : result ≠ .ok secret.handle)
    (thread : ThreadId) (frame : FrameId) (pushesResult : Bool) :
    Conceals secret (concludeNative thread frame pushesResult result) := by
  cases result with
  | error error => exact ⟨fun _ before => before⟩
  | ok value =>
      have pushes : Conceals secret (push frame value) :=
        conceals_push (fun same => other (congrArg _ same)) frame
      simp only [concludeNative, ofResult, pure_bind]
      infer_instance

/-! Instructions. -/

theorem conceals_of_swap {frame swapped : Frame} (hidden : frame.Conceals secret id)
    (done : frame.swap = .ok swapped) : swapped.Conceals secret id := by
  unfold Frame.swap at done
  split at done
  · next first second rest stacked =>
      cases done
      refine ⟨hidden.slots, hidden.result, fun away => ?_⟩
      simpa [stacked, or_left_comm] using hidden.operands away
  · cases done

theorem conceals_execute (away : id ≠ secret.owner) (natives : Natives) (number : ThreadId)
    {instruction : Instruction} (simple : instruction.call? = none) :
    Conceals secret (execute natives number id instruction) := by
  have pushes {value : Value} (other : value ≠ secret.handle) : Conceals secret (do
      push id value
      return none : Action (Option Slice)) :=
    have := conceals_push other id
    inferInstance
  cases instruction with
  | call _ _ => cases simple
  | callAndPushResult _ _ => cases simple
  | pushVariable place => exact (yields_readSlot id place).then fun _ other => pushes other
  | pushVariableWritable place =>
      refine (yields_readSlot id place).then fun shared other => ?_
      refine conceals_bind fun machine => ?_
      refine (yields_uniquify other machine.roots).then fun value other => ?_
      have writes := conceals_writeSlot other id place
      have := pushes other
      infer_instance
  | assign place =>
      refine (yields_pop away).then fun _ other => ?_
      have writes := conceals_writeSlot other id place
      infer_instance
  | assignWritable =>
      refine conceals_bind fun source => ?_
      refine (yields_pop away).then fun target other => ?_
      have writes := conceals_writeThrough other source
      infer_instance
  | dup => exact (yields_peek away).then fun _ other => pushes other
  | swap =>
      refine (yields_frame id).then fun frame hidden => ?_
      have swaps : (ofResult frame.swap).Yields secret (·.Conceals secret id) :=
        yields_ofResult fun _ => conceals_of_swap hidden
      refine swaps.then fun _ hidden => ?_
      have := conceals_setFrame hidden
      infer_instance
  | constructArray count =>
      refine (yields_popMany away count).then fun elements others => ?_
      exact (yields_constructArray others).then fun _ other => pushes other
  | index =>
      have element (array : Value) (position : Nat) : Conceals secret (do
          push id (← readHeap fun heap => heap.index array position)
          return none : Action (Option Slice)) :=
        (yields_index array position).then fun _ other => pushes other
      unfold execute
      infer_instance
  | indexWritable =>
      have element (position : Nat) : Conceals secret (do
          let array ← pop id
          let element ← readHeap fun heap => heap.index array position
          let roots := array :: (← get).roots
          push id (← changeHeap fun heap => heap.claim roots array position element)
          return none : Action (Option Slice)) := by
        refine (yields_pop away).then fun array other => ?_
        refine (yields_index array position).then fun element different => ?_
        refine conceals_bind fun machine => ?_
        exact (yields_claim other different _ position).then fun _ other => pushes other
      dsimp only [execute]
      infer_instance
  | append =>
      refine (yields_pop away).then fun element other => ?_
      refine conceals_bind fun array => ?_
      have made : (readHeap fun heap => heap.appendedBody array element).Yields secret
          fun body => ¬ body.Holds secret.handle :=
        yields_readHeap fun _ hidden _ made holds =>
          (Heap.holds_of_appendedBody made holds).elim (fun same => other same.symm) (hidden.apart array)
      refine made.then fun body apart => ?_
      exact (yields_allocate apart).then fun _ other => pushes other
  | concatenate =>
      refine conceals_bind fun second => ?_
      refine conceals_bind fun first => ?_
      have made : (readHeap fun heap => heap.concatenatedBody first second).Yields secret
          fun body => ¬ body.Holds secret.handle :=
        yields_readHeap fun _ hidden _ made holds =>
          (Heap.holds_of_concatenatedBody made holds).elim (hidden.apart _) (hidden.apart _)
      refine made.then fun body apart => ?_
      exact (yields_allocate apart).then fun _ other => pushes other
  | setResult =>
      refine (yields_pop away).then fun value other => ?_
      have sets (target : FrameId) : Conceals secret (do
          setFrame target { (← frame target) with result := value }
          return none : Action (Option Slice)) :=
        (yields_frame target).then fun held hidden =>
          have : Conceals secret (setFrame target { held with result := value }) :=
            conceals_setFrame ⟨hidden.slots, other, hidden.operands⟩
          inferInstance
      infer_instance
  | inlineAssign operator place =>
      have writes (datum : Datum) : Conceals secret (do
          writeSlot id place (← build datum)
          return none : Action (Option Slice)) :=
        (yields_build datum).then fun _ other =>
          have := conceals_writeSlot other id place
          inferInstance
      unfold execute
      infer_instance
  | loopForEach =>
      have iterates := conceals_iterateLoop away
      unfold execute
      infer_instance
  | _ =>
      unfold execute
      infer_instance

end Action

end CoopScript
