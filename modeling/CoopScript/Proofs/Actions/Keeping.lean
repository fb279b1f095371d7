import CoopScript.Machine.Entry
import CoopScript.Proofs.Actions.Ensures

/-!
Actions that keep what is true of one part of the machine, such as its heap. Those that work on frames,
threads and the journal alone keep whatever is true of a part aside from these.
-/

namespace CoopScript

/-- A part of the machine with which frames, threads and the journal have nothing to do. -/
class Machine.Aside {Part : Type} (part : Machine → Part) : Prop where
  frames : ∀ (machine : Machine) (frames : FrameArena), part { machine with frames } = part machine
  threads : ∀ (machine : Machine) (threads : ThreadSet), part { machine with threads } = part machine
  log : ∀ (machine : Machine) (event : Event), part (machine.log event) = part machine

instance : Machine.Aside Machine.heap := ⟨fun _ _ => rfl, fun _ _ => rfl, fun _ _ => rfl⟩

instance : Machine.Aside Machine.instructions := ⟨fun _ _ => rfl, fun _ _ => rfl, fun _ _ => rfl⟩

namespace Action

open Machine (Aside)

variable {α β Part : Type} {part : Machine → Part} {property : Part → Prop}

/-- If the property holds of the part, then it does after the action as well, whether that has a
result or fails. -/
class Keeps (part : Machine → Part) (property : Part → Prop) (action : Action α) : Prop where
  ensures : action.Ensures (property <| part ·) (fun _ after => property (part after))
    fun _ after => property (part after)

/-- The property is one of the heap. -/
abbrev KeepsHeap (property : Heap → Prop) (action : Action α) : Prop :=
  Keeps Machine.heap property action

instance (result : α) : Keeps part property (pure result : Action α) := ⟨.pure fun _ holds => holds⟩

instance (error : MachineError) : Keeps part property (throw error : Action α) :=
  ⟨.throw fun _ holds => holds⟩

instance {action : Action α} {next : α → Action β} [first : Keeps part property action]
    [rest : ∀ result, Keeps part property (next result)] : Keeps part property (action >>= next) :=
  ⟨first.ensures.bind fun result => (rest result).ensures⟩

theorem Keeps.bind {action : Action α} {next : α → Action β} (first : Keeps part property action)
    (rest : ∀ result, Keeps part property (next result)) : Keeps part property (action >>= next) :=
  inferInstance

instance {condition : Prop} [Decidable condition] {first second : Action α} [Keeps part property first]
    [Keeps part property second] : Keeps part property (if condition then first else second) := by
  split <;> infer_instance

instance : Keeps part property (get : Action Machine) := ⟨.get fun _ holds => holds⟩

/-- A change of other parts of the machine. -/
theorem keeps_modify {change : Machine → Machine}
    (same : ∀ machine, part (change machine) = part machine) :
    Keeps part property (modify change : Action PUnit) :=
  ⟨.modify fun machine holds => (same machine).symm ▸ holds⟩

theorem keeps_modifyGet {change : Machine → α × Machine}
    (keeps : ∀ machine, property (part machine) → property (part (change machine).2)) :
    Keeps part property (modifyGet change : Action α) := ⟨fun machine holds => keeps machine holds⟩

/-- A change of the heap that keeps the property. -/
theorem keeps_changeHeap {property : Heap → Prop} {change : Heap → α × Heap}
    (keeps : ∀ heap, property heap → property (change heap).2) :
    KeepsHeap property (changeHeap change) :=
  keeps_modifyGet fun machine => keeps machine.heap

/-- A result that the action goes on with. -/
theorem keeps_ofResult_bind {result : Except MachineError α} {next : α → Action β}
    (rest : ∀ found, result = .ok found → Keeps part property (next found)) :
    Keeps part property (ofResult result >>= next) := by
  cases result with
  | ok found => exact rest found rfl
  | error error => exact ⟨fun _ holds => holds⟩

theorem Keeps.ok {action : Action α} {machine after : Machine} {result : α}
    (keeps : Keeps part property action) (holds : property (part machine))
    (run : action.run machine = .ok result after) : property (part after) :=
  keeps.ensures.ok holds run

theorem Keeps.error {action : Action α} {machine after : Machine} {error : MachineError}
    (keeps : Keeps part property action) (holds : property (part machine))
    (run : action.run machine = .error error after) : property (part after) :=
  keeps.ensures.error holds run

instance (result : Except MachineError α) : Keeps part property (ofResult result) := by
  cases result with
  | ok found => exact inferInstanceAs (Keeps part property (pure found))
  | error error => exact inferInstanceAs (Keeps part property (throw error : Action α))

instance (result : Except ValueError α) : Keeps part property (ofValueResult result) :=
  inferInstanceAs (Keeps part property (ofResult _))

section Aside

variable [aside : Aside part]

/-! Frames and their stacks. -/

instance (id : FrameId) : Keeps part property (frame id) := by
  unfold frame
  infer_instance

instance (id : FrameId) (frame : Frame) : Keeps part property (setFrame id frame) :=
  keeps_modify fun machine => aside.frames machine _

instance (id : FrameId) (value : Value) : Keeps part property (push id value) := by
  unfold push
  infer_instance

instance (id : FrameId) : Keeps part property (pop id) := by
  unfold pop
  infer_instance

instance (id : FrameId) (count : Nat) : Keeps part property (popMany id count) := by
  unfold popMany
  infer_instance

instance (id : FrameId) : Keeps part property (peek id) := by
  unfold peek
  infer_instance

instance (id : FrameId) (target : Nat) : Keeps part property (jump id target) := by
  unfold jump
  infer_instance

/-! Values. -/

instance (value : Value) : Keeps part property (surface value) := by
  unfold surface
  infer_instance

instance (value : Value) : Keeps part property (toReal value) := by
  unfold toReal
  infer_instance

instance (value : Value) : Keeps part property (toBoolean value) := by
  unfold toBoolean
  infer_instance

instance (read : Heap → Except ValueError α) : Keeps part property (readHeap read) := by
  unfold readHeap
  infer_instance

instance (id : FrameId) : Keeps part property (popBoolean id) := by
  unfold popBoolean
  infer_instance

instance (id : FrameId) : Keeps part property (peekBoolean id) := by
  unfold peekBoolean
  infer_instance

/-! Variables. -/

instance (id : FrameId) (place : Variable) : Keeps part property (holder id place) := by
  unfold holder
  infer_instance

instance (id : FrameId) (place : Variable) : Keeps part property (readSlot id place) := by
  unfold readSlot
  have reads (frame : Frame) : Keeps part property
      (match frame.slots[place.slot]? with
      | some value => return value
      | none => throw (.slotOutOfRange place.level place.slot) : Action Value) := by
    split <;> infer_instance
  infer_instance

instance (id : FrameId) (place : Variable) (value : Value) :
    Keeps part property (writeSlot id place value) := by
  unfold writeSlot
  infer_instance

/-! Activations and threads. -/

instance (event : Event) : Keeps part property (log event) :=
  keeps_modify fun machine => aside.log machine event

instance (id : BlockId) : Keeps part property (block id) := by
  unfold block
  have finds (machine : Machine) : Keeps part property
      (match machine.script.block? id with
      | some block => return block
      | none => throw (.unknownBlock id.index) : Action Block) := by
    split <;> infer_instance
  infer_instance

instance (parent : Option FrameId) (id : BlockId) (arguments : List Value) :
    Keeps part property (enter parent id arguments) := by
  unfold enter
  have allocates (block : Block) : Keeps part property (modifyGet fun machine =>
      let (id, frames) := machine.frames.allocate (.activate parent id block arguments)
      (id, { machine with frames }) : Action FrameId) :=
    keeps_modifyGet fun machine holds => (aside.frames machine _).symm ▸ holds
  infer_instance

instance (id : FrameId) : Keeps part property (retire id) :=
  keeps_modify fun machine => aside.frames machine _

instance (root : FrameId) : Keeps part property (spawn root) := by
  unfold spawn
  have spawns : Keeps part property (modifyGet fun machine =>
      let (id, threads) := machine.threads.spawn root
      (id, { machine with threads }) : Action ThreadId) :=
    keeps_modifyGet fun machine holds => (aside.threads machine _).symm ▸ holds
  have checks (machine : Machine) : Keeps part property (do
      match machine.limits.maxThreads with
      | some limit =>
        if limit ≤ machine.threads.size then
          retire root
          throw (.threadLimitExceeded limit)
      | none => pure ()
      modifyGet fun machine =>
        let (id, threads) := machine.threads.spawn root
        (id, { machine with threads }) : Action ThreadId) := by
    split <;> infer_instance
  infer_instance

instance (parent : Option FrameId) (id : BlockId) (arguments : List Value) :
    Keeps part property (launch parent id arguments) := by
  unfold launch
  infer_instance

instance (event : String) (id : BlockId) (arguments : List Value) :
    Keeps part property (spawnHandler event id arguments) := by
  unfold spawnHandler
  infer_instance

instance (id : ThreadId) : Keeps part property (thread id) := by
  unfold thread
  have finds (machine : Machine) : Keeps part property
      (match machine.threads.find? id with
      | some thread => return thread
      | none => throw (.threadGone id) : Action Thread) := by
    split <;> infer_instance
  infer_instance

instance (id : ThreadId) (change : Thread → Thread) : Keeps part property (updateThread id change) :=
  keeps_modify fun machine => aside.threads machine _

instance (id : ThreadId) : Keeps part property (leave id) := by
  unfold leave
  have removes : Keeps part property (modify fun machine =>
      { machine with threads := machine.threads.remove id } : Action PUnit) :=
    keeps_modify fun machine => aside.threads machine _
  have returns (thread : Thread) (frame : Frame) : Keeps part property (do
      match frame.parent with
      | none => throw (.frameWithoutCaller thread.current)
      | some parent =>
        if frame.returnsResult then setFrame thread.current { frame with result := none }
        retire thread.current
        if frame.returnsResult then push parent frame.result
        updateThread id fun thread => { thread with current := parent, depth := thread.depth - 1 }
        return false : Action Bool) := by
    split <;> infer_instance
  infer_instance

theorem keeps_breakLoop (root : FrameId) (fuel : Nat) (id : FrameId) :
    Keeps part property (breakLoop root fuel id) := by
  induction fuel generalizing id with
  | zero => exact inferInstanceAs (Keeps part property (throw MachineError.breakOutsideLoop))
  | succ fuel hypothesis =>
      have breaks (current : Frame) : Keeps part property (do
          match current.parent with
          | none => throw .breakOutsideLoop
          | some parent =>
            if current.kind = .loop then
              let caller ← frame parent
              setFrame parent { caller with position := caller.position + 1 }
            else breakLoop root fuel parent : Action Unit) := by
        split <;> infer_instance
      unfold breakLoop
      infer_instance

theorem keeps_breakRoutine (root : FrameId) (fuel : Nat) (id : FrameId) :
    Keeps part property (breakRoutine root fuel id) := by
  induction fuel generalizing id with
  | zero => exact inferInstanceAs (Keeps part property (throw (MachineError.frameWithoutCaller id)))
  | succ fuel hypothesis =>
      have breaks (current : Frame) : Keeps part property (do
          match current.parent with
          | none => throw (.frameWithoutCaller id)
          | some parent => breakRoutine root fuel parent : Action Unit) := by
        split <;> infer_instance
      unfold breakRoutine
      infer_instance

omit aside in
theorem keeps_resultFrame (root : FrameId) (fuel : Nat) (id : FrameId) :
    Keeps part property (resultFrame root fuel id) := by
  induction fuel generalizing id with
  | zero => exact inferInstanceAs (Keeps part property (throw (MachineError.runtime _)))
  | succ fuel hypothesis =>
      unfold resultFrame
      refine Keeps.bind inferInstance fun current => ?_
      split
      · infer_instance
      · split <;> infer_instance

attribute [instance] keeps_breakLoop keeps_breakRoutine keeps_resultFrame

/-! Calls. -/

instance (natives : Natives) (id : FrameId) (native : NativeId) (count : Nat) :
    Keeps part property (prepareNative natives id native count) := by
  rcases prepareNative_cases natives id native count with
    missing | ⟨_, _, ⟨_, refused⟩ | prepares⟩
  · rw [missing]
    infer_instance
  · rw [refused]
    infer_instance
  · rw [prepares]
    infer_instance

instance (number : ThreadId) (id : FrameId) (pushesResult : Bool)
    (result : Except MachineError Value) :
    Keeps part property (concludeNative number id pushesResult result) := by
  unfold concludeNative
  infer_instance

instance (number : ThreadId) (id : FrameId) (callee : BlockId) (arguments : List Value)
    (pushesResult : Bool) : Keeps part property (descend number id callee arguments pushesResult) := by
  unfold descend
  infer_instance

instance (number : ThreadId) (id : FrameId) (callee : BlockId) (count : Nat) (pushesResult : Bool) :
    Keeps part property (callBlock number id callee count pushesResult) := by
  unfold callBlock
  have begins (block : Block) : Keeps part property (do
      let arguments ← popMany id count
      if block.kind = .microthread then
        let spawned ← launch (some id) callee arguments
        log (.microthreadSpawned spawned block.displayName)
      else
        descend number id callee arguments pushesResult
      return none : Action (Option Slice)) := inferInstance
  infer_instance

end Aside

/-! The heap when an instruction is fetched. -/

variable {property : Heap → Prop}

instance : KeepsHeap property count := by
  unfold count
  have counts : KeepsHeap property (modify fun machine =>
      { machine with instructions := machine.instructions + 1 } : Action PUnit) :=
    keeps_modify fun _ => rfl
  have checks (machine : Machine) : KeepsHeap property (do
      match machine.limits.instructionLimit with
      | some limit => if limit < machine.instructions then throw (.instructionLimitExceeded limit)
      | none => pure () : Action Unit) := by
    split <;> infer_instance
  infer_instance

instance (id : FrameId) : KeepsHeap property (fetch id) := by
  unfold fetch
  have books (line : Nat) : KeepsHeap property (modify fun machine =>
      { machine with currentLine := line } : Action PUnit) := keeps_modify fun _ => rfl
  have reads (frame : Frame) (block : Block) : KeepsHeap property
      (match block.codes[frame.position]? with
      | none => return none
      | some code => do
        modify fun machine => { machine with currentLine := code.line }
        count
        setFrame id { frame with position := frame.position + 1 }
        return some code.instruction : Action (Option Instruction)) := by
    split <;> infer_instance
  infer_instance

end Action

end CoopScript
