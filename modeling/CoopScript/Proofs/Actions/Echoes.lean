import CoopScript.Proofs.Machine.Residue

/-!
Actions on a machine beside the residue of a frame that is gone: what an action does there is what it
does without the residue, as long as the counters of the arena are right.
-/

namespace CoopScript

open FrameArena

variable {α β : Type} {residue : Residue}

/-- The frame came and went before, and the counters of the arena are right. -/
structure Residue.Suits (residue : Residue) (machine : Machine) : Prop where
  counted : ∃ further, machine.frames.Counted further
  late : residue.start ≤ machine.frames.activations

namespace Residue

variable {machine : Machine} {id : FrameId} {frame new : Frame}

theorem Suits.of_frames {after : Machine} (suits : residue.Suits machine)
    (frames : after.frames = machine.frames) : residue.Suits after where
  counted := frames ▸ suits.counted
  late := frames ▸ suits.late

/-- The contents of a frame do not matter. -/
theorem Suits.setFrame (suits : residue.Suits machine) (found : machine.frames.frame? id = some frame)
    (same : new.skeleton = frame.skeleton) :
    residue.Suits { machine with frames := machine.frames.set id new } where
  counted := by
    obtain ⟨further, counted⟩ := suits.counted
    exact ⟨further, counted.of_skeleton (skeleton_set found same)⟩
  late := suits.late

theorem Suits.retire (suits : residue.Suits machine) (id : FrameId) :
    residue.Suits { machine with frames := machine.frames.retire id } where
  counted := by
    obtain ⟨further, counted⟩ := suits.counted
    exact ⟨further, counted.retired id⟩
  late := suits.late.trans (Continues.retire machine.frames id).activations

theorem Suits.allocate (suits : residue.Suits machine) (unpinned : frame.pins = 0)
    (running : frame.retired = false) (outside : ∀ parent, frame.parent = some parent →
      ∃ around, machine.frames.frame? parent = some around) :
    residue.Suits { machine with frames := (machine.frames.allocate frame).2 } where
  counted := by
    obtain ⟨further, counted⟩ := suits.counted
    exact ⟨further, counted.allocate outside unpinned running⟩
  late := by
    rw [Continues.activations_allocate]
    exact suits.late.trans (Nat.le_succ _)

/-- The second outcome is the first one beside the residue. -/
inductive Echo (residue : Residue) :
    EStateM.Result MachineError Machine α → EStateM.Result MachineError Machine α → Prop
  | ok (result : α) {machine : Machine} : residue.Suits machine →
      Echo residue (.ok result machine) (.ok result (residue.machine machine))
  | error (error : MachineError) {machine : Machine} : residue.Suits machine →
      Echo residue (.error error machine) (.error error (residue.machine machine))

end Residue

namespace Action

/-- From this machine on, the action does the same beside the residue. -/
def EchoesAt (residue : Residue) (machine : Machine) (action : Action α) : Prop :=
  residue.Echo (action.run machine) (action.run (residue.machine machine))

/-- From any machine on that suits. -/
class Echoes (residue : Residue) (action : Action α) : Prop where
  always : ∀ machine, residue.Suits machine → EchoesAt residue machine action

variable {machine : Machine} {id : FrameId} {action first first' : Action α} {next : α → Action β}

theorem echo_bind {there : Machine}
    (echo : residue.Echo (first.run machine) (first'.run there))
    (rest : ∀ result after, first.run machine = .ok result after → residue.Suits after →
      EchoesAt residue after (next result)) :
    residue.Echo ((first >>= next).run machine) ((first' >>= next).run there) := by
  rw [EStateM.run_bind, EStateM.run_bind]
  cases ran : first.run machine with
  | ok result after =>
      rw [ran] at echo
      generalize first'.run there = other at echo ⊢
      cases echo with
      | ok _ suits => exact rest result after ran suits
  | error error after =>
      rw [ran] at echo
      generalize first'.run there = other at echo ⊢
      cases echo with
      | error _ suits => exact .error error suits

theorem echo_ite {there : Machine} {condition condition' : Prop} [Decidable condition]
    [Decidable condition'] {second second' : Action α} (same : condition ↔ condition')
    (holds : residue.Echo (first.run machine) (first'.run there))
    (fails : residue.Echo (second.run machine) (second'.run there)) :
    residue.Echo ((if condition then first else second).run machine)
      ((if condition' then first' else second').run there) := by
  by_cases given : condition
  · rw [if_pos given, if_pos (same.mp given)]
    exact holds
  · rw [if_neg given, if_neg (same.not.mp given)]
    exact fails

theorem EchoesAt.bind (echo : EchoesAt residue machine action)
    (rest : ∀ result after, action.run machine = .ok result after → residue.Suits after →
      EchoesAt residue after (next result)) : EchoesAt residue machine (action >>= next) :=
  echo_bind echo rest

theorem Echoes.bind (echoes : Echoes residue action) (rest : ∀ result, Echoes residue (next result)) :
    Echoes residue (action >>= next) where
  always := fun machine suits =>
    (echoes.always machine suits).bind fun result after _ later => (rest result).always after later

instance [echoes : Echoes residue action] [rest : ∀ result, Echoes residue (next result)] :
    Echoes residue (action >>= next) := echoes.bind rest

instance (result : α) : Echoes residue (pure result) := ⟨fun _ suits => .ok result suits⟩

instance (error : MachineError) : Echoes residue (throw error : Action α) :=
  ⟨fun _ suits => .error error suits⟩

instance {condition : Prop} {decidable : Decidable condition} {first second : Action α}
    [Echoes residue first] [Echoes residue second] :
    Echoes residue (@ite _ condition decidable first second) := by
  split <;> infer_instance

/-- What is read off the machine shows nothing of the residue. -/
theorem echoes_get_bind {next : Machine → Action α}
    (same : ∀ machine, residue.Suits machine → next (residue.machine machine) = next machine)
    (rest : ∀ machine, Echoes residue (next machine)) : Echoes residue (get >>= next) where
  always := by
    intro machine suits
    show residue.Echo ((next machine).run machine) ((next (residue.machine machine)).run _)
    rw [same machine suits]
    exact (rest machine).always machine suits

/-- A change of the books, which leaves the frames as they are. -/
theorem echoes_modify {change : Machine → Machine}
    (frames : ∀ machine, (change machine).frames = machine.frames)
    (same : ∀ machine, change (residue.machine machine) = residue.machine (change machine)) :
    Echoes residue (modify change : Action PUnit) where
  always := by
    intro machine suits
    have echo := Residue.Echo.ok PUnit.unit (suits.of_frames (frames machine))
    rw [← same] at echo
    exact echo

instance (result : Except MachineError α) : Echoes residue (ofResult result) := by
  unfold ofResult
  split <;> infer_instance

instance (result : Except ValueError α) : Echoes residue (ofValueResult result) :=
  inferInstanceAs (Echoes residue (ofResult _))

/-! Frames and their stacks. -/

theorem echo_frame (suits : residue.Suits machine) {next : Frame → Action α}
    (rest : ∀ frame, machine.frames.frame? id = some frame →
      residue.Echo ((next frame).run machine)
        ((next (residue.frame frame)).run (residue.machine machine))) :
    EchoesAt residue machine (frame id >>= next) := by
  cases found : machine.frames.frame? id with
  | none =>
      have gone : (residue.machine machine).frames.frame? id = none := by
        rw [Residue.frames_machine, frame?_residue, found, Option.map_none]
      simp only [EchoesAt, frame, EStateM.run_bind, EStateM.run_get, FrameArena.get, found, gone]
      exact .error _ suits
  | some held =>
      have there : (residue.machine machine).frames.frame? id = some (residue.frame held) := by
        rw [Residue.frames_machine, frame?_residue, found, Option.map_some]
      simp only [EchoesAt, EStateM.run_bind, run_frame found, run_frame there]
      exact rest held found

/-- What is read off a frame shows nothing of the residue. -/
theorem echoes_frame_bind {next : Frame → Action α}
    (same : ∀ frame, next (residue.frame frame) = next frame)
    (rest : ∀ frame, Echoes residue (next frame)) : Echoes residue (frame id >>= next) where
  always := by
    intro machine suits
    apply echo_frame suits
    intro frame _
    rw [same]
    exact (rest frame).always machine suits

theorem echo_setFrame (suits : residue.Suits machine) {frame new : Frame}
    (found : machine.frames.frame? id = some frame) (same : new.skeleton = frame.skeleton) :
    residue.Echo ((setFrame id new).run machine)
      ((setFrame id (residue.frame new)).run (residue.machine machine)) := by
  have set : (residue.machine machine).frames.set id (residue.frame new) = _ :=
    set_residue (index_lt_of_frame? found) new
  rw [run_setFrame, run_setFrame, set]
  exact .ok () (suits.setFrame found same)

instance (id : FrameId) (value : Value) : Echoes residue (push id value) where
  always := fun _ suits => echo_frame suits fun _ found => echo_setFrame suits found rfl

/-- A part is taken off a frame. -/
theorem echoes_take {take : Frame → Except MachineError (α × Frame)}
    (same : ∀ frame, take (residue.frame frame) =
      (take frame).map (Prod.map (fun result => result) residue.frame))
    (skeleton : ∀ frame result rest, take frame = .ok (result, rest) →
      rest.skeleton = frame.skeleton) :
    Echoes residue (do
      let (result, frame) ← ofResult (take (← frame id))
      setFrame id frame
      return result) where
  always := by
    intro machine suits
    refine echo_frame suits fun frame found => ?_
    dsimp only
    rw [same]
    cases taken : take frame with
    | error error => exact .error error suits
    | ok part =>
        obtain ⟨result, rest⟩ := part
        have set := echo_setFrame suits found (skeleton frame result rest taken)
        show residue.Echo ((setFrame id rest >>= fun _ => pure result).run machine)
          ((setFrame id (residue.frame rest) >>= fun _ => pure result).run (residue.machine machine))
        exact echo_bind set fun _ _ _ later => .ok result later

instance (id : FrameId) : Echoes residue (pop id) :=
  echoes_take Frame.pop_residue fun _ _ _ => skeleton_pop

instance (id : FrameId) (count : Nat) : Echoes residue (popMany id count) :=
  echoes_take (Frame.popMany_residue · count) fun _ _ _ => skeleton_popMany

instance (id : FrameId) : Echoes residue (peek id) :=
  echoes_frame_bind (fun _ => rfl) inferInstance

instance (id : FrameId) (target : Nat) : Echoes residue (jump id target) where
  always := by
    intro machine suits
    refine echo_frame suits fun frame found => ?_
    have set := @echo_setFrame residue machine id suits frame
      { frame with position := target } found rfl
    exact echo_ite .rfl (.error _ suits) set

/-! Values. -/

instance (value : Value) : Echoes residue (surface value) :=
  echoes_get_bind (fun _ _ => rfl) inferInstance

instance (value : Value) : Echoes residue (toReal value) := by
  unfold toReal
  infer_instance

instance (value : Value) : Echoes residue (toBoolean value) := by
  unfold toBoolean
  infer_instance

instance (read : Heap → Except ValueError α) : Echoes residue (readHeap read) :=
  echoes_get_bind (fun _ _ => rfl) inferInstance

instance (change : Heap → α × Heap) : Echoes residue (changeHeap change) where
  always := fun machine suits => .ok (change machine.heap).1 (suits.of_frames rfl)

instance (datum : Datum) : Echoes residue (build datum) :=
  inferInstanceAs (Echoes residue (changeHeap _))

instance (body : Body) : Echoes residue (allocate body) :=
  inferInstanceAs (Echoes residue (changeHeap _))

instance (id : FrameId) : Echoes residue (popBoolean id) := by
  unfold popBoolean
  infer_instance

instance (id : FrameId) : Echoes residue (peekBoolean id) := by
  unfold peekBoolean
  infer_instance

instance (id : FrameId) (datum : Datum) : Echoes residue (pushDatum id datum) := by
  unfold pushDatum
  infer_instance

/-! Variables. -/

instance (id : FrameId) (place : Variable) : Echoes residue (holder id place) := by
  apply echoes_get_bind
  · intro machine suits
    obtain ⟨further, counted⟩ := suits.counted
    rw [Residue.frames_machine, resolve_residue counted]
  · infer_instance

instance (id : FrameId) (place : Variable) : Echoes residue (readSlot id place) := by
  have reads (holder : FrameId) : Echoes residue (do
      match (← frame holder).slots[place.slot]? with
      | some value => return value
      | none => throw (.slotOutOfRange place.level place.slot) : Action Value) := by
    apply echoes_frame_bind (fun _ => rfl)
    intro frame
    split <;> infer_instance
  unfold readSlot
  infer_instance

instance (id : FrameId) (place : Variable) (value : Value) :
    Echoes residue (writeSlot id place value) := by
  have writes (holder : FrameId) : Echoes residue (do
      let frame ← frame holder
      if place.slot < frame.slots.size then
        setFrame holder { frame with slots := frame.slots.setIfInBounds place.slot value }
      else
        throw (.slotOutOfRange place.level place.slot)) := by
    constructor
    intro machine suits
    refine echo_frame suits fun frame found => ?_
    have set := @echo_setFrame residue machine holder suits frame
      { frame with slots := frame.slots.setIfInBounds place.slot value } found rfl
    exact echo_ite .rfl set (.error _ suits)
  unfold writeSlot
  infer_instance

/-! Activations and threads. -/

instance (event : Event) : Echoes residue (log event) :=
  echoes_modify (fun _ => rfl) fun _ => rfl

instance (id : BlockId) : Echoes residue (block id) := by
  apply echoes_get_bind (fun _ _ => rfl)
  intro machine
  split <;> infer_instance

instance (id : FrameId) : Echoes residue (retire id) where
  always := by
    intro machine suits
    obtain ⟨further, counted⟩ := suits.counted
    have echo := Residue.Echo.ok PUnit.unit (suits.retire id)
    have same : residue.machine { machine with frames := machine.frames.retire id } =
        { residue.machine machine with frames := (residue.machine machine).frames.retire id } := by
      rw [Residue.frames_machine, retire_residue counted.aged]
      rfl
    rw [same] at echo
    exact echo

/-- A new frame needs a live parent. -/
theorem echoesAt_enter (suits : residue.Suits machine) {parent : Option FrameId}
    (holds : machine.Holds parent) (block : BlockId) (arguments : List Value) :
    EchoesAt residue machine (enter parent block arguments) := by
  obtain ⟨further, counted⟩ := suits.counted
  simp only [EchoesAt, run_enter, Residue.script_machine, Residue.frames_machine]
  cases machine.script.block? block with
  | none => exact .error _ suits
  | some held =>
      let frame := Frame.activate parent block held arguments
      have outside : ∀ outer, frame.parent = some outer →
        ∃ around, machine.frames.frame? outer = some around := holds
      have allocated := allocate_residue counted suits.late outside
      dsimp only
      rw [allocated]
      exact .ok _ (suits.allocate rfl rfl outside)

instance (root : FrameId) : Echoes residue (spawn root) := by
  have spawns : Echoes residue (modifyGet fun machine =>
      let (id, threads) := machine.threads.spawn root
      (id, { machine with threads }) : Action ThreadId) :=
    ⟨fun machine suits => .ok machine.threads.next (suits.of_frames rfl)⟩
  apply echoes_get_bind (fun _ _ => rfl)
  intro machine
  split <;> infer_instance

theorem echoesAt_launch (suits : residue.Suits machine) {parent : Option FrameId}
    (holds : machine.Holds parent) (block : BlockId) (arguments : List Value) :
    EchoesAt residue machine (launch parent block arguments) :=
  (echoesAt_enter suits holds block arguments).bind fun _ after _ later =>
    Echoes.always after later

theorem echoesAt_spawnHandler (suits : residue.Suits machine) (holds : machine.Holds machine.globals)
    (event : String) (block : BlockId) (arguments : List Value) :
    EchoesAt residue machine (spawnHandler event block arguments) :=
  (echoesAt_launch suits holds block arguments).bind fun _ after _ later =>
    Echoes.always after later

instance (id : ThreadId) : Echoes residue (thread id) := by
  apply echoes_get_bind (fun _ _ => rfl)
  intro machine
  split <;> infer_instance

instance (id : ThreadId) (change : Thread → Thread) : Echoes residue (updateThread id change) :=
  echoes_modify (fun _ => rfl) fun _ => rfl

instance (id : ThreadId) : Echoes residue (leave id) := by
  have removes : Echoes residue
      (modify fun machine => { machine with threads := machine.threads.remove id } : Action PUnit) :=
    echoes_modify (fun _ => rfl) fun _ => rfl
  have returns (thread : Thread) : Echoes residue (do
      let frame ← frame thread.current
      match frame.parent with
      | none => throw (.frameWithoutCaller thread.current)
      | some parent =>
        if frame.returnsResult then setFrame thread.current { frame with result := none }
        retire thread.current
        if frame.returnsResult then push parent frame.result
        updateThread id fun thread => { thread with current := parent, depth := thread.depth - 1 }
        return false : Action Bool) := by
    constructor
    intro machine suits
    refine echo_frame suits fun frame found => ?_
    have clears := @echo_setFrame residue machine thread.current suits frame
      { frame with result := none } found rfl
    simp only [Frame.parent_residue]
    cases named : frame.parent with
    | none => exact .error _ suits
    | some parent =>
        rw [named] at clears
        have rest : Echoes residue (do
            retire thread.current
            if frame.returnsResult then push parent frame.result
            updateThread id fun thread =>
              { thread with current := parent, depth := thread.depth - 1 }
            return false : Action Bool) := inferInstance
        refine echo_ite .rfl ?_ ?_
        · exact echo_bind clears fun _ after _ later => rest.always after later
        · exact rest.always machine suits
  unfold leave
  infer_instance

end Action

end CoopScript
