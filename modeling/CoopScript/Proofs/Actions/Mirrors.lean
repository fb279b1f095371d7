import CoopScript.Proofs.Machine.Lodger

/-!
Actions on a machine whose heap has its place inside another one: what an action does there is what it
does to the machine alone, with the bodies at their places.
-/

namespace CoopScript

open CoopScript.Action (Ensures)

variable {α β γ δ : Type} {lodging : Lodging}

/-- What comes of an action, in the other heap. -/
def Lodging.result (lodging : Lodging) (view : α → β) :
    EStateM.Result MachineError Machine α → EStateM.Result MachineError Machine β
  | .ok result machine => .ok (view result) (lodging.machine machine)
  | .error error machine => .error error (lodging.machine machine)

/-- The machine runs the script that it ran, and its heap has not shrunk. -/
structure Machine.Grows (machine after : Machine) : Prop where
  script : after.script = machine.script
  size : machine.heap.size ≤ after.heap.size

namespace Machine.Grows

variable {machine middle after : Machine}

theorem of_eq (script : after.script = machine.script) (heap : after.heap = machine.heap) :
    machine.Grows after := ⟨script, heap ▸ le_rfl⟩

theorem refl (machine : Machine) : machine.Grows machine := .of_eq rfl rfl

theorem trans (early : machine.Grows middle) (late : middle.Grows after) : machine.Grows after :=
  ⟨late.script.trans early.script, early.size.trans late.size⟩

end Machine.Grows

namespace Action

/-- From machines as given, the second action does at the places of the heap what the first one does
to the machine alone. -/
structure MirrorsFrom (lodging : Lodging) (before : Machine → Prop) (view : α → β) (alone : Action α)
    (among : Action β) : Prop where
  run : ∀ machine, before machine → lodging.size ≤ machine.heap.size →
    among.run (lodging.machine machine) = lodging.result view (alone.run machine)
  grows : ∀ origin : Machine, lodging.size ≤ origin.heap.size →
    alone.Ensures (fun machine => before machine ∧ origin.Grows machine) (fun _ => origin.Grows)
      fun _ => origin.Grows

/-- From any machine. Which handles stand for the results is read off the two actions. -/
class Mirrors (lodging : Lodging) (view : outParam (α → β)) (alone : Action α) (among : Action β) :
    Prop where
  always : MirrorsFrom lodging (fun _ => True) view alone among

namespace MirrorsFrom

variable {before before' : Machine → Prop} {view : α → β} {alone : Action α} {among : Action β}

theorem weaken (mirrors : MirrorsFrom lodging before view alone among)
    (earlier : ∀ machine, before' machine → before machine) :
    MirrorsFrom lodging before' view alone among where
  run := fun machine holds => mirrors.run machine (earlier machine holds)
  grows := fun origin large => (mirrors.grows origin large).weaken
    (fun machine given => ⟨earlier machine given.1, given.2⟩) (fun _ _ => id) fun _ _ => id

theorem bind {middle : α → Machine → Prop} {bad : MachineError → Machine → Prop} {view' : γ → δ}
    {next : α → Action γ} {next' : β → Action δ}
    (first : MirrorsFrom lodging before view alone among) (ensures : alone.Ensures before middle bad)
    (rest : ∀ result, MirrorsFrom lodging (middle result) view' (next result) (next' (view result))) :
    MirrorsFrom lodging before view' (alone >>= next) (among >>= next') where
  run := by
    intro machine holds fits
    have held := ensures machine holds
    have grown := first.grows machine fits machine ⟨holds, .refl machine⟩
    rw [EStateM.run_bind, EStateM.run_bind, first.run machine holds fits]
    cases ran : alone.run machine with
    | ok result after =>
        rw [ran] at held grown
        exact (rest result).run after held (fits.trans grown.size)
    | error error after => rfl
  grows := by
    intro origin large
    have both : alone.Ensures (fun machine => before machine ∧ origin.Grows machine)
        (fun result after => middle result after ∧ origin.Grows after) fun _ => origin.Grows := by
      intro machine given
      have held := ensures machine given.1
      have grown := first.grows origin large machine given
      cases ran : alone.run machine with
      | ok result after =>
          rw [ran] at held grown
          exact ⟨held, grown⟩
      | error error after =>
          rw [ran] at grown
          exact grown
    exact both.bind fun result => (rest result).grows origin large

end MirrorsFrom

theorem Mirrors.from {view : α → β} {alone : Action α} {among : Action β}
    (mirrors : Mirrors lodging view alone among) (before : Machine → Prop) :
    MirrorsFrom lodging before view alone among :=
  mirrors.always.weaken fun _ _ => trivial

/-- A fact that does not depend on the machine may be used. -/
theorem MirrorsFrom.given {before : Machine → Prop} {fact : Prop} {view : α → β} {alone : Action α}
    {among : Action β} (mirrors : fact → MirrorsFrom lodging before view alone among) :
    MirrorsFrom lodging (fun machine => before machine ∧ fact) view alone among where
  run := fun machine holds => (mirrors holds.2).run machine holds.1
  grows := fun origin large machine holds =>
    (mirrors holds.1.2).grows origin large machine ⟨holds.1.1, holds.2⟩

/-! Actions made of others. -/

theorem ensures_nothing (action : Action α) (before : Machine → Prop) :
    action.Ensures before (fun _ _ => True) fun _ _ => True := by
  intro machine _
  cases action.run machine <;> trivial

/-- What follows need not know where it begins. -/
theorem MirrorsFrom.ending {before : Machine → Prop} {view : α → β} {view' : γ → δ} {alone : Action α}
    {among : Action β} {next : α → Action γ} {next' : β → Action δ}
    (first : MirrorsFrom lodging before view alone among)
    (rest : ∀ result, Mirrors lodging view' (next result) (next' (view result))) :
    MirrorsFrom lodging before view' (alone >>= next) (among >>= next') :=
  first.bind (ensures_nothing alone before) fun result => (rest result).always

instance (result : α) : Mirrors lodging (fun result => result) (pure result) (pure result) :=
  ⟨fun _ _ _ => rfl, fun _ _ _ given => given.2⟩

instance (value : Value) : Mirrors lodging lodging.value (pure value) (pure (lodging.value value)) :=
  ⟨fun _ _ _ => rfl, fun _ _ _ given => given.2⟩

theorem mirrors_throw (view : α → β) (error : MachineError) :
    Mirrors lodging view (throw error : Action α) (throw error : Action β) :=
  ⟨fun _ _ _ => rfl, fun _ _ _ given => given.2⟩

instance (priority := low) (error : MachineError) :
    Mirrors lodging (fun result => result) (throw error : Action α) (throw error : Action α) :=
  mirrors_throw _ error

theorem Mirrors.bind {view : α → β} {view' : γ → δ} {alone : Action α} {among : Action β}
    {next : α → Action γ} {next' : β → Action δ} (first : Mirrors lodging view alone among)
    (rest : ∀ result, Mirrors lodging view' (next result) (next' (view result))) :
    Mirrors lodging view' (alone >>= next) (among >>= next') :=
  ⟨first.always.ending rest⟩

instance {view : α → β} {view' : γ → δ} {alone : Action α} {among : Action β} {next : α → Action γ}
    {next' : β → Action δ} [first : Mirrors lodging view alone among]
    [rest : ∀ result, Mirrors lodging view' (next result) (next' (view result))] :
    Mirrors lodging view' (alone >>= next) (among >>= next') := first.bind rest

instance {condition : Prop} {here there : Decidable condition} {view : α → β}
    {first second : Action α} {first' second' : Action β} [Mirrors lodging view first first']
    [Mirrors lodging view second second'] :
    Mirrors lodging view (@ite _ condition here first second)
      (@ite _ condition there first' second') := by
  split <;> infer_instance

instance : Mirrors lodging lodging.machine get get := ⟨fun _ _ _ => rfl, fun _ _ _ given => given.2⟩

/-- What is read off the machine is read off it at its place. -/
theorem mirrorsFrom_get_bind {before : Machine → Prop} {view : α → β} {next : Machine → Action α}
    {next' : Machine → Action β}
    (rest : ∀ machine, before machine → lodging.size ≤ machine.heap.size →
      MirrorsFrom lodging before view (next machine) (next' (lodging.machine machine))) :
    MirrorsFrom lodging before view (get >>= next) (get >>= next') where
  run := fun machine holds fits => (rest machine holds fits).run machine holds fits
  grows := fun origin large machine given =>
    (rest machine given.1 (large.trans given.2.size)).grows origin large machine given

theorem mirrors_get_bind {view : α → β} {next : Machine → Action α} {next' : Machine → Action β}
    (rest : ∀ machine, lodging.size ≤ machine.heap.size →
      Mirrors lodging view (next machine) (next' (lodging.machine machine))) :
    Mirrors lodging view (get >>= next) (get >>= next') :=
  ⟨mirrorsFrom_get_bind fun machine _ fits => (rest machine fits).always⟩

/-- A change of the books, which leaves the heap as it is. -/
theorem mirrors_modify {change change' : Machine → Machine}
    (grows : ∀ machine : Machine, machine.Grows (change machine))
    (same : ∀ machine, change' (lodging.machine machine) = lodging.machine (change machine)) :
    Mirrors lodging (fun result => result) (modify change : Action PUnit) (modify change') where
  always := by
    constructor
    · intro machine _ _
      exact congrArg (EStateM.Result.ok PUnit.unit) (same machine)
    · exact fun _ _ machine given => given.2.trans (grows machine)

theorem mirrors_modifyGet {view : α → β} {change : Machine → α × Machine}
    {change' : Machine → β × Machine}
    (grows : ∀ machine : Machine, machine.Grows (change machine).2)
    (same : ∀ machine, change' (lodging.machine machine) =
      Prod.map view lodging.machine (change machine)) :
    Mirrors lodging view (modifyGet change : Action α) (modifyGet change') where
  always := by
    constructor
    · intro machine _ _
      show (match change' (lodging.machine machine) with
        | (result, after) => EStateM.Result.ok result after) = _
      rw [same]
      rfl
    · exact fun _ _ machine given => given.2.trans (grows machine)

theorem mirrors_ofResult (view : α → β) (result : Except MachineError α) :
    Mirrors lodging view (ofResult result) (ofResult (result.map view)) := by
  cases result with
  | ok result => exact ⟨fun _ _ _ => rfl, fun _ _ _ given => given.2⟩
  | error error => exact mirrors_throw view error

theorem mirrors_ofValueResult (view : α → β) (result : Except ValueError α) :
    Mirrors lodging view (ofValueResult result) (ofValueResult (result.map view)) := by
  cases result with
  | ok result => exact mirrors_ofResult view (.ok result)
  | error cause => exact mirrors_throw view (.value cause)

instance (result : Except MachineError α) :
    Mirrors lodging (fun result => result) (ofResult result) (ofResult result) := by
  cases result with
  | ok result => exact inferInstanceAs (Mirrors lodging _ (pure result) (pure result))
  | error error => exact mirrors_throw _ error

instance (result : Except ValueError α) :
    Mirrors lodging (fun result => result) (ofValueResult result) (ofValueResult result) :=
  inferInstanceAs (Mirrors lodging _ (ofResult _) (ofResult _))

/-! Frames and their stacks. -/

instance (id : FrameId) : Mirrors lodging (Frame.rename lodging.place) (frame id) (frame id) := by
  unfold frame
  have reads (machine : Machine) : Mirrors lodging (Frame.rename lodging.place)
      (ofResult (machine.frames.get id)) (ofResult ((lodging.machine machine).frames.get id)) := by
    rw [Lodging.frames_machine, FrameArena.get_rename]
    exact mirrors_ofResult _ _
  infer_instance

instance (id : FrameId) (frame : Frame) : Mirrors lodging (fun result => result) (setFrame id frame)
    (setFrame id (frame.rename lodging.place)) := by
  apply mirrors_modify
  · exact fun _ => .of_eq rfl rfl
  · intro machine
    simp only [Lodging.frames_machine, FrameArena.set_rename]
    rfl

instance (id : FrameId) (value : Value) :
    Mirrors lodging (fun result => result) (push id value) (push id (lodging.value value)) := by
  unfold push
  have sets (frame : Frame) : Mirrors lodging (fun result => result) (setFrame id (frame.push value))
      (setFrame id ((frame.rename lodging.place).push (lodging.value value))) := by
    rw [Frame.push_rename]
    infer_instance
  infer_instance

/-- A part is taken off a frame. -/
theorem mirrors_take {view : α → β} (id : FrameId) {take : Frame → Except MachineError (α × Frame)}
    {take' : Frame → Except MachineError (β × Frame)}
    (same : ∀ frame, take' (frame.rename lodging.place) =
      (take frame).map (Prod.map view (Frame.rename lodging.place)))
    (ends : ∀ result, Mirrors lodging view (pure result) (pure (view result))) :
    Mirrors lodging view
      (do
        let (result, frame) ← ofResult (take (← frame id))
        setFrame id frame
        return result)
      (do
        let (result, frame) ← ofResult (take' (← frame id))
        setFrame id frame
        return result) := by
  have takes (frame : Frame) :
      Mirrors lodging (Prod.map view (Frame.rename lodging.place)) (ofResult (take frame))
        (ofResult (take' (frame.rename lodging.place))) := by
    rw [same]
    exact mirrors_ofResult _ _
  have ends (taken : α × Frame) : Mirrors lodging view
      (match taken with
      | (result, frame) => do
        setFrame id frame
        return result)
      (match Prod.map view (Frame.rename lodging.place) taken with
      | (result, frame) => do
        setFrame id frame
        return result) :=
    inferInstanceAs (Mirrors lodging view
      (do
        setFrame id taken.2
        return taken.1)
      (do
        setFrame id (taken.2.rename lodging.place)
        return view taken.1))
  infer_instance

instance (id : FrameId) : Mirrors lodging lodging.value (pop id) (pop id) :=
  mirrors_take id Frame.pop_rename inferInstance

instance (id : FrameId) (count : Nat) :
    Mirrors lodging (List.map lodging.value) (popMany id count) (popMany id count) :=
  mirrors_take id (Frame.popMany_rename · count) fun _ => ⟨fun _ _ _ => rfl, fun _ _ _ given => given.2⟩

instance (id : FrameId) : Mirrors lodging lodging.value (peek id) (peek id) := by
  unfold peek
  have peeks (frame : Frame) : Mirrors lodging lodging.value (ofResult frame.peek)
      (ofResult (frame.rename lodging.place).peek) := by
    rw [Frame.peek_rename]
    exact mirrors_ofResult _ _
  infer_instance

instance (id : FrameId) (target : Nat) :
    Mirrors lodging (fun result => result) (jump id target) (jump id target) := by
  have jumps (finish : Nat) (new : Frame) : Mirrors lodging (fun result => result)
      (do
        if finish < target then throw (.invalidJump target finish)
        setFrame id new)
      (do
        if finish < target then throw (.invalidJump target finish)
        setFrame id (new.rename lodging.place)) := inferInstance
  exact Mirrors.bind inferInstance fun frame => jumps frame.finish { frame with position := target }

/-! Values. -/

instance (value : Value) : Mirrors lodging (fun result => result) (surface value)
    (surface (lodging.value value)) := by
  apply mirrors_get_bind
  intro machine fits
  rw [Lodging.heap_machine, Lodging.surface_heap fits]
  infer_instance

instance (value : Value) : Mirrors lodging (fun result => result) (toReal value)
    (toReal (lodging.value value)) := by
  unfold toReal
  infer_instance

instance (value : Value) : Mirrors lodging (fun result => result) (toBoolean value)
    (toBoolean (lodging.value value)) := by
  unfold toBoolean
  infer_instance

theorem mirrors_readHeap {view : α → β} {read : Heap → Except ValueError α}
    {read' : Heap → Except ValueError β}
    (same : ∀ heap, lodging.size ≤ heap.size → read' (lodging.heap heap) = (read heap).map view) :
    Mirrors lodging view (readHeap read) (readHeap read') := by
  apply mirrors_get_bind
  intro machine fits
  rw [Lodging.heap_machine, same machine.heap fits]
  exact mirrors_ofValueResult view (read machine.heap)

/-- What is read is the same there. -/
theorem mirrors_read {read read' : Heap → Except ValueError α}
    (same : ∀ heap, lodging.size ≤ heap.size → read' (lodging.heap heap) = read heap) :
    Mirrors lodging (fun result => result) (readHeap read) (readHeap read') := by
  apply mirrors_readHeap
  intro heap fits
  rw [same heap fits]
  cases read heap <;> rfl

instance (array : Value) : Mirrors lodging (fun result => result)
    (readHeap fun heap => heap.length array)
    (readHeap fun heap => heap.length (lodging.value array)) :=
  mirrors_read fun _ fits => Lodging.length_heap fits array

instance (value : Value) : Mirrors lodging (fun result => result)
    (readHeap fun heap => heap.typeOf value)
    (readHeap fun heap => heap.typeOf (lodging.value value)) :=
  mirrors_read fun _ fits => Lodging.typeOf_heap fits value

instance (array : Value) (position : Nat) : Mirrors lodging lodging.value
    (readHeap fun heap => heap.index array position)
    (readHeap fun heap => heap.index (lodging.value array) position) :=
  mirrors_readHeap fun _ fits => Lodging.index_heap fits array position

instance (type : Ty) (elements : List Value) : Mirrors lodging lodging.body
    (readHeap fun heap => heap.arrayBody type elements)
    (readHeap fun heap => heap.arrayBody type (elements.map lodging.value)) :=
  mirrors_readHeap fun _ fits => Lodging.arrayBody_heap fits type elements

instance (array element : Value) : Mirrors lodging lodging.body
    (readHeap fun heap => heap.appendedBody array element)
    (readHeap fun heap => heap.appendedBody (lodging.value array) (lodging.value element)) :=
  mirrors_readHeap fun _ fits => Lodging.appendedBody_heap fits array element

instance (first second : Value) : Mirrors lodging lodging.body
    (readHeap fun heap => heap.concatenatedBody first second)
    (readHeap fun heap => heap.concatenatedBody (lodging.value first) (lodging.value second)) :=
  mirrors_readHeap fun _ fits => Lodging.concatenatedBody_heap fits first second

theorem mirrorsFrom_changeHeap {before : Machine → Prop} {view : α → β} {change : Heap → α × Heap}
    {change' : Heap → β × Heap}
    (same : ∀ machine, before machine → lodging.size ≤ machine.heap.size →
      change' (lodging.heap machine.heap) = Prod.map view lodging.heap (change machine.heap))
    (size : ∀ heap, heap.size ≤ (change heap).2.size) :
    MirrorsFrom lodging before view (changeHeap change) (changeHeap change') where
  run := by
    intro machine holds fits
    show EStateM.Result.ok (change' (lodging.heap machine.heap)).1
      { lodging.machine machine with heap := (change' (lodging.heap machine.heap)).2 } = _
    rw [same machine holds fits]
    rfl
  grows := fun _ _ machine given => given.2.trans ⟨rfl, size machine.heap⟩

theorem mirrors_changeHeap {view : α → β} {change : Heap → α × Heap} {change' : Heap → β × Heap}
    (same : ∀ heap, lodging.size ≤ heap.size →
      change' (lodging.heap heap) = Prod.map view lodging.heap (change heap))
    (size : ∀ heap, heap.size ≤ (change heap).2.size) :
    Mirrors lodging view (changeHeap change) (changeHeap change') :=
  ⟨mirrorsFrom_changeHeap (fun machine _ fits => same machine.heap fits) size⟩

instance (datum : Datum) : Mirrors lodging lodging.value (build datum) (build datum) :=
  mirrors_changeHeap (fun heap fits => Lodging.build_heap datum heap fits)
    fun heap => heap.size_le_build datum

instance (body : Body) :
    Mirrors lodging lodging.value (allocate body) (allocate (lodging.body body)) :=
  mirrors_changeHeap (fun _ fits => Lodging.allocate_heap fits body)
    fun heap => (heap.extends_allocate body).size

instance (id : FrameId) : Mirrors lodging (fun result => result) (popBoolean id) (popBoolean id) := by
  unfold popBoolean
  infer_instance

instance (id : FrameId) :
    Mirrors lodging (fun result => result) (peekBoolean id) (peekBoolean id) := by
  unfold peekBoolean
  infer_instance

instance (id : FrameId) (datum : Datum) :
    Mirrors lodging (fun result => result) (pushDatum id datum) (pushDatum id datum) := by
  unfold pushDatum
  infer_instance

/-! Variables. -/

instance (id : FrameId) (place : Variable) :
    Mirrors lodging (fun result => result) (holder id place) (holder id place) := by
  apply mirrors_get_bind
  intro machine _
  rw [Lodging.frames_machine, FrameArena.resolve_rename]
  infer_instance

instance (id : FrameId) (place : Variable) :
    Mirrors lodging lodging.value (readSlot id place) (readSlot id place) := by
  unfold readSlot
  have reads (frame : Frame) : Mirrors lodging lodging.value
      (match frame.slots[place.slot]? with
      | some value => return value
      | none => throw (.slotOutOfRange place.level place.slot) : Action Value)
      (match (frame.rename lodging.place).slots[place.slot]? with
      | some value => return value
      | none => throw (.slotOutOfRange place.level place.slot)) := by
    simp only [Frame.slots_rename, Array.getElem?_map]
    cases frame.slots[place.slot]? with
    | none => exact mirrors_throw _ _
    | some value => exact inferInstanceAs (Mirrors lodging _ (pure value) (pure (lodging.value value)))
  infer_instance

instance (id : FrameId) (place : Variable) (value : Value) :
    Mirrors lodging (fun result => result) (writeSlot id place value)
      (writeSlot id place (lodging.value value)) := by
  unfold writeSlot
  have writes (holder : FrameId) (frame : Frame) : Mirrors lodging (fun result => result)
      (if place.slot < frame.slots.size then
        setFrame holder { frame with slots := frame.slots.setIfInBounds place.slot value }
      else
        throw (.slotOutOfRange place.level place.slot))
      (if place.slot < (frame.rename lodging.place).slots.size then
        setFrame holder { frame.rename lodging.place with
          slots := (frame.rename lodging.place).slots.setIfInBounds place.slot (lodging.value value) }
      else
        throw (.slotOutOfRange place.level place.slot)) := by
    have sets : Mirrors lodging (fun result => result)
        (setFrame holder { frame with slots := frame.slots.setIfInBounds place.slot value })
        (setFrame holder { frame.rename lodging.place with
          slots := (frame.rename lodging.place).slots.setIfInBounds place.slot (lodging.value value) }) := by
      rw [Frame.slots_rename, ← Array.map_setIfInBounds]
      exact inferInstanceAs (Mirrors lodging _ (setFrame holder _)
        (setFrame holder (Frame.rename lodging.place
          { frame with slots := frame.slots.setIfInBounds place.slot value })))
    simp only [Frame.slots_rename, Array.size_map] at sets ⊢
    infer_instance
  infer_instance

/-! Activations and threads. -/

instance (event : Event) : Mirrors lodging (fun result => result) (log event) (log event) :=
  mirrors_modify (fun _ => .of_eq rfl rfl) fun _ => rfl

instance (id : BlockId) : Mirrors lodging (fun result => result) (block id) (block id) := by
  apply mirrors_get_bind
  intro machine _
  rw [Lodging.script_machine]
  split <;> infer_instance

instance (parent : Option FrameId) (id : BlockId) (arguments : List Value) :
    Mirrors lodging (fun result => result) (enter parent id arguments)
      (enter parent id (arguments.map lodging.value)) := by
  unfold enter
  have allocates (block : Block) : Mirrors lodging (fun result => result)
      (modifyGet fun machine =>
        let (id, frames) := machine.frames.allocate (.activate parent id block arguments)
        (id, { machine with frames }) : Action FrameId)
      (modifyGet fun machine =>
        let (id, frames) :=
          machine.frames.allocate (.activate parent id block (arguments.map lodging.value))
        (id, { machine with frames })) := by
    apply mirrors_modifyGet
    · exact fun _ => .of_eq rfl rfl
    · intro machine
      simp only [Lodging.frames_machine, Frame.activate_rename, FrameArena.allocate_rename]
      rfl
  infer_instance

instance (id : FrameId) : Mirrors lodging (fun result => result) (retire id) (retire id) := by
  apply mirrors_modify
  · exact fun _ => .of_eq rfl rfl
  · intro machine
    simp only [Lodging.frames_machine, FrameArena.retire_rename]
    rfl

instance (root : FrameId) : Mirrors lodging (fun result => result) (spawn root) (spawn root) := by
  have spawns : Mirrors lodging (fun result => result)
      (modifyGet fun machine =>
        let (id, threads) := machine.threads.spawn root
        (id, { machine with threads }) : Action ThreadId)
      (modifyGet fun machine =>
        let (id, threads) := machine.threads.spawn root
        (id, { machine with threads })) := mirrors_modifyGet (fun _ => .of_eq rfl rfl) fun _ => rfl
  apply mirrors_get_bind
  intro machine _
  rw [Lodging.limits_machine, Lodging.threads_machine]
  split <;> infer_instance

instance (parent : Option FrameId) (id : BlockId) (arguments : List Value) :
    Mirrors lodging (fun result => result) (launch parent id arguments)
      (launch parent id (arguments.map lodging.value)) := by
  unfold launch
  infer_instance

instance (event : String) (id : BlockId) (arguments : List Value) :
    Mirrors lodging (fun result => result) (spawnHandler event id arguments)
      (spawnHandler event id (arguments.map lodging.value)) := by
  apply mirrors_get_bind
  intro machine _
  rw [Lodging.globals_machine]
  infer_instance

instance (id : ThreadId) : Mirrors lodging (fun result => result) (thread id) (thread id) := by
  apply mirrors_get_bind
  intro machine _
  rw [Lodging.threads_machine]
  split <;> infer_instance

instance (id : ThreadId) (change : Thread → Thread) :
    Mirrors lodging (fun result => result) (updateThread id change) (updateThread id change) :=
  mirrors_modify (fun _ => .of_eq rfl rfl) fun _ => rfl

instance (id : ThreadId) : Mirrors lodging (fun result => result) (leave id) (leave id) := by
  have removes : Mirrors lodging (fun result => result)
      (modify fun machine => { machine with threads := machine.threads.remove id } : Action PUnit)
      (modify fun machine => { machine with threads := machine.threads.remove id }) :=
    mirrors_modify (fun _ => .of_eq rfl rfl) fun _ => rfl
  have clears (place : FrameId) (frame : Frame) : Mirrors lodging (fun result => result)
      (setFrame place { frame with result := none })
      (setFrame place { frame.rename lodging.place with result := none }) :=
    inferInstanceAs (Mirrors lodging _ (setFrame place { frame with result := none })
      (setFrame place (Frame.rename lodging.place { frame with result := none })))
  have returns (thread : Thread) (frame : Frame) : Mirrors lodging (fun result => result)
      (do
        match frame.parent with
        | none => throw (.frameWithoutCaller thread.current)
        | some parent =>
          if frame.returnsResult then setFrame thread.current { frame with result := none }
          retire thread.current
          if frame.returnsResult then push parent frame.result
          updateThread id fun thread => { thread with current := parent, depth := thread.depth - 1 }
          return false : Action Bool)
      (do
        match (frame.rename lodging.place).parent with
        | none => throw (.frameWithoutCaller thread.current)
        | some parent =>
          if (frame.rename lodging.place).returnsResult then
            setFrame thread.current { frame.rename lodging.place with result := none }
          retire thread.current
          if (frame.rename lodging.place).returnsResult then
            push parent (frame.rename lodging.place).result
          updateThread id fun thread => { thread with current := parent, depth := thread.depth - 1 }
          return false) := by
    rw [Frame.parent_rename, Frame.returnsResult_rename, Frame.result_rename]
    split <;> infer_instance
  unfold leave
  infer_instance

end Action

end CoopScript
