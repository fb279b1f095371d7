import CoopScript.Machine.Step
import CoopScript.Proofs.Actions.Ensures
import CoopScript.Proofs.Frames.Contents
import CoopScript.Proofs.Heap.Replacement

/-!
Grounded machines, whose heap is sound and has every value in a live frame, and the actions that
keep them so, as long as these are given values that the heap has.
-/

namespace CoopScript

namespace Machine

/-- The heap is sound and has all values that live frames hold. -/
structure Grounded (machine : Machine) : Prop where
  sound : machine.heap.Sound
  within : machine.frames.Within {value | machine.heap.Has value}

/-- A grounded machine whose heap has the given values. -/
structure Knows (machine : Machine) (known : Set Value) : Prop where
  grounded : machine.Grounded
  has : ∀ value ∈ known, machine.heap.Has value

variable {machine after : Machine} {known more : Set Value}

theorem Knows.mono (knows : machine.Knows known) (subset : more ⊆ known) : machine.Knows more where
  grounded := knows.grounded
  has := fun value inside => knows.has value (subset inside)

theorem Knows.union (knows : machine.Knows known) (has : ∀ value ∈ more, machine.heap.Has value) :
    machine.Knows (known ∪ more) where
  grounded := knows.grounded
  has := by
    intro value inside
    rcases inside with old | new
    · exact knows.has value old
    · exact has value new

/-- What a machine knows does not depend on its threads and books. -/
theorem Knows.of_eq (knows : machine.Knows known) (heap : after.heap = machine.heap)
    (frames : after.frames = machine.frames) : after.Knows known where
  grounded := by
    constructor
    · rw [heap]
      exact knows.grounded.sound
    · rw [heap, frames]
      exact knows.grounded.within
  has := by
    rw [heap]
    exact knows.has

/-- The frames may change among values that are known. -/
theorem Knows.setFrames (knows : machine.Knows known) {frames : FrameArena}
    (within : frames.Within {value | machine.heap.Has value}) :
    { machine with frames }.Knows known where
  grounded := ⟨knows.grounded.sound, within⟩
  has := knows.has

/-- The heap may grow. -/
theorem Knows.setHeap (knows : machine.Knows known) {heap : Heap} (sound : heap.Sound)
    (size : machine.heap.size ≤ heap.size) : { machine with heap }.Knows known where
  grounded := by
    refine ⟨sound, knows.grounded.within.mono ?_⟩
    intro value has
    exact has.mono size
  has := fun value inside => (knows.has value inside).mono size

end Machine

open Machine

theorem Frame.mem_values_iff {frame : Frame} {value : Value} :
    value ∈ frame.values ↔ value ∈ frame.slots ∨ value ∈ frame.stack ∨ value = frame.result := by
  simp [Frame.values]

namespace Action

variable {α β : Type} {known : Set Value} {gives : α → Set Value} {id : FrameId} {value : Value}

/-- From grounded machines that know the given values the action leads to grounded machines, which
know those that it gives as well. -/
def Grounds (action : Action α) (known : Set Value) (gives : α → Set Value := fun _ => ∅) : Prop :=
  action.Ensures (·.Knows known) (fun result machine => machine.Knows (known ∪ gives result))
    fun _ machine => machine.Grounded

namespace Grounds

theorem bind {action : Action α} {next : α → Action β} {gives' : β → Set Value}
    (first : action.Grounds known gives)
    (rest : ∀ result, (next result).Grounds (known ∪ gives result) gives') :
    (action >>= next).Grounds known gives' := by
  refine Ensures.bind first fun result => ?_
  refine Ensures.weaken (rest result) (fun _ => id) ?_ fun _ _ => id
  intro last machine knows
  apply knows.mono
  intro value inside
  rcases inside with old | new
  · exact .inl (.inl old)
  · exact .inr new

theorem weaken {action : Action α} {gives' : α → Set Value} (grounds : action.Grounds known gives)
    (fewer : ∀ result, gives' result ⊆ known ∪ gives result) : action.Grounds known gives' := by
  refine Ensures.weaken grounds (fun _ => id) ?_ fun _ _ => id
  intro result machine knows
  apply knows.mono
  apply Set.union_subset
  · exact Set.subset_union_left
  · exact fewer result

end Grounds

theorem grounds_pure {result : α} (inside : gives result ⊆ known) :
    (pure result : Action α).Grounds known gives :=
  .pure fun _ knows => knows.mono (Set.union_subset (fun _ => id) inside)

theorem grounds_throw (error : MachineError) : (throw error : Action α).Grounds known gives :=
  .throw fun _ knows => knows.grounded

theorem grounds_throw_bind (error : MachineError) (next : α → Action β) {gives : β → Set Value} :
    (throw error >>= next : Action β).Grounds known gives :=
  fun _ knows => knows.grounded

theorem grounds_get : (get : Action Machine).Grounds known :=
  .get fun _ knows => knows.mono (by simp)

theorem grounds_modify {change : Machine → Machine}
    (keeps : ∀ machine : Machine, machine.Knows known → (change machine).Knows known) :
    (modify change : Action Unit).Grounds known :=
  .modify fun machine knows => (keeps machine knows).mono (by simp)

/-- A change of the machine's books before the rest of an action. -/
theorem Grounds.modify_bind {change : Machine → Machine} {next : Unit → Action β}
    {gives : β → Set Value} (heap : ∀ machine : Machine, (change machine).heap = machine.heap)
    (frames : ∀ machine : Machine, (change machine).frames = machine.frames)
    (rest : (next ()).Grounds known gives) : (modify change >>= next).Grounds known gives :=
  fun machine knows => rest (change machine) (knows.of_eq (heap machine) (frames machine))

theorem grounds_modifyGet {change : Machine → α × Machine}
    (keeps : ∀ machine : Machine, machine.Knows known → (change machine).2.Knows known) :
    (modifyGet change : Action α).Grounds known := by
  intro machine knows
  show (change machine).2.Knows (known ∪ ∅)
  rw [Set.union_empty]
  exact keeps machine knows

theorem grounds_ofResult (result : Except MachineError α) : (ofResult result).Grounds known := by
  cases result with
  | ok found => exact grounds_pure (Set.empty_subset _)
  | error cause => exact grounds_throw cause

theorem grounds_ofValueResult (result : Except ValueError α) :
    (ofValueResult result).Grounds known := grounds_ofResult _

/-! Frames and their stacks. -/

theorem grounds_frame (id : FrameId) :
    (frame id).Grounds known fun frame => {value | value ∈ frame.values} := by
  intro machine knows
  unfold frame
  simp only [EStateM.run_bind, EStateM.run_get, FrameArena.get]
  cases found : machine.frames.frame? id with
  | none => exact knows.grounded
  | some frame => exact knows.union (knows.grounded.within id frame found)

theorem grounds_setFrame {new : Frame} (held : ∀ value ∈ new.values, value ∈ known) :
    (setFrame id new).Grounds known := by
  apply grounds_modify
  intro machine knows
  apply knows.setFrames
  apply knows.grounded.within.set
  intro value inside
  exact knows.has value (held value inside)

theorem grounds_push (inside : value ∈ known) : (push id value).Grounds known := by
  apply (grounds_frame id).bind
  intro frame
  refine grounds_setFrame ?_
  intro other held
  rw [Frame.mem_values_iff] at held
  rcases held with slot | stacked | result
  · exact .inr (Frame.mem_values_iff.mpr (.inl slot))
  · rcases List.mem_cons.mp stacked with rfl | stacked
    · exact .inl inside
    · exact .inr (Frame.mem_values_iff.mpr (.inr (.inl stacked)))
  · exact .inr (Frame.mem_values_iff.mpr (.inr (.inr result)))

/-- Other contents for a frame, made of its own. -/
theorem grounds_refill {frame new : Frame} (fewer : ∀ value ∈ new.values, value ∈ frame.values) :
    (setFrame id new).Grounds (known ∪ {value | value ∈ frame.values}) :=
  grounds_setFrame fun value held => .inr (fewer value held)

/-- The result of a frame is cleared once it has been passed on. -/
theorem grounds_clearResult (frame : Frame) :
    (setFrame id { frame with result := none }).Grounds (known ∪ {value | value ∈ frame.values}) := by
  apply grounds_modify
  intro machine knows
  apply knows.setFrames
  apply knows.grounded.within.set
  intro value held
  rw [Frame.mem_values_iff] at held
  rcases held with slot | stacked | result
  · exact knows.has value (.inr (Frame.mem_values_iff.mpr (.inl slot)))
  · exact knows.has value (.inr (Frame.mem_values_iff.mpr (.inr (.inl stacked))))
  · rw [result]
    exact machine.heap.has_none

theorem mem_values_pop {frame rest : Frame} (popped : frame.pop = .ok (value, rest)) :
    value ∈ frame.values ∧ ∀ other ∈ rest.values, other ∈ frame.values := by
  unfold Frame.pop at popped
  split at popped
  · cases popped
  · next top rest stacked =>
      cases popped
      simp only [Frame.mem_values_iff, stacked, List.mem_cons]
      refine ⟨.inr (.inl (.inl trivial)), fun other held => ?_⟩
      rcases held with slot | stacked | result
      · exact .inl slot
      · exact .inr (.inl (.inr stacked))
      · exact .inr (.inr result)

theorem grounds_pop (id : FrameId) : (pop id).Grounds known fun value => {value} := by
  apply (grounds_frame id).bind
  intro frame
  cases popped : frame.pop with
  | error error => exact grounds_throw_bind error _
  | ok result =>
      obtain ⟨value, rest⟩ := result
      obtain ⟨top, others⟩ := mem_values_pop popped
      refine (grounds_refill others).bind fun _ => grounds_pure ?_
      intro other same
      rw [Set.mem_singleton_iff.mp same]
      exact .inl (.inr top)

theorem grounds_popMany (id : FrameId) (count : Nat) :
    (popMany id count).Grounds known fun values => {value | value ∈ values} := by
  apply (grounds_frame id).bind
  intro frame
  unfold Frame.popMany
  split
  · exact grounds_throw_bind _ _
  · refine (grounds_refill ?_).bind fun _ => grounds_pure ?_
    · intro other held
      rw [Frame.mem_values_iff] at held ⊢
      exact held.imp_right (Or.imp_left List.mem_of_mem_drop)
    · intro other taken
      apply Or.inl
      apply Or.inr
      exact Frame.mem_values_iff.mpr
        (.inr (.inl (List.mem_of_mem_take (List.mem_reverse.mp taken))))

theorem grounds_peek (id : FrameId) : (peek id).Grounds known fun value => {value} := by
  apply (grounds_frame id).bind
  intro frame
  unfold Frame.peek
  split
  · exact grounds_throw _
  · next top rest stacked =>
      apply grounds_pure
      intro other same
      rw [Set.mem_singleton_iff.mp same]
      exact .inr (Frame.mem_values_iff.mpr (.inr (.inl (stacked ▸ List.mem_cons_self))))

theorem mem_values_swap {frame swapped : Frame} (done : frame.swap = .ok swapped)
    (held : value ∈ swapped.values) : value ∈ frame.values := by
  unfold Frame.swap at done
  split at done
  · next first second rest stacked =>
      cases done
      rw [Frame.mem_values_iff] at held ⊢
      simp only [stacked, List.mem_cons] at held ⊢
      rcases held with slot | (second | first | rest) | result
      · exact .inl slot
      · exact .inr (.inl (.inr (.inl second)))
      · exact .inr (.inl (.inl first))
      · exact .inr (.inl (.inr (.inr rest)))
      · exact .inr (.inr result)
  · cases done

theorem grounds_jump (id : FrameId) (target : Nat) : (jump id target).Grounds known := by
  apply (grounds_frame id).bind
  intro frame
  split
  · exact grounds_throw_bind _ _
  · exact (grounds_refill fun _ held => held).weaken fun _ => Set.empty_subset _

/-! Values. -/

theorem grounds_surface (value : Value) : (surface value).Grounds known :=
  grounds_get.bind fun _ => grounds_pure (Set.empty_subset _)

theorem grounds_toReal (value : Value) : (toReal value).Grounds known :=
  (grounds_surface value).bind fun _ => grounds_ofValueResult _

theorem grounds_toBoolean (value : Value) : (toBoolean value).Grounds known :=
  (grounds_surface value).bind fun _ => grounds_ofValueResult _

/-- Reading gives values that the heap has. -/
theorem grounds_readHeap {read : Heap → Except ValueError α}
    (holds : ∀ heap : Heap, heap.Sound → (∀ value ∈ known, heap.Has value) →
      ∀ result, read heap = .ok result → ∀ value ∈ gives result, heap.Has value) :
    (readHeap read).Grounds known gives := by
  intro machine knows
  simp only [readHeap, EStateM.run_bind, EStateM.run_get]
  cases found : read machine.heap with
  | error cause => exact knows.grounded
  | ok result =>
      exact knows.union (holds machine.heap knows.grounded.sound knows.has result found)

/-- Reading that gives no value. -/
theorem grounds_read (read : Heap → Except ValueError α) : (readHeap read).Grounds known :=
  grounds_readHeap fun _ _ _ _ _ _ => nofun

/-- Reading an array gives its elements. -/
theorem grounds_index (array : Value) (position : Nat) :
    (readHeap fun heap => heap.index array position).Grounds known fun value => {value} := by
  apply grounds_readHeap
  intro heap sound _ element found other same
  obtain ⟨type, elements, held, there⟩ := Heap.index_eq_ok_iff.mp found
  rw [Set.mem_singleton_iff.mp same]
  exact Heap.holds_known sound held _ ⟨elements, rfl, Array.mem_of_getElem? there⟩

/-- A body that is read holds values that the heap has. -/
theorem grounds_readBody {read : Heap → Except ValueError Body}
    (holds : ∀ heap : Heap, heap.Sound → (∀ value ∈ known, heap.Has value) →
      ∀ body, read heap = .ok body → ∀ child, body.Holds child → heap.Has child) :
    (readHeap read).Grounds known fun body => {child | body.Holds child} :=
  grounds_readHeap holds

theorem grounds_changeHeap {change : Heap → α × Heap}
    (keeps : ∀ heap : Heap, heap.Sound → (∀ value ∈ known, heap.Has value) →
      (change heap).2.Sound ∧ heap.size ≤ (change heap).2.size ∧
        ∀ value ∈ gives (change heap).1, (change heap).2.Has value) :
    (changeHeap change).Grounds known gives := by
  intro machine knows
  obtain ⟨sound, size, given⟩ := keeps machine.heap knows.grounded.sound knows.has
  exact (knows.setHeap sound size).union given

theorem grounds_build (datum : Datum) : (build datum).Grounds known fun value => {value} := by
  apply grounds_changeHeap
  intro heap sound _
  have made := Heap.made_build datum heap sound
  refine ⟨made.sound, made.extended.size, ?_⟩
  intro value same
  rw [Set.mem_singleton_iff.mp same]
  exact made.has

theorem grounds_allocate {body : Body} (held : ∀ child, body.Holds child → child ∈ known) :
    (allocate body).Grounds known fun value => {value} := by
  apply grounds_changeHeap
  intro heap sound has
  refine ⟨sound.allocate fun child holds => has child (held child holds),
    (heap.extends_allocate body).size, ?_⟩
  intro value same
  rw [Set.mem_singleton_iff.mp same]
  exact heap.has_allocate body

theorem grounds_popBoolean (id : FrameId) : (popBoolean id).Grounds known :=
  ((grounds_pop id).bind fun _ => grounds_toBoolean _).weaken fun _ => Set.empty_subset _

theorem grounds_peekBoolean (id : FrameId) : (peekBoolean id).Grounds known :=
  (grounds_peek id).bind fun _ => grounds_toBoolean _

theorem grounds_pushDatum (id : FrameId) (datum : Datum) : (pushDatum id datum).Grounds known :=
  (grounds_build datum).bind fun _ => grounds_push (.inr rfl)

/-! Variables. -/

theorem grounds_holder (id : FrameId) (place : Variable) : (holder id place).Grounds known :=
  grounds_get.bind fun _ => grounds_ofResult _

theorem grounds_readSlot (id : FrameId) (place : Variable) :
    (readSlot id place).Grounds known fun value => {value} := by
  apply (grounds_holder id place).bind
  intro holder
  apply (grounds_frame holder).bind
  intro frame
  split
  · next value found =>
      apply grounds_pure
      intro other same
      rw [Set.mem_singleton_iff.mp same]
      exact .inr (Frame.mem_values_iff.mpr (.inl (Array.mem_of_getElem? found)))
  · exact grounds_throw _

theorem grounds_writeSlot (inside : value ∈ known) (id : FrameId) (place : Variable) :
    (writeSlot id place value).Grounds known := by
  apply (grounds_holder id place).bind
  intro holder
  apply (grounds_frame holder).bind
  intro frame
  split
  · apply grounds_setFrame
    intro other held
    rw [Frame.mem_values_iff] at held
    rcases held with slot | others
    · rcases Array.mem_or_eq_of_mem_setIfInBounds slot with slot | rfl
      · exact .inr (Frame.mem_values_iff.mpr (.inl slot))
      · exact .inl (.inl inside)
    · exact .inr (Frame.mem_values_iff.mpr (.inr others))
  · exact grounds_throw _

/-! Activations and threads. -/

theorem grounds_log (event : Event) : (log event).Grounds known :=
  grounds_modify fun _ knows => knows.of_eq rfl rfl

theorem grounds_block (id : BlockId) : (block id).Grounds known := by
  apply grounds_get.bind
  intro machine
  split
  · exact grounds_pure (Set.empty_subset _)
  · exact grounds_throw _

/-- A new frame holds its arguments and nothing else. -/
theorem mem_values_activate {parent : Option FrameId} {id : BlockId} {block : Block}
    {arguments : List Value} (held : value ∈ (Frame.activate parent id block arguments).values) :
    value = none ∨ value ∈ arguments := by
  simp only [Frame.mem_values_iff, Frame.activate, List.mem_toArray] at held
  rcases held with slot | stacked | result
  · rcases List.mem_append.mp (List.mem_of_mem_take slot) with given | filling
    · exact .inr given
    · exact .inl (List.eq_of_mem_replicate filling)
  · cases stacked
  · exact .inl result

theorem grounds_enter (parent : Option FrameId) (id : BlockId) {arguments : List Value}
    (held : ∀ value ∈ arguments, value ∈ known) : (enter parent id arguments).Grounds known := by
  apply (grounds_block id).bind
  intro block
  apply grounds_modifyGet
  intro machine knows
  apply knows.setFrames
  apply knows.grounded.within.allocate
  · intro value inside
    rcases mem_values_activate inside with rfl | given
    · exact machine.heap.has_none
    · exact knows.has value (.inl (held value given))

theorem grounds_retire (id : FrameId) : (retire id).Grounds known :=
  grounds_modify fun _ knows => knows.setFrames (knows.grounded.within.retire id)

theorem grounds_spawn (root : FrameId) : (spawn root).Grounds known := by
  apply grounds_get.bind
  intro machine
  split
  · split
    · exact (grounds_retire root).bind fun _ => grounds_throw_bind _ _
    · exact grounds_modifyGet fun _ knows => knows.of_eq rfl rfl
  · exact grounds_modifyGet fun _ knows => knows.of_eq rfl rfl

theorem grounds_launch (parent : Option FrameId) (id : BlockId) {arguments : List Value}
    (held : ∀ value ∈ arguments, value ∈ known) : (launch parent id arguments).Grounds known :=
  (grounds_enter parent id held).bind fun _ => grounds_spawn _

theorem grounds_thread (id : ThreadId) : (thread id).Grounds known := by
  apply grounds_get.bind
  intro machine
  split
  · exact grounds_pure (Set.empty_subset _)
  · exact grounds_throw _

theorem grounds_updateThread (id : ThreadId) (change : Thread → Thread) :
    (updateThread id change).Grounds known :=
  grounds_modify fun _ knows => knows.of_eq rfl rfl

end Action

end CoopScript
