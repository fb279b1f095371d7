import CoopScript.Proofs.Actions.Instructions
import CoopScript.Proofs.Frames.Contents
import CoopScript.Proofs.Frames.Decline
import CoopScript.Proofs.Frames.Growth
import CoopScript.Proofs.Heap.Concealment

/-!
Operands that are private to a frame. As long as a body is named by operands of one frame only, no
instruction that any other frame executes changes it or comes to name it, and neither does a return.
-/

namespace CoopScript

/-- A body that is for operands of its owner alone. -/
structure Secret where
  owner : FrameId
  own : BodyId
  body : Body

abbrev Secret.handle (secret : Secret) : Value := some secret.own

/-- A frame that names the body with operands only, and only if it is the owner. -/
structure Frame.Conceals (frame : Frame) (secret : Secret) (id : FrameId) : Prop where
  slots : secret.handle ∉ frame.slots
  result : frame.result ≠ secret.handle
  operands : id ≠ secret.owner → secret.handle ∉ frame.stack

def FrameArena.Conceals (arena : FrameArena) (secret : Secret) : Prop :=
  ∀ id frame, arena.frame? id = some frame → frame.Conceals secret id

/-- Neither an element nor a place of a live frame names the body, but for operands of its owner. -/
structure Machine.Conceals (machine : Machine) (secret : Secret) : Prop where
  heap : machine.heap.Conceals secret.own secret.body
  frames : machine.frames.Conceals secret

namespace FrameArena

variable {arena : FrameArena} {secret : Secret} {id : FrameId} {new : Frame}

namespace Conceals

variable (conceals : arena.Conceals secret)

include conceals

theorem set (hidden : new.Conceals secret id) : (arena.set id new).Conceals secret := by
  intro other frame found
  by_cases same : other = id
  · subst same
    rcases frame?_set_cases found with rfl | old
    · exact hidden
    · exact conceals other frame old
  · rw [frame?_set_of_ne new same] at found
    exact conceals other frame found

theorem retire (id : FrameId) : (arena.retire id).Conceals secret := by
  intro other frame found
  cases live : arena.frame? id with
  | none =>
      simp only [FrameArena.retire, live] at found
      exact conceals other frame found
  | some held =>
      obtain ⟨earlier, before, same, _⟩ := retire_old live found
      obtain ⟨slots, result, operands⟩ := conceals other earlier before
      rw [same]
      exact ⟨slots, result, operands⟩

theorem pin (id : FrameId) : (arena.pin id).Conceals secret := by
  intro other frame found
  obtain ⟨earlier, before, same⟩ := frame?_of_frame?_pin found
  obtain ⟨slots, result, operands⟩ := conceals other earlier before
  rw [same]
  exact ⟨slots, result, operands⟩

/-- A new frame that does not name the body at all. -/
theorem store (slots : secret.handle ∉ new.slots) (result : new.result ≠ secret.handle)
    (operands : secret.handle ∉ new.stack) : (arena.store new).2.Conceals secret := by
  unfold FrameArena.store
  dsimp only
  split
  · apply set
    · exact conceals
    · exact ⟨slots, result, fun _ => operands⟩
  · intro other frame found
    rw [frame?_eq_some_iff, Array.getElem?_push] at found
    split at found
    · cases found
      exact ⟨slots, result, fun _ => operands⟩
    · exact conceals other frame (frame?_eq_some_iff.mpr found)

theorem allocate (slots : secret.handle ∉ new.slots) (result : new.result ≠ secret.handle)
    (operands : secret.handle ∉ new.stack) : (arena.allocate new).2.Conceals secret := by
  unfold FrameArena.allocate
  split
  · exact (conceals.pin _).store slots result operands
  · exact conceals.store slots result operands

end Conceals

end FrameArena

namespace Machine.Conceals

variable {machine after : Machine} {secret : Secret}

theorem of_eq (conceals : machine.Conceals secret) (heap : after.heap = machine.heap)
    (frames : after.frames = machine.frames) : after.Conceals secret :=
  ⟨heap ▸ conceals.heap, frames ▸ conceals.frames⟩

end Machine.Conceals

namespace Action

variable {α β : Type} {secret : Secret} {id root : FrameId} {value : Value} {gives : α → Prop}

/-- What the action results in is as given, and the body stays concealed also where it fails. -/
def Yields (action : Action α) (secret : Secret) (gives : α → Prop) : Prop :=
  action.Ensures (·.Conceals secret) (fun result after => gives result ∧ after.Conceals secret)
    fun _ after => after.Conceals secret

/-- The body stays concealed, whatever the action results in. -/
class Conceals (secret : Secret) (action : Action α) : Prop where
  yields : action.Yields secret fun _ => True

theorem Yields.bind {action : Action α} {next : α → Action β} {gives' : β → Prop}
    (first : action.Yields secret gives)
    (rest : ∀ result, gives result → (next result).Yields secret gives') :
    (action >>= next).Yields secret gives' :=
  Ensures.bind first fun result machine given => rest result given.1 machine given.2

theorem Yields.conceals {action : Action α} (yields : action.Yields secret gives) :
    Conceals secret action :=
  ⟨Ensures.weaken yields (fun _ => id) (fun _ _ given => ⟨trivial, given.2⟩) fun _ _ => id⟩

/-- An action that goes on with what is known of a result. -/
theorem Yields.then {action : Action α} {next : α → Action β} (first : action.Yields secret gives)
    (rest : ∀ result, gives result → Conceals secret (next result)) :
    Conceals secret (action >>= next) :=
  ⟨first.bind fun result given => (rest result given).yields⟩

theorem Conceals.ok {action : Action α} {machine after : Machine} {result : α}
    (conceals : Conceals secret action) (before : machine.Conceals secret)
    (ran : action.run machine = .ok result after) : after.Conceals secret :=
  (Ensures.ok conceals.yields before ran).2

theorem Conceals.error {action : Action α} {machine after : Machine} {error : MachineError}
    (conceals : Conceals secret action) (before : machine.Conceals secret)
    (ran : action.run machine = .error error after) : after.Conceals secret :=
  Ensures.error conceals.yields before ran

theorem yields_pure {result : α} (given : gives result) :
    (pure result : Action α).Yields secret gives := fun _ before => ⟨given, before⟩

theorem yields_throw (error : MachineError) : (throw error : Action α).Yields secret gives :=
  fun _ before => before

instance (result : α) : Conceals secret (pure result : Action α) := ⟨yields_pure trivial⟩

instance (error : MachineError) : Conceals secret (throw error : Action α) := ⟨yields_throw error⟩

theorem conceals_bind {action : Action α} {next : α → Action β} [first : Conceals secret action]
    (rest : ∀ result, Conceals secret (next result)) : Conceals secret (action >>= next) :=
  first.yields.then fun result _ => rest result

instance {action : Action α} {next : α → Action β} [Conceals secret action]
    [rest : ∀ result, Conceals secret (next result)] : Conceals secret (action >>= next) :=
  conceals_bind rest

instance {condition : Prop} [Decidable condition] {first second : Action α} [Conceals secret first]
    [Conceals secret second] : Conceals secret (if condition then first else second) := by
  split <;> infer_instance

instance : Conceals secret (get : Action Machine) := ⟨fun _ before => ⟨trivial, before⟩⟩

/-- A change of the machine's books. -/
theorem conceals_modify {change : Machine → Machine}
    (heap : ∀ machine, (change machine).heap = machine.heap)
    (frames : ∀ machine, (change machine).frames = machine.frames) :
    Conceals secret (modify change : Action PUnit) :=
  ⟨fun machine before => ⟨trivial, before.of_eq (heap machine) (frames machine)⟩⟩

/-- A change of the frames. -/
theorem conceals_modifyFrames {change : FrameArena → FrameArena}
    (keeps : ∀ arena, arena.Conceals secret → (change arena).Conceals secret) :
    Conceals secret (modify fun machine => { machine with frames := change machine.frames } :
      Action PUnit) :=
  ⟨fun _ before => ⟨trivial, before.heap, keeps _ before.frames⟩⟩

theorem yields_ofResult {result : Except MachineError α}
    (given : ∀ found, result = .ok found → gives found) : (ofResult result).Yields secret gives := by
  cases result with
  | ok found => exact yields_pure (given found rfl)
  | error error => exact yields_throw error

instance (result : Except MachineError α) : Conceals secret (ofResult result) :=
  ⟨yields_ofResult fun _ _ => trivial⟩

instance (result : Except ValueError α) : Conceals secret (ofValueResult result) :=
  inferInstanceAs (Conceals secret (ofResult _))

/-! Frames and their stacks. -/

theorem yields_frame (id : FrameId) : (frame id).Yields secret (·.Conceals secret id) := by
  intro machine before
  simp only [frame, EStateM.run_bind, EStateM.run_get, FrameArena.get]
  cases found : machine.frames.frame? id with
  | none => exact before
  | some held => exact ⟨before.frames id held found, before⟩

instance (id : FrameId) : Conceals secret (frame id) := (yields_frame id).conceals

theorem conceals_setFrame {new : Frame} (hidden : new.Conceals secret id) :
    Conceals secret (setFrame id new) :=
  conceals_modifyFrames fun _ before => before.set hidden

theorem conceals_push (other : value ≠ secret.handle) (id : FrameId) :
    Conceals secret (push id value) := by
  refine (yields_frame id).then fun frame hidden => conceals_setFrame ⟨hidden.slots, hidden.result, ?_⟩
  intro away inside
  rcases List.mem_cons.mp inside with same | inside
  · exact other same.symm
  · exact hidden.operands away inside

/-- An action that reads a frame and stores it with other operands. -/
theorem yields_restack {operate : Frame → Except MachineError (α × Frame)}
    (keeps : ∀ frame result new, frame.Conceals secret id → operate frame = .ok (result, new) →
      gives result ∧ new.Conceals secret id) :
    (do
      let (result, frame) ← ofResult (operate (← frame id))
      setFrame id frame
      return result).Yields secret gives := by
  refine (yields_frame id).bind fun frame hidden => ?_
  cases operated : operate frame with
  | error error => exact fun _ before => before
  | ok pair =>
      obtain ⟨result, new⟩ := pair
      obtain ⟨given, kept⟩ := keeps frame result new hidden operated
      exact (conceals_setFrame kept).yields.bind fun _ _ => yields_pure given

/-- What is left once a value is popped. -/
theorem conceals_of_pop {frame rest : Frame} (hidden : frame.Conceals secret id)
    (popped : frame.pop = .ok (value, rest)) :
    rest.Conceals secret id ∧ (id ≠ secret.owner → value ≠ secret.handle) := by
  unfold Frame.pop at popped
  split at popped
  · cases popped
  · next top others stacked =>
      cases popped
      have apart (away : id ≠ secret.owner) := stacked ▸ hidden.operands away
      refine ⟨⟨hidden.slots, hidden.result, fun away inside => ?_⟩, ?_⟩
      · exact apart away (List.mem_cons_of_mem _ inside)
      · rintro away rfl
        exact apart away List.mem_cons_self

/-- A frame that is not the owner has other operands only. -/
theorem yields_pop (away : id ≠ secret.owner) : (pop id).Yields secret (· ≠ secret.handle) :=
  yields_restack fun _ _ _ hidden popped =>
    ⟨(conceals_of_pop hidden popped).2 away, (conceals_of_pop hidden popped).1⟩

instance (id : FrameId) : Conceals secret (pop id) :=
  ⟨yields_restack fun _ _ _ hidden popped => ⟨trivial, (conceals_of_pop hidden popped).1⟩⟩

theorem yields_popMany (away : id ≠ secret.owner) (count : Nat) :
    (popMany id count).Yields secret (secret.handle ∉ ·) := by
  refine yields_restack fun frame values rest hidden popped => ?_
  unfold Frame.popMany at popped
  split at popped
  · cases popped
  · cases popped
    have others := hidden.operands away
    refine ⟨fun inside => ?_, hidden.slots, hidden.result, fun _ inside => ?_⟩
    · exact others (List.mem_of_mem_take (List.mem_reverse.mp inside))
    · exact others (List.mem_of_mem_drop inside)

theorem yields_peek (away : id ≠ secret.owner) : (peek id).Yields secret (· ≠ secret.handle) := by
  refine (yields_frame id).bind fun frame hidden => ?_
  unfold Frame.peek
  split
  · exact yields_throw _
  · next top rest stacked =>
      refine yields_pure ?_
      rintro rfl
      exact hidden.operands away (stacked ▸ List.mem_cons_self)

instance (id : FrameId) : Conceals secret (peek id) := by
  unfold peek
  infer_instance

/-- A frame at another position holds what it held. -/
theorem conceals_goTo {frame : Frame} (hidden : frame.Conceals secret id) (position : Nat) :
    Conceals secret (setFrame id { frame with position }) :=
  conceals_setFrame ⟨hidden.slots, hidden.result, hidden.operands⟩

instance (id : FrameId) (target : Nat) : Conceals secret (jump id target) := by
  refine (yields_frame id).then fun frame hidden => ?_
  have goes := conceals_goTo hidden target
  infer_instance

/-! Values. -/

instance (value : Value) : Conceals secret (surface value) := by
  unfold surface
  infer_instance

instance (value : Value) : Conceals secret (toReal value) := by
  unfold toReal
  infer_instance

instance (value : Value) : Conceals secret (toBoolean value) := by
  unfold toBoolean
  infer_instance

theorem yields_readHeap {read : Heap → Except ValueError α}
    (holds : ∀ heap : Heap, heap.Conceals secret.own secret.body → ∀ result, read heap = .ok result →
      gives result) : (readHeap read).Yields secret gives := by
  intro machine before
  simp only [readHeap, EStateM.run_bind, EStateM.run_get]
  cases found : read machine.heap with
  | error cause => exact before
  | ok result => exact ⟨holds machine.heap before.heap result found, before⟩

instance (read : Heap → Except ValueError α) : Conceals secret (readHeap read) := by
  unfold readHeap
  infer_instance

theorem yields_index (array : Value) (position : Nat) :
    (readHeap fun heap => heap.index array position).Yields secret (· ≠ secret.handle) :=
  yields_readHeap fun _ hidden _ found => hidden.index_ne found

theorem yields_changeHeap {change : Heap → α × Heap}
    (keeps : ∀ heap : Heap, heap.Conceals secret.own secret.body →
      (change heap).2.Conceals secret.own secret.body ∧ gives (change heap).1) :
    (changeHeap change).Yields secret gives := by
  intro machine before
  obtain ⟨later, given⟩ := keeps machine.heap before.heap
  exact ⟨given, later, before.frames⟩

theorem yields_build (datum : Datum) : (build datum).Yields secret (· ≠ secret.handle) :=
  yields_changeHeap fun heap hidden => Heap.conceals_build datum heap hidden

instance (datum : Datum) : Conceals secret (build datum) := (yields_build datum).conceals

theorem yields_allocate {body : Body} (away : ¬ body.Holds secret.handle) :
    (allocate body).Yields secret (· ≠ secret.handle) :=
  yields_changeHeap fun _ hidden => ⟨hidden.allocate away, hidden.allocate_ne body⟩

instance (id : FrameId) : Conceals secret (popBoolean id) := by
  unfold popBoolean
  infer_instance

instance (id : FrameId) : Conceals secret (peekBoolean id) := by
  unfold peekBoolean
  infer_instance

instance (id : FrameId) (datum : Datum) : Conceals secret (pushDatum id datum) :=
  (yields_build datum).then fun _ other => conceals_push other id

/-! Variables. -/

instance (id : FrameId) (place : Variable) : Conceals secret (holder id place) := by
  unfold holder
  infer_instance

theorem yields_readSlot (id : FrameId) (place : Variable) :
    (readSlot id place).Yields secret (· ≠ secret.handle) := by
  refine Conceals.yields.bind fun holder _ => (yields_frame holder).bind fun frame hidden => ?_
  split
  · next value found =>
      refine yields_pure ?_
      rintro rfl
      exact hidden.slots (Array.mem_of_getElem? found)
  · exact yields_throw _

instance (id : FrameId) (place : Variable) : Conceals secret (readSlot id place) :=
  (yields_readSlot id place).conceals

theorem conceals_writeSlot (other : value ≠ secret.handle) (id : FrameId) (place : Variable) :
    Conceals secret (writeSlot id place value) := by
  refine conceals_bind fun holder => ?_
  refine (yields_frame holder).then fun frame hidden => ?_
  have writes : Conceals secret (setFrame holder
      { frame with slots := frame.slots.setIfInBounds place.slot value }) := by
    refine conceals_setFrame ⟨fun inside => ?_, hidden.result, hidden.operands⟩
    rcases Array.mem_or_eq_of_mem_setIfInBounds inside with old | same
    · exact hidden.slots old
    · exact other same.symm
  infer_instance

end Action

end CoopScript
