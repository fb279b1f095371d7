import CoopScript.Machine.Step
import CoopScript.Proofs.Actions.Ensures
import CoopScript.Proofs.Frames.Addressing
import CoopScript.Proofs.Machine.Change
import CoopScript.Proofs.Machine.Internal

/-!
Calm actions: those that change only the contents of frames and values and that make no internal
error, as far as the frames they name are alive.
-/

namespace CoopScript

open FrameArena MachineError

namespace FrameArena

variable {arena : FrameArena} {further : FrameId → Nat} {id : FrameId} {frame : Frame}

theorem resolveWithin_live (counted : arena.Counted further) (level fuel : Nat)
    (found : arena.frame? id = some frame) :
    Sane (arena.resolveWithin level fuel id) ∧
      ∀ holder, arena.resolveWithin level fuel id = .ok holder →
        ∃ held, arena.frame? holder = some held := by
  induction fuel generalizing id frame with
  | zero => exact ⟨.error (not_isInternal rfl), nofun⟩
  | succ fuel hypothesis =>
      rw [resolveWithin_succ found]
      have unknown : ¬ (MachineError.unknownLevel level).IsInternal := not_isInternal rfl
      split
      · refine ⟨.ok _, ?_⟩
        intro _ equal
        cases equal
        exact ⟨frame, found⟩
      · split
        · next parent named =>
            obtain ⟨around, outside, _⟩ := counted.parent_older id frame parent found named
            split
            · exact hypothesis outside
            · exact ⟨.error unknown, nofun⟩
        · exact ⟨.error unknown, nofun⟩

/-- A variable is looked up in live frames only. -/
theorem resolve_live (counted : arena.Counted further) (level : Nat)
    (found : arena.frame? id = some frame) :
    Sane (arena.resolve id level) ∧
      ∀ holder, arena.resolve id level = .ok holder → ∃ held, arena.frame? holder = some held := by
  simp only [resolve, get_of_frame? found]
  exact resolveWithin_live counted level _ found

end FrameArena

namespace Action

variable {α β : Type} {origin : Machine} {id : FrameId} {before : Frame} {sure : α → Prop}

/-- The action leaves the machine quiet, has only results as given, and makes no internal error. -/
def Calm (action : Action α) (origin : Machine) (sure : α → Prop := fun _ => True) : Prop :=
  action.Ensures origin.Quiet (fun result machine => origin.Quiet machine ∧ sure result)
    fun error machine => origin.Quiet machine ∧ ¬ error.IsInternal

theorem Calm.bind {action : Action α} {next : α → Action β} {sure' : β → Prop}
    (first : action.Calm origin sure) (rest : ∀ result, sure result → (next result).Calm origin sure') :
    (action >>= next).Calm origin sure' :=
  Ensures.bind first fun result machine holds => rest result holds.2 machine holds.1

theorem Calm.weaken {action : Action α} {sure' : α → Prop} (calm : action.Calm origin sure)
    (later : ∀ result, sure result → sure' result) : action.Calm origin sure' :=
  Ensures.weaken calm (fun _ => id) (fun result _ => And.imp_right (later result)) fun _ _ => id

theorem Calm.ok {action : Action α} {result : α} {after : Machine} (calm : action.Calm origin sure)
    (run : action.run origin = .ok result after) : origin.Quiet after ∧ sure result :=
  Ensures.ok calm (.refl origin) run

theorem calm_pure {result : α} (holds : sure result) : (pure result : Action α).Calm origin sure :=
  .pure fun _ quiet => ⟨quiet, holds⟩

theorem calm_throw {error : MachineError} (sane : ¬ error.IsInternal) :
    (throw error : Action α).Calm origin sure :=
  .throw fun _ quiet => ⟨quiet, sane⟩

theorem calm_throw_bind {error : MachineError} {next : α → Action β} {sure : β → Prop}
    (sane : ¬ error.IsInternal) : (throw error >>= next : Action β).Calm origin sure :=
  fun _ quiet => ⟨quiet, sane⟩

theorem calm_get : (get : Action Machine).Calm origin origin.Quiet :=
  .get fun _ quiet => ⟨quiet, quiet⟩

theorem calm_modify {change : Machine → Machine} (quiet : ∀ machine : Machine, machine.Quiet (change machine)) :
    (modify change : Action Unit).Calm origin :=
  .modify fun machine before => ⟨before.trans (quiet machine), trivial⟩

theorem calm_ofResult {result : Except MachineError α} (sane : Sane result) :
    (ofResult result).Calm origin fun found => result = .ok found := by
  cases result with
  | ok found => exact calm_pure rfl
  | error cause => exact calm_throw (sane cause rfl)

theorem calm_ofValueResult (result : Except ValueError α) : (ofValueResult result).Calm origin :=
  (calm_ofResult (.ofValueResult result)).weaken fun _ _ => trivial

/-! Frames and their stacks. -/

/-- The frame has the skeleton that it had at the origin. -/
theorem calm_frame (found : origin.frames.frame? id = some before) :
    (frame id).Calm origin fun held => held.skeleton = before.skeleton := by
  apply calm_get.bind
  intro machine quiet
  obtain ⟨now, live, alike⟩ := frame?_of_skeleton quiet.frames found
  rw [get_of_frame? live]
  exact calm_pure alike

theorem calm_setFrame (found : origin.frames.frame? id = some before) {new : Frame}
    (same : new.skeleton = before.skeleton) : (setFrame id new).Calm origin := by
  refine .modify fun machine quiet => ⟨?_, trivial⟩
  obtain ⟨now, live, alike⟩ := frame?_of_skeleton quiet.frames found
  exact { quiet with frames := (skeleton_set live (same.trans alike.symm)).trans quiet.frames }

theorem calm_push (found : origin.frames.frame? id = some before) (value : Value) :
    (push id value).Calm origin :=
  (calm_frame found).bind fun _ alike => calm_setFrame found alike

theorem Frame.sane_pop (frame : Frame) : Sane frame.pop := by
  unfold Frame.pop
  split
  · exact .error (not_isInternal rfl)
  · exact .ok _

theorem skeleton_pop {frame rest : Frame} {value : Value} (popped : frame.pop = .ok (value, rest)) :
    rest.skeleton = frame.skeleton := by
  unfold Frame.pop at popped
  split at popped
  · cases popped
  · cases popped
    rfl

theorem calm_pop (found : origin.frames.frame? id = some before) : (pop id).Calm origin := by
  apply (calm_frame found).bind
  intro held alike
  apply (calm_ofResult (Frame.sane_pop held)).bind
  intro popped same
  apply (calm_setFrame found ((skeleton_pop same).trans alike)).bind
  intro _ _
  exact calm_pure trivial

theorem Frame.sane_popMany (frame : Frame) (count : Nat) : Sane (frame.popMany count) := by
  unfold Frame.popMany
  split
  · exact .error (not_isInternal rfl)
  · exact .ok _

theorem skeleton_popMany {frame rest : Frame} {count : Nat} {values : List Value}
    (popped : frame.popMany count = .ok (values, rest)) : rest.skeleton = frame.skeleton := by
  unfold Frame.popMany at popped
  split at popped
  · cases popped
  · cases popped
    rfl

theorem calm_popMany (found : origin.frames.frame? id = some before) (count : Nat) :
    (popMany id count).Calm origin := by
  apply (calm_frame found).bind
  intro held alike
  apply (calm_ofResult (Frame.sane_popMany held count)).bind
  intro popped same
  apply (calm_setFrame found ((skeleton_popMany same).trans alike)).bind
  intro _ _
  exact calm_pure trivial

theorem calm_peek (found : origin.frames.frame? id = some before) : (peek id).Calm origin := by
  apply (calm_frame found).bind
  intro held _
  refine (calm_ofResult ?_).weaken fun _ _ => trivial
  unfold Frame.peek
  split
  · exact .error (not_isInternal rfl)
  · exact .ok _

theorem Frame.sane_swap (frame : Frame) : Sane frame.swap := by
  unfold Frame.swap
  split
  · exact .ok _
  · exact .error (not_isInternal rfl)

theorem skeleton_swap {frame swapped : Frame} (done : frame.swap = .ok swapped) :
    swapped.skeleton = frame.skeleton := by
  unfold Frame.swap at done
  split at done
  · cases done
    rfl
  · cases done

theorem calm_jump (found : origin.frames.frame? id = some before) (target : Nat) :
    (jump id target).Calm origin := by
  apply (calm_frame found).bind
  intro held alike
  split
  · exact calm_throw_bind (not_isInternal rfl)
  · exact calm_setFrame found alike

/-! Values. -/

theorem calm_surface (value : Value) : (surface value).Calm origin :=
  calm_get.bind fun _ _ => calm_pure trivial

theorem calm_toReal (value : Value) : (toReal value).Calm origin :=
  (calm_surface value).bind fun _ _ => calm_ofValueResult _

theorem calm_toBoolean (value : Value) : (toBoolean value).Calm origin :=
  (calm_surface value).bind fun _ _ => calm_ofValueResult _

theorem calm_readHeap (read : Heap → Except ValueError α) : (readHeap read).Calm origin :=
  calm_get.bind fun _ _ => calm_ofValueResult _

theorem calm_changeHeap (change : Heap → α × Heap) : (changeHeap change).Calm origin :=
  fun _ quiet => ⟨{ quiet with }, trivial⟩

theorem calm_build (datum : Datum) : (build datum).Calm origin := calm_changeHeap _

theorem calm_allocate (body : Body) : (allocate body).Calm origin := calm_changeHeap _

theorem calm_popBoolean (found : origin.frames.frame? id = some before) :
    (popBoolean id).Calm origin :=
  (calm_pop found).bind fun _ _ => calm_toBoolean _

theorem calm_peekBoolean (found : origin.frames.frame? id = some before) :
    (peekBoolean id).Calm origin :=
  (calm_peek found).bind fun _ _ => calm_toBoolean _

theorem calm_pushDatum (found : origin.frames.frame? id = some before) (datum : Datum) :
    (pushDatum id datum).Calm origin :=
  (calm_build datum).bind fun _ _ => calm_push found _

/-! Variables. -/

section Variables

variable {further : FrameId → Nat} (counted : origin.frames.Counted further)

include counted

theorem calm_holder (found : origin.frames.frame? id = some before) (place : Variable) :
    (holder id place).Calm origin fun holder =>
      ∃ held, origin.frames.frame? holder = some held := by
  intro machine quiet
  obtain ⟨now, live, _⟩ := frame?_of_skeleton quiet.frames found
  obtain ⟨sane, right⟩ := resolve_live (counted.of_skeleton quiet.frames) place.level live
  refine (calm_ofResult sane).weaken (fun holder same => ?_) machine quiet
  obtain ⟨held, found⟩ := right holder same
  obtain ⟨first, earlier, _⟩ := frame?_of_skeleton quiet.frames.symm found
  exact ⟨first, earlier⟩

theorem calm_readSlot (found : origin.frames.frame? id = some before) (place : Variable) :
    (readSlot id place).Calm origin := by
  apply (calm_holder counted found place).bind
  intro holder held
  obtain ⟨first, live⟩ := held
  apply (calm_frame live).bind
  intro frame _
  split
  · exact calm_pure trivial
  · exact calm_throw (not_isInternal rfl)

theorem calm_writeSlot (found : origin.frames.frame? id = some before) (place : Variable)
    (value : Value) : (writeSlot id place value).Calm origin := by
  apply (calm_holder counted found place).bind
  intro holder held
  obtain ⟨first, live⟩ := held
  apply (calm_frame live).bind
  intro frame alike
  split
  · exact calm_setFrame live alike
  · exact calm_throw (not_isInternal rfl)

end Variables

/-! Activations and threads. -/

theorem calm_log (event : Event) : (log event).Calm origin :=
  calm_modify fun machine => { Machine.Quiet.refl machine with }

theorem calm_thread {number : ThreadId} {thread : Thread}
    (found : origin.threads.find? number = some thread) :
    (Action.thread number).Calm origin fun held => held = thread := by
  apply calm_get.bind
  intro machine quiet
  rw [quiet.threads, found]
  exact calm_pure rfl

end Action

end CoopScript
