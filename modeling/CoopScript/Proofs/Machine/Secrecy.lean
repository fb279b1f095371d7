import CoopScript.Proofs.Actions.Concealed
import CoopScript.Proofs.Actions.Runs
import CoopScript.Proofs.Machine.Lineage
import CoopScript.Proofs.Machine.Scope

/-!
Operands stay private to their frame, whatever happens to a machine while that frame does not execute,
as long as hosts and native functions do not pass them on.
-/

namespace CoopScript

open FrameArena MachineError

/-- A routine that, beginning in this machine, does not pass a handle on. -/
def Routine.Withholds (handle : Value) : Routine (Except MachineError Value) → Machine → Prop
  | .done result, _ => result ≠ .ok handle
  | .ask request next, machine => handle ∉ request.handles ∧
    (next (request.perform machine).1).Withholds handle (request.perform machine).2

variable {machine after : Machine} {secret : Secret} {natives : Natives} {number : ThreadId}
  {handed : List Value}

/-! Requests. -/

theorem Machine.Conceals.closeThread (hidden : machine.Conceals secret) (id : ThreadId) :
    (machine.closeThread id).2.Conceals secret := by
  unfold Machine.closeThread
  split
  · exact hidden
  · next thread _ =>
      have retires (entries : List (FrameId × Frame)) {arena : FrameArena}
          (before : arena.Conceals secret) :
          (entries.foldl (fun arena entry => arena.retire entry.1) arena).Conceals secret := by
        induction entries generalizing arena with
        | nil => exact before
        | cons entry rest hypothesis => exact hypothesis (before.retire entry.1)
      exact ⟨hidden.heap, retires _ hidden.frames⟩

theorem Machine.Conceals.fail (hidden : machine.Conceals secret) (error : MachineError) :
    (machine.fail error).Conceals secret :=
  hidden.of_eq (Machine.heap_fail ..) (Machine.frames_fail ..)

/-- A machine that is not handed the body keeps it concealed. -/
theorem Request.conceals_perform (request : Request) (hidden : machine.Conceals secret)
    (withheld : secret.handle ∉ request.handles) : (request.perform machine).2.Conceals secret := by
  cases request with
  | run => exact hidden
  | resume => exact hidden
  | call event arguments =>
      simp only [perform, Machine.enqueue]
      split
      · exact hidden
      · next id _ =>
          have spawns := Action.conceals_spawnHandler withheld event id
          split
          · next run => exact spawns.ok hidden run
          · next run => exact spawns.error hidden run
  | stop => exact hidden.of_eq rfl rfl
  | raise text => exact (hidden.fail _).of_eq rfl rfl
  | terminate text =>
      have marked : { machine with terminated := true }.Conceals secret := hidden.of_eq rfl rfl
      exact (marked.fail _).of_eq rfl rfl
  | close id => exact hidden.closeThread id
  | inspect => exact hidden
  | allocate datum => exact ⟨(Heap.conceals_build datum _ hidden.heap).1, hidden.frames⟩
  | overwrite target source =>
      simp only [perform, Heap.overwrite]
      cases overwrites : machine.heap.overwritten target source with
      | error cause => exact hidden
      | ok id =>
          obtain ⟨rfl, _⟩ := Heap.body?_of_overwritten overwrites
          have different : id ≠ secret.own := fun same =>
            withheld (List.mem_cons.mpr (.inl (congrArg some same.symm)))
          exact ⟨hidden.heap.takeOver different source, hidden.frames⟩
  | setData data => exact hidden.of_eq rfl rfl
  | note text => exact hidden.of_eq rfl rfl

/-- A routine that does not pass the body on keeps it concealed. -/
theorem Routine.Withholds.play {routine : Routine (Except MachineError Value)}
    (withholds : routine.Withholds secret.handle machine) (hidden : machine.Conceals secret) :
    (routine.play machine).2.Conceals secret ∧ (routine.play machine).1 ≠ .ok secret.handle := by
  induction routine generalizing machine with
  | done result => exact ⟨hidden, withholds⟩
  | ask request next hypothesis =>
      obtain ⟨apart, later⟩ := withholds
      exact hypothesis _ later (request.conceals_perform hidden apart)

namespace Machine

/-- The native functions that are called now do not pass a handle on. -/
def Withholds (natives : Natives) (machine : Machine) (handle : Value) : Prop :=
  ∀ routine start, Invokes natives machine routine start → routine.Withholds handle start

namespace Conceals

variable (hidden : machine.Conceals secret) (withheld : machine.Withholds natives secret.handle)

include hidden withheld

/-- A step of a thread whose current frame is not the owner. -/
theorem advance {entry : Thread} {slice : Option Slice} (alive : machine.stopped = false)
    (turn : machine.current = some number) (found : machine.threads.find? number = some entry)
    (away : entry.current ≠ secret.owner)
    (ran : (Action.advance natives number).run machine = .ok slice after) : after.Conceals secret := by
  simp only [Action.advance, EStateM.run_bind, EStateM.run_get, alive, Bool.false_eq_true, if_false,
    found] at ran
  cases fetches : (Action.fetch entry.current).run machine with
  | error error last =>
      rw [fetches] at ran
      cases ran
  | ok next fetched =>
      rw [fetches] at ran
      have sofar : fetched.Conceals secret :=
        Action.Conceals.ok (inferInstance : Action.Conceals secret (Action.fetch _)) hidden fetches
      cases next with
      | none =>
          have leaves : Action.Conceals secret (Action.leave number) := Action.conceals_leave number
          exact Action.Conceals.ok (inferInstance : Action.Conceals secret (do
            return if ← Action.leave number then some Slice.finished else none)) sofar ran
      | some instruction =>
          cases simple : instruction.call? with
          | none => exact (Action.conceals_execute away natives number simple).ok sofar ran
          | some site =>
              obtain ⟨callee, count, pushesResult⟩ := site
              simp only [Action.execute_call simple] at ran
              cases callee with
              | block id => exact (Action.conceals_callBlock away number id count pushesResult).ok sofar ran
              | native id =>
                  obtain ⟨routine, start, prepares, concludes⟩ := Action.run_bind_eq_ok ran
                  have ready := (Action.conceals_prepareNative natives _ id count).ok sofar prepares
                  have invokes : Invokes natives machine routine start :=
                    .intro turn alive found fetches simple prepares
                  obtain ⟨played, other⟩ := (withheld routine start invokes).play ready
                  exact (Action.conceals_concludeNative other number _ pushesResult).ok played concludes

omit withheld in
theorem afterStep (number : ThreadId) (slice : Option Slice) :
    (Machine.afterStep number (.ok slice machine)).Conceals secret := by
  cases slice with
  | none => exact hidden
  | some slice => cases slice <;> exact hidden.of_eq rfl rfl

/-- A move in which the owner does not execute. -/
theorem move (elsewhere : ∀ number, ¬ machine.ExecutesIn number secret.owner)
    (going : (machine.move natives).stopped = false) : (machine.move natives).Conceals secret := by
  have alive : machine.stopped = false := going_of_iterate 1 going
  cases turn : machine.current with
  | none =>
      simp only [Machine.move, turn]
      split
      · exact hidden.of_eq rfl rfl
      · split <;> exact hidden.of_eq rfl rfl
  | some number =>
      obtain ⟨slice, last, ran, moved⟩ := advance_of_move turn going
      have stepped : last.Conceals secret := by
        cases found : machine.threads.find? number with
        | none =>
            simp only [Action.advance, EStateM.run_bind, EStateM.run_get, alive, Bool.false_eq_true,
              if_false, found] at ran
            cases ran
            exact hidden
        | some entry =>
            refine hidden.advance withheld alive turn found (fun same => ?_) ran
            exact elsewhere number ⟨alive, turn, entry, found, same⟩
      rw [moved]
      exact stepped.afterStep number slice

/-- Whatever happens to a machine in which the owner does not execute. -/
theorem transition (elsewhere : ∀ number, ¬ machine.ExecutesIn number secret.owner)
    (apart : secret.handle ∉ handed) (transition : Transition natives handed machine after)
    (going : after.stopped = false) : after.Conceals secret := by
  cases transition with
  | move _ => exact hidden.move withheld elsewhere going
  | start begun =>
      obtain ⟨_, _, main, block, _, rfl⟩ := started_of_start begun
      have empty : secret.handle ∉ (Frame.activate none main block []).slots :=
        Frame.not_mem_slots_activate List.not_mem_nil none main block
      exact ⟨hidden.heap, (hidden.frames.allocate empty nofun nofun).pin _⟩
  | tick => exact hidden.of_eq rfl rfl
  | deliver _ _ spawned =>
      exact ((Action.conceals_spawnHandler apart _ _).ok hidden spawned).of_eq rfl rfl
  | reject _ _ _ => exact (Bool.false_ne_true (going.symm.trans (stopped_fail ..))).elim
  | operate request _ _ => exact request.conceals_perform hidden apart
  | clear _ => exact hidden.of_eq rfl rfl

end Conceals

/-! The owner executes. -/

/-- A scalar that is made now is for the operands of one frame alone, whatever else is built after it. -/
theorem Grounded.conceals {id : FrameId} {held : Frame} (grounded : machine.Grounded)
    (live : machine.frames.frame? id = some held) {type : Ty} {payload : Scalar} {datum : Datum}
    {position : Nat} {operands : List Value}
    (heap : after.heap = (Heap.build datum (machine.heap.allocate ⟨type, .scalar payload⟩).2).2)
    (frames : after.frames = machine.frames.set id { held with position, stack := operands }) :
    after.Conceals ⟨id, ⟨machine.heap.size⟩, ⟨type, .scalar payload⟩⟩ := by
  have other {value : Value} (known : machine.heap.Has value) : value ≠ some ⟨machine.heap.size⟩ := by
    rintro rfl
    exact Nat.lt_irrefl _ (known _ rfl)
  have hidden : machine.frames.Conceals ⟨id, ⟨machine.heap.size⟩, ⟨type, .scalar payload⟩⟩ := by
    intro id frame found
    have known (value : Value) (inside : value ∈ frame.values) :=
      other (grounded.within id frame found value inside)
    refine ⟨fun inside => ?_, ?_, fun _ inside => ?_⟩
    · exact known _ (Frame.mem_values_iff.mpr (.inl inside)) rfl
    · exact known _ (Frame.mem_values_iff.mpr (.inr (.inr rfl)))
    · exact known _ (Frame.mem_values_iff.mpr (.inr (.inl inside))) rfl
  obtain ⟨slots, result, _⟩ := hidden id held live
  constructor
  · rw [heap]
    exact (Heap.conceals_build datum _ (grounded.sound.conceals_allocate type payload)).1
  · rw [frames]
    exact hidden.set ⟨slots, result, fun away => (away rfl).elim⟩

namespace Conceals

variable {held : Frame} (hidden : machine.Conceals secret)

include hidden

/-- The owner goes on with other operands. -/
theorem restack (live : machine.frames.frame? secret.owner = some held) {position : Nat}
    {operands : List Value} (heap : after.heap = machine.heap)
    (frames : after.frames = machine.frames.set secret.owner { held with position, stack := operands }) :
    after.Conceals secret := by
  obtain ⟨slots, result, _⟩ := hidden.frames _ held live
  refine ⟨heap ▸ hidden.heap, frames ▸ hidden.frames.set ⟨slots, result, fun away => ?_⟩⟩
  exact (away rfl).elim

/-- The owner calls a block with other arguments. -/
theorem calls {entry : Thread} (turn : machine.current = some number)
    (found : machine.threads.find? number = some entry) (here : entry.current = secret.owner)
    (live : machine.frames.frame? secret.owner = some held) {instruction : Instruction}
    (next : (machine.code held.block)[held.position]? = some instruction) {callee : BlockId}
    {count : Nat} {pushesResult : Bool}
    (called : instruction.call? = some (.block callee, count, pushesResult))
    (others : secret.handle ∉ held.stack.take count) (going : (machine.move natives).stopped = false) :
    (machine.move natives).Conceals secret := by
  obtain ⟨fetched, slice, last, passed, ran, moved⟩ :=
    run_of_move turn found (here ▸ live) next going
  rw [here] at passed ran
  have frames : fetched.frames = machine.frames.set secret.owner held.passed :=
    passed.frames.trans (edit_eq_set live _)
  have there : fetched.frames.frame? secret.owner = some held.passed := by
    rw [frames]
    exact frame?_set_self _ (index_lt_of_frame? live)
  have sofar : fetched.Conceals secret := hidden.restack live passed.heap frames
  rw [Action.execute_call called, Action.call] at ran
  rcases Action.run_callBlock there number callee count pushesResult with
    ⟨error, _, failed⟩ | ⟨block, _, _, _, _, begins⟩
  · rw [failed] at ran
    cases ran
  · rw [begins] at ran
    have apart : secret.handle ∉ (held.passed.stack.take count).reverse :=
      fun inside => others (List.mem_reverse.mp inside)
    have launches := Action.conceals_launch apart (some secret.owner) callee
    have descends := Action.conceals_descend apart number secret.owner callee pushesResult
    let taken : Frame := { held.passed with stack := held.passed.stack.drop count }
    have popped : { fetched with frames := fetched.frames.set secret.owner taken }.Conceals secret :=
      sofar.restack there rfl rfl
    rw [moved]
    refine (Action.Conceals.ok ?_ popped ran).afterStep number slice
    infer_instance

end Conceals

end Machine

end CoopScript
