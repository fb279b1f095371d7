import CoopScript.Proofs.Actions.Mirrors

/-!
Native functions that treat all handles alike: what they ask for and return does not depend on the
numbers of the bodies that their arguments name. A routine of such a function plays on a machine
among others as it does on the machine alone.
-/

namespace CoopScript

open Machine (Grounded)

/-- The request with the bodies that its handles name renamed. -/
def Request.rename (place : BodyId → BodyId) : Request → Request
  | call event arguments => .call event (arguments.map (Value.rename place))
  | overwrite target source => .overwrite (Value.rename place target) (Value.rename place source)
  | request => request

/-- What a routine that inspects one of the machines can see of the other: the same, with the bodies
at other places of a larger heap. -/
structure Machine.Alike (place : BodyId → BodyId) (machine other : Machine) : Prop where
  grounded : machine.Grounded
  size : machine.heap.size ≤ other.heap.size
  bodies : ∀ id, other.heap.body? (some (place id)) =
    (machine.heap.body? (some id)).map (Body.rename place)
  same : other = { machine with heap := other.heap, frames := machine.frames.rename place }

/-- The second reply to the renamed request tells what the first one does to the request. -/
def Request.Same (place : BodyId → BodyId) :
    (request : Request) → request.Reply → (request.rename place).Reply → Prop
  | run, reply, other => reply = other
  | resume, reply, other => reply = other
  | call _ _, reply, other => reply = other
  | stop, _, _ => True
  | raise _, _, _ => True
  | terminate _, _, _ => True
  | close _, reply, other => reply = other
  | inspect, reply, other => Machine.Alike place reply other
  | allocate _, reply, other => other = Value.rename place reply
  | overwrite _ _, reply, other => reply = other
  | setData _, _, _ => True
  | note _, _, _ => True

/-- The second routine asks for what the first one does, as long as it gets the same replies, and
returns the same. -/
inductive Routine.Alike (place : BodyId → BodyId) :
    Routine (Except MachineError Value) → Routine (Except MachineError Value) → Prop
  | done (result : Except MachineError Value) :
      Alike place (.done result) (.done (result.map (Value.rename place)))
  | ask (request : Request) {next : request.Reply → Routine (Except MachineError Value)}
      {next' : (request.rename place).Reply → Routine (Except MachineError Value)} :
      (∀ reply other, request.Same place reply other → Alike place (next reply) (next' other)) →
      Alike place (.ask request next) (.ask (request.rename place) next')

/-- The native functions do not tell handles apart by the numbers of their bodies. -/
def Natives.Uniform (natives : Natives) : Prop :=
  ∀ native ∈ natives, ∀ place : BodyId → BodyId, place.Injective → ∀ arguments : List Value,
    Routine.Alike place (native.body arguments) (native.body (arguments.map (Value.rename place)))

variable {lodging : Lodging} {machine : Machine}

/-- A machine among others looks like the machine alone. -/
theorem Lodging.alike_machine (grounded : machine.Grounded) (fits : lodging.size ≤ machine.heap.size) :
    Machine.Alike lodging.place machine (lodging.machine machine) where
  grounded := grounded
  size := size_le_heap fits
  bodies := fun id => body?_heap fits (some id)
  same := rfl

/-- Handlers are called there in the same way. -/
theorem Machine.enqueue_lodging (event : String) (arguments : List Value)
    (fits : lodging.size ≤ machine.heap.size) :
    (lodging.machine machine).enqueue event (arguments.map lodging.value) =
      Prod.map (fun reply => reply) lodging.machine (machine.enqueue event arguments) := by
  have spawns (id : BlockId) : Action.Mirrors lodging (fun result => result)
      (Action.spawnHandler event id arguments)
      (Action.spawnHandler event id (arguments.map lodging.value)) := inferInstance
  simp only [enqueue, handler_lodging, List.length_map]
  split
  · rfl
  · next id _ =>
      rw [(spawns id).always.run machine trivial fits]
      cases (Action.spawnHandler event id arguments).run machine <;> rfl

theorem Machine.grows_enqueue (event : String) (arguments : List Value)
    (fits : lodging.size ≤ machine.heap.size) :
    machine.Grows (machine.enqueue event arguments).2 := by
  have spawns (id : BlockId) : Action.Mirrors lodging (fun result => result)
      (Action.spawnHandler event id arguments)
      (Action.spawnHandler event id (arguments.map lodging.value)) := inferInstance
  unfold enqueue
  split
  · exact .refl machine
  · next id _ =>
      have grown := (spawns id).always.grows machine fits
      split
      · next ran => exact grown.ok ⟨trivial, .refl machine⟩ ran
      · next ran => exact grown.error ⟨trivial, .refl machine⟩ ran

theorem Machine.grows_fail (error : MachineError) : machine.Grows (machine.fail error) :=
  .of_eq (script_fail ..) (heap_fail ..)

theorem Machine.grows_closeThread (id : ThreadId) : machine.Grows (machine.closeThread id).2 := by
  unfold closeThread
  split <;> exact .of_eq rfl rfl

theorem Request.grows_perform (request : Request) (fits : lodging.size ≤ machine.heap.size) :
    machine.Grows (request.perform machine).2 := by
  cases request with
  | call event arguments => exact Machine.grows_enqueue event arguments fits
  | raise text => exact (Machine.grows_fail (.script text)).trans (.of_eq rfl rfl)
  | terminate text =>
      have marked : machine.Grows { machine with terminated := true } := .of_eq rfl rfl
      exact marked.trans ((Machine.grows_fail (.terminated text)).trans (.of_eq rfl rfl))
  | close thread => exact Machine.grows_closeThread thread
  | allocate datum => exact ⟨rfl, Heap.size_le_build datum machine.heap⟩
  | overwrite target source =>
      simp only [perform, Heap.overwrite]
      cases machine.heap.overwritten target source with
      | error cause => exact .refl machine
      | ok id => exact ⟨rfl, Heap.size_le_takeOver machine.heap id source⟩
  | _ => exact .of_eq rfl rfl

theorem Request.overwrite_lodging (target source : Value) (grounded : machine.Grounded)
    (fits : lodging.size ≤ machine.heap.size) :
    perform (.overwrite (lodging.value target) (lodging.value source)) (lodging.machine machine) =
      Prod.map (fun reply => reply) lodging.machine (perform (.overwrite target source) machine) := by
  simp only [perform, Lodging.heap_machine, Lodging.overwrite_heap fits grounded.sound target source]
  cases machine.heap.overwrite target source <;> rfl

/-- A machine among others does what it is asked and answers as it would alone. -/
theorem Request.perform_lodging (request : Request) (grounded : machine.Grounded)
    (fits : lodging.size ≤ machine.heap.size) :
    ∃ reply, (request.rename lodging.place).perform (lodging.machine machine) =
        (reply, lodging.machine (request.perform machine).2) ∧
      request.Same lodging.place (request.perform machine).1 reply := by
  cases request with
  | run => exact ⟨_, rfl, rfl⟩
  | resume => exact ⟨_, rfl, rfl⟩
  | call event arguments => exact ⟨_, Machine.enqueue_lodging event arguments fits, rfl⟩
  | stop => exact ⟨_, rfl, trivial⟩
  | raise text => exact ⟨_, Prod.ext rfl (machine.raise_lodging lodging text), trivial⟩
  | terminate text => exact ⟨_, Prod.ext rfl (machine.terminate_lodging lodging text), trivial⟩
  | close thread => exact ⟨_, machine.closeThread_lodging lodging thread, rfl⟩
  | inspect => exact ⟨_, rfl, Lodging.alike_machine grounded fits⟩
  | allocate datum =>
      have built := Lodging.build_heap datum machine.heap fits
      refine ⟨lodging.value (Heap.build datum machine.heap).1, ?_, rfl⟩
      simp only [rename, perform, Lodging.heap_machine, built]
      rfl
  | overwrite target source => exact ⟨_, overwrite_lodging target source grounded fits, rfl⟩
  | setData data => exact ⟨_, rfl, trivial⟩
  | note text => exact ⟨_, rfl, trivial⟩

variable {routine other : Routine (Except MachineError Value)}

theorem Routine.grows_play (routine : Routine (Except MachineError Value))
    (fits : lodging.size ≤ machine.heap.size) : machine.Grows (routine.play machine).2 := by
  induction routine generalizing machine with
  | done result => exact .refl machine
  | ask request next hypothesis =>
      have grown := request.grows_perform fits
      exact grown.trans (hypothesis _ (fits.trans grown.size))

/-- A routine plays on a machine among others as the one alike does on the machine alone. -/
theorem Routine.Alike.play_lodging (alike : Routine.Alike lodging.place routine other)
    (faithful : routine.Faithful machine) (grounded : machine.Grounded)
    (fits : lodging.size ≤ machine.heap.size) :
    other.play (lodging.machine machine) =
      Prod.map (Except.map lodging.value) lodging.machine (routine.play machine) := by
  induction alike generalizing machine with
  | done result => rfl
  | ask request nexts hypothesis =>
      obtain ⟨given, later⟩ := faithful
      obtain ⟨reply, performed, same⟩ := request.perform_lodging grounded fits
      simp only [play, performed]
      exact hypothesis _ reply same later (request.grounded_perform grounded given)
        (fits.trans (request.grows_perform fits).size)

namespace Action

variable {natives : Natives}

theorem mirrorsFrom_play (alike : Routine.Alike lodging.place routine other) :
    MirrorsFrom lodging (fun machine => machine.Grounded ∧ routine.Faithful machine)
      (Except.map lodging.value) (modifyGet routine.play) (modifyGet other.play) where
  run := by
    intro machine begun fits
    show EStateM.Result.ok (other.play (lodging.machine machine)).1
      (other.play (lodging.machine machine)).2 = _
    rw [alike.play_lodging begun.2 begun.1 fits]
    rfl
  grows := fun _ large _ given => given.2.trans (routine.grows_play (large.trans given.2.size))

instance (number : ThreadId) (id : FrameId) (pushesResult : Bool)
    (result : Except MachineError Value) : Mirrors lodging (fun result => result)
      (concludeNative number id pushesResult result)
      (concludeNative number id pushesResult (result.map lodging.value)) := by
  have concludes (value : Value) (machine : Machine) :
      Mirrors lodging (fun result => result)
        (do
          if machine.stopped then return some .halted
          if !machine.threads.contains number then return some .finished
          if pushesResult then push id value
          return none : Action (Option Slice))
        (do
          if machine.stopped then return some .halted
          if !machine.threads.contains number then return some .finished
          if pushesResult then push id (lodging.value value)
          return none) := inferInstance
  exact Mirrors.bind (mirrors_ofResult lodging.value result) fun value =>
    mirrors_get_bind fun machine _ => concludes value machine

section Natives

variable (faithful : natives.Faithful) (uniform : natives.Uniform)

include faithful uniform

/-- A native function that is called with the values on top of the stack. -/
theorem mirrorsFrom_invoke {native : NativeFunction} (inside : native ∈ natives)
    (number : ThreadId) (frame : FrameId) (count : Nat) (pushesResult : Bool) :
    let invoke : Action (Option Slice) := do
      let arguments ← popMany frame count
      log (.nativeCall native.name count)
      concludeNative number frame pushesResult (← modifyGet (native.body arguments).play)
    MirrorsFrom lodging Grounded (fun result => result) invoke invoke := by
  have popped := Ensures.weaken (@grounds_popMany ∅ frame count)
    (fun _ grounded => ⟨grounded, by simp⟩) (fun _ _ => id) fun _ _ => id
  refine (Mirrors.from inferInstance Grounded).bind popped fun arguments => ?_
  have logged := Ensures.weaken (@grounds_log (∅ ∪ {value | value ∈ arguments})
    (.nativeCall native.name count)) (fun _ => id) (fun _ _ => id) fun _ _ => id
  refine (Mirrors.from inferInstance _).bind logged fun _ => ?_
  have alike := uniform native inside lodging.place lodging.injective arguments
  refine ((mirrorsFrom_play alike).weaken ?_).ending inferInstance
  intro machine knows
  refine ⟨knows.grounded, faithful native inside arguments machine knows.grounded ?_⟩
  exact fun value given => knows.has value (by simp [given])

theorem mirrorsFrom_callNative (number : ThreadId) (frame : FrameId) (id : NativeId) (count : Nat)
    (pushesResult : Bool) :
    MirrorsFrom lodging Grounded (fun result => result)
      (callNative natives number frame id count pushesResult)
      (callNative natives number frame id count pushesResult) := by
  unfold callNative prepareNative
  cases found : natives[id.index]? with
  | none => exact (mirrors_throw _ _).from _
  | some native =>
      have invokes : MirrorsFrom lodging Grounded _ _ _ := mirrorsFrom_invoke faithful uniform
        (Array.mem_of_getElem? found) number frame count pushesResult
      dsimp only
      split
      · split
        · exact (mirrors_throw _ _).from _
        · simpa only [bind_assoc, pure_bind] using invokes
      · simpa only [bind_assoc, pure_bind] using invokes

end Natives

end Action

end CoopScript
