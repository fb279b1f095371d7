import CoopScript.Proofs.Heap.Acyclic
import CoopScript.Proofs.Machine.Scope

/-!
Values that scripts build. Whatever a program does, no value comes to hold itself, so that copies,
comparisons, operators and texts come to an end on every value of a machine.
-/

namespace CoopScript

open Machine (Grounded Invokes)

variable {machine start seen : Machine} {natives : Natives}
  {routine rest : Routine (Except MachineError Value)}

/-- A faithful routine finds the machine grounded after every answer, and its rest is faithful. -/
theorem Routine.Faithful.comes (faithful : routine.Faithful machine) (grounded : machine.Grounded)
    (comes : routine.Comes machine rest seen) : seen.Grounded ∧ rest.Faithful seen := by
  induction comes with
  | here => exact ⟨grounded, faithful⟩
  | @later request _ _ _ _ _ hypothesis =>
      obtain ⟨given, later⟩ := faithful
      exact hypothesis later (request.grounded_perform grounded given)

namespace Machine

variable {program : Program} {limits : Limits}

/-- A native function is called in a grounded machine that has its arguments. -/
theorem Invokes.faithful (faithful : natives.Faithful) (grounded : machine.Grounded)
    (invokes : Invokes natives machine routine start) :
    start.Grounded ∧ routine.Faithful start := by
  cases invokes with
  | intro _ _ _ fetches _ prepares =>
      have fetched := (Action.grounds_fetch _).secure.ok grounded fetches
      exact (Action.prepareNative_faithful faithful _ _ _).ok fetched prepares

/-- In the heap everything that follows elements comes to an end, in particular from the slots, the
stacks and the results of frames. -/
structure Loopless (machine : Machine) : Prop where
  heap : machine.heap.Acyclic
  held : ∀ value ∈ machine.frames.values, machine.heap.Founded value

theorem Grounded.loopless (grounded : machine.Grounded) : machine.Loopless where
  heap := grounded.sound.acyclic
  held := fun value held => grounded.sound value (FrameArena.within_iff.mp grounded.within value held)

/-- Wherever a session has come to, the machine is free of loops. So it is whenever a native function
sees it, also in what that returns, and before and after each instruction, whether this fails or not,
also in the arguments that it takes. -/
theorem Faithful.values_acyclic (faithful : program.natives.Faithful)
    (session : machine.Faithful program limits) :
    machine.Loopless ∧
      (∀ routine start rest seen, Invokes program.natives machine routine start →
        routine.Comes start rest seen → seen.Loopless ∧
          ∀ value, rest = .done (.ok value) → seen.heap.Founded value) ∧
      ∀ number entry fetched instruction, machine.current = some number →
        machine.threads.find? number = some entry →
        (Action.fetch entry.current).run machine = .ok (some instruction) fetched →
        fetched.Loopless ∧
          (∀ count arguments taken,
            (Action.popMany entry.current count).run fetched = .ok arguments taken →
            taken.Loopless ∧ ∀ value ∈ arguments, taken.heap.Founded value) ∧
          (Action.execute program.natives number entry.current instruction).Ensures (fetched = ·)
            (fun _ after => after.Loopless) fun _ after => after.Loopless := by
  have grounded := session.grounded faithful
  refine ⟨grounded.loopless, ?_, ?_⟩
  · intro routine start rest seen invokes comes
    obtain ⟨begun, honest⟩ := invokes.faithful faithful grounded
    obtain ⟨later, ends⟩ := honest.comes begun comes
    refine ⟨later.loopless, ?_⟩
    rintro value rfl
    exact later.sound value (ends value rfl)
  · intro number entry fetched instruction current found fetches
    have ready := (Action.grounds_fetch entry.current).secure.ok grounded fetches
    refine ⟨ready.loopless, ?_, ?_⟩
    · intro count arguments taken pops
      have knows := (@Action.grounds_popMany ∅ entry.current count).ok ⟨ready, by simp⟩ pops
      refine ⟨knows.grounded.loopless, fun value inside => ?_⟩
      exact knows.grounded.sound value (knows.has value (.inr inside))
    · have secure := Action.execute_secure faithful number entry.current instruction
      exact secure.weaken (fun _ same => same ▸ ready) (fun _ _ grounded => grounded.loopless)
        fun _ _ grounded => grounded.loopless

/-! An element that is replaced by the array that holds it, through a handle for writing. -/

/-- A native function hands on the array, whose element is an empty string at first. -/
def enclosing : Program where
  script := {
    blocks := #[{
      kind := .sub
      level := 0
      slots := 1
      codes := #[
        ⟨1, .constructArray 0⟩, ⟨1, .constructArray 1⟩, ⟨1, .assign ⟨0, 0⟩⟩,
        ⟨2, .pushVariableWritable ⟨0, 0⟩⟩, ⟨2, .pushValue (.real 0.0)⟩, ⟨2, .indexWritable⟩,
        ⟨2, .pushVariable ⟨0, 0⟩⟩, ⟨2, .callAndPushResult (.native ⟨0⟩) 1⟩, ⟨2, .assignWritable⟩] }]
    main := some ⟨0⟩ }
  natives := #[{ name := "same", arity := some 1, body := fun values => .done (.ok values.head?.join) }]

theorem enclosing_faithful : enclosing.natives.Faithful := by
  intro native inside arguments machine _ given
  obtain rfl := Array.mem_singleton.mp inside
  intro value same
  cases same
  cases arguments with
  | nil => exact machine.heap.has_none
  | cons first rest => exact given first List.mem_cons_self

/-- The machine as it begins its first tick. -/
def enclosingBegun : Machine := ((enclosing.machine {}).started ⟨0⟩ enclosing.script.blocks[0]).begin

/-- The machine at the assignment. -/
def enclosingReady : Machine := (Machine.move enclosing.natives)^[9] enclosingBegun

theorem faithful_enclosingReady : enclosingReady.Faithful enclosing {} := by
  have running : ∀ count < 9,
      ((Machine.move enclosing.natives)^[count] enclosingBegun).state = .running := by
    decide +kernel
  have begun : enclosingBegun.Faithful enclosing {} := .step .initial (.start rfl) nofun
  exact begun.iterate 9 running

theorem loopless_enclosing : enclosing.natives.Faithful ∧ enclosingReady.Faithful enclosing {} ∧
    enclosingReady.heap.Acyclic ∧ (enclosingReady.move enclosing.natives).heap.Acyclic := by
  have running : enclosingReady.state = .running := by decide +kernel
  have assigned := faithful_enclosingReady.step (.move running) nofun
  exact ⟨enclosing_faithful, faithful_enclosingReady,
    (Faithful.values_acyclic enclosing_faithful faithful_enclosingReady).1.heap,
    (Faithful.values_acyclic enclosing_faithful assigned).1.heap⟩

end Machine

end CoopScript
